import Rubrica.Billing.Delivery
import Rubrica.Billing.Synchronization
import Rubrica.Transactions.Newest

set_option autoImplicit false

/-! # Subscription events in any interleaving

What a subscription event decides about an account (status, plan, cancellation) is a newest-wins
register, timed by the creation of the event. One delivery at a time, that is what the account becomes
(`applyEvent_register`).

Two deliveries at a time need not be so: a delivery reads the account before it locks it, keeps the
object, and decides about the age of its event by the object. `accountProtocol` has as its condition
that the register has not moved in between; under it any interleaving leaves what the committed
deliveries leave one after the other (`serial_register`). -/

namespace Rubrica

open Transactions

/-! ## The register of an account -/

/-- Status, plan and cancellation. -/
abbrev Terms : Type := AccountStatus × Option ProductCode × Bool × Option Int

def BillingAccount.register (a : BillingAccount) : Register Int Terms :=
  ⟨a.lastProviderEventCreatedAt, (a.status, a.currentProductCode, a.cancelAtPeriodEnd, a.cancelsAt)⟩

/-- What a subscription event writes, and when. -/
def BillingEvent.terms (cfg : BillingSettings) (e : BillingEvent) : Int × Terms :=
  (e.createdAt,
    (e.resource.subscriptionStatus, some (e.resource.productCode cfg), e.resource.cancelAtPeriodEnd,
      if e.resource.cancelAtPeriodEnd then
        (timestamp e.resource.cancelAt).or e.resource.subscriptionPeriod.2
      else none))

namespace BillingAccount

variable {cfg : BillingSettings} {now : Int}

theorem isStale_iff (a : BillingAccount) (t : Int) :
    a.isStale (some t) = a.register.isNewer t := by
  unfold isStale register Register.isNewer
  cases a.lastProviderEventCreatedAt <;> rfl

variable (now) in
/-- A subscription event writes the register. -/
theorem applyEvent_register {e : BillingEvent} (he : e.type.isSubscription = true) (a : BillingAccount) :
    (a.applyEvent cfg now e.type e.resource (some e.createdAt)).1.register =
      a.register.put (e.terms cfg) := by
  have htouch : (a.touch e.resource).register = a.register := rfl
  cases htype : e.type with
  | customerSubscription change =>
      simp only [applyEvent]
      by_cases hst : (a.touch e.resource).isStale (some e.createdAt) = true
      · rw [if_pos hst, htouch, Register.put_of_newer]
        rw [← htouch, ← isStale_iff]
        exact hst
      · rw [if_neg hst, Register.put_of_not_newer]
        · obtain ⟨h1, h2, h3, h4, -, h6⟩ :=
            applySubscription_fields cfg now (a.touch e.resource) e.resource (some e.createdAt)
          simp only [register, h1, h2, h3, h4, h6]
          rfl
        · rw [isStale_iff, Bool.not_eq_true] at hst
          exact hst
  | _ => simp [htype, EventType.isSubscription] at he

/-- On a row whose register is as it was loaded, a flush writes the object's register. -/
theorem flush_register {loaded value row : BillingAccount} (h : row.register = loaded.register) :
    (loaded.flush value row).register = value.register := by
  simp only [register, Register.mk.injEq, Prod.mk.injEq] at h
  obtain ⟨h1, h2, h3, h4, h5⟩ := h
  simp only [register, flush, written_of_eq _ h1, written_of_eq _ h2, written_of_eq _ h3,
    written_of_eq _ h4, written_of_eq _ h5]

end BillingAccount

variable {B Page : Type}

/-- The register of a tenant's account; one that is not there yet counts as created. -/
def World.accountRegister (tenant : UUID) (w : World B) : Register Int Terms :=
  (BillingAccount.entity (w.accounts.get? tenant)).register

theorem accountRegister_of_some {tenant : UUID} {w : World B} {a : BillingAccount}
    (h : w.accounts.get? tenant = some a) : w.accountRegister tenant = a.register := by
  rw [World.accountRegister, h]
  rfl

theorem accountRegister_congr {tenant : UUID} {w w' : World B}
    (h : w'.accounts.get? tenant = w.accounts.get? tenant) :
    w'.accountRegister tenant = w.accountRegister tenant := by
  rw [World.accountRegister, World.accountRegister, h]

/-- The tenant's account is there, its register is `f` of what it was, and the other accounts are as
    they were. -/
structure Becomes (tenant : UUID) (f : Register Int Terms → Register Int Terms) (w w' : World B) :
    Prop where
  register : w'.accountRegister tenant = f (w.accountRegister tenant)
  there : (w'.accounts.get? tenant).isSome
  others : ∀ t, t ≠ tenant → w'.accounts.get? t = w.accounts.get? t

theorem Becomes.congr {tenant : UUID} {f : Register Int Terms → Register Int Terms} {w v v' : World B}
    (h : Becomes tenant f w v) (hv : v'.accounts = v.accounts) : Becomes tenant f w v' :=
  ⟨(accountRegister_congr (by rw [hv])).trans h.register, by rw [hv]; exact h.there,
    fun t ht => by rw [hv]; exact h.others t ht⟩

/-! ## What deliveries promise -/

/-- The protocol of deliveries of subscription events, about the accounts. -/
def accountProtocol (B : Type) (cfg : BillingSettings) : Protocol (World B) RowKey BillingPoint where
  inv _ := True
  guar point H s s' :=
    match point with
    | .settled e (some tenant) =>
        e.type.isSubscription = true ∧ (RowKey.account tenant, .exclusive) ∈ H ∧
          Becomes tenant (fun r => r.put (e.terms cfg)) s s'
    | _ => s'.accounts = s.accounts
  env s s' := ∀ tenant, s'.accountRegister tenant = s.accountRegister tenant ∧
    ((s.accounts.get? tenant).isSome → (s'.accounts.get? tenant).isSome)
  cond point s :=
    match point with
    | .lockingAccount tenant loaded => s.accountRegister tenant = loaded.register
    | _ => True
  lossy := True

section Protocol

variable {cfg : BillingSettings} {H : Rights RowKey} {s s' : World B} {tenant : UUID}

/-- An account that is there stays there, and its register moves under its lock only. -/
theorem interferes_account (hi : (accountProtocol B cfg).Interferes H s s') (tenant : UUID) :
    ((s.accounts.get? tenant).isSome → (s'.accounts.get? tenant).isSome) ∧
      (s'.accountRegister tenant = s.accountRegister tenant ∨
        ∃ H', H.Compatible H' ∧ (RowKey.account tenant, .exclusive) ∈ H') := by
  have same : s'.accounts = s.accounts →
      ((s.accounts.get? tenant).isSome → (s'.accounts.get? tenant).isSome) ∧
        (s'.accountRegister tenant = s.accountRegister tenant ∨
          ∃ H', H.Compatible H' ∧ (RowKey.account tenant, .exclusive) ∈ H') :=
    fun h => ⟨fun hs => by rw [h]; exact hs, Or.inl (accountRegister_congr (by rw [h]))⟩
  obtain ⟨-, -, he | ⟨point, H', hcomp, -, hg⟩⟩ := hi
  · exact ⟨(he tenant).2, Or.inl (he tenant).1⟩
  · cases point with
    | settled e t =>
        cases t with
        | none => exact same hg
        | some t =>
            obtain ⟨-, hH, hb⟩ := hg
            by_cases ht : tenant = t
            · subst ht
              exact ⟨fun _ => hb.there, Or.inr ⟨H', hcomp, hH⟩⟩
            · have hget := hb.others tenant ht
              exact ⟨fun hs => by rw [hget]; exact hs, Or.inl (accountRegister_congr hget)⟩
    | _ => exact same hg

theorem stable_there (H : Rights RowKey) (tenant : UUID) :
    (accountProtocol B cfg).Stable H fun s => (s.accounts.get? tenant).isSome :=
  fun _ _ hi => (interferes_account hi tenant).1

/-- Who has locked an account keeps its register. -/
theorem stable_register (hH : (RowKey.account tenant, .exclusive) ∈ H) (r : Register Int Terms) :
    (accountProtocol B cfg).Stable H fun s => s.accountRegister tenant = r := by
  intro s s' hi hs
  rcases (interferes_account hi tenant).2 with h | ⟨H', hcomp, hH'⟩
  · rw [h, hs]
  · exact absurd rfl (hcomp.ne_of_exclusive hH hH')

end Protocol

/-! ## Every delivery keeps them -/

section Programs

variable (host : Host B Page) (cfg : BillingSettings)

theorem overlooks_accounts : Overlooks (World.accounts : World B → _) :=
  ⟨fun _ _ => rfl, fun _ _ => rfl, fun _ _ _ => rfl⟩

/-- A session before it locks the account: committing now would leave the account there, as it is.
    `known` is whether the account has a row already, which then stays. -/
structure Prepared (tenant : UUID) (known : Prop) (c : Ctx (World B) RowKey) (s : World B) : Prop where
  base : c.reset = idle
  there : known → (s.accounts.get? tenant).isSome
  pending : ∀ w : World B, (known → (w.accounts.get? tenant).isSome) →
    Becomes tenant (fun r => r) w (c.pending w)

/-- A session that has locked the account, whose register is `r`: committing now would make it `f r`. -/
structure Holding (tenant : UUID) (known : Prop) (r : Register Int Terms)
    (f : Register Int Terms → Register Int Terms) (c : Ctx (World B) RowKey) (s : World B) : Prop where
  base : c.reset = idle
  lock : (RowKey.account tenant, .exclusive) ∈ c.held
  now : s.accountRegister tenant = r ∧ (known → (s.accounts.get? tenant).isSome)
  pending : ∀ w : World B, w.accountRegister tenant = r ∧ (known → (w.accounts.get? tenant).isSome) →
    Becomes tenant f w (c.pending w)

variable {cfg} {tenant : UUID} {known : Prop} {r : Register Int Terms}
  {f : Register Int Terms → Register Int Terms} {c : Ctx (World B) RowKey} {s : World B}

theorem stable_known (H : Rights RowKey) :
    (accountProtocol B cfg).Stable H fun w => known → (w.accounts.get? tenant).isSome :=
  fun w w' hi h hk => stable_there H tenant w w' hi (h hk)

theorem Holding.stable (h : Holding tenant known r f c s) :
    (accountProtocol B cfg).Stable c.held fun w =>
      w.accountRegister tenant = r ∧ (known → (w.accounts.get? tenant).isSome) :=
  (stable_register h.lock r).and (stable_known _)

/-- Statements that leave the accounts alone keep a session where it is. -/
theorem wp_holding {α : Type} {x : Tx B BillingPoint α} (hx : x.Local (Keeps World.accounts))
    {Q : α → Ctx (World B) RowKey → World B → Prop} (h : Holding tenant known r f c s)
    (hQ : ∀ a c' s', Holding tenant known r f c' s' → Q a c' s') :
    (accountProtocol B cfg).wp x Q (fun _ _ _ => True) c s := by
  refine Protocol.wp_local hx h.stable h.now (fun a c' s' hc hs' => hQ a c' s' ⟨?_, ?_, hs', ?_⟩)
    fun _ _ _ _ _ => trivial
  · rw [hc.reset, h.base]
  · exact hc.held h.lock
  · exact fun w hw => (h.pending w hw).congr (hc.project (fun u hu w => hu w) w)

/-- Committing while holding the account is what the protocol promises. -/
theorem Holding.commits {e : BillingEvent} (he : e.type.isSubscription = true)
    (h : Holding tenant known r (fun r => r.put (e.terms cfg)) c s) :
    (accountProtocol B cfg).CommitsAt (.settled e (some tenant)) (fun _ => True)
      (fun c _ => c = idle) c s :=
  Protocol.commitsAt_of h.stable h.now (fun _ _ => trivial) fun w hw _ _ =>
    ⟨trivial, ⟨he, h.lock, h.pending w hw⟩, h.base, fun _ => trivial⟩

/-- Adding an account changes no register. -/
theorem becomes_insert (tenant : UUID) (w : World B) {v : World B} (hv : v.accounts = w.accounts) :
    Becomes tenant (fun r => r) w (World.insertAccount tenant .created v) := by
  have hacc : (World.insertAccount tenant .created v).accounts = w.accounts.insert tenant .created := by
    rw [← hv]
    rfl
  cases hw : w.accounts.get? tenant with
  | none =>
      have hget := Table.get?_insert_self hw BillingAccount.created
      refine ⟨?_, by rw [hacc, hget, Option.isSome_some], fun t ht => ?_⟩
      · rw [World.accountRegister, World.accountRegister, hacc, hget, hw]
        rfl
      · rw [hacc, Table.get?_insert_of_ne _ ht]
  | some a =>
      have hget : (World.insertAccount tenant .created v).accounts = w.accounts := by
        rw [hacc, Table.insert_of_taken hw]
      exact ⟨accountRegister_congr (by rw [hget]), by rw [hget, hw, Option.isSome_some],
        fun t _ => by rw [hget]⟩

/-- Writing an account's object, when its register was loaded as it still is. -/
theorem becomes_flush {w v : World B} {loaded value : BillingAccount}
    (hb : Becomes tenant (fun r => r) w v) (hw : w.accountRegister tenant = loaded.register)
    (hvalue : value.register = f loaded.register) :
    Becomes tenant f w (World.updateAccount tenant (.flush loaded value) v) := by
  obtain ⟨row, hrow⟩ := Option.isSome_iff_exists.1 hb.there
  have hreg : row.register = loaded.register := by
    rw [← accountRegister_of_some hrow, hb.register, hw]
  have hget : (World.updateAccount tenant (.flush loaded value) v).accounts.get? tenant =
      some (loaded.flush value row) := by
    rw [World.updateAccount, Table.get?_update_self, hrow, Option.map_some]
  refine ⟨?_, by rw [hget, Option.isSome_some], fun t ht => ?_⟩
  · rw [accountRegister_of_some hget, BillingAccount.flush_register hreg, hvalue, hw]
  · rw [World.updateAccount, Table.get?_update_of_ne _ ht, hb.others t ht]

/-- The first reading of the account: the object has the register it was loaded with. -/
theorem wp_previousAccount {γ : Type} {rest : AccountObject → Tx B BillingPoint γ}
    {Q : γ → Ctx (World B) RowKey → World B → Prop} (hbase : c.reset = idle)
    (hpending : ∀ w : World B, (c.pending w).accounts = w.accounts)
    (h : ∀ object known c' s', object.value.register = object.loaded.register →
      Prepared tenant known c' s' → (accountProtocol B cfg).wp (rest object) Q (fun _ _ _ => True) c' s') :
    (accountProtocol B cfg).wp
      (query (fun w => w.accounts.get? tenant) >>= fun row => accountEntity tenant none row >>= rest) Q
      (fun _ _ _ => True) c s := by
  refine Protocol.wp_seq (Protocol.wp_select (Protocol.stable_const _ True) trivial
    (fun s1 _ _ _ => ?_) fun _ _ _ => trivial)
  refine Protocol.wp_seq ?_
  cases hrow : (c.pending s1).accounts.get? tenant with
  | some a =>
      rw [hpending] at hrow
      refine Protocol.wp_pure (h _ True c s1 rfl ⟨hbase, fun _ => ?_, fun w hw => ?_⟩)
      · rw [hrow, Option.isSome_some]
      · have hsame : (c.pending w).accounts.get? tenant = w.accounts.get? tenant := by rw [hpending]
        exact ⟨accountRegister_congr hsame, by rw [hsame]; exact hw trivial,
          fun t _ => by rw [hpending]⟩
  | none =>
      refine Protocol.wp_seq (Protocol.wp_local (W := Keeps World.accounts) (local_claim _ _)
        (Protocol.stable_const _ True) trivial (fun _ c2 s2 hc2 _ => ?_) fun _ _ _ _ _ => trivial)
      refine Protocol.wp_seq (Protocol.wp_local (W := Keeps World.accounts) (local_referTo _ _)
        (Protocol.stable_const _ True) trivial (fun _ c3 s3 hc3 _ => ?_) fun _ _ _ _ _ => trivial)
      refine Protocol.wp_seq (Protocol.wp_write (Protocol.stable_const _ True) trivial
        (fun s4 _ _ _ => ?_) fun _ _ _ => trivial)
      have hkeep : ∀ w : World B, (c3.pending w).accounts = w.accounts := fun w => by
        rw [hc3.project (fun u hu w => hu w) w, hc2.project (fun u hu w => hu w) w, hpending]
      refine Protocol.wp_pure (h _ False _ s4 rfl ⟨?_, fun hk => hk.elim, fun w _ => ?_⟩)
      · show c3.reset = idle
        rw [hc3.reset, hc2.reset, hbase]
      · exact becomes_insert tenant w (hkeep w)

/-- Flushing the object of an account whose register is as it was loaded. -/
theorem wp_flushAccount {loaded value : BillingAccount}
    {Q : Unit → Ctx (World B) RowKey → World B → Prop}
    (h : Holding tenant known loaded.register (fun r => r) c s) (hvalue : value.register = f loaded.register)
    (hQ : ∀ c' s', Holding tenant known loaded.register f c' s' → Q () c' s') :
    (accountProtocol B cfg).wp (flushAccount tenant ⟨loaded, value⟩) Q (fun _ _ _ => True) c s := by
  refine Protocol.wp_seq (wp_holding (local_claimChanged _ _ _ _) h fun _ c1 s1 h1 => ?_)
  refine Protocol.wp_seq (wp_holding (local_claimChanged _ _ _ _) h1 fun _ c2 s2 h2 => ?_)
  refine Protocol.wp_write h2.stable h2.now (fun s3 h3 _ _ => ?_) fun _ _ _ => trivial
  exact hQ _ s3 ⟨h2.base, h2.lock, h3, fun w hw => becomes_flush (h2.pending w hw) hw.1 hvalue⟩

/-- Applying a subscription event under the lock of the account, to an object whose register was loaded
    as it still is. -/
theorem wp_applyEventTo {e : BillingEvent} (he : e.type.isSubscription = true)
    (identity : Option BusinessIdentity) {held : AccountObject}
    (hheld : held.value.register = held.loaded.register)
    {Q : Bool → Ctx (World B) RowKey → World B → Prop} (h : Prepared tenant known c s)
    (hQ : ∀ applied c' s', Holding tenant known held.loaded.register (fun r => r.put (e.terms cfg)) c' s' →
      Q applied c' s') :
    (accountProtocol B cfg).wp (applyEventTo host cfg tenant e identity held) Q (fun _ _ _ => True) c s := by
  refine Protocol.wp_seq (Protocol.wp_selectLocking (stable_known _) h.there (fun s1 h1 _ _ hrow => ?_)
    (fun s1 r1 h1 _ hcond hrow => ?_) fun _ _ _ => trivial)
  · have hthere := (h.pending s1 h1).there
    rw [Option.map_eq_none_iff.1 hrow] at hthere
    exact absurd hthere (by simp)
  obtain ⟨row, hget, rfl⟩ := Option.map_eq_some_iff.1 hrow
  rw [hget]
  refine Protocol.wp_seq (Protocol.wp_pure ?_)
  have hnow : Holding tenant known held.loaded.register (fun r => r)
      (c.take (.account tenant) .exclusive) s1 :=
    ⟨h.base, by simp, ⟨hcond, h1⟩, fun w hw => h.pending w hw.2⟩
  refine Protocol.wp_seq (wp_holding (local_query _) hnow fun now c2 s2 h2 => ?_)
  refine Protocol.wp_seq (wp_holding (Code.local_onlyIf _ fun _ =>
    local_recordPaymentOf (fun _ _ _ => rfl) (fun _ _ _ => rfl) _ _) h2 fun _ c3 s3 h3 => ?_)
  refine Protocol.wp_seq (wp_holding (Code.local_onlyIf _ fun _ =>
    local_applyBusinessIdentity host overlooks_accounts.record overlooks_accounts.saveTenant _ _ _) h3
      fun _ c4 s4 h4 => ?_)
  refine Protocol.wp_seq (wp_holding (Code.local_onlyIf _ fun _ =>
    local_reconcileSingleMemberPlan host overlooks_accounts _ _) h4 fun _ c5 s5 h5 => ?_)
  refine Protocol.wp_seq (wp_flushAccount h5 ?_ fun c6 s6 h6 => Protocol.wp_pure (hQ _ c6 s6 h6))
  exact (BillingAccount.applyEvent_register _ he _).trans
    (congrArg (fun r => Register.put r (e.terms cfg)) hheld)

/-- Statements that leave the accounts alone, of a session that has not touched them. -/
theorem wp_elsewhere {α : Type} {x : Tx B BillingPoint α} (hx : x.Local (Keeps World.accounts))
    {Q : α → Ctx (World B) RowKey → World B → Prop}
    (hc : (idle : Ctx (World B) RowKey).Grows (Keeps World.accounts) c)
    (hQ : ∀ a c' s', (idle : Ctx (World B) RowKey).Grows (Keeps World.accounts) c' → Q a c' s') :
    (accountProtocol B cfg).wp x Q (fun _ _ _ => True) c s :=
  Protocol.wp_local hx (Protocol.stable_const _ True) trivial
    (fun a c' s' hc' _ => hQ a c' s' (hc.trans hc')) fun _ _ _ _ _ => trivial

/-- A commit of a session that has not touched the accounts. -/
theorem commits_elsewhere {point : BillingPoint} {R : Ctx (World B) RowKey → World B → Prop}
    (hpoint : ∀ H (w w' : World B), w'.accounts = w.accounts → (accountProtocol B cfg).guar point H w w')
    (hc : (idle : Ctx (World B) RowKey).Grows (Keeps World.accounts) c) (hR : ∀ w, R idle w) :
    (accountProtocol B cfg).CommitsAt point (fun _ => True) R c s :=
  Protocol.commitsAt_of (Protocol.stable_const _ True) trivial (fun _ _ => trivial) fun w _ _ _ =>
    ⟨trivial, hpoint _ w _ (hc.project (fun _ hu w => hu w) w),
      by rw [hc.reset]; exact hR _, fun _ => trivial⟩

theorem keeps_updateEvent (event : String) (u : BillingEventRow → BillingEventRow) :
    Keeps (B := B) World.accounts (World.updateEvent event u) :=
  fun _ => rfl

theorem keeps_insertEvent (event : String) (row : BillingEventRow) :
    Keeps (B := B) World.accounts (World.insertEvent event row) :=
  fun _ => rfl

/-- The transaction that applies an event. -/
theorem wp_applyAccount {e : BillingEvent} (he : e.type.isSubscription = true) (target : Option UUID)
    (identity : Option BusinessIdentity) (s : World B) :
    (accountProtocol B cfg).wp (applyUnderLock host cfg target e identity)
      (fun _ c _ => c = idle) (fun _ c _ => c = idle) idle s := by
  refine Protocol.wp_transaction (D := fun _ _ => True) (fun _ h => h)
    (fun _ => Protocol.stable_const _ _) (fun _ _ _ _ => rfl) ?_
  refine Protocol.wp_seq (wp_elsewhere (local_queryForUpdate _ _) .refl fun found c1 s1 h1 => ?_)
  refine Protocol.wp_seq (Protocol.wp_orRaise (fun row _ => ?_) fun _ => trivial)
  split
  · exact Protocol.wp_pure (commits_elsewhere (fun _ _ _ h => h) h1 fun _ => rfl)
  cases target with
  | none =>
      refine Protocol.wp_seq (Protocol.wp_pure ?_)
      refine Protocol.wp_seq (wp_elsewhere (local_query _) h1 fun now c2 s2 h2 => ?_)
      refine Protocol.wp_seq (wp_elsewhere (local_save (keeps_updateEvent _ _)) h2 fun _ c3 s3 h3 => ?_)
      exact Protocol.wp_pure (commits_elsewhere (fun _ _ _ h => h) h3 fun _ => rfl)
  | some tenant =>
      refine Protocol.wp_seq (wp_previousAccount h1.reset (fun w => h1.project (fun _ hu w => hu w) w)
        fun object known c2 s2 hobj h2 => ?_)
      refine Protocol.wp_seq (wp_applyEventTo host he identity hobj h2 fun applied c3 s3 h3 => ?_)
      refine Protocol.wp_seq (wp_holding (Code.local_onlyIf _ fun _ => local_notifyBillingEvent _) h3
        fun _ c4 s4 h4 => ?_)
      refine Protocol.wp_pure ?_
      refine Protocol.wp_seq (wp_holding (local_query _) h4 fun now c5 s5 h5 => ?_)
      refine Protocol.wp_seq (wp_holding (local_save (keeps_updateEvent _ _)) h5 fun _ c6 s6 h6 => ?_)
      exact Protocol.wp_pure (h6.commits he)

theorem wp_markAccount (event : String) (exc : Failure) (s : World B) :
    (accountProtocol B cfg).wp (markFailed event exc) (fun _ _ _ => True) (fun _ _ _ => True) idle s := by
  refine Protocol.wp_transaction (D := fun _ _ => True) (fun _ h => h)
    (fun _ => Protocol.stable_const _ _) (fun _ _ _ _ => trivial) ?_
  refine Protocol.wp_seq (wp_elsewhere (local_queryForUpdate _ _) .refl fun found c1 s1 h1 => ?_)
  cases found with
  | none => exact Protocol.wp_pure (commits_elsewhere (fun _ _ _ h => h) h1 fun _ => trivial)
  | some row =>
      refine Protocol.wp_seq (wp_elsewhere (local_save (keeps_updateEvent _ _)) h1 fun _ c2 s2 h2 => ?_)
      exact Protocol.wp_pure (commits_elsewhere (fun _ _ _ h => h) h2 fun _ => trivial)

theorem wp_insertAccountEvent (event : String) (row : BillingEventRow) (s : World B) :
    (accountProtocol B cfg).wp (insertEvent event row) (fun _ c _ => c = idle) (fun _ c _ => c = idle)
      idle s := by
  refine Protocol.wp_try (Protocol.wp_transaction (D := fun _ _ => True) (fun _ h => h)
    (fun _ => Protocol.stable_const _ _) (fun exc s' _ _ => ?_) ?_)
  · show (accountProtocol B cfg).wp
      (if exc = .integrity then pure false else .raise exc : Tx B BillingPoint Bool) _ _ idle s'
    split
    · exact Protocol.wp_pure rfl
    · exact rfl
  refine Protocol.wp_seq (wp_elsewhere (local_claimAt _ _ _) .refl fun _ c1 s1 h1 => ?_)
  refine Protocol.wp_seq (wp_elsewhere (local_referToTenant _ _) h1 fun _ c2 s2 h2 => ?_)
  refine Protocol.wp_seq (wp_elsewhere (local_save (keeps_insertEvent _ _)) h2 fun _ c3 s3 h3 => ?_)
  exact Protocol.wp_pure (commits_elsewhere (fun _ _ _ h => h) h3 fun _ => rfl)

/-! ## Runs -/

/-- Any number of deliveries of subscription events, for any tenants. Nobody else changes what such
    events decide, or takes an account away. -/
def subscriptionDeliveries (cfg : BillingSettings) :
    Setting (World B) RowKey BillingPoint Failure (String × WebhookRead) where
  starts base code _ :=
    base = [] ∧ ∃ provider payload signature,
      (∀ event, verifiedEvent provider payload signature = .ok event → event.type.isSubscription = true) ∧
        code = delivery host cfg provider payload signature
  env s s' := ∀ tenant, s'.accountRegister tenant = s.accountRegister tenant ∧
    ((s.accounts.get? tenant).isSome → (s'.accounts.get? tenant).isSome)
  lossy := True

theorem subscriptionDeliveries_governed :
    (accountProtocol B cfg).Governs (fun _ _ _ => True) (fun _ _ _ => True)
      (subscriptionDeliveries host cfg) where
  lasting := Protocol.lasting_true
  lasting_raise := Protocol.lasting_true
  starts := by
    rintro base code s - ⟨rfl, provider, payload, signature, hevent, rfl⟩
    refine Protocol.wp_seq ?_
    unfold receiveWebhook
    cases hverified : verifiedEvent provider payload signature with
    | error exc => trivial
    | ok event =>
        exact wp_deliverEvent host cfg (D := fun _ => True) (fun _ _ => trivial)
          (fun row t => Protocol.wp_mono (wp_insertAccountEvent _ row t) (fun _ h => h)
            (fun _ _ _ _ h => ⟨h, fun _ => trivial⟩) fun _ _ _ _ h => h)
          (fun tenant createdAt identity t => Protocol.wp_mono
            (wp_applyAccount host (hevent event hverified) tenant identity t) (fun _ h => h)
            (fun _ _ _ _ h => ⟨h, trivial⟩) fun _ _ _ _ h => h)
          (wp_markAccount event.id) s
  env _ _ _ h := ⟨h, trivial⟩
  lossy _ := trivial
  fault _ _ _ := trivial

end Programs

/-! ### One after the other -/

/-- Subscription events delivered one after the other write the register in turn. -/
theorem Books.run_register {cfg : BillingSettings} {now : Int} {tenant : UUID} {events : List BillingEvent}
    (h : ∀ e ∈ events, e.type.isSubscription = true) (b : Books) :
    (b.run cfg now tenant events).current.register =
      Register.puts (BillingEvent.terms cfg) b.current.register events := by
  induction events generalizing b with
  | nil => rfl
  | cons e events ih =>
      have he := h e List.mem_cons_self
      have hstep : (b.deliver cfg now tenant e).1.current.register =
          b.current.register.put (e.terms cfg) := by
        refine Eq.trans ?_ (BillingAccount.applyEvent_register now he _)
        cases htype : e.type with
        | customerSubscription change =>
            simp only [Books.deliver, BillingEvent.raises, htype, EventType.isInvoice, Bool.false_and,
              Bool.false_eq_true, if_false]
            rfl
        | _ => simp [htype, EventType.isSubscription] at he
      show ((b.deliver cfg now tenant e).1.run cfg now tenant events).current.register = _
      rw [ih (fun e' he' => h e' (List.mem_cons_of_mem _ he')), hstep]
      rfl

/-- The event whose effect on the tenant's account the step commits. -/
def appliedEvent (tenant : UUID) (x : DeliveryStep B) : Option BillingEvent :=
  match x.1.publishes x.2 with
  | some (.settled e t) => if t = some tenant then some e else none
  | _ => none

/-- The events whose effect on the tenant's account has been committed, in the order of the commits. -/
def appliedEvents (tenant : UUID) (steps : List (DeliveryStep B)) : List BillingEvent :=
  steps.filterMap (appliedEvent tenant)

/-- What the run leaves of the tenant's account is what its events leave when they are delivered one
    after the other, each once; and that is what the newest of them says. -/
structure SerialRegister (cfg : BillingSettings) (tenant : UUID) (Y : DeliverySystem B)
    (steps : List (DeliveryStep B)) (Z : DeliverySystem B) : Prop where
  serial : ∃ events : List BillingEvent, events.Nodup ∧
    (∀ e, e ∈ events ↔ e ∈ appliedEvents tenant steps) ∧
    ∀ now payments, Z.shared.accountRegister tenant =
      ((⟨Y.shared.accounts.get? tenant, payments⟩ : Books).run cfg now tenant events).current.register
  newest : ∀ e ∈ appliedEvents tenant steps,
    (∀ b ∈ appliedEvents tenant steps, b = e ∨ b.createdAt < e.createdAt) →
    (Y.shared.accountRegister tenant).isNewer e.createdAt = false →
    Z.shared.accountRegister tenant = .of (e.terms cfg)

/-- Who locks an account finds the register that the session has loaded. -/
def loadsCurrent (x : DeliveryStep B) : Bool :=
  match x.1.executes x.2 with
  | some (.lockingAccount tenant loaded, _) => x.1.shared.accountRegister tenant = loaded.register
  | _ => true

section Runs

variable {host : Host B Page} {cfg : BillingSettings} {Y Z : DeliverySystem B}
  {steps : List (DeliveryStep B)}

theorem meets_of_loads (h : ∀ x ∈ steps, loadsCurrent x = true) :
    ∀ x ∈ steps, (accountProtocol B cfg).Meets x.1 x.2 := by
  intro x hx point act hex
  have hload := h x hx
  simp only [loadsCurrent, hex] at hload
  cases point with
  | lockingAccount tenant loaded =>
      exact of_decide_eq_true (p := x.1.shared.accountRegister tenant = loaded.register) hload
  | _ => trivial

/-- One step: an account's register takes what the step applies to it. -/
theorem moves_register {X : DeliverySystem B} {l : DeliveryLabel B} {s' : World B}
    (hmove : (accountProtocol B cfg).Moves X l s') (tenant : UUID) :
    s'.accountRegister tenant =
      Register.puts (BillingEvent.terms cfg) (X.shared.accountRegister tenant)
        (appliedEvent tenant (X, l)).toList := by
  unfold Protocol.Moves at hmove
  unfold appliedEvent
  cases hpub : X.publishes l with
  | none =>
      rw [hpub] at hmove
      rcases hmove with rfl | h
      · rfl
      · exact (h tenant).1
  | some point =>
      rw [hpub] at hmove
      obtain ⟨H, hg⟩ := hmove
      have same : s'.accounts = X.shared.accounts →
          s'.accountRegister tenant = X.shared.accountRegister tenant := fun h =>
        accountRegister_congr (by rw [h])
      cases point with
      | settled e t =>
          cases t with
          | none => exact same hg
          | some t =>
              by_cases ht : t = tenant
              · subst ht
                simp only [if_true]
                exact hg.2.2.register
              · have hne : some t ≠ some tenant := fun h => ht (Option.some.inj h)
                simp only [if_neg hne]
                exact accountRegister_congr (hg.2.2.others tenant (Ne.symm ht))
      | _ => exact same hg

/-- Only events of subscriptions are applied. -/
theorem moves_isSubscription {X : DeliverySystem B} {l : DeliveryLabel B} {s' : World B} {tenant : UUID}
    {e : BillingEvent} (hmove : (accountProtocol B cfg).Moves X l s')
    (he : appliedEvent tenant (X, l) = some e) : e.type.isSubscription = true := by
  unfold Protocol.Moves at hmove
  unfold appliedEvent at he
  cases hpub : X.publishes l with
  | none => simp [hpub] at he
  | some point =>
      rw [hpub] at hmove
      obtain ⟨H, hg⟩ := hmove
      cases point with
      | settled e' t =>
          simp only [hpub] at he
          split at he
          · next ht =>
              subst ht
              obtain rfl := Option.some.inj he
              exact hg.1
          · exact absurd he (by simp)
      | _ => simp [hpub] at he

/-- The events applied to an account are those of subscriptions, and write its register in turn. -/
theorem run_register (hrun : Run (subscriptionDeliveries host cfg) Y steps Z) (hidle : Y.sessions = [])
    (hloads : ∀ x ∈ steps, loadsCurrent x = true) (tenant : UUID) :
    (∀ e ∈ appliedEvents tenant steps, e.type.isSubscription = true) ∧
      Z.shared.accountRegister tenant =
        Register.puts (BillingEvent.terms cfg) (Y.shared.accountRegister tenant)
          (appliedEvents tenant steps) := by
  refine (subscriptionDeliveries_governed host).induct (Protocol.good_of_idle _ trivial hidle) hrun
    (meets_of_loads hloads)
    (motive := fun past s => (∀ e ∈ appliedEvents tenant past, e.type.isSubscription = true) ∧
      s.accountRegister tenant = Register.puts (BillingEvent.terms cfg) (Y.shared.accountRegister tenant)
        (appliedEvents tenant past)) ⟨by simp [appliedEvents], rfl⟩ ?_
  rintro past X l s' ⟨hpast, hX⟩ - - - hmove
  have happend : appliedEvents tenant (past ++ [(X, l)]) =
      appliedEvents tenant past ++ (appliedEvent tenant (X, l)).toList := by
    simp only [appliedEvents, List.filterMap_append, List.filterMap_cons, List.filterMap_nil]
    cases appliedEvent tenant (X, l) <;> rfl
  rw [happend]
  refine ⟨fun e he => ?_, ?_⟩
  · rcases List.mem_append.1 he with he | he
    · exact hpast e he
    · exact moves_isSubscription hmove (Option.mem_toList.1 he)
  · rw [moves_register hmove tenant, hX, Register.puts, Register.puts, Register.puts, List.foldl_append]

/-- **Serializable on the account.** In every run of deliveries that find the register of the account as
    they have loaded it when they lock it, the account ends as the events leave it one after the other,
    and so as the newest of them says. -/
theorem serial_register (hrun : Run (subscriptionDeliveries host cfg) Y steps Z) (hidle : Y.sessions = [])
    (hloads : ∀ x ∈ steps, loadsCurrent x = true) (tenant : UUID) :
    SerialRegister cfg tenant Y steps Z := by
  obtain ⟨hsub, hregister⟩ := run_register hrun hidle hloads tenant
  refine ⟨⟨(appliedEvents tenant steps).dedup, List.nodup_dedup _, fun _ => List.mem_dedup,
    fun now payments => ?_⟩, fun e he hall hr => ?_⟩
  · rw [Books.run_register (fun e he => hsub e (List.mem_dedup.1 he)), Register.puts_dedup, hregister]
    rfl
  · rw [hregister]
    exact Register.puts_newest he hall hr

/-- An event of the subscription that was created before its activation. -/
def lapse : ProviderEvent where
  id := "evt_0"
  type := .customerSubscription .updated
  resource := { activation.resource with status := some .pastDue }
  created := some 5

theorem allows_subscription {event : ProviderEvent} (h : event.type.isSubscription = true)
    (Y : DeliverySystem SampleBytes) : (subscriptionDeliveries sampleHost .default).Allows Y (deliver event) := by
  refine ⟨rfl, _, _, _, fun event' he => ?_, rfl⟩
  obtain rfl := Except.ok.inj (show Except.ok event = Except.ok event' from he)
  exact h

/-- The activation, and after it the older event. -/
def activatedThenLapsed : List (DeliveryLabel SampleBytes) :=
  deliver activation :: (Label.runs 0 19 ++ deliver lapse :: Label.runs 1 13)

theorem serial_register_activatedThenLapsed :
    ∃ steps Z, Run (subscriptionDeliveries sampleHost .default) oneTenant steps Z ∧
      (appliedEvents 1 steps).map BillingEvent.id = ["evt_1", "evt_0"] ∧
      SerialRegister .default 1 oneTenant steps Z := by
  obtain ⟨steps, Z, hreplay, hp⟩ := System.exists_replay (Y := oneTenant) activatedThenLapsed
    (p := fun steps _ =>
      steps.all loadsCurrent && (appliedEvents 1 steps).map BillingEvent.id = ["evt_1", "evt_0"]) (by decide)
  obtain ⟨hloads, happlied⟩ := Bool.and_eq_true_iff.1 hp
  have hallow : ∀ l ∈ activatedThenLapsed, ∀ Y,
      (subscriptionDeliveries sampleHost .default).Allows Y l :=
    List.forall_mem_cons.2 ⟨allows_subscription rfl, List.forall_mem_append.2 ⟨Setting.allows_runs,
      List.forall_mem_cons.2 ⟨allows_subscription rfl, Setting.allows_runs⟩⟩⟩
  have hrun := System.replay_run hallow hreplay
  exact ⟨steps, Z, hrun, of_decide_eq_true happlied,
    serial_register hrun rfl (List.all_eq_true.1 hloads) 1⟩

/-- The delivery of the older event reads the account, the activation is applied, and then the older
    event is. -/
def lapsedOverActivated : List (DeliveryLabel SampleBytes) :=
  deliver lapse :: (Label.runs 0 7 ++ deliver activation :: (Label.runs 1 19 ++ Label.runs 0 12))

/-- Without the condition an older event can win. -/
theorem not_serial_register :
    ¬∀ (steps : List (DeliveryStep SampleBytes)) (Z : DeliverySystem SampleBytes),
      Run (subscriptionDeliveries sampleHost .default) oneTenant steps Z →
        ∀ tenant, SerialRegister .default tenant oneTenant steps Z := by
  intro h
  let newest : BillingEvent := ⟨"evt_1", activation.type, activation.resource, 10000000⟩
  obtain ⟨steps, Z, hreplay, hp⟩ := System.exists_replay (Y := oneTenant) lapsedOverActivated
    (p := fun steps Z => newest ∈ appliedEvents 1 steps &&
      ((appliedEvents 1 steps).all fun b => b = newest || b.createdAt < newest.createdAt) &&
      Z.shared.accountRegister 1 ≠ .of (newest.terms .default)) (by decide)
  obtain ⟨hevents, hregister⟩ := Bool.and_eq_true_iff.1 hp
  obtain ⟨hmem, hall⟩ := Bool.and_eq_true_iff.1 hevents
  have hallow : ∀ l ∈ lapsedOverActivated, ∀ Y,
      (subscriptionDeliveries sampleHost .default).Allows Y l :=
    List.forall_mem_cons.2 ⟨allows_subscription rfl, List.forall_mem_append.2 ⟨Setting.allows_runs,
      List.forall_mem_cons.2 ⟨allows_subscription rfl, List.forall_mem_append.2
        ⟨Setting.allows_runs, Setting.allows_runs⟩⟩⟩⟩
  refine of_decide_eq_true hregister ((h steps Z (System.replay_run hallow hreplay) 1).newest newest
    (of_decide_eq_true hmem) (fun b hb => ?_) (by decide))
  simpa using List.all_eq_true.1 hall b hb

end Runs

end Rubrica
