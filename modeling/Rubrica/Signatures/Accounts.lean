import Rubrica.Signatures.Steps

set_option autoImplicit false

/-! # Accounts under lock

A session that counts against an allowance holds the account from then on: its row, or the entry of the row
it adds. Programs whose points are translated have the same rules, so that deliveries can use them. -/

namespace Rubrica

open Transactions

variable {B Page τ : Type}

section Rules

variable {host : Host B Page} {cfg : Settings} {services : SigningServices B} {z : Circumstances B}
  {D : World B → Prop} {K : Rights RowKey} {A : World B → Prop} {M : World B → Estate B → Prop}
  {c : Ctx (World B) RowKey} {w : World B} {tenant : UUID}

/-! ## Accounts -/

/-- The lock of the account, or the entry of the one that is added. -/
structure HoldsAccount (K : Rights RowKey) (tenant : UUID) (account : Option BillingAccount) : Prop where
  row : account ≠ none → (RowKey.account tenant, LockMode.exclusive) ∈ K
  entry : account = none → (RowKey.accountOf tenant, LockMode.exclusive) ∈ K

/-- The writes of the session come to an account of the tenant. -/
structure AccountIs (z : Circumstances B) (tenant : UUID) (a : BillingAccount) (v : World B) (x : Estate B) :
    Prop where
  archive : x.archive = v.toArchive
  objects : x.objects = v.objects
  clock : x.clock = v.clock
  account : z.steady → x.accounts.get? tenant = some a
  others : z.steady → ∀ t, t ≠ tenant → x.accounts.get? t = v.accounts.get? t

section Via

variable [Unmarked τ] (f : τ → WorkflowPoint B)

/-- Adding the account of a tenant that has none, under its entry. -/
theorem wp_createAccountVia {Q : AccountObject → Ctx (World B) RowKey → World B → Prop}
    (h : (workflowProtocol host cfg services z).Knows World.estate D K A Same c w)
    (hQ : ∀ c' w', (workflowProtocol host cfg services z).Knows World.estate D
      ((.accountOf tenant, .exclusive) :: K) (fun v => A v ∧ (z.steady → v.accounts.get? tenant = none))
      (AccountIs z tenant .created) c' w' → Q ⟨.created, .created⟩ c' w') :
    (workflowProtocol host cfg services z).wp ((createAccount tenant : Tx B τ _).mapPoint f) Q
      (fun _ _ w => D w) c w := by
  refine Protocol.wp_seqVia (Protocol.wp_seqVia (Protocol.wp_knowingLock h
    (fun w1 h1 hrow => absurd hrow (by simp)) fun w1 k h1 hrow => ?_))
  obtain rfl := Option.some.inj hrow
  refine Protocol.wp_requireVia (fun hfree => ?_) fun _ => h1.raises w1 h1.now
  have hfree : z.steady → w1.accounts.get? tenant = none := by
    intro _
    rw [← accounts_of_estate (estate_pending h1)]
    simpa using hfree
  have h2 := h1.take (m := .exclusive) (stable_noAccount List.mem_cons_self) hfree
  refine Protocol.wp_seqVia (Protocol.wp_knowing (Code.local_mapPoint f (local_referTo _ _)) h2
    fun _ c3 w3 h3 => ?_)
  refine Protocol.wp_seqVia (Protocol.wp_knowingWrite (N := AccountIs z tenant .created) h3
    (fun v v' hv hsame => ?_) fun c4 w4 h4 => Protocol.wp_pure (hQ c4 w4 h4))
  have haccounts : v'.accounts = v.accounts := congrArg Estate.accounts hsame
  refine ⟨congrArg Estate.archive hsame, congrArg Estate.objects hsame, congrArg Estate.clock hsame,
    fun hsteady => ?_, fun _ t ht => ?_⟩
  · show (v'.accounts.insert tenant .created).get? tenant = _
    rw [haccounts, Table.get?_insert_self (hv.2 hsteady)]
  · show (v'.accounts.insert tenant .created).get? t = _
    rw [haccounts, Table.get?_insert_of_ne _ ht]

/-- `_account_entity`, with its query at a point of its own. -/
abbrev lockedEntity (point : τ) (tenant : UUID) (held : Option AccountObject) : Tx B τ AccountObject := do
  let row ← Code.selectLocking point .exclusive
    (fun w : World B => (w.accounts.get? tenant).map fun _ => .account tenant) fun w => w.accounts.get? tenant
  accountEntity tenant held row

/-- The account under lock, or a new one. -/
theorem wp_lockedVia (point : τ) {held : Option AccountObject}
    {Q : AccountObject → Ctx (World B) RowKey → World B → Prop}
    (h : (workflowProtocol host cfg services z).Knows World.estate D K A Same c w)
    (hQ : ∀ K' account object c' w', K ⊆ K' → HoldsAccount K' tenant account →
      (account = none → object = ⟨.created, .created⟩) →
      (∀ a, account = some a → object = ⟨(held.getD ⟨a, a⟩).loaded, { (held.getD ⟨a, a⟩).value with
        deletedAt := none }⟩) →
      (workflowProtocol host cfg services z).Knows World.estate D K'
        (fun v => A v ∧ (z.steady → v.accounts.get? tenant = account))
        (AccountIs z tenant (account.getD .created)) c' w' → Q object c' w') :
    (workflowProtocol host cfg services z).wp ((lockedEntity point tenant held).mapPoint f) Q
      (fun _ _ w => D w) c w := by
  refine Protocol.wp_seqVia (Protocol.wp_knowingLock h (fun w1 h1 hrow => ?_) fun w1 k h1 hrow => ?_)
  · rw [Option.map_eq_none_iff.1 hrow]
    refine wp_createAccountVia f h1 fun c2 w2 h2 => ?_
    exact hQ _ none _ c2 w2 (List.subset_cons_self _ _)
      ⟨fun hne => absurd rfl hne, fun _ => List.mem_cons_self⟩ (fun _ => rfl) (fun _ ha => nomatch ha) h2
  · obtain ⟨a, ha, rfl⟩ := Option.map_eq_some_iff.1 hrow
    rw [ha]
    have hnow : w1.accounts.get? tenant = some a := by
      rw [← accounts_of_estate (estate_pending h1)]
      exact ha
    have h2 := (h1.take (m := .exclusive) (stable_accountRow List.mem_cons_self) fun _ => hnow).means
      (N := AccountIs z tenant a) fun v x hv hsame => by
        obtain rfl : x = v.estate := hsame
        exact ⟨rfl, rfl, rfl, hv.2, fun _ _ _ => rfl⟩
    refine Protocol.wp_pure (hQ _ (some a) _ _ w1 (List.subset_cons_self _ _)
      ⟨fun _ => List.mem_cons_self, fun hne => absurd hne (by simp)⟩ (fun hne => nomatch hne) ?_ h2)
    intro a' ha'
    obtain rfl := Option.some.inj ha'
    rfl

/-- The flush of the account's object. -/
theorem wp_flushHeldVia {a loaded value : BillingAccount} {Q : Unit → Ctx (World B) RowKey → World B → Prop}
    (h : (workflowProtocol host cfg services z).Knows World.estate D K A (AccountIs z tenant a) c w)
    (hQ : ∀ c' w', (workflowProtocol host cfg services z).Knows World.estate D K A
      (AccountIs z tenant (loaded.flush value a)) c' w' → Q () c' w') :
    (workflowProtocol host cfg services z).wp ((flushAccount tenant ⟨loaded, value⟩ : Tx B τ _).mapPoint f) Q
      (fun _ _ w => D w) c w := by
  refine Protocol.wp_seqVia (Protocol.wp_knowing (Code.local_mapPoint f (local_claimChanged _ _ _ _)) h
    fun _ c1 w1 h1 => ?_)
  refine Protocol.wp_seqVia (Protocol.wp_knowing (Code.local_mapPoint f (local_claimChanged _ _ _ _)) h1
    fun _ c2 w2 h2 => ?_)
  refine Protocol.wp_knowingWrite h2 (fun v v' _ hb => ?_) hQ
  obtain ⟨harchive, hobjects, hclock, haccount, hothers⟩ := hb
  refine ⟨harchive, hobjects, hclock, fun hsteady => ?_, fun hsteady t ht => ?_⟩
  · show (v'.accounts.update tenant _).get? tenant = _
    rw [Table.get?_update_self, show v'.accounts.get? tenant = some a from haccount hsteady, Option.map_some]
  · show (v'.accounts.update tenant _).get? t = _
    rw [Table.get?_update_of_ne _ ht]
    exact hothers hsteady t ht

end Via

/-- The account under lock, or a new one. -/
theorem wp_lockedAccount {held : Option BillingAccount}
    {Q : AccountObject → Ctx (World B) RowKey → World B → Prop}
    (h : (workflowProtocol host cfg services z).Knows World.estate D K A Same c w)
    (hQ : ∀ K' account object c' w', K ⊆ K' → HoldsAccount K' tenant account →
      object.value = { object.loaded with
        deletedAt := none } →
      (held = none → object.loaded = account.getD .created) →
      (workflowProtocol host cfg services z).Knows World.estate D K'
        (fun v => A v ∧ (z.steady → v.accounts.get? tenant = account))
        (AccountIs z tenant (account.getD .created)) c' w' → Q object c' w') :
    (workflowProtocol host cfg services z).wp (lockedAccount tenant held) Q (fun _ _ w => D w) c w := by
  rw [← Code.mapPoint_id (lockedAccount tenant held)]
  refine wp_lockedVia id Unmarked.unmarked h fun K' account object c' w' hK hholds hnone hsome h' => ?_
  refine hQ K' account object c' w' hK hholds ?_ (fun hheld => ?_) h'
  · cases account with
    | none =>
        rw [hnone rfl]
        rfl
    | some a =>
        rw [hsome a rfl]
        cases held <;> rfl
  · cases account with
    | none =>
        rw [hnone rfl]
        rfl
    | some a =>
        rw [hsome a rfl, hheld]
        rfl

theorem wp_flushHeld {a loaded value : BillingAccount} {Q : Unit → Ctx (World B) RowKey → World B → Prop}
    (h : (workflowProtocol host cfg services z).Knows World.estate D K A (AccountIs z tenant a) c w)
    (hQ : ∀ c' w', (workflowProtocol host cfg services z).Knows World.estate D K A
      (AccountIs z tenant (loaded.flush value a)) c' w' → Q () c' w') :
    (workflowProtocol host cfg services z).wp (flushAccount tenant ⟨loaded, value⟩) Q (fun _ _ w => D w) c w := by
  rw [← Code.mapPoint_id (flushAccount tenant ⟨loaded, value⟩)]
  exact wp_flushHeldVia id h hQ

end Rules

/-! ## Quotas -/

/-- Counting an upload changes nothing of the free signatures. -/
theorem consumeDocument_quota {a b : BillingAccount} {now : Int} (h : a.consumeDocument now = some b) :
    b.quota = a.quota := by
  unfold BillingAccount.consumeDocument at h
  split at h
  · obtain rfl := Option.some.inj h
    rfl
  · split at h
    · obtain rfl := Option.some.inj h
      rfl
    · split at h
      · exact absurd h (by simp)
      · obtain rfl := Option.some.inj h
        rfl

/-- An event changes nothing of them. -/
theorem applyEvent_quota (settings : BillingSettings) (now : Int) (type : EventType) (r : Resource)
    (created : Option Int) (a : BillingAccount) : (a.applyEvent settings now type r created).1.quota = a.quota := by
  have hperiod : ∀ (a : BillingAccount) period resetUsage, (a.syncUsagePeriod period resetUsage).quota = a.quota := by
    intro a period resetUsage
    unfold BillingAccount.syncUsagePeriod
    dsimp only
    split
    · rfl
    · rfl
    · split <;> rfl
  unfold BillingAccount.applyEvent
  dsimp only
  split
  · rfl
  · exact hperiod _ _ _
  · unfold BillingAccount.applyPaymentFailed
    split <;> rfl
  · split
    · rfl
    · unfold BillingAccount.applySubscription
      dsimp only
      split
      · exact hperiod _ _ _
      · rfl
  · rfl

/-- A flush of an object that has them as they were loaded leaves those of the row. -/
theorem flush_quota {loaded value a : BillingAccount} (h : value.quota = loaded.quota) :
    (loaded.flush value a).quota = a.quota := by
  have hused : (loaded.flush value a).signaturesUsed = a.signaturesUsed := if_pos (congrArg Quota.used h)
  have hlimit : (loaded.flush value a).freeSignaturesLimit = a.freeSignaturesLimit :=
    if_pos (congrArg Quota.limit h)
  rw [BillingAccount.quota, hused, hlimit]
  rfl

/-- A commit that changes the account of one tenant, under its lock or its entry. -/
theorem accounting_of {K H : Rights RowKey} {account : Option BillingAccount} {tenant : UUID}
    {signing : Option (Signing B)} {b : BillingAccount} {v v' : World B} (hh : HoldsAccount K tenant account)
    (hK : K ⊆ H) (hv : v.accounts.get? tenant = account) (hb : v'.accounts.get? tenant = some b)
    (hothers : ∀ t, t ≠ tenant → v'.accounts.get? t = v.accounts.get? t)
    (htenant : ∀ x ∈ signing, x.tenant = tenant)
    (hquota : (∀ x ∈ signing, ¬x.Metered v) → b.quota = (account.getD .created).quota)
    (hcharge : ∀ x ∈ signing, x.Metered v →
      (account.getD .created).quota.used < (account.getD .created).quota.limit ∧
        b.quota = (account.getD .created).quota.charged) : Accounting H signing v v' := by
  have hchanged : ∀ t, v'.accounts.get? t ≠ v.accounts.get? t → t = tenant := fun t hne => by
    by_contra ht
    exact hne (hothers t ht)
  have hold : v.quota tenant = (account.getD .created).quota := by
    rw [World.quota, World.accountOf, hv]
  have hnew : v'.quota tenant = b.quota := by
    rw [World.quota, World.accountOf, hb, Option.getD_some]
  refine ⟨fun t a ha hne => ?_, fun t hnone hne => ?_, fun t hx => ?_, fun x hx hmetered => ?_⟩
  · obtain rfl := hchanged t (by rw [ha]; exact hne)
    exact hK (hh.row (by rw [← hv, ha]; simp))
  · obtain rfl := hchanged t (by rw [hnone]; exact hne)
    exact hK (hh.entry (hv.symm.trans hnone))
  · by_cases ht : t = tenant
    · subst ht
      rw [hnew, hold, hquota fun x hxs => hx x hxs (htenant x hxs)]
    · rw [World.quota, World.accountOf, hothers t ht]
      rfl
  · rw [htenant x hx, hold, hnew]
    exact hcharge x hx hmetered

end Rubrica
