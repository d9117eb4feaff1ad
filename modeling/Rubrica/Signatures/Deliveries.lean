import Rubrica.Billing.Delivery
import Rubrica.Signatures.Accounts

set_option autoImplicit false

/-! # Deliveries keep the protocol

Deliveries of billing events take part in runs of the workflow. They write to accounts, under the same locks
as the workflow does, and leave documents, requests, signers and signatures alone. -/

namespace Rubrica

open Transactions

variable {B Page α : Type}

section Host

variable {host : Host B Page} {cfg : Settings} {services : SigningServices B} {z : Circumstances B}
  {c : Ctx (World B) RowKey} {w : World B} {tenant : UUID}

/-- A delivery that holds the account it changes, whose free signatures are what they were. -/
def Settling (host : Host B Page) (cfg : Settings) (services : SigningServices B) (z : Circumstances B)
    (tenant : UUID) (c : Ctx (World B) RowKey) (w : World B) : Prop :=
  ∃ K A account b, HoldsAccount K tenant account ∧ b.quota = (account.getD .created).quota ∧
    (∀ v, A v → z.steady → v.accounts.get? tenant = account) ∧
    (workflowProtocol host cfg services z).Knows World.estate (fun _ => True) K A (AccountIs z tenant b) c w

theorem overlooks_estate : Overlooks (World.estate : World B → Estate B) :=
  ⟨fun _ _ => rfl, fun _ _ => rfl, fun _ _ _ => rfl⟩

/-- Statements that leave accounts alone. -/
theorem wp_settling {x : Workflow B α} (hx : x.Local (Protocol.Unseen World.estate))
    {Q : α → Ctx (World B) RowKey → World B → Prop} (h : Settling host cfg services z tenant c w)
    (hQ : ∀ a c' w', Settling host cfg services z tenant c' w' → Q a c' w') :
    (workflowProtocol host cfg services z).wp x Q (fun _ _ _ => True) c w := by
  obtain ⟨K, A, account, b, hholds, hquota, hA, h⟩ := h
  exact Protocol.wp_knowing hx h fun a c' w' h' => hQ a c' w' ⟨K, A, account, b, hholds, hquota, hA, h'⟩

/-- Its commit. -/
theorem Settling.commits (h : Settling host cfg services z tenant c w) (point : BillingPoint) :
    (workflowProtocol host cfg services z).CommitsAt (.billing point) (fun _ => True) (fun c _ => c.reset = c)
      c w := by
  obtain ⟨K, A, account, b, hholds, hquota, hA, h⟩ := h
  refine Protocol.commits_knowing h fun v v' hv _ _ hmakes => ⟨trivial, ?_, rfl, fun _ => trivial⟩
  refine ⟨hmakes.archive, hmakes.objects, hmakes.clock, fun hsteady => ?_⟩
  exact accounting_of hholds h.held (hA v hv hsteady) (hmakes.account hsteady) (hmakes.others hsteady)
    (fun _ hx => nomatch hx) (fun _ => hquota) fun _ hx => nomatch hx

/-- A commit that leaves accounts alone as well. -/
theorem commits_beside {K : Rights RowKey} {A : World B → Prop} (point : BillingPoint)
    (h : (workflowProtocol host cfg services z).Knows World.estate (fun _ => True) K A Same c w) :
    (workflowProtocol host cfg services z).CommitsAt (.billing point) (fun _ => True) (fun c _ => c.reset = c)
      c w := by
  refine Protocol.commits_knowing h fun v v' _ _ _ hsame => ⟨trivial, ?_, rfl, fun _ => trivial⟩
  exact ⟨toArchive_of_estate hsame, objects_of_estate hsame, congrArg Estate.clock hsame,
    fun _ => .same (accounts_of_estate hsame)⟩

/-- What the session has added it finds again under the lock of its row. -/
theorem wp_lockedAddedVia {held : AccountObject} {point : BillingPoint}
    {Q : AccountObject → Ctx (World B) RowKey → World B → Prop} {K : Rights RowKey} {A : World B → Prop}
    (hentry : (RowKey.accountOf tenant, LockMode.exclusive) ∈ K)
    (hA : ∀ v, A v → z.steady → v.accounts.get? tenant = none)
    (h : (workflowProtocol host cfg services z).Knows World.estate (fun _ => True) K A
      (AccountIs z tenant .created) c w)
    (hheld : held.value.quota = held.loaded.quota)
    (hQ : ∀ object c' w', object.value.quota = object.loaded.quota →
      Settling host cfg services z tenant c' w' → Q object c' w') :
    (workflowProtocol host cfg services z).wp ((lockedEntity point tenant (some held)).mapPoint .billing) Q
      (fun _ _ _ => True) c w := by
  have hholds : ∀ {K'}, K ⊆ K' → HoldsAccount K' tenant none := fun hK =>
    ⟨fun hne => absurd rfl hne, fun _ => hK hentry⟩
  refine Protocol.wp_seqVia (Protocol.wp_knowingLock h (fun w1 h1 hrow => ?_) fun w1 k h1 hrow => ?_)
  · -- Where others change accounts, the row may be gone; then nothing is known of it.
    have hnone := Option.map_eq_none_iff.1 hrow
    rw [hnone]
    have hun : ¬z.steady := fun hsteady => by
      have : (c.pending w1).accounts.get? tenant = some .created := (h1.pending w1 h1.now).account hsteady
      rw [hnone] at this
      exact absurd this (by simp)
    refine Protocol.wp_seqVia (Protocol.wp_knowing (Code.local_mapPoint _ (local_claim _ _)) h1 fun _ c2 w2 h2 => ?_)
    refine Protocol.wp_seqVia (Protocol.wp_knowing (Code.local_mapPoint _ (local_referTo _ _)) h2
      fun _ c3 w3 h3 => ?_)
    refine Protocol.wp_seqVia (Protocol.wp_knowingWrite (N := AccountIs z tenant .created) h3 (fun v v' _ hb => ?_)
      fun c4 w4 h4 => Protocol.wp_pure (hQ _ c4 w4 rfl ⟨K, A, none, _, hholds fun _ hk => hk, rfl, hA, h4⟩))
    exact ⟨hb.archive, hb.objects, hb.clock, fun hsteady => absurd hsteady hun,
      fun hsteady => absurd hsteady hun⟩
  · obtain ⟨a, ha, rfl⟩ := Option.map_eq_some_iff.1 hrow
    rw [ha]
    have h2 := (h1.take (r := .account tenant) (m := .exclusive) (Protocol.stable_const _ True) trivial).refine
      (h1.stable.anti (List.subset_cons_self _ _)) h1.now fun v hv => ⟨hv, trivial⟩
    refine Protocol.wp_pure (hQ _ _ w1 hheld ⟨_, A, none, _, hholds (List.subset_cons_self _ _), rfl, hA, h2⟩)

/-! ## Applying an event -/

theorem wp_applyEventTo_workflow {e : BillingEvent} {identity : Option BusinessIdentity} {held : AccountObject}
    {Q : Bool → Ctx (World B) RowKey → World B → Prop}
    (hlock : ∀ Q' : AccountObject → Ctx (World B) RowKey → World B → Prop,
      (∀ object c' w', object.value.quota = object.loaded.quota → Settling host cfg services z tenant c' w' →
        Q' object c' w') →
      (workflowProtocol host cfg services z).wp
        ((lockedEntity (.lockingAccount tenant held.loaded) tenant (some held)).mapPoint .billing) Q'
        (fun _ _ _ => True) c w)
    (hQ : ∀ r c' w', Settling host cfg services z tenant c' w' → Q r c' w') :
    (workflowProtocol host cfg services z).wp
      ((applyEventTo host cfg.billing tenant e identity held).mapPoint .billing) Q (fun _ _ _ => True) c w := by
  refine Protocol.wp_seqVia (x := lockedEntity (BillingPoint.lockingAccount tenant held.loaded) tenant (some held))
    (hlock _ fun account c1 w1 hobject h1 => ?_)
  refine Protocol.wp_seqVia (wp_settling (Code.local_mapPoint _ (local_query _)) h1 fun now c2 w2 h2 => ?_)
  refine Protocol.wp_seqVia (wp_settling (Code.local_mapPoint _ (Code.local_onlyIf _ fun _ =>
    local_recordPaymentOf (fun _ _ _ => rfl) (fun _ _ _ => rfl) _ _)) h2 fun _ c3 w3 h3 => ?_)
  refine Protocol.wp_seqVia (wp_settling (Code.local_mapPoint _ (Code.local_onlyIf _ fun _ =>
    local_applyBusinessIdentity host overlooks_estate.record overlooks_estate.saveTenant _ _ _)) h3
    fun _ c4 w4 h4 => ?_)
  refine Protocol.wp_seqVia (wp_settling (Code.local_mapPoint _ (Code.local_onlyIf _ fun _ =>
    local_reconcileSingleMemberPlan host overlooks_estate _ _)) h4 fun _ c5 w5 h5 => ?_)
  obtain ⟨K, A, before, b, hholds, hquota, hA, h5⟩ := h5
  refine Protocol.wp_seqVia (wp_flushHeldVia _ h5 fun c6 w6 h6 => Protocol.wp_pure (hQ _ c6 w6 ?_))
  refine ⟨K, A, before, _, hholds, (flush_quota ?_).trans hquota, hA, h6⟩
  exact (applyEvent_quota cfg.billing now e.type e.resource _ account.value).trans hobject

/-- The effect of an event on its tenant, in a session that has written nothing. -/
theorem wp_applyToTenant_workflow {e : BillingEvent} {identity : Option BusinessIdentity} {K : Rights RowKey}
    {A : World B → Prop} {Q : Bool → Ctx (World B) RowKey → World B → Prop}
    (h : (workflowProtocol host cfg services z).Knows World.estate (fun _ => True) K A Same c w)
    (hQ : ∀ r c' w', Settling host cfg services z tenant c' w' → Q r c' w') :
    (workflowProtocol host cfg services z).wp
      ((applyToTenant host cfg.billing (some tenant) e identity).mapPoint .billing) Q (fun _ _ _ => True) c w := by
  refine Protocol.wp_seqVia (Protocol.wp_knowingSelect h fun w1 h1 => ?_)
  -- What is left once the session has the account as an object.
  have rest : ∀ {c2 w2} (previous : AccountObject),
      (∀ Q' : AccountObject → Ctx (World B) RowKey → World B → Prop,
        (∀ object c' w', object.value.quota = object.loaded.quota → Settling host cfg services z tenant c' w' →
          Q' object c' w') →
        (workflowProtocol host cfg services z).wp
          ((lockedEntity (.lockingAccount tenant previous.loaded) tenant (some previous)).mapPoint .billing) Q'
          (fun _ _ _ => True) c2 w2) →
      (workflowProtocol host cfg services z).wp ((applyEventTo host cfg.billing tenant e identity previous >>=
        fun applied => Code.onlyIf applied (notifyBillingEvent tenant) >>= fun _ => pure applied
          : Tx B BillingPoint _).mapPoint .billing) Q (fun _ _ _ => True) c2 w2 := by
    intro c2 w2 previous hlock
    refine Protocol.wp_seqVia (wp_applyEventTo_workflow hlock fun applied c3 w3 h3 => ?_)
    refine Protocol.wp_seqVia (wp_settling (Code.local_mapPoint _ (Code.local_onlyIf _ fun _ =>
      local_notifyBillingEvent _)) h3 fun _ c4 w4 h4 => ?_)
    exact Protocol.wp_pure (hQ applied c4 w4 h4)
  cases (c.pending w1).accounts.get? tenant with
  | none =>
      refine Protocol.wp_seqVia (wp_createAccountVia _ h1 fun c2 w2 h2 => rest _ fun Q' hQ' => ?_)
      exact wp_lockedAddedVia List.mem_cons_self (fun v hv => hv.2) h2 rfl hQ'
  | some a =>
      refine Protocol.wp_seqVia (Protocol.wp_pure (rest _ fun Q' hQ' => wp_lockedVia _ _ h1
        fun K' account object c3 w3 _ hholds hnone hsome h3 => hQ' object c3 w3 ?_
          ⟨K', _, account, _, hholds, rfl, fun v hv => hv.2, h3⟩))
      cases account with
      | none => rw [hnone rfl]
      | some a' => rw [hsome a' rfl]; rfl

/-! ## The transactions of a delivery -/

theorem unseen_updateEvent (event : String) (f : BillingEventRow → BillingEventRow) :
    Protocol.Unseen World.estate (World.updateEvent event f : World B → World B) :=
  fun _ => rfl

/-- Locking an event's row. -/
theorem wp_lockEvent_workflow {event : String} {K : Rights RowKey} {A : World B → Prop}
    {Q : Option BillingEventRow → Ctx (World B) RowKey → World B → Prop}
    (h : (workflowProtocol host cfg services z).Knows World.estate (fun _ => True) K A Same c w)
    (hQ : ∀ row c' w', (workflowProtocol host cfg services z).Knows World.estate (fun _ => True) K A Same c' w' →
      Q row c' w') :
    (workflowProtocol host cfg services z).wp ((lockEvent event).mapPoint .billing) Q (fun _ _ _ => True) c w :=
  Protocol.wp_knowing (Code.local_mapPoint _ (local_queryForUpdate _ _)) h hQ

/-- A session that knows nothing. -/
theorem knows_nothing (hpending : c.pending = id) :
    (workflowProtocol host cfg services z).Knows World.estate (fun _ => True) c.held (fun _ => True) Same c w :=
  Protocol.Knows.start (Protocol.stable_const _ True) trivial (fun _ _ => trivial) hpending

/-- A transaction without rights of its own ends where it began. -/
theorem wp_wholeTransaction {x : Workflow B α}
    (h : (workflowProtocol host cfg services z).wp x (fun _ c _ => c.reset = c) (fun _ c _ => c.reset = c) idle w) :
    (workflowProtocol host cfg services z).wp x (fun _ c _ => c = idle) (fun _ c _ => c = idle) idle w := by
  have hidle : ∀ c' : Ctx (World B) RowKey, Protocol.Follows idle c' → c'.reset = c' → c' = idle := by
    intro c' hc hreset
    rw [← hreset, hc.reset]
    rfl
  exact Protocol.wp_mono h (fun _ hk => hk) (fun _ c' _ => hidle c') fun _ c' _ => hidle c'

theorem wp_applyUnderLock_workflow (target : Option UUID) (e : BillingEvent) (identity : Option BusinessIdentity) :
    (workflowProtocol host cfg services z).wp
      ((applyUnderLock host cfg.billing target e identity).mapPoint .billing)
      (fun _ c _ => c = idle) (fun _ c _ => c = idle) idle w := by
  refine wp_wholeTransaction (Protocol.wp_transactionVia WorkflowPoint.billing (D := fun _ _ => True)
    (fun _ h => h) (fun _ => Protocol.stable_const _ _) (fun _ _ _ _ => rfl) ?_)
  refine Protocol.wp_seqVia (wp_lockEvent_workflow (knows_nothing rfl) fun found c1 w1 h1 => ?_)
  refine Protocol.wp_seqVia ?_
  cases found with
  | none => trivial
  | some row =>
      refine Protocol.wp_pure ?_
      split
      · exact Protocol.wp_pure (commits_beside _ h1)
      cases target with
      | none =>
          refine Protocol.wp_seqVia (Protocol.wp_pure (Protocol.wp_seqVia (Protocol.wp_knowing
            (Code.local_mapPoint _ (local_query _)) h1 fun now c2 w2 h2 => ?_)))
          refine Protocol.wp_seqVia (Protocol.wp_knowing (Code.local_mapPoint _ (local_save (unseen_updateEvent _ _)))
            h2 fun _ c3 w3 h3 => ?_)
          exact Protocol.wp_pure (commits_beside _ h3)
      | some tenant =>
          refine Protocol.wp_seqVia (wp_applyToTenant_workflow h1 fun applied c2 w2 h2 => ?_)
          refine Protocol.wp_seqVia (wp_settling (Code.local_mapPoint _ (local_query _)) h2 fun now c3 w3 h3 => ?_)
          refine Protocol.wp_seqVia (wp_settling (Code.local_mapPoint _ (local_save (unseen_updateEvent _ _))) h3
            fun _ c4 w4 h4 => ?_)
          exact Protocol.wp_pure (h4.commits _)

theorem wp_markFailed_workflow (event : String) (exc : Failure) :
    (workflowProtocol host cfg services z).wp ((markFailed event exc).mapPoint .billing) (fun _ _ _ => True)
      (fun _ _ _ => True) idle w := by
  refine Protocol.wp_transactionVia WorkflowPoint.billing (D := fun _ _ => True) (fun _ h => h)
    (fun _ => Protocol.stable_const _ _) (fun _ _ _ _ => trivial) ?_
  refine Protocol.wp_seqVia (wp_lockEvent_workflow (knows_nothing rfl) fun found c1 w1 h1 => ?_)
  have hcommits : ∀ {K A c2 w2}, (workflowProtocol host cfg services z).Knows World.estate (fun _ => True) K A Same
      c2 w2 → (workflowProtocol host cfg services z).CommitsAt (.billing (.marked event)) (fun _ => True)
        (fun _ _ => True) c2 w2 := by
    intro K A c2 w2 h2 v hr hinv
    obtain ⟨hd, hgo⟩ := commits_beside (.marked event) h2 v hr hinv
    exact ⟨hd, fun hc => ⟨(hgo hc).1, (hgo hc).2.1, trivial, fun _ => trivial⟩⟩
  cases found with
  | none => exact Protocol.wp_pure (hcommits h1)
  | some row =>
      refine Protocol.wp_seqVia (Protocol.wp_knowing (Code.local_mapPoint _ (local_save (unseen_updateEvent _ _))) h1
        fun _ c2 w2 h2 => ?_)
      exact Protocol.wp_pure (hcommits h2)

theorem wp_insertEvent_workflow (event : String) (row : BillingEventRow) :
    (workflowProtocol host cfg services z).wp ((insertEvent event row).mapPoint .billing) (fun _ c _ => c = idle)
      (fun _ c _ => c = idle) idle w := by
  refine wp_wholeTransaction (Protocol.wp_tryVia (Protocol.wp_transactionVia WorkflowPoint.billing
    (D := fun _ _ => True) (fun _ h => h) (fun _ => Protocol.stable_const _ _) ?_ ?_))
  · intro exc w1 _ _
    show (workflowProtocol host cfg services z).wp
      ((if exc = .integrity then pure false else .raise exc : Tx B BillingPoint Bool).mapPoint _) _ _ _ w1
    split
    · exact Protocol.wp_pure rfl
    · exact rfl
  refine Protocol.wp_seqVia (Protocol.wp_knowing (Code.local_mapPoint _ (local_claimAt _ _ _)) (knows_nothing rfl)
    fun _ c1 w1 h1 => ?_)
  refine Protocol.wp_seqVia (Protocol.wp_knowing (Code.local_mapPoint _ (local_referToTenant _ _)) h1
    fun _ c2 w2 h2 => ?_)
  refine Protocol.wp_seqVia (Protocol.wp_knowing (Code.local_mapPoint _ (local_save fun _ => rfl)) h2
    fun _ c3 w3 h3 => ?_)
  exact Protocol.wp_pure (commits_beside _ h3)

/-- A delivery keeps the protocol of the workflow. -/
theorem wp_deliverEvent_workflow (provider : BillingProvider B) (event : ProviderEvent) (payload : B) :
    (workflowProtocol host cfg services z).wp
      ((deliverEvent host cfg.billing provider event payload).mapPoint .billing)
      (fun _ _ _ => True) (fun _ _ _ => True) idle w :=
  wp_deliverEventVia host cfg.billing WorkflowPoint.billing (D := fun _ => True) (fun _ _ => trivial)
    (fun row _ => Protocol.wp_mono (wp_insertEvent_workflow event.id row) (fun _ h => h)
      (fun _ _ _ _ h => ⟨h, fun _ => trivial⟩) fun _ _ _ _ h => h)
    (fun target _ identity _ => Protocol.wp_mono (wp_applyUnderLock_workflow target _ identity) (fun _ h => h)
      (fun _ _ _ _ h => ⟨h, trivial⟩) fun _ _ _ _ h => h)
    (fun exc _ => wp_markFailed_workflow event.id exc) w

end Host

end Rubrica
