import Rubrica.Billing.Webhook

set_option autoImplicit false

/-! # Deliveries in any interleaving

Any number of deliveries run at once, each may fail, die or lose the acknowledgement of a commit
between any two statements. `deliveryProtocol` is what they promise each other about the table of
events: a row is added by the holder of its entry in the unique index, and changed by the holder of its
lock.

The one promise the code does not keep by itself is that a settled event stays settled: the failure
handler of a delivery takes the lock again and writes `failed` without looking at what another delivery
committed in between. The protocol therefore has as its condition that this does not happen, and the
results are about the runs in which it does not. -/

namespace Rubrica

open Transactions

variable {B Page : Type}

/-! ## Stretches of a delivery -/

section Rules

variable (host : Host B Page) (cfg : BillingSettings)

theorem local_accountEntity {τ : Type} [Unmarked τ] {W : (World B → World B) → Prop} {tenant : UUID}
    (hW : ∀ a, W (World.insertAccount tenant a)) (held : Option AccountObject)
    (row : Option BillingAccount) :
    (accountEntity tenant held row : Tx B τ _).Local W := by
  cases row with
  | none =>
      exact Code.local_bind (local_claim _ _) fun _ => Code.local_bind (local_referTo _ _) fun _ =>
        Code.local_bind (local_save (hW _)) fun _ => Code.local_pure _
  | some a => exact Code.local_pure _

theorem local_recordPaymentOf {W : (World B → World B) → Prop}
    (hi : ∀ i p, W (World.insertPayment i p)) (hu : ∀ i f, W (World.updatePayment i f)) (tenant : UUID)
    (e : BillingEvent) : (recordPaymentOf tenant e : Tx B BillingPoint _).Local W := by
  refine Code.local_bind (Code.local_orRaise _ _) fun _ => Code.local_bind (local_query _) fun found => ?_
  cases found with
  | none =>
      exact Code.local_bind (local_claim _ _) fun _ => Code.local_bind (local_referTo _ _) fun _ =>
        local_save (hi _ _)
  | some p => exact local_save (hu _ _)

theorem local_applyBusinessIdentity_of {W : (World B → World B) → Prop}
    (hrecord : ∀ e, e.entityType = "tenant" → W fun w => w.record e) (htenant : ∀ id t, W (World.saveTenant id t))
    (tenant : UUID) (product : Option ProductCode) (identity : Option BusinessIdentity) :
    (applyBusinessIdentity host tenant product identity).Local W := by
  cases identity with
  | none => exact Code.local_pure _
  | some identity =>
      exact Code.local_ite (Code.local_bind (local_applyBillingBusinessIdentity_of host hrecord htenant _ _ _ _)
        fun _ => Code.local_pure _) (Code.local_pure _)

theorem local_applyBusinessIdentity {W : (World B → World B) → Prop}
    (hrecord : ∀ e, W fun w => w.record e) (htenant : ∀ id t, W (World.saveTenant id t)) (tenant : UUID)
    (product : Option ProductCode) (identity : Option BusinessIdentity) :
    (applyBusinessIdentity host tenant product identity).Local W :=
  local_applyBusinessIdentity_of host (fun e _ => hrecord e) htenant tenant product identity

theorem local_notifyBillingEvent {W : (World B → World B) → Prop} (tenant : UUID) :
    (notifyBillingEvent tenant : Tx B BillingPoint _).Local W :=
  Code.local_bind (local_query _) fun _ => Code.local_bind (local_query _) fun _ => Code.local_pure _

theorem local_flushAccount {τ : Type} [Unmarked τ] {W : (World B → World B) → Prop} {tenant : UUID}
    (hW : ∀ f, W (World.updateAccount tenant f)) (object : AccountObject) :
    (flushAccount tenant object : Tx B τ _).Local W :=
  Code.local_bind (local_claimChanged _ _ _ _) fun _ =>
    Code.local_bind (local_claimChanged _ _ _ _) fun _ => local_save (hW _)

theorem local_referToTenant {W : (World B → World B) → Prop} (event : String) (tenant : Option UUID) :
    (referToTenant event tenant : Tx B BillingPoint _).Local W := by
  cases tenant with
  | none => exact Code.local_pure _
  | some t => exact local_referToAt _ _ _

theorem reads_tenantOfEvent (r : Resource) : (tenantOfEvent host r : Tx B BillingPoint _).Reads := by
  unfold tenantOfEvent
  split
  · exact Code.reads_pure _
  · split
    · exact Code.reads_pure _
    · exact Code.reads_select _ _

theorem reads_eventCreatedAt (created : Option Int) :
    (eventCreatedAt created : Tx B BillingPoint _).Reads := by
  cases created with
  | none => exact Code.reads_select _ _
  | some seconds => exact Code.reads_pure _

theorem reads_identityOfEvent (provider : BillingProvider B) (tenant : Option UUID) (type : EventType)
    (r : Resource) : (identityOfEvent cfg provider tenant type r).Reads := by
  unfold identityOfEvent
  split
  · exact Code.reads_pure _
  · split
    · split
      · exact Code.reads_pure _
      · exact Code.reads_raise _
    · exact Code.reads_pure _

/-- A session between two transactions. -/
abbrev idle : Ctx (World B) RowKey :=
  .start []

section Via

variable {τ : Type} {P : Protocol (World B) RowKey τ} (f : BillingPoint → τ)

/-- A stretch of queries between two transactions. -/
theorem wp_between {α : Type} {x : Tx B τ α} (hx : x.Reads)
    {Q : α → Ctx (World B) RowKey → World B → Prop} (s : World B) (hQ : ∀ a s', Q a idle s') :
    P.wp x Q (fun _ _ _ => True) idle s :=
  Protocol.wp_reads hx (Protocol.stable_const _ True) trivial (fun a s' _ => hQ a s')
    fun _ _ _ _ _ => trivial

/-- A delivery of a verified event, from its three transactions: `D` is what is known of the event where
    the delivery returns. -/
theorem wp_deliverEventVia {provider : BillingProvider B} {event : ProviderEvent} {payload : B}
    {D : World B → Prop}
    (hseen : ∀ s : World B,
      ((s.events.get? event.id).map BillingEventRow.status).any BillingEventStatus.isDone = true → D s)
    (hinsert : ∀ row s, P.wp ((insertEvent event.id row).mapPoint f)
      (fun isNew c s => c = idle ∧ (isNew = false → D s)) (fun _ c _ => c = idle) idle s)
    (happly : ∀ tenant createdAt identity s,
      P.wp ((applyUnderLock host cfg tenant ⟨event.id, event.type, event.resource, createdAt⟩
        identity).mapPoint f) (fun _ c s => c = idle ∧ D s) (fun _ c _ => c = idle) idle s)
    (hmark : ∀ exc s, P.wp ((markFailed event.id exc).mapPoint f) (fun _ _ _ => True)
      (fun _ _ _ => True) idle s)
    (s : World B) :
    P.wp ((deliverEvent host cfg provider event payload).mapPoint f) (fun _ _ s => D s)
      (fun _ _ _ => True) idle s := by
  refine Protocol.wp_seqVia (Protocol.wp_select (Protocol.stable_const _ True) trivial
    (fun s1 _ _ _ => ?_) fun _ _ _ => trivial)
  split
  · next hdone => exact Protocol.wp_pure (hseen s1 hdone)
  refine Protocol.wp_seqVia (wp_between (Code.reads_mapPoint f (reads_tenantOfEvent host _)) s1
    fun tenant s2 => ?_)
  refine Protocol.wp_seqVia (wp_between (Code.reads_mapPoint f (reads_eventCreatedAt _)) s2
    fun createdAt s3 => ?_)
  refine Protocol.wp_seqVia (wp_between (Code.reads_mapPoint f (reads_identityOfEvent cfg _ _ _ _)) s3
    fun identity s4 => ?_)
  have hadd : ∀ existing row, P.wp ((addIfMissing existing event.id row).mapPoint f)
      (fun isNew c s => c = idle ∧ (isNew = false → D s)) (fun _ c _ => c = idle) idle s4 := by
    intro existing row
    cases existing with
    | none => exact hinsert row s4
    | some status => exact Protocol.wp_pure ⟨rfl, fun h => absurd h (by simp)⟩
  refine Protocol.wp_seqVia (Protocol.wp_mono (hadd _ _) (fun _ h => h) (fun isNew c' s5 _ h => ?_)
    fun _ _ _ _ _ => trivial)
  obtain ⟨rfl, hold⟩ := h
  cases isNew with
  | false => exact Protocol.wp_pure (hold rfl)
  | true =>
      refine Protocol.wp_tryVia (Protocol.wp_mono (happly tenant createdAt identity s5) (fun _ h => h)
        (fun _ _ _ _ h => h.2) fun exc c' s6 _ hc => ?_)
      subst hc
      exact Protocol.wp_seqVia (Protocol.wp_mono (hmark exc s6) (fun _ h => h)
        (fun _ _ _ _ _ => trivial) fun _ _ _ _ _ => trivial)

end Via

variable {P : Protocol (World B) RowKey BillingPoint}

/-- Locking an event's row: the row that was found stays as it was read. -/
theorem wp_lockEvent {id : String} {Q : Option BillingEventRow → Ctx (World B) RowKey → World B → Prop}
    {E : Failure → Ctx (World B) RowKey → World B → Prop} (s : World B)
    (hnone : ∀ s', Q none idle s')
    (hsome : ∀ row s', s'.events.get? id = some row → Q (some row) (idle.take (.event id) .exclusive) s')
    (hE : ∀ s', E Faulty.fault idle s') :
    P.wp (lockEvent id) Q E idle s := by
  refine Protocol.wp_selectLocking (Protocol.stable_const _ True) trivial ?_ ?_ fun s' _ _ => hE s'
  · intro s' _ _ _ hrow
    have hnone' : s'.events.get? id = none := Option.map_eq_none_iff.1 hrow
    simpa only [Ctx.start_pending, id_eq, hnone'] using hnone s'
  · intro s' r _ _ _ hrow
    obtain ⟨row, hget, rfl⟩ := Option.map_eq_some_iff.1 hrow
    have hget' : s'.events.get? id = some row := hget
    simpa only [Ctx.start_pending, id_eq, hget'] using hsome row s' hget'

theorem wp_deliverEvent {provider : BillingProvider B} {event : ProviderEvent} {payload : B}
    {D : World B → Prop}
    (hseen : ∀ s : World B,
      ((s.events.get? event.id).map BillingEventRow.status).any BillingEventStatus.isDone = true → D s)
    (hinsert : ∀ row s, P.wp (insertEvent event.id row)
      (fun isNew c s => c = idle ∧ (isNew = false → D s)) (fun _ c _ => c = idle) idle s)
    (happly : ∀ tenant createdAt identity s,
      P.wp (applyUnderLock host cfg tenant ⟨event.id, event.type, event.resource, createdAt⟩ identity)
        (fun _ c s => c = idle ∧ D s) (fun _ c _ => c = idle) idle s)
    (hmark : ∀ exc s, P.wp (markFailed event.id exc) (fun _ _ _ => True) (fun _ _ _ => True) idle s)
    (s : World B) :
    P.wp (deliverEvent host cfg provider event payload) (fun _ _ s => D s) (fun _ _ _ => True) idle s := by
  rw [← Code.mapPoint_id (deliverEvent host cfg provider event payload)]
  refine wp_deliverEventVia host cfg id hseen ?_ ?_ ?_ s <;> simpa only [Code.mapPoint_id]

end Rules

/-! ## What deliveries promise -/

def World.eventStatus (id : String) (w : World B) : Option BillingEventStatus :=
  (w.events.get? id).map BillingEventRow.status

/-- The event is committed as processed or stale. -/
def World.isSettled (id : String) (w : World B) : Bool :=
  (w.eventStatus id).any BillingEventStatus.isDone

/-- The rows of all other events stay. -/
def OthersStay (id : String) (s s' : World B) : Prop :=
  ∀ id', id' ≠ id → s'.events.get? id' = s.events.get? id'

/-- The protocol of deliveries. With `ack` its condition also asks that who finds an event already
    inserted, or cannot insert it, finds it settled. -/
def deliveryProtocol (B : Type) (ack : Prop) : Protocol (World B) RowKey BillingPoint where
  inv _ := True
  guar point H s s' :=
    match point with
    | .received id =>
        (RowKey.eventEntry id, .exclusive) ∈ H ∧ s.events.get? id = none ∧ OthersStay id s s'
    | .settled e _ =>
        (RowKey.event e.id, .exclusive) ∈ H ∧ (s.events.get? e.id).isSome ∧
          s.isSettled e.id = false ∧ s'.isSettled e.id = true ∧ OthersStay e.id s s'
    | .marked id =>
        s'.events = s.events ∨
          (RowKey.event id, .exclusive) ∈ H ∧ (s.events.get? id).isSome ∧ OthersStay id s s'
    | _ => s'.events = s.events
  env s s' := s'.events = s.events
  cond point s :=
    match point with
    | .inserting id => ack → (s.events.get? id).isSome → s.isSettled id = true
    | .referencing id tenant => ack → (s.tenants.get? tenant).isSome ∨ s.isSettled id = true
    | .marked id => s.isSettled id = false
    | _ => True
  lossy := True

section Protocol

variable {ack : Prop} {H : Rights RowKey} {s s' : World B} {id : String}

theorem isSettled_congr (h : s'.events.get? id = s.events.get? id) :
    s'.isSettled id = s.isSettled id := by
  simp only [World.isSettled, World.eventStatus, h]

/-- The row of an event changes only where it is missing, under its entry, or unsettled, under its
    lock. -/
theorem guar_event {point : BillingPoint} (hg : (deliveryProtocol B ack).guar point H s s')
    (hc : (deliveryProtocol B ack).cond point s) (id : String) :
    s'.events.get? id = s.events.get? id ∨
      s.events.get? id = none ∧ (RowKey.eventEntry id, .exclusive) ∈ H ∨
      (s.events.get? id).isSome ∧ s.isSettled id = false ∧ (RowKey.event id, .exclusive) ∈ H := by
  have same : s'.events = s.events → s'.events.get? id = s.events.get? id := fun h => by rw [h]
  have other : ∀ {id'}, OthersStay id' s s' → id ≠ id' → s'.events.get? id = s.events.get? id :=
    fun h hne => h id hne
  cases point with
  | received id' =>
      obtain ⟨hH, hnone, ho⟩ := hg
      rcases eq_or_ne id id' with rfl | hne
      · exact Or.inr (Or.inl ⟨hnone, hH⟩)
      · exact Or.inl (other ho hne)
  | settled e t =>
      obtain ⟨hH, hsome, hun, -, ho⟩ := hg
      rcases eq_or_ne id e.id with rfl | hne
      · exact Or.inr (Or.inr ⟨hsome, hun, hH⟩)
      · exact Or.inl (other ho hne)
  | marked id' =>
      rcases hg with hg | ⟨hH, hsome, ho⟩
      · exact Or.inl (same hg)
      · rcases eq_or_ne id id' with rfl | hne
        · exact Or.inr (Or.inr ⟨hsome, hc, hH⟩)
        · exact Or.inl (other ho hne)
  | plain => exact Or.inl (same hg)
  | inserting _ => exact Or.inl (same hg)
  | referencing _ _ => exact Or.inl (same hg)
  | lockingAccount _ _ => exact Or.inl (same hg)

/-- The same, of a step of somebody else. -/
theorem interferes_event (hi : (deliveryProtocol B ack).Interferes H s s') (id : String) :
    s'.events.get? id = s.events.get? id ∨
      ∃ H', H.Compatible H' ∧
        (s.events.get? id = none ∧ (RowKey.eventEntry id, .exclusive) ∈ H' ∨
          (s.events.get? id).isSome ∧ s.isSettled id = false ∧
            (RowKey.event id, .exclusive) ∈ H') := by
  obtain ⟨-, -, he | ⟨point, H', hcomp, hc, hg⟩⟩ := hi
  · exact Or.inl (by rw [show s'.events = s.events from he])
  · exact (guar_event hg hc id).imp_right fun h => ⟨H', hcomp, h⟩

/-- A settled event stays settled. -/
theorem stable_settled (H : Rights RowKey) (id : String) :
    (deliveryProtocol B ack).Stable H fun s => s.isSettled id = true := by
  intro s s' hi hs
  rcases interferes_event hi id with h | ⟨H', -, ⟨h, -⟩ | ⟨-, h, -⟩⟩
  · rw [isSettled_congr h, hs]
  · simp [World.isSettled, World.eventStatus, h] at hs
  · rw [hs] at h
    exact absurd h (by simp)

variable (ack) in
/-- Who has locked an event's row reads it as it stays. -/
theorem stable_row (hH : (RowKey.event id, .exclusive) ∈ H) (row : BillingEventRow) :
    (deliveryProtocol B ack).Stable H fun s => s.events.get? id = some row := by
  intro s s' hi hs
  rcases interferes_event hi id with h | ⟨H', hcomp, ⟨h, -⟩ | ⟨-, -, h⟩⟩
  · rw [h, hs]
  · rw [hs] at h
    exact absurd h (by simp)
  · exact absurd rfl (hcomp.ne_of_exclusive hH h)

variable (ack) in
/-- Who holds the entry of an event that has no row keeps it from getting one. -/
theorem stable_missing (hH : (RowKey.eventEntry id, .exclusive) ∈ H) :
    (deliveryProtocol B ack).Stable H fun s => s.events.get? id = none := by
  intro s s' hi hs
  rcases interferes_event hi id with h | ⟨H', hcomp, ⟨-, h⟩ | ⟨h, -, -⟩⟩
  · rw [h, hs]
  · exact absurd rfl (hcomp.ne_of_exclusive hH h)
  · rw [hs] at h
    exact absurd h (by simp)

end Protocol

/-! ## Every delivery keeps them -/

section Programs

variable (host : Host B Page) (cfg : BillingSettings)

/-- What applying an event writes, all of it of the kind `W`. -/
structure AppliesWith (W : (World B → World B) → Prop) : Prop where
  record : ∀ e, e.entityType = "tenant" → W fun w => w.record e
  suspend : ∀ ids, W (World.suspend ids)
  saveTenant : ∀ id t, W (World.saveTenant id t)
  insertAccount : ∀ t a, W (World.insertAccount t a)
  updateAccount : ∀ t f, W (World.updateAccount t f)
  insertPayment : ∀ i p, W (World.insertPayment i p)
  updatePayment : ∀ i f, W (World.updatePayment i f)

theorem local_applyToTenant_of {W : (World B → World B) → Prop} (hW : AppliesWith W) (tenant : Option UUID)
    (e : BillingEvent) (identity : Option BusinessIdentity) :
    (applyToTenant host cfg tenant e identity).Local W := by
  cases tenant with
  | none => exact Code.local_pure _
  | some t =>
      refine Code.local_bind (local_query _) fun _ =>
        Code.local_bind (local_accountEntity (hW.insertAccount t) _ _) fun _ =>
        Code.local_bind ?_ fun _ =>
        Code.local_bind (Code.local_onlyIf _ fun _ => local_notifyBillingEvent _) fun _ =>
        Code.local_pure _
      exact Code.local_bind (Code.local_selectLocking _ _ _ _) fun _ =>
        Code.local_bind (local_accountEntity (hW.insertAccount t) _ _) fun _ =>
        Code.local_bind (local_query _) fun _ =>
        Code.local_bind (Code.local_onlyIf _ fun _ =>
          local_recordPaymentOf hW.insertPayment hW.updatePayment _ _) fun _ =>
        Code.local_bind (Code.local_onlyIf _ fun _ =>
          local_applyBusinessIdentity_of host hW.record hW.saveTenant _ _ _) fun _ =>
        Code.local_bind (Code.local_onlyIf _ fun _ => Code.local_bind
          (local_reconcileKeeping_of host hW.record hW.suspend _ _) fun _ => Code.local_pure _) fun _ =>
        Code.local_bind (local_flushAccount (hW.updateAccount t) _) fun _ => Code.local_pure _

/-- Applying an event leaves the table of events alone. -/
theorem local_applyToTenant (tenant : Option UUID) (e : BillingEvent)
    (identity : Option BusinessIdentity) :
    (applyToTenant host cfg tenant e identity).Local (Keeps World.events) :=
  local_applyToTenant_of host cfg ⟨fun _ _ _ => rfl, fun _ _ => rfl, fun _ _ _ => rfl, fun _ _ _ => rfl,
    fun _ _ _ => rfl, fun _ _ _ => rfl, fun _ _ _ => rfl⟩ tenant e identity

variable {ack : Prop}

/-- An event applied under its lock is settled afterwards, and so is one that needed no applying. -/
theorem wp_applyUnderLock (tenant : Option UUID) (e : BillingEvent) (identity : Option BusinessIdentity)
    (s : World B) :
    (deliveryProtocol B ack).wp (applyUnderLock host cfg tenant e identity)
      (fun _ c s => c = idle ∧ s.isSettled e.id = true) (fun _ c _ => c = idle) idle s := by
  refine Protocol.wp_transaction (D := fun _ _ => True) (fun _ h => h)
    (fun _ => Protocol.stable_const _ _) (fun _ _ _ _ => rfl) ?_
  refine Protocol.wp_seq (wp_lockEvent s (fun s' => ?_) (fun row s' hrow => ?_) fun _ => trivial)
  · exact Protocol.wp_seq (Protocol.wp_orRaise (fun x h => absurd h (by simp)) fun _ => trivial)
  have hH : (RowKey.event e.id, LockMode.exclusive) ∈
      ((idle : Ctx (World B) RowKey).take (.event e.id) .exclusive).held := by simp
  have hstable := stable_row (B := B) ack hH row
  refine Protocol.wp_seq (Protocol.wp_orRaise (fun x hx => ?_) fun _ => trivial)
  obtain rfl := Option.some.inj hx
  split
  · next hdone =>
      refine Protocol.wp_pure (Protocol.commitsAt_of hstable hrow (fun _ _ => trivial) ?_)
      intro t ht _ _
      refine ⟨trivial, rfl, ⟨rfl, ?_⟩, fun _ => trivial⟩
      show t.isSettled e.id = true
      simp [World.isSettled, World.eventStatus, ht, hdone]
  · next hdone =>
      refine Protocol.wp_seq (Protocol.wp_local (local_applyToTenant host cfg tenant e identity) hstable
        hrow (fun applied c' s'' hc hrow' => ?_) fun _ _ _ _ _ => trivial)
      have hkeep : ∀ w : World B, (c'.pending w).events = w.events := fun w =>
        hc.project (fun u hu w => hu w) w
      have hH' := hc.held hH
      have hstable' := stable_row (B := B) ack hH' row
      refine Protocol.wp_seq (Protocol.wp_select hstable' hrow' (fun s3 h3 _ _ => ?_) fun _ _ _ => trivial)
      refine Protocol.wp_seq (Protocol.wp_write hstable' h3 (fun s4 h4 _ _ => ?_) fun _ _ _ => trivial)
      refine Protocol.wp_pure (Protocol.commitsAt_of hstable' h4 (fun _ _ => trivial) ?_)
      intro t ht _ _
      have hevents : ((c'.buffer (World.updateEvent e.id (.settle applied (c'.pending s3).clock))).pending
          t).events = t.events.update e.id (.settle applied (c'.pending s3).clock) := by
        simp only [Ctx.buffer_pending, Function.comp_apply, World.updateEvent, hkeep]
      have hsettled : ((c'.buffer (World.updateEvent e.id
          (.settle applied (c'.pending s3).clock))).pending t).isSettled e.id = true := by
        simp only [World.isSettled, World.eventStatus, hevents, Table.get?_update_self, ht,
          Option.map_some, Option.any_some, BillingEventRow.settle]
        cases applied <;> rfl
      refine ⟨trivial, ⟨hH', ?_, ?_, hsettled, ?_⟩, ⟨?_, hsettled⟩, fun _ => trivial⟩
      · rw [ht, Option.isSome_some]
      · simpa [World.isSettled, World.eventStatus, ht] using hdone
      · intro id' hne
        rw [hevents, Table.get?_update_of_ne _ hne]
      · exact hc.reset

/-- The failure handler keeps the protocol. -/
theorem wp_markFailed (id : String) (exc : Failure) (s : World B) :
    (deliveryProtocol B ack).wp (markFailed id exc) (fun _ _ _ => True) (fun _ _ _ => True) idle s := by
  refine Protocol.wp_transaction (D := fun _ _ => True) (fun _ h => h)
    (fun _ => Protocol.stable_const _ _) (fun _ _ _ _ => trivial) ?_
  refine Protocol.wp_seq (wp_lockEvent s (fun s' => ?_) (fun row s' hrow => ?_) fun _ => trivial)
  · exact Protocol.wp_pure (Protocol.commitsAt_of (Protocol.stable_const _ True) trivial
      (fun _ _ => trivial) fun t _ _ _ => ⟨trivial, Or.inl rfl, trivial, fun _ => trivial⟩)
  · have hH : (RowKey.event id, LockMode.exclusive) ∈
        ((idle : Ctx (World B) RowKey).take (.event id) .exclusive).held := by simp
    have hstable := stable_row (B := B) ack hH row
    refine Protocol.wp_seq (Protocol.wp_write hstable hrow (fun s4 h4 _ _ => ?_) fun _ _ _ => trivial)
    refine Protocol.wp_pure (Protocol.commitsAt_of hstable h4 (fun _ _ => trivial) ?_)
    intro t ht _ _
    refine ⟨trivial, Or.inr ⟨hH, by rw [ht, Option.isSome_some], fun id' hne => ?_⟩, trivial,
      fun _ => trivial⟩
    exact Table.get?_update_of_ne _ hne _

/-- The last statements of the transaction that adds a row, once the entry is held and free. -/
theorem wp_insertRow {event : String} {row : BillingEventRow} {c : Ctx (World B) RowKey} {s : World B}
    (hc : (idle.take (.eventEntry event) .exclusive).Grows (Keeps World.events) c)
    (hmissing : s.events.get? event = none) :
    (deliveryProtocol B ack).wp
      (save (World.insertEvent event row) >>= fun _ => pure (true, BillingPoint.received event))
      (fun r c s => (deliveryProtocol B ack).CommitsAt r.2
        (fun s => (Faulty.fault : Failure) = .integrity → ack → s.isSettled event = true)
        (fun c s => c = idle ∧ (r.1 = false → ack → s.isSettled event = true)) c s)
      (fun exc _ s => exc = .integrity → ack → s.isSettled event = true) c s := by
  have nofault : (Faulty.fault : Failure) ≠ .integrity := by decide
  have hH : (RowKey.eventEntry event, LockMode.exclusive) ∈ c.held := hc.held (by simp)
  have hstable := stable_missing (B := B) ack hH
  refine Protocol.wp_seq (Protocol.wp_write hstable hmissing (fun t ht _ _ => ?_)
    fun _ _ _ he => absurd he nofault)
  refine Protocol.wp_pure (Protocol.commitsAt_of hstable ht (fun _ _ he => absurd he nofault) ?_)
  intro t' ht' _ _
  have hevents : ((c.buffer (World.insertEvent event row)).pending t').events =
      t'.events.insert event row := by
    simp only [Ctx.buffer_pending, Function.comp_apply, World.insertEvent]
    rw [hc.project (fun u hu w => hu w) t']
    rfl
  refine ⟨trivial, ⟨hH, ht', fun id' hne => ?_⟩, ⟨hc.reset, fun h => absurd h (by simp)⟩,
    fun _ he => absurd he nofault⟩
  rw [hevents, Table.get?_insert_of_ne _ hne]

/-- Adding the row of an event: under the condition, who cannot add it finds the event settled. -/
theorem wp_insertEvent (event : String) (row : BillingEventRow) (s : World B) :
    (deliveryProtocol B ack).wp (insertEvent event row)
      (fun isNew c s => c = idle ∧ (isNew = false → ack → s.isSettled event = true))
      (fun _ c _ => c = idle) idle s := by
  have nofault : (Faulty.fault : Failure) ≠ .integrity := by decide
  refine Protocol.wp_try (Protocol.wp_transaction
    (D := fun exc s => exc = .integrity → ack → s.isSettled event = true) (fun _ h => h)
    (fun exc t t' hi ht he ha => stable_settled _ event t t' hi (ht he ha)) ?_ ?_)
  · intro exc t ht _
    show (deliveryProtocol B ack).wp
      (if exc = .integrity then pure false else .raise exc : Tx B BillingPoint Bool) _ _ _ t
    split
    · next he => exact Protocol.wp_pure ⟨rfl, fun _ => ht he⟩
    · exact rfl
  refine Protocol.wp_seq (Protocol.wp_seq (Protocol.wp_selectLocking (Protocol.stable_const _ True)
    trivial (fun _ _ _ _ h => absurd h (by simp)) (fun t r _ _ hc hr => ?_)
    fun _ _ _ he => absurd he nofault))
  obtain rfl := Option.some.inj hr
  refine Protocol.wp_require (fun hfree => ?_) fun htaken _ ha => hc ha (Bool.not_eq_false _ ▸ htaken)
  have hmissing : t.events.get? event = none := by simpa using hfree
  have hH : (RowKey.eventEntry event, LockMode.exclusive) ∈
      ((idle : Ctx (World B) RowKey).take (.eventEntry event) .exclusive).held := by simp
  have hstable := stable_missing (B := B) ack hH
  cases hten : row.tenantId with
  | none => exact Protocol.wp_seq (Protocol.wp_pure (wp_insertRow .refl hmissing))
  | some tenant =>
      refine Protocol.wp_seq (Protocol.wp_seq (Protocol.wp_selectLocking hstable hmissing
        (fun t' ht' _ hc' hr' => ?_) (fun t' r' ht' _ hc' hr' => ?_) fun _ _ _ he => absurd he nofault))
      · refine Protocol.wp_require (fun hthere => ?_) fun hgone _ ha => (hc' ha).resolve_left hgone
        rw [if_pos hthere] at hr'
        exact absurd hr' (by simp)
      · refine Protocol.wp_require (fun _ => wp_insertRow (.take .refl _ _) ht') fun hgone => ?_
        rw [if_neg hgone] at hr'
        exact absurd hr' (by simp)

/-! ## Runs -/

/-- The identifier of the event a webhook delivers, `""` where it is not verified. -/
def deliveredEvent (provider : BillingProvider B) (payload : B) (signature : String) : String :=
  match verifiedEvent provider payload signature with
  | .ok event => event.id
  | .error _ => ""

/-- `receive_webhook`, its answer under the event it is about. -/
def delivery (provider : BillingProvider B) (payload : B) (signature : String) :
    Tx B BillingPoint (String × WebhookRead) :=
  receiveWebhook host cfg provider payload signature >>= fun r =>
    pure (deliveredEvent provider payload signature, r)

/-- Any number of deliveries, of any payloads. Nobody else writes the table of events. -/
def deliveries : Setting (World B) RowKey BillingPoint Failure (String × WebhookRead) where
  starts base code _ :=
    base = [] ∧ ∃ provider payload signature, code = delivery host cfg provider payload signature
  env s s' := s'.events = s.events
  lossy := True

theorem wp_delivery (provider : BillingProvider B) (payload : B) (signature : String) (s : World B) :
    (deliveryProtocol B ack).wp (delivery host cfg provider payload signature)
      (fun r _ s => ack → s.isSettled r.1 = true) (fun _ _ _ => True) idle s := by
  refine Protocol.wp_seq ?_
  unfold receiveWebhook deliveredEvent
  cases verifiedEvent provider payload signature with
  | error exc => trivial
  | ok event =>
      exact wp_deliverEvent host cfg (fun _ ht _ => ht)
        (wp_insertEvent event.id) (fun tenant createdAt identity t => Protocol.wp_mono
          (wp_applyUnderLock host cfg tenant _ identity t) (fun _ h => h)
          (fun _ _ _ _ h => ⟨h.1, fun _ => h.2⟩) fun _ _ _ _ h => h) (wp_markFailed event.id) s

variable (ack) in
/-- Deliveries keep the protocol, and one that has returned has its event settled. -/
theorem deliveries_governed :
    (deliveryProtocol B ack).Governs (fun r _ s => ack → s.isSettled r.1 = true) (fun _ _ _ => True)
      (deliveries host cfg) where
  lasting _ _ s s' hr h ha := (stable_settled _ _).rely hr (h ha)
  lasting_raise := Protocol.lasting_true
  starts := by
    rintro base code s - ⟨rfl, provider, payload, signature, rfl⟩
    exact wp_delivery host cfg provider payload signature s
  env _ _ _ h := ⟨h, trivial⟩
  lossy _ := trivial
  fault _ _ _ := trivial

end Programs

/-! ### Settled events -/

/-- Sessions that deliver webhooks. -/
abbrev DeliverySystem (B : Type) : Type :=
  System (World B) RowKey BillingPoint Failure (String × WebhookRead)

abbrev DeliveryLabel (B : Type) : Type :=
  Label (World B) RowKey BillingPoint Failure (String × WebhookRead)

/-- A step of a run of deliveries, with the system it is taken in. -/
abbrev DeliveryStep (B : Type) : Type :=
  DeliverySystem B × DeliveryLabel B

/-- The step commits the effect of the event. -/
def settles (event : String) (x : DeliveryStep B) : Bool :=
  match x.1.publishes x.2 with
  | some (.settled e _) => e.id = event
  | _ => false

section Runs

variable {host : Host B Page} {cfg : BillingSettings} {ack : Prop}
  {Y Z : DeliverySystem B}
  {steps : List (DeliveryStep B)}

/-- One step: a settled event keeps its row, and an event is settled by a commit only where it was
    not. -/
theorem moves_event {X : DeliverySystem B}
    {l : DeliveryLabel B} {s' : World B}
    (hmeets : (deliveryProtocol B ack).Meets X l) (hmove : (deliveryProtocol B ack).Moves X l s')
    (event : String) :
    (X.shared.isSettled event = true → s'.events.get? event = X.shared.events.get? event) ∧
      (settles event (X, l) = true → X.shared.isSettled event = false ∧ s'.isSettled event = true) := by
  unfold Protocol.Moves at hmove
  unfold settles
  cases hpub : X.publishes l with
  | none =>
      rw [hpub] at hmove
      have hev : s'.events = X.shared.events := by
        rcases hmove with rfl | h
        · rfl
        · exact h
      exact ⟨fun _ => by rw [hev], fun h => absurd h (by simp)⟩
  | some point =>
      rw [hpub] at hmove
      obtain ⟨H, hg⟩ := hmove
      have hcond := hmeets.publishes hpub
      refine ⟨fun hs => ?_, fun h => ?_⟩
      · rcases guar_event hg hcond event with h | ⟨h, -⟩ | ⟨-, h, -⟩
        · exact h
        · simp [World.isSettled, World.eventStatus, h] at hs
        · rw [hs] at h
          exact absurd h (by simp)
      · cases point with
        | settled e t =>
            obtain rfl := of_decide_eq_true h
            exact ⟨hg.2.2.1, hg.2.2.2.1⟩
        | _ => exact absurd h (by simp)

/-- A failure mark finds its event unsettled. -/
def marksUnsettled (x : DeliveryStep B) : Bool :=
  match x.1.executes x.2 with
  | some (.marked event, _) => !x.1.shared.isSettled event
  | _ => true

theorem meets_of_marks (h : ∀ x ∈ steps, marksUnsettled x = true) :
    ∀ x ∈ steps, (deliveryProtocol B False).Meets x.1 x.2 := by
  intro x hx point act hex
  have hm := h x hx
  simp only [marksUnsettled, hex] at hm
  cases point with
  | marked event => exact by rw [Bool.not_eq_true'] at hm; exact hm
  | inserting _ => exact fun h => h.elim
  | referencing _ _ => exact fun h => h.elim
  | _ => trivial

/-- What a run has done about an event: it was settled once at most, not as long as it is unsettled,
    and from the state in which it is settled its row has not changed. -/
structure SettledOnce (event : String)
    (past : List (DeliveryStep B)) (s : World B) : Prop where
  once : (past.filter (settles event)).length ≤ 1
  unsettled : s.isSettled event = false → past.filter (settles event) = []
  frozen : (past.map (fun x => x.1.shared) ++ [s]).Pairwise fun t t' =>
    t.isSettled event = true → t'.events.get? event = t.events.get? event

theorem SettledOnce.step {past} {X : DeliverySystem B}
    {l : DeliveryLabel B} {s' : World B} {event : String}
    (h : SettledOnce event past X.shared)
    (hkeep : X.shared.isSettled event = true → s'.events.get? event = X.shared.events.get? event)
    (hnew : settles event (X, l) = true → X.shared.isSettled event = false ∧ s'.isSettled event = true) :
    SettledOnce event (past ++ [(X, l)]) s' := by
  refine ⟨?_, fun hs => ?_, ?_⟩
  · rw [List.filter_append, List.length_append]
    by_cases hset : settles event (X, l) = true
    · rw [h.unsettled (hnew hset).1]
      simp [hset]
    · have := h.once
      simp [hset, this]
  · have hX : X.shared.isSettled event = false := by
      by_contra hX
      rw [isSettled_congr (hkeep (by simpa using hX))] at hs
      exact hX hs
    have hset : settles event (X, l) = false := by
      by_contra hset
      rw [(hnew (by simpa using hset)).2] at hs
      exact absurd hs (by simp)
    rw [List.filter_append, h.unsettled hX]
    simp [hset]
  · have hpast := h.frozen
    rw [List.map_append, List.map_singleton]
    refine List.pairwise_append.2 ⟨hpast, List.pairwise_singleton _ _, fun t ht t' ht' hs => ?_⟩
    obtain rfl := List.mem_singleton.1 ht'
    rcases List.mem_append.1 ht with ht | ht
    · have hX := (List.pairwise_append.1 hpast).2.2 t ht _ (List.mem_singleton.2 rfl) hs
      rw [hkeep (by rw [isSettled_congr hX, hs]), hX]
    · obtain rfl := List.mem_singleton.1 ht
      exact hkeep hs

/-! ### A tenant and an event -/

/-- An event that activates the subscription of tenant 1. -/
def activation : ProviderEvent where
  id := "evt_1"
  type := .customerSubscription .updated
  resource := { Resource.empty with
    id := some "sub_1", metadataTenantId := some "1", status := some .active }
  created := some 10

def sampleTenant : Tenant where
  name := "acme"
  slug := "acme"
  countryCode := none
  kind := .personal
  legalName := none
  registrationCountry := none
  registrationType := none
  registrationValueEncrypted := none
  registrationLookupHmac := none
  registrationMasked := none
  registrationVerificationStatus := none
  registrationSource := none
  registrationProviderReference := none
  deletedAt := none

/-- Tenant 1 with a new account, and nobody at work. -/
def oneTenant : DeliverySystem SampleBytes where
  shared := { World.empty SampleBytes with
    tenants := (∅ : Table UUID Tenant).insert 1 sampleTenant,
    accounts := (∅ : Table UUID BillingAccount).insert 1 .created }
  sessions := []

/-- A provider that verifies every payload as the event. -/
def sampleProvider (event : ProviderEvent) : BillingProvider SampleBytes where
  constructWebhookEvent _ signature :=
    if signature = "valid" then .ok event else .error .invalidSignature
  retrieveCustomerBusinessIdentity _ := .ok ⟨none, []⟩

def deliver (event : ProviderEvent) : DeliveryLabel SampleBytes :=
  .start [] (delivery sampleHost .default (sampleProvider event) (.text "payload") "valid")

/-- Labels that deliver, execute and fail are allowed everywhere. -/
theorem allows_deliver (event : ProviderEvent) (Y : DeliverySystem SampleBytes) :
    (deliveries sampleHost .default).Allows Y (deliver event) :=
  ⟨rfl, _, _, _, rfl⟩

/-- **Applied once.** In every run of deliveries whose failure marks all find their event unsettled,
    the effect of an event is committed at most once, and once the event is settled its status never
    changes. -/
theorem settled_once (hrun : Run (deliveries host cfg) Y steps Z) (hidle : Y.sessions = [])
    (hmarks : ∀ x ∈ steps, marksUnsettled x = true) (event : String) :
    (steps.filter (settles event)).length ≤ 1 ∧
      (steps.map (fun x => x.1.shared) ++ [Z.shared]).Pairwise fun t t' =>
        t.isSettled event = true → t'.eventStatus event = t.eventStatus event := by
  have h := (deliveries_governed host cfg False).induct
    (Protocol.good_of_idle _ trivial hidle) hrun (meets_of_marks hmarks)
    (motive := fun past s => SettledOnce event past s)
    ⟨by simp, fun _ => rfl, List.pairwise_singleton _ _⟩
    (fun past X l s' hX _ _ hmeets hmove =>
      let ⟨hkeep, hnew⟩ := moves_event hmeets hmove event
      hX.step hkeep hnew)
  refine ⟨h.once, h.frozen.imp fun hrow hs => ?_⟩
  simp only [World.eventStatus, hrow hs]

/-- A delivery that fails while it applies, and the provider's second attempt. -/
def failedThenApplied : List (DeliveryLabel SampleBytes) :=
  deliver activation :: (Label.runs 0 5 ++ .fail 0 :: (Label.runs 0 4 ++
    deliver activation :: Label.runs 1 15))

theorem settled_once_failedThenApplied :
    ∃ steps Z, Run (deliveries sampleHost .default) oneTenant steps Z ∧
      Z.returned 1 = some ("evt_1", ⟨false⟩) ∧ (steps.filter (settles "evt_1")).length ≤ 1 := by
  obtain ⟨steps, Z, hreplay, hp⟩ := System.exists_replay (Y := oneTenant) failedThenApplied
    (p := fun steps Z => steps.all marksUnsettled && Z.returned 1 = some ("evt_1", ⟨false⟩)) (by decide)
  obtain ⟨hmarks, hreturned⟩ := Bool.and_eq_true_iff.1 hp
  have hallow : ∀ l ∈ failedThenApplied, ∀ Y, (deliveries sampleHost .default).Allows Y l :=
    List.forall_mem_cons.2 ⟨allows_deliver _, List.forall_mem_append.2 ⟨Setting.allows_runs,
      List.forall_mem_cons.2 ⟨fun _ => trivial, List.forall_mem_append.2 ⟨Setting.allows_runs,
        List.forall_mem_cons.2 ⟨allows_deliver _, Setting.allows_runs⟩⟩⟩⟩⟩
  have hrun := System.replay_run hallow hreplay
  exact ⟨steps, Z, hrun, of_decide_eq_true hreturned,
    (settled_once hrun rfl (List.all_eq_true.1 hmarks) "evt_1").1⟩

/-- Three deliveries of one event: the first fails while it applies, the second applies the event before
    the first marks it as failed, and the third therefore applies it again. -/
def markedOverApplied : List (DeliveryLabel SampleBytes) :=
  deliver activation :: (Label.runs 0 5 ++ .fail 0 :: deliver activation :: (Label.runs 1 15 ++
    (Label.runs 0 4 ++ deliver activation :: Label.runs 2 14)))

/-- Without the condition an event can be applied twice. -/
theorem not_settled_once :
    ¬∀ (steps : List (DeliveryStep SampleBytes)) (Z : DeliverySystem SampleBytes),
      Run (deliveries sampleHost .default) oneTenant steps Z →
        (steps.filter (settles "evt_1")).length ≤ 1 ∧
          (steps.map (fun x => x.1.shared) ++ [Z.shared]).Pairwise fun t t' =>
            t.isSettled "evt_1" = true → t'.eventStatus "evt_1" = t.eventStatus "evt_1" := by
  intro h
  obtain ⟨steps, Z, hreplay, hp⟩ := System.exists_replay (Y := oneTenant) markedOverApplied
    (p := fun steps _ => (steps.filter (settles "evt_1")).length = 2) (by decide)
  have hallow : ∀ l ∈ markedOverApplied, ∀ Y, (deliveries sampleHost .default).Allows Y l :=
    List.forall_mem_cons.2 ⟨allows_deliver _, List.forall_mem_append.2 ⟨Setting.allows_runs,
      List.forall_mem_cons.2 ⟨fun _ => trivial, List.forall_mem_cons.2 ⟨allows_deliver _,
        List.forall_mem_append.2 ⟨Setting.allows_runs, List.forall_mem_append.2 ⟨Setting.allows_runs,
          List.forall_mem_cons.2 ⟨allows_deliver _, Setting.allows_runs⟩⟩⟩⟩⟩⟩⟩
  have hlen := (h steps Z (System.replay_run hallow hreplay)).1
  rw [of_decide_eq_true hp] at hlen
  exact absurd hlen (by decide)

/-! ### Acknowledgements -/

/-- Who cannot add the row of an event, because it is there or because its tenant is not, finds the
    event settled. -/
def conflictsSettled (x : DeliveryStep B) : Bool :=
  match x.1.executes x.2 with
  | some (.inserting event, _) =>
      (x.1.shared.events.get? event).isNone || x.1.shared.isSettled event
  | some (.referencing event tenant, _) =>
      (x.1.shared.tenants.get? tenant).isSome || x.1.shared.isSettled event
  | _ => true

theorem meets_of_conflicts (h : ∀ x ∈ steps, conflictsSettled x = true)
    (hm : ∀ x ∈ steps, marksUnsettled x = true) :
    ∀ x ∈ steps, (deliveryProtocol B True).Meets x.1 x.2 := by
  intro x hx point act hex
  have hc := h x hx
  simp only [conflictsSettled, hex] at hc
  cases point with
  | marked event => exact meets_of_marks hm x hx _ act hex
  | inserting event =>
      intro _ hthere
      rcases Bool.or_eq_true_iff.1 hc with hnone | hsettled
      · rw [Option.isNone_eq_false_iff.2 hthere] at hnone
        exact absurd hnone (by simp)
      · exact hsettled
  | referencing event tenant => exact fun _ => Bool.or_eq_true_iff.1 hc
  | _ => trivial

/-- **Acknowledged means settled.** In every run of deliveries in which failure marks find their event
    unsettled and insert conflicts find theirs settled, the event of a delivery that has returned is
    committed as processed or stale. -/
theorem acknowledged_settled (hrun : Run (deliveries host cfg) Y steps Z) (hidle : Y.sessions = [])
    (hmarks : ∀ x ∈ steps, marksUnsettled x = true)
    (hconflicts : ∀ x ∈ steps, conflictsSettled x = true) {i : Nat} {event : String} {r : WebhookRead}
    (hreturned : Z.returned i = some (event, r)) : Z.shared.isSettled event = true := by
  obtain ⟨c, h⟩ := (deliveries_governed host cfg True).returned
    (Protocol.good_of_idle _ trivial hidle) hrun (meets_of_conflicts hconflicts hmarks) hreturned
  exact h trivial

/-- A delivery that applies the event, and one more. -/
def appliedThenDuplicate : List (DeliveryLabel SampleBytes) :=
  deliver activation :: (Label.runs 0 19 ++ deliver activation :: Label.runs 1 1)

theorem acknowledged_settled_appliedThenDuplicate :
    ∃ steps Z, Run (deliveries sampleHost .default) oneTenant steps Z ∧
      Z.returned 1 = some ("evt_1", ⟨true⟩) ∧ Z.shared.isSettled "evt_1" = true := by
  obtain ⟨steps, Z, hreplay, hp⟩ := System.exists_replay (Y := oneTenant)
    appliedThenDuplicate
    (p := fun steps Z => steps.all marksUnsettled && steps.all conflictsSettled &&
      Z.returned 1 = some ("evt_1", ⟨true⟩)) (by decide)
  obtain ⟨hconds, hreturned⟩ := Bool.and_eq_true_iff.1 hp
  obtain ⟨hmarks, hconflicts⟩ := Bool.and_eq_true_iff.1 hconds
  have hallow : ∀ l ∈ appliedThenDuplicate, ∀ Y, (deliveries sampleHost .default).Allows Y l :=
    List.forall_mem_cons.2 ⟨allows_deliver _, List.forall_mem_append.2 ⟨Setting.allows_runs,
      List.forall_mem_cons.2 ⟨allows_deliver _, Setting.allows_runs⟩⟩⟩
  have hrun := System.replay_run hallow hreplay
  exact ⟨steps, Z, hrun, of_decide_eq_true hreturned, acknowledged_settled hrun rfl
    (List.all_eq_true.1 hmarks) (List.all_eq_true.1 hconflicts) (of_decide_eq_true hreturned)⟩

/-- Two deliveries that both find no row; the second cannot add it and answers while the first has not
    applied anything. -/
def duplicateBeforeApplied : List (DeliveryLabel SampleBytes) :=
  deliver activation :: deliver activation :: (Label.runs 1 1 ++ (Label.runs 0 5 ++ Label.runs 1 2))

/-- Without the condition a delivery can be acknowledged before its event is applied. -/
theorem not_acknowledged_settled :
    ¬∀ (steps : List (DeliveryStep SampleBytes)) (Z : DeliverySystem SampleBytes),
      Run (deliveries sampleHost .default) oneTenant steps Z →
        ∀ i event r, Z.returned i = some (event, r) → Z.shared.isSettled event = true := by
  intro h
  obtain ⟨steps, Z, hreplay, hp⟩ := System.exists_replay (Y := oneTenant)
    duplicateBeforeApplied
    (p := fun _ Z => Z.returned 1 = some ("evt_1", ⟨true⟩) && !Z.shared.isSettled "evt_1") (by decide)
  obtain ⟨hreturned, hunsettled⟩ := Bool.and_eq_true_iff.1 hp
  have hallow : ∀ l ∈ duplicateBeforeApplied, ∀ Y, (deliveries sampleHost .default).Allows Y l :=
    List.forall_mem_cons.2 ⟨allows_deliver _, List.forall_mem_cons.2 ⟨allows_deliver _,
      List.forall_mem_append.2 ⟨Setting.allows_runs, List.forall_mem_append.2
        ⟨Setting.allows_runs, Setting.allows_runs⟩⟩⟩⟩
  have hsettled := h steps Z (System.replay_run hallow hreplay) 1 _ _ (of_decide_eq_true hreturned)
  rw [hsettled] at hunsettled
  exact absurd hunsettled (by decide)

end Runs

end Rubrica
