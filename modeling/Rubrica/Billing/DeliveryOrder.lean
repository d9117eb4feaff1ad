import Rubrica.Billing.EntitlementOrder

set_option autoImplicit false

/-! # The order of webhook deliveries

`Books` is what the provider's events write: the billing account of one tenant and the payments
ledger. `Books.deliver` is one delivery, as `_apply_event` commits it; a delivery that raises is rolled
back and leaves the books alone.

The entitlement part of an account moves as `Entitlement.step` does (`Books.run_entitlement`), so
order independence of the books comes down to a safe set of signals (`Entitlement.orderFree_iff`) and to
what the deliveries do besides: the customer they carry and the row a stale event leaves behind. -/

namespace Rubrica

open Transactions

/-! ## Deliveries -/

/-- A verified event, as `receive_webhook` hands it to `_apply_event`. -/
structure BillingEvent where
  id : String
  type : EventType
  resource : Resource
  createdAt : Int
  deriving DecidableEq, Repr

def EventType.isInvoice : EventType → Bool
  | .invoicePaymentSucceeded => true
  | .invoicePaymentFailed => true
  | _ => false

/-- The event types `_apply_event` has a branch for. -/
def EventType.isHandled : EventType → Bool
  | .other _ => false
  | _ => true

inductive Outcome where
  | applied
  | stale
  | failed
  deriving DecidableEq, Repr

/-- `_record_payment` raises for an invoice without an identifier. -/
def BillingEvent.raises (e : BillingEvent) : Bool :=
  e.type.isInvoice && (present e.resource.id).isNone

structure Books where
  account : Option BillingAccount
  payments : Table String BillingPayment

namespace Books

variable (cfg : BillingSettings) (now : Int) (tenantId : UUID)

def deliver (b : Books) (e : BillingEvent) : Books × Outcome :=
  if e.raises then (b, .failed)
  else
    let r := (BillingAccount.entity b.account).applyEvent cfg now e.type e.resource (some e.createdAt)
    ({ account := some r.1,
       payments :=
        if e.type.isInvoice then
          recordPayment tenantId e.id e.type e.resource (e.resource.id.getD "") b.payments
        else b.payments },
      if r.2 then .applied else .stale)

def run (b : Books) (l : List BillingEvent) : Books :=
  l.foldl (fun b e => (b.deliver cfg now tenantId e).1) b

/-- Status, plan and paid access at the clock `now`. -/
def entitlement (b : Books) : AccountStatus × Option ProductCode × Bool :=
  let a := BillingAccount.entity b.account
  (a.status, a.currentProductCode, a.paidAccessEnabled now)

def customer (b : Books) : Option String :=
  (BillingAccount.entity b.account).providerCustomerId

def invoiceStatus (b : Books) (invoice : String) : Option PaymentStatus :=
  (b.payments.get? invoice).map (·.status)

/-- The order in which the events are delivered makes no difference. -/
structure OrderIrrelevant (b : Books) (evs : List BillingEvent) : Prop where
  sameEnd : ∀ l l' : List BillingEvent, l.Perm evs → l'.Perm evs →
    (b.run cfg now tenantId l).entitlement now = (b.run cfg now tenantId l').entitlement now ∧
      (b.run cfg now tenantId l).customer = (b.run cfg now tenantId l').customer ∧
      ∀ i, (b.run cfg now tenantId l).invoiceStatus i = (b.run cfg now tenantId l').invoiceStatus i
  /-- An event created before one that has been applied leaves the entitlement alone. -/
  lateIgnored : ∀ (p q r : List BillingEvent) (x y : BillingEvent), (p ++ y :: q ++ x :: r).Perm evs →
    ((b.run cfg now tenantId p).deliver cfg now tenantId y).2 = .applied → x.createdAt < y.createdAt →
    (b.run cfg now tenantId (p ++ y :: q ++ [x])).entitlement now =
      (b.run cfg now tenantId (p ++ y :: q)).entitlement now
  /-- An event reported stale leaves the account row alone. -/
  staleUnchanged : ∀ (p r : List BillingEvent) (x : BillingEvent), (p ++ x :: r).Perm evs →
    ((b.run cfg now tenantId p).deliver cfg now tenantId x).2 = .stale →
    (b.run cfg now tenantId (p ++ [x])).account = (b.run cfg now tenantId p).account

end Books

/-! ## Signals -/

/-- The part of an account that decides about access. -/
def BillingAccount.toEntitlement (a : BillingAccount) : Entitlement :=
  ⟨a.status, a.currentProductCode, a.gracePeriodEndsAt, a.lastProviderEventCreatedAt⟩

/-- What an event says about the entitlement; nothing, when its type is not handled. -/
def BillingEvent.signal (cfg : BillingSettings) (e : BillingEvent) : Option Signal :=
  match e.type with
  | .checkoutSessionCompleted => some (.checkout (e.resource.productCode cfg))
  | .invoicePaymentSucceeded => some .paid
  | .invoicePaymentFailed => some .failed
  | .customerSubscription _ =>
      some (.subscription ⟨e.resource.subscriptionStatus, e.resource.subscriptionStatus_ne_pending⟩
        (e.resource.productCode cfg))
  | .other _ => none

/-- The signal a delivery sends, unless the delivery raises. -/
def BillingEvent.sent (cfg : BillingSettings) (e : BillingEvent) : Option Sent :=
  if e.raises then none else (e.signal cfg).map fun sig => ⟨e.createdAt, sig⟩

/-- The customer a delivery writes on the account. -/
def BillingEvent.carried (e : BillingEvent) : Option String :=
  if e.raises then none else present e.resource.customer

namespace BillingAccount

variable {cfg : BillingSettings} {now : Int}

@[simp] theorem toEntitlement_entity_some (a : BillingAccount) :
    (entity (some a)).toEntitlement = a.toEntitlement := rfl

@[simp] theorem toEntitlement_touch (a : BillingAccount) (r : Resource) :
    (a.touch r).toEntitlement = a.toEntitlement := rfl

@[simp] theorem toEntitlement_syncUsagePeriod (a : BillingAccount) (p : Option Int × Option Int)
    (reset : Bool) : (a.syncUsagePeriod p reset).toEntitlement = a.toEntitlement := by
  unfold syncUsagePeriod
  dsimp only
  split
  · rfl
  · rfl
  · split <;> rfl

theorem isStale_eq (a : BillingAccount) (t : Int) : a.isStale (some t) = a.toEntitlement.stale t := by
  simp only [isStale, Entitlement.stale, toEntitlement]
  cases a.lastProviderEventCreatedAt <;> rfl

theorem paidAccessEnabled_eq (a : BillingAccount) (now : Int) :
    a.paidAccessEnabled now = a.toEntitlement.access now := rfl

theorem toEntitlement_applySubscription (a : BillingAccount) (r : Resource) (t : Int) :
    (a.applySubscription cfg now r (some t)).toEntitlement =
      ⟨r.subscriptionStatus, some (r.productCode cfg),
        graceAfter cfg now r.subscriptionStatus a.gracePeriodEndsAt, some t⟩ := by
  simp only [applySubscription]
  split
  · rw [toEntitlement_syncUsagePeriod]
    rfl
  · rfl

/-- The abstract step is what `_apply_event` does to the entitlement part of the account. -/
theorem toEntitlement_applyEvent (a : BillingAccount) (e : BillingEvent) :
    (a.applyEvent cfg now e.type e.resource (some e.createdAt)).1.toEntitlement =
      match e.signal cfg with
      | some sig => a.toEntitlement.step cfg now ⟨e.createdAt, sig⟩
      | none => a.toEntitlement := by
  unfold applyEvent BillingEvent.signal
  cases e.type with
  | checkoutSessionCompleted => rfl
  | invoicePaymentSucceeded =>
      simp only [applyPaymentSucceeded, toEntitlement_syncUsagePeriod]
      rfl
  | invoicePaymentFailed =>
      simp only [applyPaymentFailed, Entitlement.step]
      show toEntitlement (if a.status ≠ .pastDue ∨ a.gracePeriodEndsAt = none then _ else _) =
        if a.status ≠ .pastDue ∨ a.gracePeriodEndsAt = none then _ else _
      split <;> rfl
  | customerSubscription change =>
      simp only [Entitlement.step, isStale_eq, toEntitlement_touch]
      split
      · rfl
      · rw [toEntitlement_applySubscription]
        rfl
  | other text => rfl

end BillingAccount

/-! ## One delivery -/

namespace Books

variable {cfg : BillingSettings} {now : Int} {tenantId : UUID} {b : Books} {e : BillingEvent}
  {evs l l' : List BillingEvent}

/-- The account a delivery starts from. -/
abbrev current (b : Books) : BillingAccount :=
  BillingAccount.entity b.account

@[simp] theorem run_nil (b : Books) : b.run cfg now tenantId [] = b := rfl

@[simp] theorem run_append (b : Books) (l l' : List BillingEvent) :
    b.run cfg now tenantId (l ++ l') = (b.run cfg now tenantId l).run cfg now tenantId l' := by
  simp [run]

@[simp] theorem run_singleton (b : Books) (e : BillingEvent) :
    b.run cfg now tenantId [e] = (b.deliver cfg now tenantId e).1 := rfl

theorem deliver_raises (h : e.raises = true) : b.deliver cfg now tenantId e = (b, .failed) := by
  rw [deliver, if_pos h]

theorem deliver_account (h : e.raises = false) :
    (b.deliver cfg now tenantId e).1.account =
      some (b.current.applyEvent cfg now e.type e.resource (some e.createdAt)).1 := by
  rw [deliver, if_neg (by simp [h])]

theorem deliver_outcome (h : e.raises = false) :
    (b.deliver cfg now tenantId e).2 =
      if (b.current.applyEvent cfg now e.type e.resource (some e.createdAt)).2 then .applied
      else .stale := by
  rw [deliver, if_neg (by simp [h])]

theorem sent_eq_none_of_raises (h : e.raises = true) : e.sent cfg = none := by
  rw [BillingEvent.sent, if_pos h]

theorem sent_of_signal {sig : Signal} (h : e.raises = false) (hs : e.signal cfg = some sig) :
    e.sent cfg = some ⟨e.createdAt, sig⟩ := by
  rw [BillingEvent.sent, if_neg (by simp [h]), hs]
  rfl

theorem sent_time {x : Sent} (h : e.sent cfg = some x) : x.time = e.createdAt := by
  rw [BillingEvent.sent] at h
  split at h
  · exact absurd h (by simp)
  · obtain ⟨sig, -, rfl⟩ := Option.map_eq_some_iff.1 h
    rfl

theorem raises_of_sent {x : Sent} (h : e.sent cfg = some x) :
    e.raises = false ∧ e.signal cfg = some x.signal := by
  rw [BillingEvent.sent] at h
  split at h
  · exact absurd h (by simp)
  · next hr =>
      obtain ⟨sig, hs, rfl⟩ := Option.map_eq_some_iff.1 h
      exact ⟨by simpa using hr, hs⟩

variable (cfg now tenantId) in
/-- A delivery moves the entitlement by the signal it sends, and leaves it alone otherwise. -/
theorem deliver_entitlement (b : Books) (e : BillingEvent) :
    (b.deliver cfg now tenantId e).1.current.toEntitlement =
      match e.sent cfg with
      | some x => b.current.toEntitlement.step cfg now x
      | none => b.current.toEntitlement := by
  cases hr : e.raises with
  | true => rw [deliver_raises hr, sent_eq_none_of_raises hr]
  | false =>
      rw [current, deliver_account hr, BillingAccount.toEntitlement_entity_some,
        BillingAccount.toEntitlement_applyEvent]
      cases hs : e.signal cfg with
      | some sig => rw [sent_of_signal hr hs]
      | none => simp [BillingEvent.sent, hs]

variable (cfg now tenantId) in
theorem run_entitlement (b : Books) (l : List BillingEvent) :
    (b.run cfg now tenantId l).current.toEntitlement =
      b.current.toEntitlement.run cfg now (l.filterMap (BillingEvent.sent cfg)) := by
  induction l using List.reverseRecOn with
  | nil => rfl
  | append_singleton l e ih =>
      rw [run_append, run_singleton, deliver_entitlement, List.filterMap_append,
        Entitlement.run_append, ih]
      cases hs : e.sent cfg <;> simp [hs]

theorem entitlement_eq (b : Books) :
    b.entitlement now = b.current.toEntitlement.shown now := rfl

variable (cfg) in
theorem signal_isSome (h : e.type.isHandled = true) : ∃ sig, e.signal cfg = some sig := by
  unfold BillingEvent.signal
  cases ht : e.type with
  | other text => exact absurd h (by simp [ht, EventType.isHandled])
  | _ => exact ⟨_, rfl⟩

/-- When a delivery is reported stale. -/
theorem outcome_stale_iff :
    (b.deliver cfg now tenantId e).2 = .stale ↔
      (∃ st p, e.signal cfg = some (.subscription st p)) ∧
        b.current.toEntitlement.stale e.createdAt = true := by
  cases hr : e.raises with
  | true =>
      have htype : ∀ st p, e.signal cfg ≠ some (.subscription st p) := by
        intro st p
        unfold BillingEvent.raises EventType.isInvoice at hr
        unfold BillingEvent.signal
        cases ht : e.type <;> simp [ht] at hr ⊢
      rw [deliver_raises hr]
      exact ⟨fun h => absurd h (by simp), fun ⟨⟨st, p, h⟩, _⟩ => absurd h (htype st p)⟩
  | false =>
      rw [deliver_outcome hr]
      unfold BillingAccount.applyEvent BillingEvent.signal
      cases e.type <;> cases hst : b.current.toEntitlement.stale e.createdAt <;>
        simp [BillingAccount.isStale_eq, hst]

theorem outcome_applied_iff (h : e.type.isHandled = true) :
    (b.deliver cfg now tenantId e).2 = .applied ↔
      ∃ x, e.sent cfg = some x ∧
        ((∃ st p, x.signal = .subscription st p) →
          b.current.toEntitlement.stale e.createdAt = false) := by
  obtain ⟨sig, hsig⟩ := signal_isSome cfg h
  cases hr : e.raises with
  | true => simp [deliver_raises hr, sent_eq_none_of_raises hr]
  | false =>
      have hne : (b.deliver cfg now tenantId e).2 = .applied ↔
          (b.deliver cfg now tenantId e).2 ≠ .stale := by
        rw [deliver_outcome hr]
        split <;> simp
      rw [hne, Ne, outcome_stale_iff, hsig, sent_of_signal hr hsig]
      simp

/-! ## Customers, invoices and stale rows -/

/-- The events carry one customer, if any. -/
def OneCustomer (evs : List BillingEvent) : Prop :=
  ∀ x ∈ evs, ∀ y ∈ evs, ∀ c d, x.carried = some c → y.carried = some d → c = d

/-- A stale event writes nothing on the account that is not there already: not where the account is
    past it to begin with, and not where a newer subscription in the list makes it stale. -/
structure StaleSafe (cfg : BillingSettings) (b : Books) (evs : List BillingEvent) : Prop where
  known : ∀ e ∈ evs, (∃ st p, e.signal cfg = some (.subscription st p)) →
    b.current.toEntitlement.stale e.createdAt = true →
    ∃ a, b.account = some a ∧ a.deletedAt = none ∧ a.provider = some "stripe" ∧
      e.carried.or a.providerCustomerId = a.providerCustomerId
  newer : ∀ e ∈ evs, ∀ m ∈ evs, (∃ st p, e.signal cfg = some (.subscription st p)) →
    (∃ st p, m.signal cfg = some (.subscription st p)) →
    b.current.toEntitlement.stale m.createdAt = false → e.createdAt < m.createdAt →
    e.carried.or (m.carried.or b.customer) = m.carried.or b.customer

variable (cfg now) in
theorem applyEvent_row (a : BillingAccount) (e : BillingEvent) :
    let a' := (a.applyEvent cfg now e.type e.resource (some e.createdAt)).1
    a'.provider = some "stripe" ∧ a'.deletedAt = a.deletedAt ∧
      a'.providerCustomerId = (present e.resource.customer).or a.providerCustomerId := by
  have hsync : ∀ (c : BillingAccount) p reset, (c.syncUsagePeriod p reset).provider = c.provider ∧
      (c.syncUsagePeriod p reset).deletedAt = c.deletedAt ∧
      (c.syncUsagePeriod p reset).providerCustomerId = c.providerCustomerId := by
    intro c p reset
    unfold BillingAccount.syncUsagePeriod
    dsimp only
    split
    · exact ⟨rfl, rfl, rfl⟩
    · exact ⟨rfl, rfl, rfl⟩
    · split <;> exact ⟨rfl, rfl, rfl⟩
  unfold BillingAccount.applyEvent
  dsimp only
  cases e.type with
  | checkoutSessionCompleted => exact ⟨rfl, rfl, rfl⟩
  | invoicePaymentSucceeded => exact hsync _ _ _
  | invoicePaymentFailed =>
      simp only [BillingAccount.applyPaymentFailed]
      split <;> exact ⟨rfl, rfl, rfl⟩
  | customerSubscription change =>
      simp only
      split
      · exact ⟨rfl, rfl, rfl⟩
      · simp only [BillingAccount.applySubscription]
        split
        · exact hsync _ _ _
        · exact ⟨rfl, rfl, rfl⟩
  | other text => exact ⟨rfl, rfl, rfl⟩

variable (cfg now tenantId) in
theorem deliver_customer (b : Books) (e : BillingEvent) :
    (b.deliver cfg now tenantId e).1.customer = e.carried.or b.customer := by
  cases hr : e.raises with
  | true => rw [deliver_raises hr, BillingEvent.carried, if_pos hr, Option.none_or]
  | false =>
      rw [customer, deliver_account hr, BillingEvent.carried, if_neg (by simp [hr])]
      exact (applyEvent_row cfg now _ e).2.2

variable (cfg now tenantId b) in
/-- The customer after deliveries that carry one customer. -/
theorem run_customer {c : String} (h : ∀ e ∈ l, ∀ d, e.carried = some d → d = c) :
    ((∀ e ∈ l, e.carried = none) ∧ (b.run cfg now tenantId l).customer = b.customer) ∨
      (∃ e ∈ l, e.carried = some c) ∧ (b.run cfg now tenantId l).customer = some c := by
  induction l using List.reverseRecOn with
  | nil => exact Or.inl ⟨by simp, rfl⟩
  | append_singleton l e ih =>
      have ih := ih fun x hx => h x (List.mem_append_left _ hx)
      rw [run_append, run_singleton, deliver_customer]
      cases he : e.carried with
      | some d =>
          obtain rfl := h e (by simp) d he
          exact Or.inr ⟨⟨e, by simp, he⟩, rfl⟩
      | none =>
          rw [Option.none_or]
          rcases ih with ⟨hno, hc⟩ | ⟨⟨x, hx, hxc⟩, hc⟩
          · refine Or.inl ⟨fun x hx => ?_, hc⟩
            rcases List.mem_append.1 hx with hx | hx
            · exact hno x hx
            · rwa [List.mem_singleton.1 hx]
          · exact Or.inr ⟨⟨x, List.mem_append_left _ hx, hxc⟩, hc⟩

/-- The row is one that `_apply_event` has touched, and not deleted. -/
def Touched (b : Books) : Prop :=
  ∃ a, b.account = some a ∧ a.deletedAt = none ∧ a.provider = some "stripe"

theorem deliver_touched (hr : e.raises = false) : (b.deliver cfg now tenantId e).1.Touched := by
  obtain ⟨h1, h2, -⟩ := applyEvent_row cfg now b.current e
  refine ⟨_, deliver_account hr, h2.trans ?_, h1⟩
  rw [current]
  cases b.account <;> rfl

theorem Touched.run (h : b.Touched) (l : List BillingEvent) :
    (b.run cfg now tenantId l).Touched := by
  induction l using List.reverseRecOn with
  | nil => exact h
  | append_singleton l e ih =>
      rw [run_append, run_singleton]
      cases hr : e.raises with
      | true => rwa [deliver_raises hr]
      | false => exact deliver_touched hr

theorem touched_of_mem (he : e ∈ l) (hr : e.raises = false) : (b.run cfg now tenantId l).Touched := by
  obtain ⟨p, q, rfl⟩ := List.append_of_mem he
  rw [show p ++ e :: q = p ++ ([e] ++ q) from rfl, run_append, run_append, run_singleton]
  exact (deliver_touched hr).run q

/-- A stale delivery keeps a touched row as it is when its customer is already there. -/
theorem stale_row_iff (hst : (b.deliver cfg now tenantId e).2 = .stale) :
    (b.deliver cfg now tenantId e).1.account = b.account ↔
      ∃ a, b.account = some a ∧ a.deletedAt = none ∧ a.provider = some "stripe" ∧
        e.carried.or a.providerCustomerId = a.providerCustomerId := by
  obtain ⟨⟨st, p, hsig⟩, hstale⟩ := outcome_stale_iff.1 hst
  have hr : e.raises = false := by
    by_contra h
    rw [Bool.not_eq_false] at h
    rw [deliver_raises h] at hst
    exact absurd hst (by simp)
  have hacc : (b.deliver cfg now tenantId e).1.account = some (b.current.touch e.resource) := by
    rw [deliver_account hr]
    unfold BillingEvent.signal at hsig
    unfold BillingAccount.applyEvent
    cases ht : e.type <;> simp [ht, BillingAccount.isStale_eq, hstale] at hsig ⊢
  have hcar : e.carried = present e.resource.customer := by
    rw [BillingEvent.carried, if_neg (by simp [hr])]
  rw [hacc, hcar]
  cases hb : b.account with
  | none =>
      rw [current, hb] at hstale
      exact absurd hstale (by simp [BillingAccount.entity, BillingAccount.created,
        BillingAccount.toEntitlement, Entitlement.stale])
  | some a =>
      simp only [current, hb, BillingAccount.entity, BillingAccount.touch, Option.some.injEq,
        exists_eq_left']
      constructor
      · intro h
        refine ⟨?_, ?_, ?_⟩
        · rw [← h]
        · rw [← h]
        · exact congrArg BillingAccount.providerCustomerId h
      · rintro ⟨h1, h2, h3⟩
        rw [h3, ← h1, ← h2]

/-- The ledger status an invoice event records. -/
def paymentStatus (type : EventType) : PaymentStatus :=
  if type = .invoicePaymentSucceeded then .paid else .failed

theorem deliver_invoiceStatus (b : Books) (e : BillingEvent) (i : String) :
    (b.deliver cfg now tenantId e).1.invoiceStatus i =
      if e.raises = false ∧ e.type.isInvoice = true ∧ e.resource.id.getD "" = i then
        some (paymentStatus e.type)
      else b.invoiceStatus i := by
  cases hr : e.raises with
  | true => simp [deliver_raises hr]
  | false =>
      simp only [deliver, hr, invoiceStatus, true_and]
      cases hi : e.type.isInvoice with
      | false => simp
      | true =>
          simp only [true_and]
          by_cases hid : e.resource.id.getD "" = i
          · subst hid
            simp only [recordPayment, if_true, Bool.false_eq_true, if_false, Table.get?_update_self]
            cases hg : b.payments.get? (e.resource.id.getD "") with
            | none => rw [Table.get?_insert_self hg]; rfl
            | some r => rw [Table.get?_insert_of_some hg]; rfl
          · have hne : i ≠ e.resource.id.getD "" := fun h => hid h.symm
            simp [recordPayment, hid, Table.get?_update_of_ne _ hne, Table.get?_insert_of_ne _ hne]

/-- The status of an invoice after deliveries that record one status. -/
theorem run_invoiceStatus {t : PaymentStatus} {i : String}
    (h : ∀ e ∈ l, e.raises = false → e.type.isInvoice = true → paymentStatus e.type = t) :
    (b.run cfg now tenantId l).invoiceStatus i =
      if ∃ e ∈ l, e.raises = false ∧ e.type.isInvoice = true ∧ e.resource.id.getD "" = i then some t
      else b.invoiceStatus i := by
  induction l using List.reverseRecOn with
  | nil => simp
  | append_singleton l e ih =>
      rw [run_append, run_singleton, deliver_invoiceStatus,
        ih fun x hx => h x (List.mem_append_left _ hx)]
      by_cases he : e.raises = false ∧ e.type.isInvoice = true ∧ e.resource.id.getD "" = i
      · rw [if_pos he, if_pos ⟨e, by simp, he⟩, h e (by simp) he.1 he.2.1]
      · rw [if_neg he]
        refine if_congr ⟨?_, ?_⟩ rfl rfl
        · rintro ⟨x, hx, hxp⟩
          exact ⟨x, List.mem_append_left _ hx, hxp⟩
        · rintro ⟨x, hx, hxp⟩
          rcases List.mem_append.1 hx with hx | hx
          · exact ⟨x, hx, hxp⟩
          · rw [List.mem_singleton.1 hx] at hxp
            exact absurd hxp he

/-! ## From signals to deliveries and back -/

/-- Every order of the signals comes from an order of the deliveries. -/
theorem exists_perm_of_sent {L : List Sent} (hL : L.Perm (evs.filterMap (BillingEvent.sent cfg))) :
    ∃ l : List BillingEvent, l.Perm evs ∧ l.filterMap (BillingEvent.sent cfg) = L := by
  classical
  induction L generalizing evs with
  | nil => exact ⟨evs, List.Perm.refl _, hL.symm.eq_nil⟩
  | cons x L ih =>
      obtain ⟨e, he, hx⟩ := List.mem_filterMap.1 (hL.mem_iff.1 (List.mem_cons_self ..))
      have hperm := List.perm_cons_erase he
      have hrest : L.Perm ((evs.erase e).filterMap (BillingEvent.sent cfg)) := by
        have := hL.trans (hperm.filterMap _)
        rw [List.filterMap_cons_some hx] at this
        exact this.cons_inv
      obtain ⟨l, hl, hmap⟩ := ih hrest
      exact ⟨e :: l, (hl.cons e).trans hperm.symm, by rw [List.filterMap_cons_some hx, hmap]⟩

variable (cfg) in
theorem sent_times_nodup (hnd : (evs.map BillingEvent.createdAt).Nodup) :
    ((evs.filterMap (BillingEvent.sent cfg)).map Sent.time).Nodup := by
  have hsub : ((evs.filterMap (BillingEvent.sent cfg)).map Sent.time).Sublist
      (evs.map BillingEvent.createdAt) := by
    clear hnd
    induction evs with
    | nil => simp
    | cons e evs ih =>
        cases hs : e.sent cfg with
        | none =>
            rw [List.filterMap_cons_none hs, List.map_cons]
            exact ih.cons _
        | some x =>
            rw [List.filterMap_cons_some hs, List.map_cons, List.map_cons, sent_time hs]
            exact ih.cons_cons _
  exact hnd.sublist hsub

variable (cfg now tenantId) in
theorem run_shown (b : Books) (l : List BillingEvent) :
    (b.run cfg now tenantId l).entitlement now =
      (b.current.toEntitlement.run cfg now (l.filterMap (BillingEvent.sent cfg))).shown now := by
  rw [entitlement_eq, run_entitlement]

/-- Order independence of the books is order independence of their entitlement. -/
theorem OrderIrrelevant.orderFree (h : b.OrderIrrelevant cfg now tenantId evs)
    (hE : ∀ e ∈ evs, e.type.isHandled = true) :
    b.current.toEntitlement.OrderFree cfg now (evs.filterMap (BillingEvent.sent cfg)) := by
  refine ⟨fun L L' hL hL' => ?_, fun p q r x y hperm happ hlt => ?_⟩
  · obtain ⟨l, hl, rfl⟩ := exists_perm_of_sent hL
    obtain ⟨l', hl', rfl⟩ := exists_perm_of_sent hL'
    rw [← run_shown cfg now tenantId, ← run_shown cfg now tenantId]
    exact (h.sameEnd l l' hl hl').1
  · obtain ⟨l, hl, hmap⟩ := exists_perm_of_sent hperm
    rw [List.append_assoc, List.filterMap_eq_append_iff] at hmap
    obtain ⟨l1, l2, rfl, rfl, hmap⟩ := hmap
    rw [List.cons_append, List.filterMap_eq_cons_iff] at hmap
    obtain ⟨n1, ey, l3, rfl, hn1, hy, hmap⟩ := hmap
    rw [List.filterMap_eq_append_iff] at hmap
    obtain ⟨l4, l5, rfl, rfl, hmap⟩ := hmap
    rw [List.filterMap_eq_cons_iff] at hmap
    obtain ⟨n2, ex, l6, rfl, hn2, hx, rfl⟩ := hmap
    have hnone : ∀ {n : List BillingEvent}, (∀ e ∈ n, e.sent cfg = none) →
        n.filterMap (BillingEvent.sent cfg) = [] := fun h => List.filterMap_eq_nil_iff.2 h
    have hlist : l1 ++ (n1 ++ ey :: (l4 ++ (n2 ++ ex :: l6))) =
        (l1 ++ n1) ++ ey :: (l4 ++ n2) ++ ex :: l6 := by simp
    rw [hlist] at hl
    have hey : ey.type.isHandled = true := hE ey (hl.mem_iff.1 (by simp))
    have hcur : (b.run cfg now tenantId (l1 ++ n1)).current.toEntitlement =
        b.current.toEntitlement.run cfg now (l1.filterMap (BillingEvent.sent cfg)) := by
      rw [run_entitlement, List.filterMap_append, hnone hn1, List.append_nil]
    have := h.lateIgnored (l1 ++ n1) (l4 ++ n2) l6 ex ey hl
      ((outcome_applied_iff hey).2 ⟨y, hy, fun hys => by
        rw [hcur, ← sent_time hy]
        exact happ hys⟩) (by rwa [← sent_time hx, ← sent_time hy])
    rw [run_shown, run_shown] at this
    simpa [List.filterMap_append, hnone hn1, hnone hn2, hx, hy] using this

theorem OrderIrrelevant.oneCustomer (h : b.OrderIrrelevant cfg now tenantId evs) :
    OneCustomer evs := by
  classical
  intro x hx y hy c d hc hd
  by_cases hxy : x = y
  · rw [hxy, hd] at hc
    exact (Option.some.inj hc).symm
  · have hperm : (y :: x :: (evs.erase y).erase x).Perm evs := by
      have hx' : x ∈ evs.erase y := (List.mem_erase_of_ne hxy).2 hx
      exact ((List.perm_cons_erase hx').symm.cons y).trans (List.perm_cons_erase hy).symm
    generalize (evs.erase y).erase x = r at hperm
    have h1 : (r ++ [y, x]).Perm evs := List.perm_append_comm.trans hperm
    have h2 : (r ++ [x, y]).Perm evs := ((List.Perm.swap y x []).append_left r).trans h1
    have hend := (h.sameEnd _ _ h1 h2).2.1
    rw [run_append, run_append, show [y, x] = [y] ++ [x] from rfl, show [x, y] = [x] ++ [y] from rfl,
      run_append, run_append, run_singleton, run_singleton, run_singleton, run_singleton] at hend
    simp only [deliver_customer, hc, hd, Option.some_or] at hend
    exact Option.some.inj hend

/-- What a subscription that is applied leaves behind makes every older one stale. -/
theorem stale_after_newer {m : BillingEvent} {t : Int}
    (hm : ∃ st p, m.signal cfg = some (.subscription st p))
    (hlive : b.current.toEntitlement.stale m.createdAt = false) (ht : t < m.createdAt) :
    m.raises = false ∧ (b.deliver cfg now tenantId m).1.current.toEntitlement.stale t = true := by
  obtain ⟨st, p, hsig⟩ := hm
  have hr : m.raises = false := by
    unfold BillingEvent.signal at hsig
    unfold BillingEvent.raises EventType.isInvoice
    cases htype : m.type <;> simp [htype] at hsig ⊢
  refine ⟨hr, ?_⟩
  rw [deliver_entitlement, sent_of_signal hr hsig]
  have hstep := @Entitlement.step_subscription cfg now b.current.toEntitlement
    ⟨m.createdAt, .subscription st p⟩ st p rfl hlive
  simp only [hstep]
  simpa [Entitlement.stale] using ht

theorem OrderIrrelevant.staleSafe (h : b.OrderIrrelevant cfg now tenantId evs) :
    StaleSafe cfg b evs := by
  classical
  refine ⟨fun e he hsig hstale => ?_, fun e he m hm hesig hmsig hlive hlt => ?_⟩
  · have hst : (b.deliver cfg now tenantId e).2 = .stale := outcome_stale_iff.2 ⟨hsig, hstale⟩
    exact (stale_row_iff hst).1 (h.staleUnchanged [] _ e (List.perm_cons_erase he).symm hst)
  · have hne : e ≠ m := fun heq => by rw [heq] at hlt; omega
    have he' : e ∈ evs.erase m := (List.mem_erase_of_ne hne).2 he
    have hperm : ([m] ++ e :: (evs.erase m).erase e).Perm evs :=
      ((List.perm_cons_erase he').symm.cons m).trans (List.perm_cons_erase hm).symm
    have hst : ((b.run cfg now tenantId [m]).deliver cfg now tenantId e).2 = .stale :=
      outcome_stale_iff.2 ⟨hesig, (stale_after_newer hmsig hlive hlt).2⟩
    obtain ⟨a, ha, -, -, hcust⟩ := (stale_row_iff hst).1 (h.staleUnchanged [m] _ e hperm hst)
    have hac : a.providerCustomerId = m.carried.or b.customer := by
      rw [← deliver_customer cfg now tenantId, customer, ← run_singleton, ha]
      rfl
    rwa [hac] at hcust

/-- What order independence of the books asks of the events: their signals are a safe set, they carry
    one customer, and the stale ones write nothing new. -/
structure OrderSafe (cfg : BillingSettings) (now : Int) (b : Books) (evs : List BillingEvent) :
    Prop where
  signals : b.current.toEntitlement.OrderSafe cfg now (evs.filterMap (BillingEvent.sent cfg))
  customer : OneCustomer evs
  stale : StaleSafe cfg b evs

/-- In a safe set all invoices are recorded alike. -/
theorem OrderSafe.paymentStatus (h : OrderSafe cfg now b evs)
    (hnd : (evs.map BillingEvent.createdAt).Nodup) :
    ∃ t, ∀ e ∈ evs, e.raises = false → e.type.isInvoice = true → paymentStatus e.type = t := by
  by_cases hf : ∃ y ∈ evs, y.raises = false ∧ y.type = .invoicePaymentFailed
  · obtain ⟨y, hy, hr, ht⟩ := hf
    have hsig : y.signal cfg = some .failed := by simp [BillingEvent.signal, ht]
    have hall := h.signals.pairs.allPastDue (sent_times_nodup cfg hnd)
      (List.mem_filterMap.2 ⟨y, hy, sent_of_signal hr hsig⟩) rfl
    refine ⟨.failed, fun e he her hei => ?_⟩
    cases het : e.type with
    | invoicePaymentSucceeded =>
        have hesig : e.signal cfg = some .paid := by simp [BillingEvent.signal, het]
        rcases hall _ (List.mem_filterMap.2 ⟨e, he, sent_of_signal her hesig⟩)
          (Entitlement.live_of_signal rfl (by simp)) with hc | ⟨_, _, hc, -⟩ <;>
          exact absurd hc (by simp)
    | invoicePaymentFailed => rfl
    | checkoutSessionCompleted => simp [EventType.isInvoice, het] at hei
    | customerSubscription change => simp [EventType.isInvoice, het] at hei
    | other text => simp [EventType.isInvoice, het] at hei
  · refine ⟨.paid, fun e he her hei => ?_⟩
    cases het : e.type with
    | invoicePaymentSucceeded => rfl
    | invoicePaymentFailed => exact absurd ⟨e, he, her, het⟩ hf
    | checkoutSessionCompleted => simp [EventType.isInvoice, het] at hei
    | customerSubscription change => simp [EventType.isInvoice, het] at hei
    | other text => simp [EventType.isInvoice, het] at hei

/-- Events that carry one customer leave the same one in every order. -/
theorem OneCustomer.sameEnd (h : OneCustomer evs) (hl : l.Perm evs) (hl' : l'.Perm evs) :
    (b.run cfg now tenantId l).customer = (b.run cfg now tenantId l').customer := by
  have hswap : ∀ x, x ∈ l ↔ x ∈ l' := fun x => hl.mem_iff.trans hl'.mem_iff.symm
  by_cases hc : ∃ x ∈ evs, ∃ c, x.carried = some c
  · obtain ⟨x, hx, c, hxc⟩ := hc
    have key : ∀ k : List BillingEvent, k.Perm evs → (b.run cfg now tenantId k).customer = some c := by
      intro k hk
      rcases run_customer cfg now tenantId b
        (fun e he d hd => h e (hk.mem_iff.1 he) x hx d c hd hxc) with ⟨hno, -⟩ | ⟨-, hk'⟩
      · exact absurd ((hno x (hk.mem_iff.2 hx)).symm.trans hxc) (by simp)
      · exact hk'
    rw [key l hl, key l' hl']
  · have key : ∀ k : List BillingEvent, k.Perm evs →
        (b.run cfg now tenantId k).customer = b.customer := by
      intro k hk
      have hnone : ∀ e ∈ k, ∀ d, e.carried ≠ some d := fun e he d hd =>
        hc ⟨e, hk.mem_iff.1 he, d, hd⟩
      rcases run_customer (c := "") cfg now tenantId b
        (fun e he d hd => absurd hd (hnone e he d)) with ⟨-, hk'⟩ | ⟨⟨e, he, hec⟩, -⟩
      · exact hk'
      · exact absurd hec (hnone e he _)
    rw [key l hl, key l' hl']

theorem OrderSafe.staleUnchanged (h : OrderSafe cfg now b evs) {p : List BillingEvent}
    (hp : ∀ x ∈ p, x ∈ evs) (he : e ∈ evs)
    (hst : ((b.run cfg now tenantId p).deliver cfg now tenantId e).2 = .stale) :
    (b.run cfg now tenantId (p ++ [e])).account = (b.run cfg now tenantId p).account := by
  rw [run_append, run_singleton, stale_row_iff hst]
  obtain ⟨hsig, hstale⟩ := outcome_stale_iff.1 hst
  -- The row has been touched, and the customer of a carrying `e` is one that `e` is allowed to write.
  have key : (b.run cfg now tenantId p).Touched ∧ ∀ c, e.carried = some c →
      (∃ x ∈ p, x.carried = some c) ∨ b.customer = some c := by
    cases h0 : b.current.toEntitlement.stale e.createdAt with
    | true =>
        obtain ⟨a, ha, hdel, hprov, hcust⟩ := h.stale.known e he hsig h0
        refine ⟨Touched.run ⟨a, ha, hdel, hprov⟩ p, fun c hc => Or.inr ?_⟩
        rw [hc] at hcust
        rw [Books.customer, ha]
        exact hcust.symm
    | false =>
        rw [run_entitlement] at hstale
        rcases Entitlement.run_tracks cfg now b.current.toEntitlement
          (p.filterMap (BillingEvent.sent cfg)) with ⟨-, hlast, -⟩ | ⟨m, st, q, hm, hmsig, hlast, -⟩
        · rw [Entitlement.stale_congr hlast, h0] at hstale
          exact absurd hstale (by simp)
        · rw [Entitlement.stale_of_last hlast, decide_eq_true_eq] at hstale
          obtain ⟨em, hem, hems⟩ := List.mem_filterMap.1 hm.mem
          obtain ⟨hemr, hemsig⟩ := raises_of_sent hems
          rw [hmsig] at hemsig
          rw [sent_time hems] at hstale
          refine ⟨touched_of_mem hem hemr, fun c hc => ?_⟩
          have hcust := h.stale.newer e he em (hp em hem) hsig ⟨st, q, hemsig⟩
            (sent_time hems ▸ hm.live.2) hstale
          rw [hc] at hcust
          cases hmc : em.carried with
          | some d =>
              rw [hmc] at hcust
              exact Or.inl ⟨em, hem, hmc.trans hcust.symm⟩
          | none =>
              rw [hmc] at hcust
              exact Or.inr hcust.symm
  obtain ⟨⟨a, ha, hdel, hprov⟩, hcarry⟩ := key
  refine ⟨a, ha, hdel, hprov, ?_⟩
  cases hc : e.carried with
  | none => rfl
  | some c =>
      have hcur : (b.run cfg now tenantId p).customer = a.providerCustomerId := by
        rw [Books.customer, ha]
        rfl
      rw [← hcur]
      rcases run_customer cfg now tenantId b
        (fun x hx d hd => h.customer x (hp x hx) e he d c hd hc) with ⟨hno, hcust⟩ | ⟨-, hcust⟩
      · rcases hcarry c hc with ⟨x, hx, hxc⟩ | hb
        · exact absurd ((hno x hx).symm.trans hxc) (by simp)
        · rw [hcust, hb]
          rfl
      · rw [hcust]
        rfl

/-- **The order of deliveries.** For events created at different times, the order of their deliveries
    makes no difference exactly when the set of them is safe. -/
theorem orderIrrelevant_iff (hE : ∀ e ∈ evs, e.type.isHandled = true)
    (hnd : (evs.map BillingEvent.createdAt).Nodup) :
    b.OrderIrrelevant cfg now tenantId evs ↔ OrderSafe cfg now b evs := by
  have htimes := sent_times_nodup cfg hnd
  constructor
  · intro h
    exact ⟨(Entitlement.orderFree_iff htimes).1 (h.orderFree hE), h.oneCustomer, h.staleSafe⟩
  · intro h
    have hfree := (Entitlement.orderFree_iff htimes).2 h.signals
    refine ⟨fun l l' hl hl' => ⟨?_, h.customer.sameEnd hl hl', fun i => ?_⟩,
      fun p q r x y hperm happ hlt => ?_, fun p r x hperm hst => ?_⟩
    · rw [run_shown, run_shown]
      exact hfree.sameEnd _ _ (hl.filterMap _) (hl'.filterMap _)
    · obtain ⟨t, ht⟩ := h.paymentStatus hnd
      have hswap : ∀ x, x ∈ l ↔ x ∈ l' := fun x => hl.mem_iff.trans hl'.mem_iff.symm
      rw [run_invoiceStatus fun e he => ht e (hl.mem_iff.1 he),
        run_invoiceStatus fun e he => ht e (hl'.mem_iff.1 he)]
      simp only [hswap]
    · have hy : y.type.isHandled = true := hE y (hperm.mem_iff.1 (by simp))
      obtain ⟨sy, hsy, hlive⟩ := (outcome_applied_iff hy).1 happ
      rw [run_shown, run_shown]
      cases hsx : x.sent cfg with
      | none =>
          rw [List.filterMap_append, List.filterMap_cons_none hsx, List.filterMap_nil, List.append_nil]
      | some sx =>
          have hperm' := hperm.filterMap (BillingEvent.sent cfg)
          simp only [List.filterMap_append, List.filterMap_cons_some hsy,
            List.filterMap_cons_some hsx] at hperm'
          simp only [List.filterMap_append, List.filterMap_cons_some hsy,
            List.filterMap_cons_some hsx, List.filterMap_nil]
          refine hfree.lateIgnored _ _ _ sx sy hperm' (fun hys => ?_)
            (by rwa [sent_time hsx, sent_time hsy])
          rw [← run_entitlement cfg now tenantId, sent_time hsy]
          exact hlive hys
    · exact h.staleUnchanged (fun z hz => hperm.mem_iff.1 (List.mem_append_left _ hz))
        (hperm.mem_iff.1 (by simp)) hst

/-- A subscription event of the given time and status. -/
def subscriptionEvent (createdAt : Int) (status : ProviderStatus) : BillingEvent where
  id := "evt_subscription"
  type := .customerSubscription .updated
  resource := { Resource.empty with id := some "sub_1", status := some status }
  createdAt := createdAt

/-- A failed payment of the given time. -/
def paymentFailedEvent (createdAt : Int) : BillingEvent where
  id := "evt_invoice"
  type := .invoicePaymentFailed
  resource := { Resource.empty with id := some "in_1" }
  createdAt := createdAt

/-- Two subscription events may arrive in any order. -/
theorem orderIrrelevant_two_subscriptions :
    (⟨none, ∅⟩ : Books).OrderIrrelevant .default 0 1
      [subscriptionEvent 1 .active, subscriptionEvent 2 .canceled] := by
  have hsub : ∀ x ∈ [subscriptionEvent 1 .active, subscriptionEvent 2 .canceled].filterMap
      (BillingEvent.sent .default), ∃ st p, x.signal = .subscription st p ∧ st.1 ≠ .pastDue := by
    simp [subscriptionEvent, BillingEvent.sent, BillingEvent.raises, EventType.isInvoice,
      BillingEvent.signal, Resource.subscriptionStatus]
  have hcarry : ∀ x ∈ [subscriptionEvent 1 .active, subscriptionEvent 2 .canceled],
      x.carried = none := by decide
  refine (orderIrrelevant_iff (by decide) (by decide)).2 ⟨⟨?_, ?_, ?_⟩, ?_, ?_, ?_⟩
  · intro x hx y hy _ _ _
    obtain ⟨st, p, hxs, -⟩ := hsub x hx
    obtain ⟨st', p', hys, -⟩ := hsub y hy
    rw [hxs, hys]
    trivial
  · intro m p hm hms
    obtain ⟨st, q, hsig, hst⟩ := hsub m hm.mem
    rw [hsig] at hms
    obtain ⟨rfl, -⟩ := Signal.subscription.inj hms
    exact absurd rfl hst
  · intro x y _ _ hy hys
    obtain ⟨st, p, hsig, -⟩ := hsub y hy
    rw [hsig] at hys
    exact absurd hys (by simp)
  · intro x hx y _ c d hc _
    exact absurd ((hcarry x hx).symm.trans hc) (by simp)
  · intro e _ _ hstale
    exact absurd hstale (by simp [current, BillingAccount.entity, BillingAccount.created,
      BillingAccount.toEntitlement, Entitlement.stale])
  · intro e he m _ _ _ _ _
    rw [hcarry e he, Option.none_or]

/-- A subscription and a failed payment created before it: whichever comes last counts. -/
theorem not_orderIrrelevant_late_failure :
    (∀ e ∈ [subscriptionEvent 2 .active, paymentFailedEvent 1], e.type.isHandled = true) ∧
      ([subscriptionEvent 2 .active, paymentFailedEvent 1].map BillingEvent.createdAt).Nodup ∧
      ¬(⟨some .created, ∅⟩ : Books).OrderIrrelevant .default 0 1
        [subscriptionEvent 2 .active, paymentFailedEvent 1] := by
  refine ⟨by decide, by decide, fun h => ?_⟩
  have := (h.sameEnd _ _ (List.Perm.refl _) (List.Perm.swap _ _ [])).1
  revert this
  decide

end Books

end Rubrica
