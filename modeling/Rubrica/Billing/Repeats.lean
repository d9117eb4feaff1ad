import Rubrica.Billing.Delivery
import Rubrica.Teams.SingleSeat

set_option autoImplicit false

/-! # Events that are applied again

A delivery that is retried applies its event once more. Here `_apply_event` runs in a transaction that is
committed, and then in a second one at the same clock. What the first one leaves is settled for the event
(`Settled`): the account, the payment, the registration of the tenant and its team are all as the event
would make them. Applying an event to what is settled for it changes nothing but the ciphertext of the
registration, which is drawn anew (`apply_event_again`). -/

namespace Rubrica

open Transactions

variable {B Page : Type}

/-! ## Applying an event once -/

def SubscriptionChange.text : SubscriptionChange → String
  | created => "created"
  | updated => "updated"
  | other text => text

def EventType.text : EventType → String
  | checkoutSessionCompleted => "checkout.session.completed"
  | customerSubscription change => "customer.subscription." ++ change.text
  | invoicePaymentSucceeded => "invoice.payment_succeeded"
  | invoicePaymentFailed => "invoice.payment_failed"
  | other text => text

/-- What `_apply_event` is called with, the tenant apart. -/
structure EventCall where
  type : EventType
  resource : Resource
  eventCreatedAt : Option Int
  providerEventId : String
  businessIdentity : Option BusinessIdentity
  deriving DecidableEq, Repr

/-- The event as `_record_payment` takes it: `provider_event_id or event_type` is its identifier. It does
    not look at the creation time. -/
def EventCall.event (c : EventCall) : BillingEvent where
  id := (present (some c.providerEventId)).getD c.type.text
  type := c.type
  resource := c.resource
  createdAt := c.eventCreatedAt.getD 0

section Programs

variable (host : Host B Page) (cfg : BillingSettings)

/-- The point of the statement that locks the account. -/
def lockingPoint (tenant : UUID) (held : Option AccountObject) : BillingPoint :=
  match held with
  | none => .plain
  | some object => .lockingAccount tenant object.loaded

/-- `_apply_event` for a tenant, in a session that may hold the account as an object. -/
def applyEventIn (tenant : UUID) (c : EventCall) (held : Option AccountObject) : Tx B BillingPoint Bool := do
  let row ← Code.selectLocking (lockingPoint tenant held) .exclusive
    (fun w : World B => (w.accounts.get? tenant).map fun _ => .account tenant)
    (fun w => w.accounts.get? tenant)
  let account ← accountEntity tenant held row
  let now ← utcNow
  let result := account.value.applyEvent cfg now c.type c.resource c.eventCreatedAt
  Code.onlyIf c.type.isInvoice (recordPaymentOf tenant c.event)
  Code.onlyIf (c.type.bringsIdentity result.2)
    (applyBusinessIdentity host tenant result.1.currentProductCode c.businessIdentity)
  Code.onlyIf (c.type.isSubscription && result.2)
    (reconcileSingleMemberPlan host tenant (some result.1))
  flushAccount tenant ⟨account.loaded, result.1⟩
  pure result.2

/-- A webhook's event is applied by this program, to the object the delivery holds. -/
theorem applyEventTo_eq (tenant : UUID) (e : BillingEvent) (identity : Option BusinessIdentity)
    (held : AccountObject) (h : e.id ≠ "") :
    applyEventTo host cfg tenant e identity held =
      applyEventIn host cfg tenant ⟨e.type, e.resource, some e.createdAt, e.id, identity⟩ (some held) := by
  have hid : (present (some e.id)).getD e.type.text = e.id := by
    rw [present, Option.filter_some_pos (by simpa using h)]
    rfl
  unfold applyEventTo applyEventIn EventCall.event
  rw [hid]
  rfl

/-- The account, where the session loads it first, as a webhook and a synchronization do. -/
def heldAccount (tenant : UUID) (loads : Bool) : Tx B BillingPoint (Option AccountObject) :=
  if loads then do
    let row ← query fun w => w.accounts.get? tenant
    let object ← accountEntity tenant none row
    pure (some object)
  else pure none

/-- `_apply_event`, in a session that has loaded the account, or has not. -/
def applyEventFor (tenant : Option UUID) (c : EventCall) (loads : Bool) : Tx B BillingPoint Bool :=
  match tenant with
  | none => pure true
  | some t => heldAccount t loads >>= applyEventIn host cfg t c

/-- A transaction that applies an event. -/
def applyEventOnce (tenant : Option UUID) (c : EventCall) (loads : Bool) : Tx B BillingPoint Bool :=
  Code.transaction .plain do
    let applied ← applyEventFor host cfg tenant c loads
    pure (applied, .plain)

end Programs

/-! ## The ciphertext -/

/-- The host at another time, when encrypting gives other ciphertexts. -/
def Host.resealing (host : Host B Page) (cipher : String → String) : Host B Page :=
  { host with
    protectCnpj := fun value => (host.protectCnpj value).map fun c => { c with encrypted := cipher value } }

/-- A tenant's row without the ciphertext. -/
def Tenant.unsealed (t : Tenant) : Tenant :=
  { t with registrationValueEncrypted := none }

/-- The database without the ciphertexts of registrations. -/
def World.unsealed (w : World B) : World B :=
  { w with tenants := w.tenants.map fun _ t => t.unsealed }

/-! ## Statements -/

section Statements

variable {τ : Type} [Unmarked τ] {s s' : World B} {u : Unit}

theorem ends_claim {entry : RowKey} {taken : World B → Bool} :
    (claim entry taken : Tx B τ Unit).Ends s u s' ↔ taken s = false ∧ s = s' := by
  unfold claim claimAt
  rw [Code.ends_bind]
  simp only [Code.ends_selectLocking, Code.ends_require]
  constructor
  · rintro ⟨_, _, ⟨rfl, rfl⟩, h⟩
    exact h
  · intro h
    exact ⟨_, _, ⟨rfl, rfl⟩, h⟩

theorem ends_referTo {row : RowKey} {there : World B → Bool} :
    (referTo row there : Tx B τ Unit).Ends s u s' ↔ there s = true ∧ s = s' := by
  unfold referTo referToAt
  rw [Code.ends_bind]
  simp only [Code.ends_selectLocking, Code.ends_require]
  constructor
  · rintro ⟨_, _, ⟨rfl, rfl⟩, h⟩
    exact h
  · intro h
    exact ⟨_, _, ⟨rfl, rfl⟩, h⟩

theorem ends_claimChanged {γ : Type} [DecidableEq γ] {loaded value : Option γ} {entry : γ → RowKey}
    {taken : γ → World B → Bool} :
    (claimChanged loaded value entry taken : Tx B τ Unit).Ends s u s' ↔
      (∀ c, value = some c → loaded ≠ value → taken c s = false) ∧ s = s' := by
  cases value with
  | none =>
      show (pure () : Tx B τ Unit).Ends s u s' ↔ _
      rw [Code.ends_pure]
      simp
  | some c =>
      simp only [claimChanged, Code.ends_onlyIf, ends_claim, Option.some.injEq, forall_eq']
      by_cases h : loaded = some c
      · simp [h]
      · simp [h]

/-- A column that has not changed claims nothing. -/
theorem ends_claimChanged_self {γ : Type} [DecidableEq γ] (value : Option γ) (entry : γ → RowKey)
    (taken : γ → World B → Bool) (s : World B) :
    (claimChanged value value entry taken : Tx B τ Unit).Ends s () s :=
  ends_claimChanged.2 ⟨fun _ _ h => absurd rfl h, rfl⟩

end Statements

/-! ## The account -/

namespace BillingAccount

variable {cfg : BillingSettings} {now : Int} {type : EventType} {r : Resource} {created : Option Int}

theorem syncUsagePeriod_again (a : BillingAccount) (period : Option Int × Option Int) (resetUsage : Bool) :
    (a.syncUsagePeriod period resetUsage).syncUsagePeriod period resetUsage =
      a.syncUsagePeriod period resetUsage := by
  obtain ⟨start, stop⟩ := period
  cases start with
  | none => cases stop <;> simp [syncUsagePeriod]
  | some start =>
      cases hcurrent : a.usagePeriodStartsAt with
      | none => cases stop <;> simp [syncUsagePeriod, hcurrent]
      | some current =>
          by_cases h : resetUsage = true ∧ current < start
          · cases stop <;> simp [syncUsagePeriod, hcurrent, h]
          · cases stop <;> simp [syncUsagePeriod, hcurrent, h]

/-- The columns of a usage period. -/
theorem exists_syncUsagePeriod (a : BillingAccount) (period : Option Int × Option Int) (resetUsage : Bool) :
    ∃ ends files starts, a.syncUsagePeriod period resetUsage =
      { a with
        currentPeriodEndsAt := ends,
        filesUploadedInPeriod := files,
        usagePeriodStartsAt := starts } := by
  unfold syncUsagePeriod
  dsimp only
  split
  · exact ⟨_, _, _, rfl⟩
  · exact ⟨_, _, _, rfl⟩
  · split <;> exact ⟨_, _, _, rfl⟩

theorem customer_touch (a : BillingAccount) (r : Resource) :
    (present r.customer).or (a.touch r).providerCustomerId = (a.touch r).providerCustomerId := by
  unfold touch
  cases present r.customer <;> rfl

/-- An account that shows the provider and the customer already. -/
theorem touch_eq_self {a : BillingAccount} (hprovider : a.provider = some "stripe")
    (hcustomer : (present r.customer).or a.providerCustomerId = a.providerCustomerId) : a.touch r = a := by
  unfold touch
  rw [hcustomer, ← hprovider]

theorem touch_again (a : BillingAccount) (r : Resource) : (a.touch r).touch r = a.touch r :=
  touch_eq_self rfl (customer_touch a r)

theorem applyCheckout_twice (a : BillingAccount) : (a.applyCheckout cfg r).applyCheckout cfg r = a.applyCheckout cfg r := by
  unfold applyCheckout
  by_cases h : a.status = .active
  · simp only [h, if_true]
  · simp [h]

theorem applyCheckout_again (a : BillingAccount) :
    (((a.touch r).applyCheckout cfg r).touch r).applyCheckout cfg r = (a.touch r).applyCheckout cfg r := by
  have htouch : ((a.touch r).applyCheckout cfg r).touch r = (a.touch r).applyCheckout cfg r :=
    touch_eq_self rfl (customer_touch a r)
  rw [htouch, applyCheckout_twice]

theorem applyPaymentSucceeded_twice (a : BillingAccount) :
    (a.applyPaymentSucceeded r).applyPaymentSucceeded r = a.applyPaymentSucceeded r := by
  have hagain := syncUsagePeriod_again { a with status := .active, gracePeriodEndsAt := none }
    r.invoiceServicePeriod (r.billingReason = some "subscription_cycle")
  unfold applyPaymentSucceeded
  obtain ⟨ends, files, starts, hsync⟩ := exists_syncUsagePeriod
    { a with status := .active, gracePeriodEndsAt := none } r.invoiceServicePeriod
    (r.billingReason = some "subscription_cycle")
  rw [hsync] at hagain ⊢
  exact hagain

theorem applyPaymentSucceeded_again (a : BillingAccount) :
    (((a.touch r).applyPaymentSucceeded r).touch r).applyPaymentSucceeded r =
      (a.touch r).applyPaymentSucceeded r := by
  have htouch : ((a.touch r).applyPaymentSucceeded r).touch r = (a.touch r).applyPaymentSucceeded r := by
    unfold applyPaymentSucceeded
    obtain ⟨ends, files, starts, hsync⟩ := exists_syncUsagePeriod
      { a.touch r with status := .active, gracePeriodEndsAt := none } r.invoiceServicePeriod
      (r.billingReason = some "subscription_cycle")
    rw [hsync]
    exact touch_eq_self rfl (customer_touch a r)
  rw [htouch, applyPaymentSucceeded_twice]

theorem applyPaymentFailed_twice (a : BillingAccount) :
    (a.applyPaymentFailed cfg now).applyPaymentFailed cfg now = a.applyPaymentFailed cfg now := by
  unfold applyPaymentFailed
  by_cases h : a.status ≠ .pastDue ∨ a.gracePeriodEndsAt = none
  · rw [if_pos h, if_neg (by simp)]
  · rw [if_neg h, if_neg h]

theorem applyPaymentFailed_again (a : BillingAccount) :
    (((a.touch r).applyPaymentFailed cfg now).touch r).applyPaymentFailed cfg now =
      (a.touch r).applyPaymentFailed cfg now := by
  have htouch : ((a.touch r).applyPaymentFailed cfg now).touch r = (a.touch r).applyPaymentFailed cfg now := by
    unfold applyPaymentFailed
    split
    · exact touch_eq_self rfl (customer_touch a r)
    · exact touch_again a r
  rw [htouch, applyPaymentFailed_twice]

theorem graceAfter_again (status : AccountStatus) (grace : Option Int) :
    graceAfter cfg now status (graceAfter cfg now status grace) = graceAfter cfg now status grace := by
  cases status <;> cases grace <;> rfl

theorem setTerms_twice (a : BillingAccount) :
    (a.setTerms cfg now r created).setTerms cfg now r created = a.setTerms cfg now r created := by
  unfold setTerms
  cases created <;> simp [graceAfter_again]

theorem setTerms_again (a : BillingAccount) :
    (((a.touch r).setTerms cfg now r created).touch r).setTerms cfg now r created =
      (a.touch r).setTerms cfg now r created := by
  have htouch : ((a.touch r).setTerms cfg now r created).touch r = (a.touch r).setTerms cfg now r created :=
    touch_eq_self rfl (customer_touch a r)
  rw [htouch, setTerms_twice]

/-- The terms do not depend on the usage period. -/
theorem setTerms_period (a : BillingAccount) (ends : Option Int) (files : Nat) (starts : Option Int) :
    (({ (a.touch r).setTerms cfg now r created with
        currentPeriodEndsAt := ends,
        filesUploadedInPeriod := files,
        usagePeriodStartsAt := starts }).touch r).setTerms cfg now r created =
      { (a.touch r).setTerms cfg now r created with
        currentPeriodEndsAt := ends,
        filesUploadedInPeriod := files,
        usagePeriodStartsAt := starts } :=
  calc
    _ = { (((a.touch r).setTerms cfg now r created).touch r).setTerms cfg now r created with
          currentPeriodEndsAt := ends,
          filesUploadedInPeriod := files,
          usagePeriodStartsAt := starts } := rfl
    _ = _ := by rw [setTerms_again]

/-- A subscription that has been applied is not older than what it left. -/
theorem isStale_applySubscription (a : BillingAccount) :
    (((a.touch r).applySubscription cfg now r created).touch r).isStale created = false := by
  have hterms : (((a.touch r).setTerms cfg now r created).touch r).isStale created = false := by
    cases created <;> simp [setTerms, touch, isStale]
  unfold applySubscription
  dsimp only
  split
  · obtain ⟨ends, files, starts, hsync⟩ := exists_syncUsagePeriod ((a.touch r).setTerms cfg now r created)
      r.subscriptionPeriod false
    rw [hsync]
    exact hterms
  · exact hterms

theorem applySubscription_again (a : BillingAccount) :
    (((a.touch r).applySubscription cfg now r created).touch r).applySubscription cfg now r created =
      (a.touch r).applySubscription cfg now r created := by
  by_cases h : ((a.touch r).setTerms cfg now r created).status = .active
  · have hagain := syncUsagePeriod_again ((a.touch r).setTerms cfg now r created) r.subscriptionPeriod false
    obtain ⟨ends, files, starts, hsync⟩ := exists_syncUsagePeriod ((a.touch r).setTerms cfg now r created)
      r.subscriptionPeriod false
    simp only [applySubscription, if_pos h]
    rw [hsync] at hagain ⊢
    rw [setTerms_period, if_pos h, hagain]
  · simp only [applySubscription, if_neg h]
    rw [setTerms_period a _ ((a.touch r).setTerms cfg now r created).filesUploadedInPeriod
      ((a.touch r).setTerms cfg now r created).usagePeriodStartsAt, if_neg h]
    cases r.subscriptionPeriod.2 <;> rfl

/-- **The account.** An event makes of an account what it makes of the account it has been applied to. -/
theorem applyEvent_again (a : BillingAccount) :
    (a.applyEvent cfg now type r created).1.applyEvent cfg now type r created =
      a.applyEvent cfg now type r created := by
  cases type with
  | checkoutSessionCompleted => exact congrArg (·, true) (applyCheckout_again a)
  | invoicePaymentSucceeded => exact congrArg (·, true) (applyPaymentSucceeded_again a)
  | invoicePaymentFailed => exact congrArg (·, true) (applyPaymentFailed_again a)
  | other text => exact congrArg (·, true) (touch_again a r)
  | customerSubscription change =>
      by_cases h : (a.touch r).isStale created = true
      · simp only [applyEvent, if_pos h]
        rw [touch_again, if_pos h]
      · simp only [applyEvent, if_neg h]
        rw [isStale_applySubscription, applySubscription_again]
        rfl

theorem applyEvent_deletedAt (a : BillingAccount) :
    (a.applyEvent cfg now type r created).1.deletedAt = a.deletedAt := by
  cases type with
  | invoicePaymentSucceeded =>
      obtain ⟨_, _, _, hsync⟩ := exists_syncUsagePeriod
        { a.touch r with status := .active, gracePeriodEndsAt := none } r.invoiceServicePeriod
        (r.billingReason = some "subscription_cycle")
      simp only [applyEvent, applyPaymentSucceeded, hsync]
      rfl
  | invoicePaymentFailed =>
      simp only [applyEvent, applyPaymentFailed]
      split <;> rfl
  | customerSubscription change =>
      simp only [applyEvent, applySubscription]
      split
      · rfl
      · split
        · obtain ⟨_, _, _, hsync⟩ := exists_syncUsagePeriod ((a.touch r).setTerms cfg now r created)
            r.subscriptionPeriod false
          rw [hsync]
          rfl
        · rfl
  | _ => rfl

/-- A flush of what was loaded, on the row it was loaded from, writes the object. -/
theorem flush_loaded (loaded value : BillingAccount) : loaded.flush value loaded = value := by
  simp only [flush, written_of_eq]

end BillingAccount

variable {host : Host B Page} {cfg : BillingSettings} {tenant : UUID} {c : EventCall} {s s' : World B}

/-- A session's object shows the row, no longer deleted. -/
structure Shows (tenant : UUID) (object : AccountObject) (s : World B) : Prop where
  row : s.accounts.get? tenant = some object.loaded
  value : object.value = { object.loaded with deletedAt := none }

theorem ends_accountEntity {held : Option AccountObject} {object : AccountObject}
    (hheld : ∀ o, held = some o → Shows tenant o s)
    (h : (accountEntity tenant held (s.accounts.get? tenant) : Tx B BillingPoint _).Ends s object s') :
    Shows tenant object s' := by
  cases hrow : s.accounts.get? tenant with
  | none =>
      rw [hrow] at h
      obtain ⟨_, t, hclaim, h⟩ := Code.ends_bind.1 h
      obtain ⟨-, rfl⟩ := ends_claim.1 hclaim
      obtain ⟨_, t, hrefer, h⟩ := Code.ends_bind.1 h
      obtain ⟨-, rfl⟩ := ends_referTo.1 hrefer
      obtain ⟨_, t, hsave, h⟩ := Code.ends_bind.1 h
      obtain rfl := Code.ends_write.1 hsave
      obtain ⟨rfl, rfl⟩ := h
      exact ⟨Table.get?_insert_self hrow _, rfl⟩
  | some a =>
      rw [hrow] at h
      obtain ⟨rfl, rfl⟩ := h
      cases held with
      | none => exact ⟨hrow, rfl⟩
      | some o =>
          obtain ⟨hloaded, hvalue⟩ := hheld o rfl
          exact ⟨hloaded, by simp only [Option.getD_some, hvalue]⟩

/-- Of an account that is there and not deleted, the object is the row. -/
theorem ends_accountEntity_some {held : Option AccountObject} {a : BillingAccount}
    (hrow : s.accounts.get? tenant = some a) (hthere : a.deletedAt = none)
    (hheld : ∀ o, held = some o → o = ⟨a, a⟩) :
    (accountEntity tenant held (s.accounts.get? tenant) : Tx B BillingPoint _).Ends s ⟨a, a⟩ s := by
  rw [hrow]
  have hobject : held.getD ⟨a, a⟩ = ⟨a, a⟩ := by
    cases held with
    | none => rfl
    | some o => exact hheld o rfl
  refine ⟨?_, rfl⟩
  rw [hobject, ← hthere]

/-! ## The payment -/

/-- The payment of an invoice is as the event records it. -/
def PaymentSettled (e : BillingEvent) (s : World B) : Prop :=
  ∃ invoice p, present e.resource.id = some invoice ∧ s.payments.get? invoice = some p ∧
    p.record e.id e.type e.resource = p

theorem BillingPayment.record_again (p : BillingPayment) (id : String) (type : EventType) (r : Resource) :
    (p.record id type r).record id type r = p.record id type r := rfl

theorem BillingPayment.flush_loaded (loaded : BillingPayment) (id : String) (type : EventType) (r : Resource) :
    loaded.flush (loaded.record id type r) loaded = loaded.record id type r := by
  simp only [flush, written_of_eq]
  rfl

theorem ends_recordPaymentOf {e : BillingEvent} {u : Unit}
    (h : (recordPaymentOf tenant e : Tx B BillingPoint _).Ends s u s') : PaymentSettled e s' := by
  obtain ⟨invoice, t, hpresent, h⟩ := Code.ends_bind.1 h
  obtain ⟨hinvoice, rfl⟩ := Code.ends_orRaise.1 hpresent
  have h := Code.ends_select_bind.1 h
  cases hfound : s.payments.get? invoice with
  | none =>
      simp only [hfound] at h
      obtain ⟨_, t, hclaim, h⟩ := Code.ends_bind.1 h
      obtain ⟨-, rfl⟩ := ends_claim.1 hclaim
      obtain ⟨_, t, hrefer, h⟩ := Code.ends_bind.1 h
      obtain ⟨-, rfl⟩ := ends_referTo.1 hrefer
      obtain rfl := Code.ends_write.1 h
      exact ⟨invoice, _, hinvoice, Table.get?_insert_self hfound _, BillingPayment.record_again _ _ _ _⟩
  | some p =>
      simp only [hfound] at h
      obtain rfl := Code.ends_write.1 h
      refine ⟨invoice, p.record e.id e.type e.resource, hinvoice, ?_, BillingPayment.record_again _ _ _ _⟩
      show (s.payments.update invoice _).get? invoice = _
      rw [Table.get?_update_self, hfound, Option.map_some, BillingPayment.flush_loaded]

/-- A payment that is as the event records it stays as it is. -/
theorem PaymentSettled.ends {e : BillingEvent} (h : PaymentSettled e s) :
    (recordPaymentOf tenant e : Tx B BillingPoint _).Ends s () s := by
  obtain ⟨invoice, p, hinvoice, hp, hrecord⟩ := h
  refine Code.ends_seq (Code.ends_orRaise.2 ⟨hinvoice, rfl⟩) (Code.ends_select_bind.2 ?_)
  simp only [hp]
  refine Code.ends_write.2 ?_
  unfold World.updatePayment
  rw [Table.update_eq_self]
  intro r hr
  obtain rfl : p = r := Option.some.inj (hp.symm.trans hr)
  rw [BillingPayment.flush_loaded, hrecord]

/-! ## The registration -/

/-- `protect_cnpj` gives this of a number, which may be none, or be refused as invalid. -/
def Host.Protects (host : Host B Page) (cnpj : Option String) (number : Option ProtectedCnpj) : Prop :=
  match cnpj.map host.protectCnpj with
  | none => number = none
  | some (.ok c) => number = some c
  | some (.error e) => e = invalidCnpj ∧ number = none

theorem ends_protectGiven {τ : Type} [Unmarked τ] {cnpj : Option String} {number : Option ProtectedCnpj} :
    (protectGiven host cnpj : Tx B τ _).Ends s number s' ↔ host.Protects cnpj number ∧ s = s' := by
  unfold protectGiven Host.Protects
  cases cnpj.map host.protectCnpj with
  | none => exact and_congr_left' eq_comm
  | some result =>
      cases result with
      | ok c => exact and_congr_left' eq_comm
      | error e =>
          by_cases he : e = invalidCnpj
          · simp only [he, if_true, true_and]
            exact and_congr_left' eq_comm
          · simp only [he, if_false, false_and]
            exact iff_false_intro id

/-- The same number under other ciphertexts. -/
theorem Host.Protects.resealing {cnpj : Option String} {number : Option ProtectedCnpj}
    (h : host.Protects cnpj number) (cipher : String → String) :
    (host.resealing cipher).Protects cnpj
      (number.map fun c => { c with encrypted := cipher (cnpj.getD "") }) := by
  cases cnpj with
  | none =>
      obtain rfl : number = none := h
      rfl
  | some value =>
      unfold Host.Protects at h ⊢
      simp only [Option.map_some, Host.resealing] at h ⊢
      cases hresult : host.protectCnpj value with
      | ok c =>
          simp only [hresult] at h
          rw [h]
          rfl
      | error e =>
          simp only [hresult] at h
          exact ⟨h.1, by rw [h.2]; rfl⟩

namespace Tenant

variable {legalName reference : Option String} {number : Option ProtectedCnpj} {given conflict : Bool}

/-- What a business identity makes of a tenant, it makes of the tenant it has been applied to. -/
theorem applyIdentity_again (t : Tenant) :
    (t.applyIdentity host legalName reference number given conflict).applyIdentity host legalName reference
      number given conflict = t.applyIdentity host legalName reference number given conflict := by
  cases given with
  | false => rfl
  | true =>
      cases number with
      | none => rfl
      | some c =>
          by_cases hmismatch : t.kind = .business ∧ t.registrationLookupHmac ≠ some c.lookup
          · simp [applyIdentity, hmismatch]
          · cases conflict with
            | true => simp [applyIdentity, hmismatch]
            | false =>
                cases hname : present (legalName.map host.strip) <;> simp [applyIdentity, hmismatch, hname]

variable (host legalName reference number given conflict) in
/-- Other ciphertexts make a difference to the ciphertext. -/
theorem exists_applyIdentity_resealing (t : Tenant) (cipher : String → String) (text : String) :
    ∃ encrypted, t.applyIdentity (host.resealing cipher) legalName reference
        (number.map fun c => { c with encrypted := text }) given conflict =
      { t.applyIdentity host legalName reference number given conflict with
        registrationValueEncrypted := encrypted } := by
  cases given with
  | false => exact ⟨t.registrationValueEncrypted, rfl⟩
  | true =>
      cases number with
      | none => exact ⟨t.registrationValueEncrypted, rfl⟩
      | some c =>
          by_cases hmismatch : t.kind = .business ∧ t.registrationLookupHmac ≠ some c.lookup
          · exact ⟨t.registrationValueEncrypted, by simp [applyIdentity, hmismatch]⟩
          · cases conflict with
            | true => exact ⟨t.registrationValueEncrypted, by simp [applyIdentity, hmismatch]⟩
            | false =>
                cases hname : present (legalName.map host.strip) with
                | none =>
                    refine ⟨t.registrationValueEncrypted, ?_⟩
                    simp [applyIdentity, hmismatch, hname, Host.resealing]
                | some name => exact ⟨some text, by simp [applyIdentity, hmismatch, hname, Host.resealing]⟩

theorem applyIdentity_deletedAt (t : Tenant) :
    (t.applyIdentity host legalName reference number given conflict).deletedAt = t.deletedAt := by
  unfold applyIdentity
  dsimp only
  split
  · rfl
  · split
    · rfl
    · split
      · rfl
      · split
        · rfl
        · split <;> rfl

end Tenant

/-- The tenant is as the registration makes it. -/
def RegistrationSettled (host : Host B Page) (tenant : UUID) (legalName cnpj reference : Option String)
    (s : World B) : Prop :=
  ∃ t number, s.tenants.get? tenant = some t ∧ t.deletedAt = none ∧ host.Protects (present cnpj) number ∧
    t.applyIdentity host legalName reference number (present cnpj).isSome
      (number.any fun c => s.registrationTaken tenant c.lookup) = t

/-- Whether others have a registration is not a matter of the tenant's own row. -/
theorem registrationTaken_update (f : Tenant → Tenant) (lookup : String) (s : World B) :
    World.registrationTaken tenant lookup { s with tenants := s.tenants.update tenant f } =
      s.registrationTaken tenant lookup := by
  refine Bool.eq_iff_iff.2 ?_
  unfold World.registrationTaken
  rw [Table.any_iff, Table.any_iff]
  refine exists_congr fun id => exists_congr fun t => ?_
  by_cases hid : id = tenant
  · simp [hid]
  · rw [Table.get?_update_of_ne _ hid]

theorem registrationTaken_congr (h : s'.tenants = s.tenants) (lookup : String) :
    s'.registrationTaken tenant lookup = s.registrationTaken tenant lookup := by
  unfold World.registrationTaken
  rw [h]

theorem RegistrationSettled.congr {legalName cnpj reference : Option String}
    (hs : RegistrationSettled host tenant legalName cnpj reference s) (h : s'.tenants = s.tenants) :
    RegistrationSettled host tenant legalName cnpj reference s' := by
  obtain ⟨t, number, ht, hthere, hprotects, hfixed⟩ := hs
  refine ⟨t, number, h ▸ ht, hthere, hprotects, ?_⟩
  simp only [registrationTaken_congr h]
  exact hfixed

theorem ends_applyBillingBusinessIdentity {legalName cnpj reference : Option String} {status : Option String}
    (h : (applyBillingBusinessIdentity host tenant legalName cnpj reference : Tx B BillingPoint _).Ends
      s status s') : RegistrationSettled host tenant legalName cnpj reference s' := by
  have h := Code.ends_selectLocking_bind.1 h
  obtain ⟨before, t, hraise, h⟩ := Code.ends_bind.1 h
  obtain ⟨hbefore, rfl⟩ := Code.ends_orRaise.1 hraise
  obtain ⟨hrow, hthere⟩ := Option.filter_eq_some_iff.1 hbefore
  obtain ⟨number, t, hgiven, h⟩ := Code.ends_bind.1 h
  obtain ⟨hprotects, rfl⟩ := ends_protectGiven.1 hgiven
  have h := Code.ends_select_bind.1 h
  obtain ⟨_, t, hclaim, h⟩ := Code.ends_bind.1 h
  obtain ⟨-, rfl⟩ := ends_claimChanged.1 hclaim
  obtain ⟨_, t, hsave, h⟩ := Code.ends_bind.1 h
  obtain rfl := Code.ends_write.1 hsave
  obtain ⟨_, t, haudit, ⟨-, rfl⟩⟩ := Code.ends_bind.1 h
  have htenants := haudit.keeps (Code.local_onlyIf _ fun _ => local_audit (fun _ _ => rfl) _ _ _ _ _ _)
    (g := World.tenants)
  refine RegistrationSettled.congr ⟨before.applyIdentity host legalName reference number (present cnpj).isSome
    (number.any fun c => s.registrationTaken tenant c.lookup), number, ?_, ?_, hprotects, ?_⟩ htenants
  · show (s.tenants.update tenant _).get? tenant = _
    rw [Table.get?_update_self, hrow]
    rfl
  · rw [Tenant.applyIdentity_deletedAt]
    simpa using hthere
  · unfold World.saveTenant
    simp only [registrationTaken_update]
    exact Tenant.applyIdentity_again before

/-- A tenant that is as the registration makes it stays so, but for the ciphertext. -/
theorem RegistrationSettled.ends {legalName cnpj reference : Option String}
    (h : RegistrationSettled host tenant legalName cnpj reference s) (cipher : String → String) :
    ∃ status t encrypted, s.tenants.get? tenant = some t ∧
      (applyBillingBusinessIdentity (host.resealing cipher) tenant legalName cnpj reference :
        Tx B BillingPoint _).Ends s status
          (s.saveTenant tenant { t with registrationValueEncrypted := encrypted }) := by
  obtain ⟨t, number, hrow, hthere, hprotects, hfixed⟩ := h
  obtain ⟨encrypted, hagain⟩ := Tenant.exists_applyIdentity_resealing host legalName reference number
    (present cnpj).isSome (number.any fun c => s.registrationTaken tenant c.lookup) t cipher
    (cipher ((present cnpj).getD ""))
  rw [hfixed] at hagain
  have hany : ((number.map fun c => { c with encrypted := cipher ((present cnpj).getD "") }).any fun c =>
      s.registrationTaken tenant c.lookup) = number.any fun c => s.registrationTaken tenant c.lookup := by
    cases number <;> rfl
  have hlive : ((s.tenants.get? tenant).filter fun t => t.deletedAt.isNone) = some t := by
    rw [hrow, Option.filter_some_pos (by simp [hthere])]
  refine ⟨t.registrationVerificationStatus, t, encrypted, hrow, Code.ends_selectLocking_bind.2 ?_⟩
  simp only [hlive]
  refine Code.ends_seq (Code.ends_orRaise.2 ⟨rfl, rfl⟩) ?_
  refine Code.ends_seq (ends_protectGiven.2 ⟨hprotects.resealing cipher, rfl⟩) (Code.ends_select_bind.2 ?_)
  simp only [hany, hagain]
  refine Code.ends_seq (a := ()) (ends_claimChanged_self _ _ _ _) (Code.ends_seq (a := ()) (Code.ends_write.2 rfl)
    (Code.ends_seq (a := ()) (Code.ends_onlyIf.2 ⟨fun h => ?_, fun _ => rfl⟩) ⟨rfl, rfl⟩))
  exact absurd (h.1.symm.trans h.2) (by decide)

theorem unsealed_saveTenant {t : Tenant} {encrypted : Option String} (h : s.tenants.get? tenant = some t) :
    (s.saveTenant tenant { t with registrationValueEncrypted := encrypted }).unsealed = s.unsealed := by
  have htenants : (s.tenants.update tenant fun _ => { t with registrationValueEncrypted := encrypted }).map
      (fun _ t => t.unsealed) = s.tenants.map fun _ t => t.unsealed := by
    refine Table.map_update fun r hr => ?_
    obtain rfl : t = r := Option.some.inj (h.symm.trans hr)
    rfl
  unfold World.unsealed World.saveTenant
  rw [htenants]

/-- `_apply_business_identity`, as far as it settles the registration. -/
def IdentitySettled (host : Host B Page) (tenant : UUID) (product : Option ProductCode)
    (identity : Option BusinessIdentity) (s : World B) : Prop :=
  ∀ i, identity = some i → (ProductCode.normalize product).isBusiness = true →
    let cnpj := i.taxIds.find? fun taxId => taxId.type = "br_cnpj"
    RegistrationSettled host tenant i.name (cnpj.map TaxId.value) (cnpj.map TaxId.id) s

theorem ends_applyBusinessIdentity {product : Option ProductCode} {identity : Option BusinessIdentity} {u : Unit}
    (h : (applyBusinessIdentity host tenant product identity).Ends s u s') :
    IdentitySettled host tenant product identity s' := by
  rintro i rfl hproduct
  unfold applyBusinessIdentity at h
  simp only [hproduct, if_true] at h
  obtain ⟨_, t, happly, ⟨-, rfl⟩⟩ := Code.ends_bind.1 h
  exact ends_applyBillingBusinessIdentity happly

theorem IdentitySettled.ends {product : Option ProductCode} {identity : Option BusinessIdentity}
    (h : IdentitySettled host tenant product identity s) (cipher : String → String) :
    ∃ s', (applyBusinessIdentity (host.resealing cipher) tenant product identity).Ends s () s' ∧
      (s' = s ∨ ∃ t encrypted, s.tenants.get? tenant = some t ∧
        s' = s.saveTenant tenant { t with registrationValueEncrypted := encrypted }) := by
  cases identity with
  | none => exact ⟨s, ⟨rfl, rfl⟩, Or.inl rfl⟩
  | some i =>
      by_cases hproduct : (ProductCode.normalize product).isBusiness = true
      · obtain ⟨status, t, encrypted, ht, happly⟩ := (h i rfl hproduct).ends cipher
        refine ⟨_, ?_, Or.inr ⟨t, encrypted, ht, rfl⟩⟩
        unfold applyBusinessIdentity
        simp only [hproduct, if_true]
        exact Code.ends_seq happly ⟨rfl, rfl⟩
      · refine ⟨s, ?_, Or.inl rfl⟩
        unfold applyBusinessIdentity
        simp only [hproduct]
        exact ⟨rfl, rfl⟩

/-! ## The team -/

theorem memberLimit_of_row {a : BillingAccount} (hrow : s.accounts.get? tenant = some a)
    (hthere : a.deletedAt = none) : s.memberLimit tenant (some a) = a.memberLimit s.clock := by
  unfold World.memberLimit World.liveAccount
  rw [hrow, Option.filter_some_pos (by simp [hthere])]
  rfl

theorem memberLimit_eq_one {a : BillingAccount} (h : a.memberLimit s.clock = some 1) :
    s.memberLimit tenant (some a) = some 1 := by
  unfold World.memberLimit
  cases s.liveAccount tenant with
  | none => rfl
  | some b => exact h

/-! ## All of it -/

/-- What an event changes is as the event would make it; `a` is the account. -/
structure Settled (host : Host B Page) (cfg : BillingSettings) (tenant : UUID) (c : EventCall) (applied : Bool)
    (a : BillingAccount) (s : World B) : Prop where
  row : s.accounts.get? tenant = some a
  there : a.deletedAt = none
  account : a.applyEvent cfg s.clock c.type c.resource c.eventCreatedAt = (a, applied)
  payment : c.type.isInvoice = true → PaymentSettled c.event s
  identity : c.type.bringsIdentity applied = true →
    IdentitySettled host tenant a.currentProductCode c.businessIdentity s
  team : (c.type.isSubscription && applied) = true → a.memberLimit s.clock = some 1 → TeamSettled tenant s

/-- The flush of an object on the row it was loaded from leaves the object's columns there. -/
theorem ends_flushAccount {object : AccountObject} {u : Unit}
    (hrow : s.accounts.get? tenant = some object.loaded)
    (h : (flushAccount tenant object : Tx B BillingPoint Unit).Ends s u s') :
    s'.accounts.get? tenant = some object.value ∧
      s' = s.updateAccount tenant (.flush object.loaded object.value) := by
  obtain ⟨_, t, hclaim, h⟩ := Code.ends_bind.1 h
  obtain ⟨-, rfl⟩ := ends_claimChanged.1 hclaim
  obtain ⟨_, t, hclaim, h⟩ := Code.ends_bind.1 h
  obtain ⟨-, rfl⟩ := ends_claimChanged.1 hclaim
  obtain rfl := Code.ends_write.1 h
  refine ⟨?_, rfl⟩
  show (s.accounts.update tenant _).get? tenant = _
  rw [Table.get?_update_self, hrow, Option.map_some, BillingAccount.flush_loaded]

theorem ends_flushAccount_self {a : BillingAccount} (hrow : s.accounts.get? tenant = some a) :
    (flushAccount tenant ⟨a, a⟩ : Tx B BillingPoint Unit).Ends s () s := by
  refine Code.ends_seq (a := ()) (ends_claimChanged_self _ _ _ _)
    (Code.ends_seq (a := ()) (ends_claimChanged_self _ _ _ _) (Code.ends_write.2 ?_))
  unfold World.updateAccount
  rw [Table.update_eq_self]
  intro r hr
  obtain rfl : a = r := Option.some.inj (hrow.symm.trans hr)
  exact BillingAccount.flush_loaded a a

/-- **What an event leaves.** An event leaves settled what it changes. -/
theorem ends_applyEventIn {held : Option AccountObject} {applied : Bool}
    (hheld : ∀ o, held = some o → Shows tenant o s)
    (h : (applyEventIn host cfg tenant c held).Ends s applied s') :
    ∃ a, Settled host cfg tenant c applied a s' := by
  have h := Code.ends_selectLocking_bind.1 h
  obtain ⟨object, t, haccount, h⟩ := Code.ends_bind.1 h
  obtain ⟨hrow, hvalue⟩ := ends_accountEntity hheld haccount
  have h := Code.ends_select_bind.1 h
  obtain ⟨_, t1, hpayment, h⟩ := Code.ends_bind.1 h
  obtain ⟨_, t2, hidentity, h⟩ := Code.ends_bind.1 h
  obtain ⟨_, t3, hteam, h⟩ := Code.ends_bind.1 h
  obtain ⟨_, t4, hflush, ⟨happlied, rfl⟩⟩ := Code.ends_bind.1 h
  -- What each statement leaves to the ones behind it.
  have hframe1 := hpayment.keeps (g := fun w => (w.accounts, w.clock))
    (Code.local_onlyIf _ fun _ => local_recordPaymentOf (fun _ _ _ => rfl) (fun _ _ _ => rfl) _ _)
  have hframe2 := hidentity.keeps (g := fun w => (w.accounts, w.clock, w.payments))
    (Code.local_onlyIf _ fun _ => local_applyBusinessIdentity _ (fun _ _ => rfl) (fun _ _ _ => rfl) _ _ _)
  have hframe3 := hteam.keeps (g := fun w => (w.accounts, w.clock, w.payments, w.tenants))
    (Code.local_onlyIf _ fun _ => Code.local_bind
      (local_reconcileKeeping _ (fun _ _ => rfl) (fun _ _ => rfl) _ _) fun _ => Code.local_pure _)
  simp only [Prod.mk.injEq] at hframe1 hframe2 hframe3
  obtain ⟨haccounts1, hclock1⟩ := hframe1
  obtain ⟨haccounts2, hclock2, hpayments2⟩ := hframe2
  obtain ⟨haccounts3, hclock3, hpayments3, htenants3⟩ := hframe3
  obtain ⟨hrow4, rfl⟩ := ends_flushAccount (by rw [haccounts3, haccounts2, haccounts1, hrow]) hflush
  have hclock : t3.clock = t.clock := by rw [hclock3, hclock2, hclock1]
  refine ⟨_, hrow4, ?_, ?_, fun hinvoice => ?_, fun hbrings => ?_, fun hsubscription hlimit => ?_⟩
  · rw [BillingAccount.applyEvent_deletedAt, hvalue]
  · show BillingAccount.applyEvent cfg t3.clock _ _ _ _ = _
    rw [hclock, BillingAccount.applyEvent_again, ← happlied]
  · obtain ⟨invoice, p, hpresent, hp, hrecord⟩ := ends_recordPaymentOf ((Code.ends_onlyIf.1 hpayment).1 hinvoice)
    exact ⟨invoice, p, hpresent, by rw [← hp, ← hpayments2, ← hpayments3]; rfl, hrecord⟩
  · rw [← happlied] at hbrings
    intro i hi hproduct
    exact (ends_applyBusinessIdentity ((Code.ends_onlyIf.1 hidentity).1 hbrings) i hi hproduct).congr htenants3
  · rw [← happlied] at hsubscription
    obtain ⟨-, hsettled⟩ := (ends_reconcileSingleMemberPlan host t2 tenant _).unique
      ((Code.ends_onlyIf.1 hteam).1 hsubscription)
    have hone : t2.memberLimit tenant _ = some 1 := memberLimit_eq_one (hclock3 ▸ hlimit)
    exact TeamSettled.congr (hsettled ▸ settled_reconciled hone) rfl

/-- **An event on what is settled for it.** Nothing changes but the ciphertext. -/
theorem Settled.ends {applied : Bool} {a : BillingAccount} {held : Option AccountObject}
    (h : Settled host cfg tenant c applied a s) (hheld : ∀ o, held = some o → o = ⟨a, a⟩)
    (cipher : String → String) :
    ∃ s', (applyEventIn (host.resealing cipher) cfg tenant c held).Ends s applied s' ∧
      s'.unsealed = s.unsealed := by
  have hidentity : ∃ t, (Code.onlyIf (c.type.bringsIdentity applied = true) (applyBusinessIdentity
      (host.resealing cipher) tenant a.currentProductCode c.businessIdentity)).Ends s () t ∧
      (t = s ∨ ∃ row encrypted, s.tenants.get? tenant = some row ∧
        t = s.saveTenant tenant { row with registrationValueEncrypted := encrypted }) := by
    by_cases hbrings : c.type.bringsIdentity applied = true
    · obtain ⟨t, ht, hsame⟩ := (h.identity hbrings).ends cipher
      exact ⟨t, Code.ends_onlyIf.2 ⟨fun _ => ht, fun hnot => absurd hbrings hnot⟩, hsame⟩
    · exact ⟨s, Code.ends_onlyIf.2 ⟨fun hb => absurd hb hbrings, fun _ => rfl⟩, Or.inl rfl⟩
  obtain ⟨t, ht, hsame⟩ := hidentity
  obtain ⟨haccounts, hclock, hmembers⟩ : t.accounts = s.accounts ∧ t.clock = s.clock ∧ t.members = s.members := by
    obtain rfl | ⟨row, encrypted, -, rfl⟩ := hsame <;> exact ⟨rfl, rfl, rfl⟩
  refine ⟨t, Code.ends_selectLocking_bind.2 ?_, ?_⟩
  · refine Code.ends_seq (ends_accountEntity_some h.row h.there hheld) (Code.ends_select_bind.2 ?_)
    simp only [h.account]
    refine Code.ends_seq (a := ()) (Code.ends_onlyIf.2 ⟨fun hinvoice => (h.payment hinvoice).ends, fun _ => rfl⟩) ?_
    refine Code.ends_seq ht (Code.ends_seq (a := ()) (Code.ends_onlyIf.2 ⟨fun hsubscription => ?_, fun _ => rfl⟩)
      (Code.ends_seq (ends_flushAccount_self ?_) ⟨rfl, rfl⟩))
    · have hstays : t.reconciled (host.resealing cipher) tenant (some a) = t := by
        refine reconciled_of_settled fun hlimit => ?_
        rw [memberLimit_of_row (haccounts ▸ h.row) h.there] at hlimit
        exact (h.team hsubscription (hclock ▸ hlimit)).congr hmembers
      have hends : (reconcileSingleMemberPlan (host.resealing cipher) tenant (some a) : Tx B BillingPoint Unit).Ends
          t () _ := ends_reconcileSingleMemberPlan _ t tenant (some a)
      rwa [hstays] at hends
    · rw [haccounts, h.row]
  · obtain rfl | ⟨row, encrypted, hrow, rfl⟩ := hsame
    · rfl
    · exact unsealed_saveTenant hrow

theorem ends_heldAccount {loads : Bool} {held : Option AccountObject}
    (h : (heldAccount tenant loads : Tx B BillingPoint _).Ends s held s') :
    ∀ o, held = some o → Shows tenant o s' := by
  unfold heldAccount at h
  cases loads with
  | false =>
      obtain ⟨rfl, rfl⟩ := h
      simp
  | true =>
      have h := Code.ends_select_bind.1 h
      obtain ⟨object, t, haccount, ⟨rfl, rfl⟩⟩ := Code.ends_bind.1 h
      rintro o ⟨⟩
      exact ends_accountEntity (by simp) haccount

theorem Settled.held {applied : Bool} {a : BillingAccount} (h : Settled host cfg tenant c applied a s)
    (loads : Bool) :
    ∃ held, (heldAccount tenant loads : Tx B BillingPoint _).Ends s held s ∧ ∀ o, held = some o → o = ⟨a, a⟩ := by
  cases loads with
  | false => exact ⟨none, ⟨rfl, rfl⟩, by simp⟩
  | true =>
      refine ⟨some ⟨a, a⟩, Code.ends_select_bind.2 (Code.ends_seq ?_ ⟨rfl, rfl⟩), by simp⟩
      exact ends_accountEntity_some h.row h.there (by simp)

theorem local_applyEventFor (tenant : Option UUID) (loads : Bool) :
    (applyEventFor host cfg tenant c loads).Local fun _ => True := by
  cases tenant with
  | none => exact Code.local_pure _
  | some t =>
      have hheld : (heldAccount t loads : Tx B BillingPoint _).Local fun _ => True :=
        Code.local_ite (Code.local_bind (local_query _) fun _ =>
          Code.local_bind (local_accountEntity (fun _ => trivial) _ _) fun _ => Code.local_pure _) (Code.local_pure _)
      refine Code.local_bind hheld fun held => Code.local_bind (Code.local_selectLocking _ _ _ _) fun row => ?_
      refine Code.local_bind (local_accountEntity (fun _ => trivial) _ _) fun _ => ?_
      refine Code.local_bind (local_query _) fun _ => ?_
      refine Code.local_bind (Code.local_onlyIf _ fun _ =>
        local_recordPaymentOf (fun _ _ => trivial) (fun _ _ => trivial) _ _) fun _ => ?_
      refine Code.local_bind (Code.local_onlyIf _ fun _ =>
        local_applyBusinessIdentity _ (fun _ => trivial) (fun _ _ => trivial) _ _ _) fun _ => ?_
      refine Code.local_bind (Code.local_onlyIf _ fun _ => Code.local_bind
        (local_reconcileKeeping _ (fun _ => trivial) (fun _ => trivial) _ _) fun _ => Code.local_pure _) fun _ => ?_
      exact Code.local_bind (local_flushAccount (fun _ => trivial) _) fun _ => Code.local_pure _

theorem local_onceBody (tenant : Option UUID) (loads : Bool) :
    (applyEventFor host cfg tenant c loads >>= fun applied => pure (applied, BillingPoint.plain)).Local
      fun _ => True :=
  Code.local_bind (local_applyEventFor tenant loads) fun _ => Code.local_pure _

/-- **Applied again.** A second transaction that applies an event, at the same clock, is committed too, and
    reports the same. It leaves the account, the payments, the members, the tenants and the audit events as
    the first one has left them, but for the ciphertext of the registration. -/
theorem apply_event_again {tenant : Option UUID} {loads applied : Bool}
    (h : (applyEventOnce host cfg tenant c loads).alone id s = ⟨.ok applied, id, s'⟩) (loads' : Bool)
    (cipher : String → String) :
    ∃ t, (applyEventOnce (host.resealing cipher) cfg tenant c loads').alone id s' = ⟨.ok applied, id, t⟩ ∧
      t.unsealed = s'.unsealed := by
  obtain ⟨pt, hbody⟩ := (Code.alone_transaction_iff (local_onceBody tenant loads)).1 h
  have hends : (applyEventFor host cfg tenant c loads).Ends s applied s' := by
    obtain ⟨_, _, hends, ⟨happlied, rfl⟩⟩ := Code.ends_bind.1 hbody
    obtain ⟨rfl, -⟩ := Prod.mk.inj happlied
    exact hends
  have hagain : ∃ t, (applyEventFor (host.resealing cipher) cfg tenant c loads').Ends s' applied t ∧
      t.unsealed = s'.unsealed := by
    cases tenant with
    | none =>
        obtain ⟨rfl, -⟩ := hends
        exact ⟨s', ⟨rfl, rfl⟩, rfl⟩
    | some tenant =>
        obtain ⟨held, _, hheld, hends⟩ := Code.ends_bind.1 hends
        obtain ⟨a, hsettled⟩ := ends_applyEventIn (ends_heldAccount hheld) hends
        obtain ⟨held', hheld', hobject⟩ := hsettled.held loads'
        obtain ⟨t, ht, hsame⟩ := hsettled.ends hobject cipher
        exact ⟨t, Code.ends_seq hheld' ht, hsame⟩
  obtain ⟨t, ht, hsame⟩ := hagain
  exact ⟨t, (Code.alone_transaction_iff (local_onceBody tenant loads')).2
    ⟨.plain, Code.ends_seq ht ⟨rfl, rfl⟩⟩, hsame⟩

/-- A subscription of a business plan, for a tenant that is not a business yet. -/
def upgradeCall : EventCall where
  type := .customerSubscription .updated
  resource := { Resource.empty with
    id := some "sub_1",
    metadataProductCode := some "rubrica_intermediate",
    status := some .active }
  eventCreatedAt := some 10
  providerEventId := "evt_1"
  businessIdentity := some ⟨some "Acme", [⟨"txi_1", "br_cnpj", "11222333000181"⟩]⟩

/-- The upgrade makes tenant 1 a business, and then is applied again. -/
theorem apply_event_again_upgrade :
    ∃ s t, (applyEventOnce sampleHost .default (some 1) upgradeCall false).alone id oneTenant.shared =
        ⟨.ok true, id, s⟩ ∧ (s.tenants.get? 1).map Tenant.kind = some .business ∧
      (applyEventOnce (sampleHost.resealing fun _ => "drawn anew") .default (some 1) upgradeCall true).alone id s =
        ⟨.ok true, id, t⟩ ∧ t.unsealed = s.unsealed := by
  have hresult : (applyEventOnce sampleHost .default (some 1) upgradeCall false).result id oneTenant.shared =
      .ok true := by decide +kernel
  have hkind : ((((applyEventOnce sampleHost .default (some 1) upgradeCall false).alone id
      oneTenant.shared).shared).tenants.get? 1).map Tenant.kind = some .business := by decide +kernel
  obtain ⟨s, h⟩ : ∃ s, (applyEventOnce sampleHost .default (some 1) upgradeCall false).alone id oneTenant.shared =
      ⟨.ok true, id, s⟩ := Code.exists_alone_transaction (local_onceBody (some 1) false) hresult
  rw [h] at hkind
  obtain ⟨t, ht, hsame⟩ := apply_event_again h true fun _ => "drawn anew"
  exact ⟨s, t, h, hkind, ht, hsame⟩

end Rubrica
