import Rubrica.Billing.Account
import Rubrica.Transactions.Table

set_option autoImplicit false

/-! # Provider events

What a Stripe event carries, and what `_apply_event` does to the account of its tenant and to the
payments ledger. -/

namespace Rubrica

open Transactions

/-! ## Resources -/

/-- The status of a provider subscription. -/
inductive ProviderStatus where
  | active
  | trialing
  | pastDue
  | incomplete
  | unpaid
  | canceled
  | incompleteExpired
  | paused
  | other (text : String)
  deriving DecidableEq, Repr

inductive SubscriptionChange where
  | created
  | updated
  | other (text : String)
  deriving DecidableEq, Repr

inductive EventType where
  | checkoutSessionCompleted
  | customerSubscription (change : SubscriptionChange)
  | invoicePaymentSucceeded
  | invoicePaymentFailed
  | other (text : String)
  deriving DecidableEq, Repr

/-- An item of a subscription: the identifier of its price or plan, and its period. -/
structure SubscriptionItem where
  priceId : Option String
  currentPeriodStart : Option Int
  currentPeriodEnd : Option Int
  deriving DecidableEq, Repr

/-- `event["data"]["object"]`: a checkout session, a subscription or an invoice, with the fields the
    service reads. Timestamps are in seconds. -/
structure Resource where
  id : Option String
  customer : Option String
  subscription : Option String
  parentSubscription : Option String
  metadataTenantId : Option String
  clientReferenceId : Option String
  metadataProductCode : Option String
  items : List SubscriptionItem
  status : Option ProviderStatus
  cancelAtPeriodEnd : Bool
  cancelAt : Option Int
  currentPeriodStart : Option Int
  currentPeriodEnd : Option Int
  billingReason : Option String
  currency : Option String
  amountDue : Option Int
  amountPaid : Option Int
  linePeriods : List (Option Int × Option Int)
  periodStart : Option Int
  periodEnd : Option Int
  paidAt : Option Int
  deriving DecidableEq, Repr

/-- A resource without any field. -/
def Resource.empty : Resource where
  id := none
  customer := none
  subscription := none
  parentSubscription := none
  metadataTenantId := none
  clientReferenceId := none
  metadataProductCode := none
  items := []
  status := none
  cancelAtPeriodEnd := false
  cancelAt := none
  currentPeriodStart := none
  currentPeriodEnd := none
  billingReason := none
  currency := none
  amountDue := none
  amountPaid := none
  linePeriods := []
  periodStart := none
  periodEnd := none
  paidAt := none

structure TaxId where
  id : String
  type : String
  value : String
  deriving DecidableEq, Repr

/-- `ProviderBusinessIdentity`. -/
structure BusinessIdentity where
  name : Option String
  taxIds : List TaxId
  deriving DecidableEq, Repr

/-- The text, where it is there and not empty. -/
def present (s : Option String) : Option String :=
  s.filter fun t => t ≠ ""

/-- The number, where it is there and not zero. -/
def presentNumber (n : Option Int) : Option Int :=
  n.filter fun m => m ≠ 0

/-- `_timestamp`. -/
def timestamp (seconds : Option Int) : Option Int :=
  (presentNumber seconds).map fun n => n * 1000000

namespace Resource

/-- `_subscription_price_id`. -/
def subscriptionPriceId (r : Resource) : Option String :=
  r.items.findSome? fun item => present item.priceId

/-- `_product_code`. -/
def productCode (cfg : BillingSettings) (r : Resource) : ProductCode :=
  match r.subscriptionPriceId.bind cfg.productOfPrice with
  | some code => code
  | none => ProductCode.normalize (r.metadataProductCode.bind ProductCode.ofText)

/-- `_subscription_period`. -/
def subscriptionPeriod (r : Resource) : Option Int × Option Int :=
  let start := presentNumber r.currentPeriodStart
  let stop := presentNumber r.currentPeriodEnd
  match r.items with
  | [] => (timestamp start, timestamp stop)
  | item :: _ =>
      (timestamp (start.or item.currentPeriodStart), timestamp (stop.or item.currentPeriodEnd))

/-- `_invoice_service_period`: the first line with a whole period, else the invoice's own. -/
def invoiceServicePeriod (r : Resource) : Option Int × Option Int :=
  match r.linePeriods.find? fun p => (presentNumber p.1).isSome && (presentNumber p.2).isSome with
  | some p => (timestamp p.1, timestamp p.2)
  | none => (timestamp r.periodStart, timestamp r.periodEnd)

/-- `_subscription_status`. -/
def subscriptionStatus (r : Resource) : AccountStatus :=
  match r.status with
  | some .active => .active
  | some .trialing => .active
  | some .pastDue => .pastDue
  | some .incomplete => .pastDue
  | some .unpaid => .unpaid
  | some .canceled => .cancelled
  | some .incompleteExpired => .cancelled
  | some .paused => .paused
  | _ => .notConfigured

/-- A subscription never reads as a checkout that waits for its subscription. -/
theorem subscriptionStatus_ne_pending (r : Resource) : r.subscriptionStatus ≠ .pending := by
  unfold subscriptionStatus
  split <;> simp

end Resource

/-! ## The account -/

namespace BillingAccount

/-- `_sync_usage_period`. -/
def syncUsagePeriod (a : BillingAccount) (period : Option Int × Option Int) (resetUsage : Bool) :
    BillingAccount :=
  let a := { a with currentPeriodEndsAt := period.2.or a.currentPeriodEndsAt }
  match period.1, a.usagePeriodStartsAt with
  | none, _ => a
  | some start, none => { a with usagePeriodStartsAt := some start }
  | some start, some current =>
      if resetUsage ∧ current < start then
        { a with filesUploadedInPeriod := 0, usagePeriodStartsAt := some start }
      else a

/-- The row `_account_entity` works on: a new one, or the tenant's own, no longer deleted. -/
def entity : Option BillingAccount → BillingAccount
  | none => created
  | some a => { a with deletedAt := none }

/-- What every event does first: the provider, and the customer when the event names one. -/
def touch (r : Resource) (a : BillingAccount) : BillingAccount :=
  { a with
    provider := some "stripe",
    providerCustomerId := (present r.customer).or a.providerCustomerId }

/-- `checkout.session.completed`. -/
def applyCheckout (cfg : BillingSettings) (r : Resource) (a : BillingAccount) : BillingAccount :=
  { a with
    providerSubscriptionId := present r.subscription,
    currentProductCode := some (r.productCode cfg),
    status := if a.status = .active then .active else .pending }

/-- `invoice.payment_succeeded`. -/
def applyPaymentSucceeded (r : Resource) (a : BillingAccount) : BillingAccount :=
  { a with status := .active, gracePeriodEndsAt := none }.syncUsagePeriod r.invoiceServicePeriod
    (r.billingReason = some "subscription_cycle")

/-- `invoice.payment_failed`. -/
def applyPaymentFailed (cfg : BillingSettings) (now : Int) (a : BillingAccount) : BillingAccount :=
  if a.status ≠ .pastDue ∨ a.gracePeriodEndsAt = none then
    { a with status := .pastDue, gracePeriodEndsAt := some (now + cfg.gracePeriod) }
  else a

/-- Is an event older than the newest subscription event the account has seen? -/
def isStale (a : BillingAccount) (created : Option Int) : Bool :=
  match created, a.lastProviderEventCreatedAt with
  | some t, some last => t < last
  | _, _ => false

/-- The end of the tolerance after a subscription with the given status. -/
def graceAfter (cfg : BillingSettings) (now : Int) (status : AccountStatus) (grace : Option Int) :
    Option Int :=
  match status with
  | .pastDue => if grace = none then some (now + cfg.gracePeriod) else grace
  | .active | .cancelled | .unpaid | .paused => none
  | _ => grace

theorem graceAfter_pastDue (cfg : BillingSettings) (now : Int) (grace : Option Int) :
    graceAfter cfg now .pastDue grace = some (grace.getD (now + cfg.gracePeriod)) := by
  cases grace <;> simp [graceAfter]

/-- What a subscription that is not stale sets, the period apart. -/
def setTerms (cfg : BillingSettings) (now : Int) (r : Resource) (created : Option Int)
    (a : BillingAccount) : BillingAccount :=
  { a with
    providerSubscriptionId := some (r.id.getD "None"),
    currentProductCode := some (r.productCode cfg),
    status := r.subscriptionStatus,
    gracePeriodEndsAt := graceAfter cfg now r.subscriptionStatus a.gracePeriodEndsAt,
    lastProviderEventCreatedAt := created.or a.lastProviderEventCreatedAt,
    cancelAtPeriodEnd := r.cancelAtPeriodEnd,
    cancelsAt :=
      if r.cancelAtPeriodEnd then (timestamp r.cancelAt).or r.subscriptionPeriod.2 else none }

/-- `customer.subscription.*`, when it is not stale. -/
def applySubscription (cfg : BillingSettings) (now : Int) (r : Resource) (created : Option Int)
    (a : BillingAccount) : BillingAccount :=
  let a := a.setTerms cfg now r created
  if a.status = .active then a.syncUsagePeriod r.subscriptionPeriod false
  else { a with currentPeriodEndsAt := r.subscriptionPeriod.2.or a.currentPeriodEndsAt }

/-- What `_apply_event` does to the account it has loaded, and whether it reports the event as
    applied. -/
def applyEvent (cfg : BillingSettings) (now : Int) (type : EventType) (r : Resource)
    (created : Option Int) (a : BillingAccount) : BillingAccount × Bool :=
  let a := a.touch r
  match type with
  | .checkoutSessionCompleted => (a.applyCheckout cfg r, true)
  | .invoicePaymentSucceeded => (a.applyPaymentSucceeded r, true)
  | .invoicePaymentFailed => (a.applyPaymentFailed cfg now, true)
  | .customerSubscription _ =>
      if a.isStale created then (a, false) else (a.applySubscription cfg now r created, true)
  | .other _ => (a, true)

end BillingAccount

/-! ## The payments ledger -/

inductive PaymentStatus where
  | pending
  | paid
  | failed
  deriving DecidableEq, Repr

/-- A row of `billing_payments`, under the provider's identifier of the invoice. -/
structure BillingPayment where
  tenantId : UUID
  providerSubscriptionId : Option String
  providerEventId : String
  status : PaymentStatus
  currency : String
  amountDueMinor : Int
  amountPaidMinor : Int
  periodStartsAt : Option Int
  periodEndsAt : Option Int
  paidAt : Option Int
  deriving DecidableEq, Repr

/-- The row `_record_payment` adds for an invoice it has not seen. -/
def BillingPayment.created (tenantId : UUID) (eventId : String) : BillingPayment where
  tenantId := tenantId
  providerSubscriptionId := none
  providerEventId := eventId
  status := .pending
  currency := "USD"
  amountDueMinor := 0
  amountPaidMinor := 0
  periodStartsAt := none
  periodEndsAt := none
  paidAt := none

/-- What `_record_payment` writes on a row, the tenant apart. -/
def BillingPayment.record (eventId : String) (type : EventType) (r : Resource) (p : BillingPayment) :
    BillingPayment :=
  { p with
    providerSubscriptionId := (present r.subscription).or (present r.parentSubscription),
    providerEventId := eventId,
    status := if type = .invoicePaymentSucceeded then .paid else .failed,
    currency := (r.currency.getD "USD").toUpper,
    amountDueMinor := r.amountDue.getD 0,
    amountPaidMinor := r.amountPaid.getD 0,
    periodStartsAt := r.invoiceServicePeriod.1,
    periodEndsAt := r.invoiceServicePeriod.2,
    paidAt := timestamp r.paidAt }

/-- `_record_payment` on the ledger, for an invoice with an identifier. -/
def recordPayment (tenantId : UUID) (eventId : String) (type : EventType) (r : Resource)
    (invoice : String) (t : Table String BillingPayment) : Table String BillingPayment :=
  (t.insert invoice (.created tenantId eventId)).update invoice (.record eventId type r)

end Rubrica
