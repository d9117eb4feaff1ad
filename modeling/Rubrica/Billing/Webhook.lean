import Rubrica.Billing.DeliveryOrder
import Rubrica.Tenants

set_option autoImplicit false

/-! # Webhook deliveries

`receive_webhook`, statement by statement. A delivery verifies the payload, looks for the event's row,
adds it where there is none, applies the event under a lock on that row, and marks the row as failed
when applying raised: four transactions, between which other deliveries run. -/

namespace Rubrica

open Transactions

/-! ## Points -/

/-- Where in a delivery a statement stands. -/
inductive BillingPoint where
  /-- A statement without a name. -/
  | plain
  /-- Takes the entry of the event's identifier in the unique index. -/
  | inserting (event : String)
  /-- Checks the foreign key of the event's row. -/
  | referencing (event : String) (tenant : UUID)
  /-- Commits the event's row. -/
  | received (event : String)
  /-- Locks the account, of which the session holds an object loaded before. -/
  | lockingAccount (tenant : UUID) (loaded : BillingAccount)
  /-- Commits the effect of the event on the tenant's account. -/
  | settled (event : BillingEvent) (tenant : Option UUID)
  /-- Commits that applying the event failed. -/
  | marked (event : String)

instance : Unmarked BillingPoint := ⟨.plain⟩

/-- `BillingProvider`, as far as webhooks use it. -/
structure BillingProvider (B : Type) where
  /-- `construct_webhook_event`, of a payload and its signature. -/
  constructWebhookEvent : B → String → Except ProviderRefusal ProviderEvent
  /-- `retrieve_customer_business_identity`, or the text of the provider's error. -/
  retrieveCustomerBusinessIdentity : String → Except String BusinessIdentity

/-- `BillingWebhookRead`. -/
structure WebhookRead where
  duplicate : Bool
  deriving DecidableEq, Repr

/-! ## Account objects -/

/-- What `UPDATE` makes of the account's row, for an object that was loaded and then changed. -/
def BillingAccount.flush (loaded value row : BillingAccount) : BillingAccount where
  status := written loaded.status value.status row.status
  provider := written loaded.provider value.provider row.provider
  providerCustomerId :=
    written loaded.providerCustomerId value.providerCustomerId row.providerCustomerId
  providerSubscriptionId :=
    written loaded.providerSubscriptionId value.providerSubscriptionId row.providerSubscriptionId
  currentProductCode :=
    written loaded.currentProductCode value.currentProductCode row.currentProductCode
  currentPeriodEndsAt :=
    written loaded.currentPeriodEndsAt value.currentPeriodEndsAt row.currentPeriodEndsAt
  cancelAtPeriodEnd := written loaded.cancelAtPeriodEnd value.cancelAtPeriodEnd row.cancelAtPeriodEnd
  cancelsAt := written loaded.cancelsAt value.cancelsAt row.cancelsAt
  gracePeriodEndsAt := written loaded.gracePeriodEndsAt value.gracePeriodEndsAt row.gracePeriodEndsAt
  lastProviderEventCreatedAt :=
    written loaded.lastProviderEventCreatedAt value.lastProviderEventCreatedAt
      row.lastProviderEventCreatedAt
  freeSignaturesLimit :=
    written loaded.freeSignaturesLimit value.freeSignaturesLimit row.freeSignaturesLimit
  signaturesUsed := written loaded.signaturesUsed value.signaturesUsed row.signaturesUsed
  filesUploadedInPeriod :=
    written loaded.filesUploadedInPeriod value.filesUploadedInPeriod row.filesUploadedInPeriod
  usagePeriodStartsAt :=
    written loaded.usagePeriodStartsAt value.usagePeriodStartsAt row.usagePeriodStartsAt
  complimentaryLifetime :=
    written loaded.complimentaryLifetime value.complimentaryLifetime row.complimentaryLifetime
  deletedAt := written loaded.deletedAt value.deletedAt row.deletedAt

/-- What `UPDATE` makes of a payment's row. -/
def BillingPayment.flush (loaded value row : BillingPayment) : BillingPayment where
  tenantId := row.tenantId
  providerSubscriptionId :=
    written loaded.providerSubscriptionId value.providerSubscriptionId row.providerSubscriptionId
  providerEventId := written loaded.providerEventId value.providerEventId row.providerEventId
  status := written loaded.status value.status row.status
  currency := written loaded.currency value.currency row.currency
  amountDueMinor := written loaded.amountDueMinor value.amountDueMinor row.amountDueMinor
  amountPaidMinor := written loaded.amountPaidMinor value.amountPaidMinor row.amountPaidMinor
  periodStartsAt := written loaded.periodStartsAt value.periodStartsAt row.periodStartsAt
  periodEndsAt := written loaded.periodEndsAt value.periodEndsAt row.periodEndsAt
  paidAt := written loaded.paidAt value.paidAt row.paidAt

/-- An account a session holds as an object: its columns when they were loaded, and now. Selecting the
    row again does not load the columns again. -/
structure AccountObject where
  loaded : BillingAccount
  value : BillingAccount
  deriving DecidableEq, Repr

def World.insertAccount {B : Type} (tenant : UUID) (a : BillingAccount) (w : World B) : World B :=
  { w with accounts := w.accounts.insert tenant a }

def World.updateAccount {B : Type} (tenant : UUID) (f : BillingAccount → BillingAccount) (w : World B) :
    World B :=
  { w with accounts := w.accounts.update tenant f }

section Programs

variable {B Page τ : Type} [Unmarked τ] (host : Host B Page)

/-- Add the account of a tenant that has none. -/
def createAccount (tenant : UUID) : Tx B τ AccountObject := do
  claim (.accountOf tenant) fun w => (w.accounts.get? tenant).isSome
  referTo (.tenant tenant) fun w => (w.tenants.get? tenant).isSome
  save (World.insertAccount tenant .created)
  pure ⟨.created, .created⟩

/-- `_account_entity`, once its query has answered: `held` is the object the session has of the row. -/
def accountEntity (tenant : UUID) (held : Option AccountObject) (row : Option BillingAccount) :
    Tx B τ AccountObject :=
  match row with
  | none => createAccount tenant
  | some a =>
      let object := held.getD ⟨a, a⟩
      pure { object with value := { object.value with deletedAt := none } }

/-- The flush of an account object: the unique columns it changes, then the row. -/
def flushAccount (tenant : UUID) (object : AccountObject) : Tx B τ Unit := do
  claimChanged object.loaded.providerCustomerId object.value.providerCustomerId RowKey.customer
    fun c w => w.accounts.any fun t a => t ≠ tenant && a.providerCustomerId = some c
  claimChanged object.loaded.providerSubscriptionId object.value.providerSubscriptionId
    RowKey.subscription
    fun c w => w.accounts.any fun t a => t ≠ tenant && a.providerSubscriptionId = some c
  save (World.updateAccount tenant (.flush object.loaded object.value))

end Programs

section Delivery

variable {B Page : Type} (host : Host B Page) (cfg : BillingSettings)

/-! ## Applying an event -/

/-- `_apply_business_identity`. -/
def applyBusinessIdentity (tenant : UUID) (product : Option ProductCode)
    (identity : Option BusinessIdentity) : Tx B BillingPoint Unit :=
  match identity with
  | none => pure ()
  | some identity =>
    if (ProductCode.normalize product).isBusiness then
      let cnpj := identity.taxIds.find? fun taxId => taxId.type = "br_cnpj"
      applyBillingBusinessIdentity host tenant identity.name (cnpj.map TaxId.value) (cnpj.map TaxId.id) >>=
        fun _ => pure ()
    else pure ()

def World.insertPayment (invoice : String) (p : BillingPayment) (w : World B) : World B :=
  { w with payments := w.payments.insert invoice p }

def World.updatePayment (invoice : String) (f : BillingPayment → BillingPayment) (w : World B) :
    World B :=
  { w with payments := w.payments.update invoice f }

/-- `_record_payment`. -/
def recordPaymentOf (tenant : UUID) (e : BillingEvent) : Tx B BillingPoint Unit := do
  let invoice ← Code.orRaise (present e.resource.id) (.error "Stripe invoice does not include an id" 422)
  let found ← query fun w => w.payments.get? invoice
  match found with
  | none => do
    claim (.payment invoice) fun w => (w.payments.get? invoice).isSome
    referTo (.tenant tenant) fun w => (w.tenants.get? tenant).isSome
    save (World.insertPayment invoice
      ((BillingPayment.created tenant e.id).record e.id e.type e.resource))
  | some p => save (World.updatePayment invoice (.flush p (p.record e.id e.type e.resource)))

/-- `event_type.startswith("customer.subscription.")`. -/
def EventType.isSubscription : EventType → Bool
  | .customerSubscription _ => true
  | _ => false

/-- Does an event that was applied, or was stale, bring a business identity? -/
def EventType.bringsIdentity (type : EventType) (applied : Bool) : Bool :=
  match type with
  | .checkoutSessionCompleted => true
  | .customerSubscription _ => applied
  | _ => false

/-- `_apply_event` for a tenant: what it changes besides the account, then the account; whether it
    reports the event as applied. `held` is the object the session has of the account. -/
def applyEventTo (tenant : UUID) (e : BillingEvent) (identity : Option BusinessIdentity)
    (held : AccountObject) : Tx B BillingPoint Bool := do
  let row ← Code.selectLocking (.lockingAccount tenant held.loaded) .exclusive
    (fun w : World B => (w.accounts.get? tenant).map fun _ => .account tenant)
    (fun w => w.accounts.get? tenant)
  let account ← accountEntity tenant (some held) row
  let now ← utcNow
  let result := account.value.applyEvent cfg now e.type e.resource (some e.createdAt)
  Code.onlyIf e.type.isInvoice (recordPaymentOf tenant e)
  Code.onlyIf (e.type.bringsIdentity result.2)
    (applyBusinessIdentity host tenant result.1.currentProductCode identity)
  Code.onlyIf (e.type.isSubscription && result.2)
    (reconcileSingleMemberPlan host tenant (some result.1))
  flushAccount tenant ⟨account.loaded, result.1⟩
  pure result.2

/-- `_notify_billing_event` reads the tenant and its administrators. What it sends leaves no trace
    here, and an e-mail that cannot be delivered changes nothing. -/
def notifyBillingEvent (tenant : UUID) : Tx B BillingPoint Unit := do
  let _ ← query fun w : World B => w.tenants.get? tenant
  let _ ← query fun w : World B => w.members.select fun _ m =>
    m.tenantId = tenant && m.role = .admin && m.deletedAt.isNone
  pure ()

/-- The effect of an event on its tenant, if it has one. -/
def applyToTenant (tenant : Option UUID) (e : BillingEvent) (identity : Option BusinessIdentity) :
    Tx B BillingPoint Bool :=
  match tenant with
  | none => pure true
  | some t => do
    -- `previous_account`, which the session holds from here on.
    let row ← query fun w => w.accounts.get? t
    let previous ← accountEntity t none row
    let applied ← applyEventTo host cfg t e identity previous
    Code.onlyIf applied (notifyBillingEvent t)
    pure applied

def World.updateEvent (id : String) (f : BillingEventRow → BillingEventRow) (w : World B) : World B :=
  { w with events := w.events.update id f }

def World.insertEvent (id : String) (row : BillingEventRow) (w : World B) : World B :=
  { w with events := w.events.insert id row }

/-- Lock the row of an event. -/
def lockEvent (id : String) : Tx B BillingPoint (Option BillingEventRow) :=
  queryForUpdate (fun w => (w.events.get? id).map fun _ => .event id) fun w => w.events.get? id

/-- What the row of an event becomes when its effect is written. -/
def BillingEventRow.settle (applied : Bool) (now : Int) (row : BillingEventRow) : BillingEventRow :=
  { row with
    status := if applied then .processed else .ignoredStale,
    processedAt := some now,
    errorCode := none }

/-- The transaction that applies an event under the lock of its row. -/
def applyUnderLock (tenant : Option UUID) (e : BillingEvent) (identity : Option BusinessIdentity) :
    Tx B BillingPoint WebhookRead :=
  Code.transaction .plain do
    let row ← lockEvent e.id
    let row ← Code.orRaise row (.error "Persisted billing event was not found" 500)
    if row.status.isDone then pure (⟨true⟩, .plain)
    else do
      let applied ← applyToTenant host cfg tenant e identity
      let now ← utcNow
      save (World.updateEvent e.id (.settle applied now))
      pure (⟨false⟩, .settled e tenant)

/-- What the row of an event becomes when applying it raised. -/
def BillingEventRow.markFailed (exc : Failure) (row : BillingEventRow) : BillingEventRow :=
  { row with status := .failed, errorCode := some (exc.typeName.take 120).toString }

/-- The transaction that marks an event as failed. -/
def markFailed (id : String) (exc : Failure) : Tx B BillingPoint Unit :=
  Code.transaction .plain do
    let row ← lockEvent id
    match row with
    | none => pure ((), .marked id)
    | some _ => do
      save (World.updateEvent id (.markFailed exc))
      pure ((), .marked id)

/-! ## A delivery -/

def referToTenant (id : String) (tenant : Option UUID) : Tx B BillingPoint Unit :=
  match tenant with
  | none => pure ()
  | some t => referToAt (.referencing id t) (.tenant t) fun w => (w.tenants.get? t).isSome

/-- The transaction that adds the row of an event; whether the event was new. -/
def insertEvent (id : String) (row : BillingEventRow) : Tx B BillingPoint Bool :=
  (Code.transaction .plain do
    claimAt (.inserting id) (.eventEntry id) fun w : World B => (w.events.get? id).isSome
    referToTenant id row.tenantId
    save (World.insertEvent id row)
    pure (true, .received id)).tryCatch fun exc =>
      if exc = .integrity then pure false else .raise exc

/-- Add the row of an event that had none; `false` where another delivery was first. -/
def addIfMissing (existing : Option BillingEventStatus) (id : String) (row : BillingEventRow) :
    Tx B BillingPoint Bool :=
  match existing with
  | none => insertEvent id row
  | some _ => pure true

/-- The tenant an event is for: the one it names, else the one whose account has its customer. -/
def tenantOfEvent (r : Resource) : Tx B BillingPoint (Option UUID) :=
  match ((present r.metadataTenantId).or (present r.clientReferenceId)).bind host.parseUuid with
  | some t => pure (some t)
  | none =>
    match present r.customer with
    | none => pure none
    | some customer => query fun w =>
        ((w.accounts.select fun _ a => a.providerCustomerId = some customer).map Prod.fst).head?

/-- `_event_created_at`. -/
def eventCreatedAt (created : Option Int) : Tx B BillingPoint Int :=
  match created with
  | none => utcNow
  | some seconds => pure (seconds * 1000000)

/-- The event types whose customer's identity is fetched for a business plan. -/
def EventType.asksIdentity : EventType → Bool
  | .checkoutSessionCompleted => true
  | .customerSubscription .created => true
  | .customerSubscription .updated => true
  | _ => false

/-- The business identity of the event's customer, where the plan needs one. -/
def identityOfEvent (provider : BillingProvider B) (tenant : Option UUID) (type : EventType)
    (r : Resource) : Tx B BillingPoint (Option BusinessIdentity) :=
  match present r.customer with
  | none => pure none
  | some customer =>
    if tenant.isSome && type.asksIdentity && (r.productCode cfg).isBusiness then
      match provider.retrieveCustomerBusinessIdentity customer with
      | .ok identity => pure (some identity)
      | .error message => .raise (.error message 503)
    else pure none

/-- The row of an event that has just arrived. -/
def ProviderEvent.row (event : ProviderEvent) (payload : B) (tenant : Option UUID) : BillingEventRow where
  tenantId := tenant
  eventType := event.type
  resourceId := event.resource.id.getD "unknown"
  payloadHash := host.sha256 payload
  status := .received
  processedAt := none
  errorCode := none

/-- A delivery of a verified event. -/
def deliverEvent (provider : BillingProvider B) (event : ProviderEvent) (payload : B) :
    Tx B BillingPoint WebhookRead := do
  let existing ← query fun w => (w.events.get? event.id).map BillingEventRow.status
  if existing.any BillingEventStatus.isDone then pure ⟨true⟩
  else do
    let tenant ← tenantOfEvent host event.resource
    let createdAt ← eventCreatedAt event.created
    let identity ← identityOfEvent cfg provider tenant event.type event.resource
    let isNew ← addIfMissing existing event.id (event.row host payload tenant)
    if isNew then
      (applyUnderLock host cfg tenant ⟨event.id, event.type, event.resource, createdAt⟩
        identity).tryCatch fun exc => markFailed event.id exc >>= fun _ => .raise exc
    else pure ⟨true⟩

/-- The event of a webhook, once the provider has verified it. -/
def verifiedEvent (provider : BillingProvider B) (payload : B) (signature : String) :
    Except Failure ProviderEvent :=
  match provider.constructWebhookEvent payload signature with
  | .ok event => .ok event
  | .error .invalidSignature => .error (.error "Invalid Stripe webhook signature" 400)
  | .error (.unavailable message) => .error (.error message 503)

/-- `receive_webhook`. -/
def receiveWebhook (provider : BillingProvider B) (payload : B) (signature : String) :
    Tx B BillingPoint WebhookRead :=
  match verifiedEvent provider payload signature with
  | .error exc => .raise exc
  | .ok event => deliverEvent host cfg provider event payload

end Delivery

end Rubrica
