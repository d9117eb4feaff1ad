import Mathlib.Data.List.Basic

set_option autoImplicit false

/-! # Billing accounts

The billing account of a tenant, the plans it can hold and the access it gives. Instants are integers,
in microseconds since the epoch. -/

namespace Rubrica

/-- A 128-bit identifier; PostgreSQL orders identifiers as these numbers. -/
abbrev UUID := Nat

/-! ## Plans -/

inductive ProductCode where
  /-- The code of the base plan before it was renamed. -/
  | mvp
  | base
  | intermediate
  | team
  deriving DecidableEq, Repr

namespace ProductCode

def text : ProductCode → String
  | mvp => "rubrica_mvp"
  | base => "rubrica_base"
  | intermediate => "rubrica_intermediate"
  | team => "rubrica_team"

def ofText (s : String) : Option ProductCode :=
  [mvp, base, intermediate, team].find? fun c => c.text = s

/-- `_normalize_product_code`. -/
def normalize : Option ProductCode → ProductCode
  | none => base
  | some mvp => base
  | some c => c

/-- `PLAN_FILE_LIMITS`. -/
def planFileLimit : ProductCode → Option Nat
  | mvp => none
  | base => some 20
  | intermediate => some 80
  | team => some 200

/-- `PLAN_MEMBER_LIMITS`, with the default of its reader. -/
def planMemberLimit : Option ProductCode → Nat
  | some intermediate => 3
  | some team => 10
  | _ => 1

/-- `BUSINESS_PRODUCT_CODES`. -/
def isBusiness : ProductCode → Bool
  | intermediate => true
  | team => true
  | _ => false

end ProductCode

/-! ## Settings -/

inductive BillingInterval where
  | monthly
  | annual
  deriving DecidableEq, Repr

inductive Currency where
  | brl
  | usd
  | eur
  | jpy
  deriving DecidableEq, Repr

structure BillingSettings where
  /-- `STRIPE_PRICE_*`: the essential, professional and team prices, where they are set. -/
  stripePrice : ProductCode → BillingInterval → Currency → Option String
  billingGracePeriodDays : Nat

/-- The settings as they are by default: no prices, ten days of tolerance. -/
def BillingSettings.default : BillingSettings :=
  ⟨fun _ _ _ => none, 10⟩

/-- The price identifiers that are set, in the order `_product_code` lists them. -/
def BillingSettings.configuredPrices (cfg : BillingSettings) : List (String × ProductCode) :=
  [ProductCode.base, .intermediate, .team].flatMap fun code =>
    [BillingInterval.monthly, .annual].flatMap fun interval =>
      [Currency.brl, .usd, .eur, .jpy].filterMap fun currency =>
        match cfg.stripePrice code interval currency with
        | some price => if price = "" then none else some (price, code)
        | none => none

/-- The plan a price belongs to; of two plans with one price the later one counts. -/
def BillingSettings.productOfPrice (cfg : BillingSettings) (price : String) : Option ProductCode :=
  (cfg.configuredPrices.reverse.find? fun x => x.1 = price).map Prod.snd

/-- `timedelta(days=settings.BILLING_GRACE_PERIOD_DAYS)`. -/
def BillingSettings.gracePeriod (cfg : BillingSettings) : Int :=
  cfg.billingGracePeriodDays * 86400000000

/-! ## Accounts -/

inductive AccountStatus where
  | notConfigured
  | pending
  | active
  | pastDue
  | unpaid
  | paused
  | cancelled
  deriving DecidableEq, Repr

/-- A row of `billing_accounts`, under its tenant. -/
structure BillingAccount where
  status : AccountStatus
  provider : Option String
  providerCustomerId : Option String
  providerSubscriptionId : Option String
  currentProductCode : Option ProductCode
  currentPeriodEndsAt : Option Int
  cancelAtPeriodEnd : Bool
  cancelsAt : Option Int
  gracePeriodEndsAt : Option Int
  lastProviderEventCreatedAt : Option Int
  freeSignaturesLimit : Nat
  signaturesUsed : Nat
  filesUploadedInPeriod : Nat
  usagePeriodStartsAt : Option Int
  complimentaryLifetime : Bool
  deletedAt : Option Int
  deriving DecidableEq, Repr

namespace BillingAccount

/-- The account `_account_entity` creates: `not_configured` and the column defaults. -/
def created : BillingAccount where
  status := .notConfigured
  provider := none
  providerCustomerId := none
  providerSubscriptionId := none
  currentProductCode := none
  currentPeriodEndsAt := none
  cancelAtPeriodEnd := false
  cancelsAt := none
  gracePeriodEndsAt := none
  lastProviderEventCreatedAt := none
  freeSignaturesLimit := 5
  signaturesUsed := 0
  filesUploadedInPeriod := 0
  usagePeriodStartsAt := none
  complimentaryLifetime := false
  deletedAt := none

/-- `_paid_access_enabled`, at the clock `now`. -/
def paidAccessEnabled (a : BillingAccount) (now : Int) : Bool :=
  match a.status with
  | .active => true
  | .pastDue =>
      match a.gracePeriodEndsAt with
      | none => false
      | some grace => decide (now < grace)
  | _ => false

/-- `_has_unlimited_signatures`. -/
def hasUnlimitedSignatures (a : BillingAccount) : Bool :=
  a.complimentaryLifetime

/-- `_active_plan_file_limit`. -/
def activePlanFileLimit (a : BillingAccount) (now : Int) : Option Nat :=
  if a.paidAccessEnabled now then (ProductCode.normalize a.currentProductCode).planFileLimit
  else none

/-- `business_features_enabled` of a row that is not deleted. -/
def businessFeaturesEnabled (a : BillingAccount) (now : Int) : Bool :=
  a.complimentaryLifetime ||
    ((ProductCode.normalize a.currentProductCode).isBusiness && a.paidAccessEnabled now)

/-- `member_limit` of a row that is not deleted; `none` is no limit. -/
def memberLimit (a : BillingAccount) (now : Int) : Option Nat :=
  if a.complimentaryLifetime then none
  else if a.paidAccessEnabled now then some (ProductCode.planMemberLimit a.currentProductCode)
  else some 1

end BillingAccount

end Rubrica
