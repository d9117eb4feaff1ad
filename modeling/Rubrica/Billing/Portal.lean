import Rubrica.Platform
import Rubrica.Transactions.Raising

set_option autoImplicit false

/-! # The billing portal

`StripeBillingProvider.create_portal_session`: a cancellation that is scheduled is lifted before the portal is
opened, and scheduled again where the portal does not open. -/

namespace Rubrica

open Transactions

/-- The subscription at Stripe, as far as the portal session reads and changes it. -/
structure StripeSubscription where
  cancelAtPeriodEnd : Bool
  /-- The identifiers of `items.data`, where they are given. -/
  items : List (Option String)
  deriving DecidableEq, Repr

structure PortalItem where
  id : String
  price : String
  quantity : Nat
  deriving DecidableEq, Repr

/-- `flow_data`; the type of the flow is `subscription_update_confirm` where it names an item. -/
structure PortalFlow where
  type : String
  subscription : String
  items : List PortalItem
  redirectUrl : String
  deriving DecidableEq, Repr

structure PortalParameters where
  customer : String
  returnUrl : String
  configuration : Option String
  flowData : Option PortalFlow
  deriving DecidableEq, Repr

/-- What Stripe answers: a call takes effect, or raises and has none. -/
structure Stripe where
  retrieves : Bool
  lifts : Bool
  restores : Bool
  /-- The URL of the session, which can be missing; `none` where the call raises. -/
  portal : PortalParameters → Option (Option String)

/-- Calls to Stripe about one subscription. What a call has changed stays changed where a later one raises. -/
abbrev StripeM (α : Type) :=
  ExceptT Failure (StateM StripeSubscription) α

/-- A text that counts as true. -/
def given (text : Option String) : Option String :=
  text.filter (· ≠ "")

def stripeError : Failure :=
  .other "StripeError"

def billingProviderError : Failure :=
  .other "BillingProviderError"

section Calls

variable (stripe : Stripe)

/-- `stripe.Subscription.retrieve`. -/
def Stripe.retrieve : StripeM StripeSubscription :=
  if stripe.retrieves then get else throw stripeError

/-- `stripe.Subscription.modify(.., cancel_at_period_end=False)`. -/
def Stripe.lift : StripeM Unit :=
  if stripe.lifts then modify fun s => { s with cancelAtPeriodEnd := false } else throw stripeError

/-- `stripe.Subscription.modify(.., cancel_at_period_end=True)`. -/
def Stripe.restore : StripeM Unit :=
  if stripe.restores then modify fun s => { s with cancelAtPeriodEnd := true } else throw stripeError

def onlyWhen (c : Bool) (x : StripeM Unit) : StripeM Unit :=
  if c then x else pure ()

/-- The flow that a subscription is changed in; with a price, its first item is. -/
def portalFlow (subscriptionId : String) (price : Option String) (items : List (Option String))
    (redirectUrl : String) : Except Failure PortalFlow :=
  match price, items with
  | none, _ => .ok ⟨"subscription_update", subscriptionId, [], redirectUrl⟩
  | some _, [] => .error billingProviderError
  | some price, item :: _ =>
      .ok ⟨"subscription_update_confirm", subscriptionId, [⟨item.getD "None", price, 1⟩], redirectUrl⟩

/-- The part before the session is created: whether a cancellation was scheduled, and the flow. -/
def preparePortal (subscriptionId price : Option String) (redirectUrl : String) :
    StripeM (Bool × Option PortalFlow) :=
  match subscriptionId with
  | none => pure (false, none)
  | some id => do
      let subscription ← stripe.retrieve
      let cancellationWasScheduled := subscription.cancelAtPeriodEnd
      onlyWhen cancellationWasScheduled stripe.lift
      let flow ← MonadExcept.ofExcept (portalFlow id price subscription.items redirectUrl)
      pure (cancellationWasScheduled, some flow)

/-- The session, and what is done where it cannot be created. -/
def openPortal (parameters : PortalParameters) (cancellationWasScheduled : Bool) : StripeM String :=
  match stripe.portal parameters with
  | none => do
      onlyWhen cancellationWasScheduled stripe.restore
      throw billingProviderError
  | some url =>
      match given url with
      | none => throw billingProviderError
      | some url => pure url

/-- `create_portal_session`; `configuration` is `STRIPE_PORTAL_CONFIGURATION_ID`. -/
def createPortalSession (configuration : Option String) (customerId returnUrl : String)
    (subscriptionId completionUrl priceId : Option String) : StripeM String := do
  let (cancellationWasScheduled, flow) ←
    preparePortal stripe (given subscriptionId) (given priceId) ((given completionUrl).getD returnUrl)
  openPortal stripe ⟨customerId, returnUrl, given configuration, flow⟩ cancellationWasScheduled

end Calls

/-! ## The cancellation -/

section Restored

variable {stripe : Stripe} {configuration : Option String} {customerId returnUrl : String}
  {subscriptionId completionUrl priceId : Option String} {s : StripeSubscription}

/-- Where the call raises, the cancellation is as it was. -/
def Restored (x : StripeM String) (s : StripeSubscription) : Prop :=
  ∀ e, (x.run s).1 = .error e → (x.run s).2.cancelAtPeriodEnd = s.cancelAtPeriodEnd

/-- The exits between the lifting of the cancellation and the handler that restores it, or after this: a price is
    asked for and the subscription has no item, or the session that is created has no URL. -/
inductive Unhandled (stripe : Stripe) (parameters : Option PortalFlow → PortalParameters) (subscriptionId : String)
    (price : Option String) (redirectUrl : String) (s : StripeSubscription) : Prop where
  | noItem (hprice : price ≠ none) (hitems : s.items = [])
  | noUrl {flow : PortalFlow} {url : Option String}
      (hflow : portalFlow subscriptionId price s.items redirectUrl = .ok flow)
      (hportal : stripe.portal (parameters (some flow)) = some url) (hurl : given url = none)

theorem openPortal_run {parameters : PortalParameters} {scheduled : Bool} (hrestores : stripe.restores = true) :
    (openPortal stripe parameters scheduled).run s =
      match stripe.portal parameters with
      | none => (.error billingProviderError, if scheduled then { s with cancelAtPeriodEnd := true } else s)
      | some url =>
          match given url with
          | none => (.error billingProviderError, s)
          | some url => (.ok url, s) := by
  unfold openPortal
  cases hportal : stripe.portal parameters with
  | none =>
      cases scheduled with
      | true =>
          simp only [onlyWhen, Stripe.restore, hrestores]
          rfl
      | false => rfl
  | some url =>
      simp only
      cases given url <;> rfl

/-- A cancellation is lifted before the session is created. -/
structure Lifts (stripe : Stripe) (subscriptionId : Option String) (s : StripeSubscription) : Prop where
  named : subscriptionId ≠ none
  scheduled : s.cancelAtPeriodEnd = true
  retrieves : stripe.retrieves = true
  lifts : stripe.lifts = true

/-- How the part before the session ends: it did not lift a cancellation and changed nothing, or it lifted one. -/
inductive PortalPrepared (stripe : Stripe) (subscriptionId price : Option String) (redirectUrl : String)
    (s : StripeSubscription) : Except Failure (Bool × Option PortalFlow) × StripeSubscription → Prop where
  | unchanged (e : Failure) (h : ¬Lifts stripe subscriptionId s) :
      PortalPrepared stripe subscriptionId price redirectUrl s (.error e, s)
  | unscheduled (flow : Option PortalFlow) (h : ¬Lifts stripe subscriptionId s) :
      PortalPrepared stripe subscriptionId price redirectUrl s (.ok (false, flow), s)
  | refused {id : String} (hid : subscriptionId = some id) (h : Lifts stripe subscriptionId s)
      (hprice : price ≠ none) (hitems : s.items = []) :
      PortalPrepared stripe subscriptionId price redirectUrl s
        (.error billingProviderError, { s with cancelAtPeriodEnd := false })
  | lifted {id : String} {flow : PortalFlow} (hid : subscriptionId = some id) (h : Lifts stripe subscriptionId s)
      (hflow : portalFlow id price s.items redirectUrl = .ok flow) :
      PortalPrepared stripe subscriptionId price redirectUrl s
        (.ok (true, some flow), { s with cancelAtPeriodEnd := false })

/-- Only a missing item keeps the flow from being made. -/
theorem portalFlow_eq_error {id redirectUrl : String} {price : Option String} {items : List (Option String)}
    {e : Failure} (h : portalFlow id price items redirectUrl = .error e) :
    e = billingProviderError ∧ price ≠ none ∧ items = [] := by
  unfold portalFlow at h
  split at h
  · exact absurd h (by simp)
  · exact ⟨(Except.error.inj h).symm, by simp, rfl⟩
  · exact absurd h (by simp)

theorem portalFlow_noItem {id redirectUrl : String} {price : Option String} {items : List (Option String)}
    {flow : PortalFlow} (hprice : price ≠ none) (hitems : items = []) :
    portalFlow id price items redirectUrl ≠ .ok flow := by
  subst hitems
  cases price with
  | none => exact absurd rfl hprice
  | some price => simp [portalFlow]

theorem preparePortal_run (stripe : Stripe) (subscriptionId price : Option String) (redirectUrl : String)
    (s : StripeSubscription) : PortalPrepared stripe subscriptionId price redirectUrl s
      ((preparePortal stripe subscriptionId price redirectUrl).run s) := by
  cases subscriptionId with
  | none => exact .unscheduled none fun h => h.named rfl
  | some id =>
      have hget : (get : StripeM StripeSubscription).run s = (.ok s, s) := rfl
      unfold preparePortal
      simp only [run_bind, Stripe.retrieve]
      cases hretrieves : stripe.retrieves with
      | false => exact .unchanged stripeError fun h => absurd (h.retrieves.symm.trans hretrieves) (by simp)
      | true =>
          simp only [if_true, hget, onlyWhen]
          cases hscheduled : s.cancelAtPeriodEnd with
          | false =>
              have hnot : ¬Lifts stripe (some id) s := fun h => absurd (h.scheduled.symm.trans hscheduled) (by simp)
              cases portalFlow id price s.items redirectUrl with
              | error e => exact .unchanged e hnot
              | ok flow => exact .unscheduled (some flow) hnot
          | true =>
              simp only [if_true, Stripe.lift]
              cases hlifts : stripe.lifts with
              | false => exact .unchanged stripeError fun h => absurd (h.lifts.symm.trans hlifts) (by simp)
              | true =>
                  have hall : Lifts stripe (some id) s := ⟨by simp, hscheduled, hretrieves, hlifts⟩
                  cases hflow : portalFlow id price s.items redirectUrl with
                  | error e =>
                      obtain ⟨rfl, hprice, hitems⟩ := portalFlow_eq_error hflow
                      exact .refused rfl hall hprice hitems
                  | ok flow => exact .lifted rfl hall hflow

/-- **A portal session that fails.** With a restoring call that succeeds, the cancellation is as it was wherever the
    call raises, exactly where it does not take an unhandled exit with a cancellation lifted. -/
theorem portal_restored_iff (hrestores : stripe.restores = true) :
    Restored (createPortalSession stripe configuration customerId returnUrl subscriptionId completionUrl priceId) s ↔
      ¬(Lifts stripe (given subscriptionId) s ∧ ∃ id, given subscriptionId = some id ∧
        Unhandled stripe (fun flow => ⟨customerId, returnUrl, given configuration, flow⟩) id (given priceId)
          ((given completionUrl).getD returnUrl) s) := by
  unfold Restored createPortalSession
  rw [run_bind]
  have hprepared := preparePortal_run stripe (given subscriptionId) (given priceId)
    ((given completionUrl).getD returnUrl) s
  generalize (preparePortal stripe (given subscriptionId) (given priceId)
    ((given completionUrl).getD returnUrl)).run s = r at hprepared
  cases hprepared with
  | unchanged e h => exact iff_of_true (fun _ _ => rfl) fun hunhandled => h hunhandled.1
  | unscheduled flow h =>
      refine iff_of_true (fun e _ => ?_) fun hunhandled => h hunhandled.1
      simp only [openPortal_run hrestores]
      split
      · rfl
      · split <;> rfl
  | refused hid h hprice hitems =>
      refine iff_of_false (fun hrestored => ?_) fun hnot => hnot ⟨h, _, hid, .noItem hprice hitems⟩
      have hfalse : false = s.cancelAtPeriodEnd := hrestored billingProviderError rfl
      exact absurd (hfalse.trans h.scheduled) (by simp)
  | lifted hid h hflow =>
      simp only [openPortal_run hrestores]
      split
      · next hportal =>
        -- The handler schedules the cancellation again.
        refine iff_of_true (fun e _ => h.scheduled.symm) ?_
        rintro ⟨-, id, hid', hunhandled⟩
        obtain rfl := Option.some.inj (hid'.symm.trans hid)
        cases hunhandled with
        | noItem hprice hitems => exact portalFlow_noItem hprice hitems hflow
        | noUrl hflow' hportal' _ =>
            obtain rfl := Except.ok.inj (hflow'.symm.trans hflow)
            exact absurd (hportal'.symm.trans hportal) (by simp)
      · next url hportal =>
        split
        · next hurl =>
          refine iff_of_false (fun hrestored => ?_) fun hnot => hnot ⟨h, _, hid, .noUrl hflow hportal hurl⟩
          have hfalse : false = s.cancelAtPeriodEnd := hrestored billingProviderError rfl
          exact absurd (hfalse.trans h.scheduled) (by simp)
        · next url' hurl =>
          refine iff_of_true (fun e he => absurd he (by simp)) ?_
          rintro ⟨-, id, hid', hunhandled⟩
          obtain rfl := Option.some.inj (hid'.symm.trans hid)
          cases hunhandled with
          | noItem hprice hitems => exact portalFlow_noItem hprice hitems hflow
          | noUrl hflow' hportal' hurl' =>
              obtain rfl := Except.ok.inj (hflow'.symm.trans hflow)
              obtain rfl := Option.some.inj (hportal'.symm.trans hportal)
              exact absurd (hurl'.symm.trans hurl) (by simp)

end Restored

/-- A Stripe whose portal opens at an address. -/
def sampleStripe (url : Option (Option String)) : Stripe where
  retrieves := true
  lifts := true
  restores := true
  portal _ := url

theorem portal_restored_unavailable :
    Restored (createPortalSession (sampleStripe none) none "cus_1" "https://app/plan" (some "sub_1") none none)
        ⟨true, [some "si_1"]⟩ ↔
      ¬(Lifts (sampleStripe none) (given (some "sub_1")) ⟨true, [some "si_1"]⟩ ∧
        ∃ id, given (some "sub_1") = some id ∧
          Unhandled (sampleStripe none) (fun flow => ⟨"cus_1", "https://app/plan", given none, flow⟩) id (given none)
            ((given none).getD "https://app/plan") ⟨true, [some "si_1"]⟩) :=
  portal_restored_iff rfl

/-- A subscription without items, for which a price is asked: the call raises between the lifting of the
    cancellation and the handler. -/
theorem not_portal_restored :
    ¬∀ (stripe : Stripe) (configuration : Option String) (customerId returnUrl : String)
      (subscriptionId completionUrl priceId : Option String) (s : StripeSubscription), stripe.restores = true →
        Restored (createPortalSession stripe configuration customerId returnUrl subscriptionId completionUrl priceId)
          s := by
  intro h
  have hrestored := h (sampleStripe (some (some "https://portal"))) none "cus_1" "https://app/plan" (some "sub_1")
    none (some "price_1") ⟨true, []⟩ rfl
  have hfalse : false = true := hrestored billingProviderError (by decide +kernel)
  exact absurd hfalse (by simp)

end Rubrica
