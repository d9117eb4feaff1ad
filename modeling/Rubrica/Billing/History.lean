import Rubrica.Billing.Synchronization

set_option autoImplicit false

/-! # The history of a billing account

Everything that changes the account of a tenant, one committed transaction after the other: deliveries
of events, synchronizations, checkouts, uploads, and time that passes.

Whether there is paid access is a matter of the status and of the end of the tolerance alone. This part
of the account is its `Standing`; a step of the history moves it by the `Notice` the step brings, if it
brings one (`Books.standing_advance`). -/

namespace Rubrica

open Transactions

/-! ## Checkouts and uploads -/

/-- What `create_checkout` is asked for, and the customer the provider would create. -/
structure CheckoutOrder where
  product : ProductCode
  interval : BillingInterval
  currency : Option Currency
  customer : String

namespace BillingAccount

/-- `_subscription_requires_portal`. -/
def requiresPortal (a : BillingAccount) : Bool :=
  (present a.providerSubscriptionId).isSome &&
    decide (a.status ∈ [.active, .pending, .pastDue, .unpaid, .paused])

/-- `create_checkout`; `none` where it raises. -/
def checkout (cfg : BillingSettings) (o : CheckoutOrder) (a : BillingAccount) : Option BillingAccount :=
  if a.complimentaryLifetime || a.requiresPortal ||
      (a.status = .active &&
        ProductCode.normalize (some o.product) = ProductCode.normalize a.currentProductCode) then none
  else
    match present (o.currency.bind (cfg.stripePrice o.product o.interval)) with
    | none => none
    | some _ =>
        if (present a.providerCustomerId).isSome then some a
        else some { a with provider := some "stripe", providerCustomerId := some o.customer }

/-- `consume_document`; `none` where it raises. -/
def consumeDocument (now : Int) (a : BillingAccount) : Option BillingAccount :=
  if a.complimentaryLifetime then some a
  else
    match a.activePlanFileLimit now with
    | none => some a
    | some limit =>
        if limit ≤ a.filesUploadedInPeriod then none
        else some { a with filesUploadedInPeriod := a.filesUploadedInPeriod + 1 }

end BillingAccount

/-! ## Histories -/

inductive BillingStep where
  /-- A delivery of an event. -/
  | event (e : BillingEvent)
  /-- A synchronization that the provider answers with a subscription. -/
  | synchronize (r : Resource)
  | checkout (o : CheckoutOrder)
  | upload
  /-- Nothing, for a while. -/
  | wait

namespace Books

variable (cfg : BillingSettings) (tenantId : UUID)

/-- A step at a clock. What raises leaves the books alone. -/
def advance (b : Books) (x : Int × BillingStep) : Books :=
  match x.2 with
  | .event e => (b.deliver cfg x.1 tenantId e).1
  | .synchronize r => (b.synchronize cfg x.1 r).getD b
  | .checkout o => ((b.current.checkout cfg o).map fun a => { b with account := some a }).getD b
  | .upload => ((b.current.consumeDocument x.1).map fun a => { b with account := some a }).getD b
  | .wait => b

def after (b : Books) (l : List (Int × BillingStep)) : Books :=
  l.foldl (advance cfg tenantId) b

variable {cfg tenantId}

@[simp] theorem after_nil (b : Books) : b.after cfg tenantId [] = b := rfl

@[simp] theorem after_append (b : Books) (l l' : List (Int × BillingStep)) :
    b.after cfg tenantId (l ++ l') = (b.after cfg tenantId l).after cfg tenantId l' := by
  simp [after]

@[simp] theorem after_cons (b : Books) (x : Int × BillingStep) (l : List (Int × BillingStep)) :
    b.after cfg tenantId (x :: l) = (b.advance cfg tenantId x).after cfg tenantId l := rfl

end Books

/-! ## Moments of a history -/

/-- Between the steps of `p` and those of `q`. -/
structure Moment (l p q : List (Int × BillingStep)) (now : Int) : Prop where
  split : l = p ++ q
  earlier : ∀ x ∈ p, x.1 ≤ now
  later : ∀ x ∈ q, now ≤ x.1

/-- The clock does not go back. -/
def Ordered (l : List (Int × BillingStep)) : Prop :=
  l.Pairwise fun x y => x.1 ≤ y.1

instance : DecidablePred Ordered := fun l => inferInstanceAs (Decidable (l.Pairwise _))

/-- After all of it. -/
theorem Moment.of_end {l : List (Int × BillingStep)} {now : Int} (h : ∀ x ∈ l, x.1 ≤ now) :
    Moment l l [] now :=
  ⟨(List.append_nil l).symm, h, by simp⟩

/-- Right after a step. -/
theorem Moment.of_step {l p q : List (Int × BillingStep)} {x : Int × BillingStep} (ho : Ordered l)
    (h : l = p ++ x :: q) : Moment l (p ++ [x]) q x.1 := by
  subst h
  obtain ⟨-, hq, hpq⟩ := List.pairwise_append.1 ho
  refine ⟨by simp, fun y hy => ?_, fun y hy => (List.pairwise_cons.1 hq).1 y hy⟩
  rcases List.mem_append.1 hy with hy | hy
  · exact hpq y hy x List.mem_cons_self
  · exact Int.le_of_eq (congrArg (·.1) (List.mem_singleton.1 hy))

namespace Books

variable (cfg : BillingSettings) (tenantId : UUID)

/-- Does a step of the history satisfy a condition, in the books it finds? -/
def happens (f : Books → Int × BillingStep → Bool) (b : Books) : List (Int × BillingStep) → Bool
  | [] => false
  | x :: l => f b x || happens f (b.advance cfg tenantId x) l

variable {cfg tenantId} {b : Books} {x : Int × BillingStep} {l : List (Int × BillingStep)}

theorem happens_snoc (f : Books → Int × BillingStep → Bool) :
    b.happens cfg tenantId f (l ++ [x]) =
      (b.happens cfg tenantId f l || f (b.after cfg tenantId l) x) := by
  induction l generalizing b with
  | nil => simp [happens]
  | cons y l ih => simp [happens, ih, Bool.or_assoc]

/-- A step that does not happen anywhere does not happen here. -/
theorem not_of_happens {f : Books → Int × BillingStep → Bool} {p q : List (Int × BillingStep)}
    (h : b.happens cfg tenantId f (p ++ x :: q) = false) : f (b.after cfg tenantId p) x = false := by
  induction p generalizing b with
  | nil => exact (Bool.or_eq_false_iff.1 h).1
  | cons y p ih => exact ih (Bool.or_eq_false_iff.1 h).2

end Books

/-! ## Standings -/

/-- The part of an account that decides about paid access. -/
structure Standing where
  status : AccountStatus
  grace : Option Int
  deriving DecidableEq, Repr

/-- What a step says about the standing. -/
inductive Notice where
  | checkout
  | paid
  | failed
  | subscription (status : AccountStatus)
  deriving DecidableEq, Repr

namespace Notice

/-- A payment confirmation. -/
def confirms : Notice → Bool
  | paid => true
  | subscription .active => true
  | _ => false

/-- A payment failure. -/
def fails : Notice → Bool
  | failed => true
  | subscription .pastDue => true
  | _ => false

/-- A subscription that is over. -/
def ends : Notice → Bool
  | subscription .unpaid => true
  | subscription .cancelled => true
  | _ => false

end Notice

namespace Standing

variable (cfg : BillingSettings) (now : Int)

def access (s : Standing) : Bool :=
  match s.status with
  | .active => true
  | .pastDue =>
      match s.grace with
      | none => false
      | some grace => decide (now < grace)
  | _ => false

def receive (s : Standing) : Notice → Standing
  | .checkout => { s with status := if s.status = .active then .active else .pending }
  | .paid => ⟨.active, none⟩
  | .failed =>
      if s.status ≠ .pastDue ∨ s.grace = none then ⟨.pastDue, some (now + cfg.gracePeriod)⟩ else s
  | .subscription st => ⟨st, BillingAccount.graceAfter cfg now st s.grace⟩

/-- A failure that opens a tolerance. -/
def opens (s : Standing) : Notice → Bool
  | .failed => decide (s.status ≠ .pastDue ∨ s.grace = none)
  | .subscription .pastDue => decide (s.grace = none)
  | _ => false

end Standing

def BillingAccount.standing (a : BillingAccount) : Standing :=
  ⟨a.status, a.gracePeriodEndsAt⟩

namespace Books

variable {cfg : BillingSettings} {tenantId : UUID} {now : Int} {b : Books}

abbrev standing (b : Books) : Standing :=
  b.current.standing

theorem paidAccessEnabled_eq (b : Books) (now : Int) :
    b.current.paidAccessEnabled now = b.standing.access now := rfl

/-- What a step says about the standing of the account it finds. -/
def notice (cfg : BillingSettings) (b : Books) : BillingStep → Option Notice
  | .event e =>
      (e.sent cfg).bind fun x =>
        match x.signal with
        | .checkout _ => some .checkout
        | .paid => some .paid
        | .failed => some .failed
        | .subscription st _ => if b.current.isStale (some e.createdAt) then none else some (.subscription st)
  | .synchronize r =>
      if (present b.current.providerSubscriptionId).isNone then none
      else some (.subscription r.subscriptionStatus)
  | _ => none

theorem standing_eq (b : Books) :
    b.standing = ⟨b.current.toEntitlement.status, b.current.toEntitlement.grace⟩ := rfl

theorem deliver_standing (b : Books) (now : Int) (e : BillingEvent) :
    (b.deliver cfg now tenantId e).1.standing =
      ((b.notice cfg (.event e)).map (b.standing.receive cfg now)).getD b.standing := by
  rw [standing_eq, deliver_entitlement, notice]
  cases hs : e.sent cfg with
  | none => rfl
  | some x =>
      simp only [Option.bind_some]
      cases hsig : x.signal with
      | checkout p => simp only [Entitlement.step, hsig]; rfl
      | paid => simp only [Entitlement.step, hsig]; rfl
      | failed =>
          by_cases h : b.current.status ≠ .pastDue ∨ b.current.gracePeriodEndsAt = none
          · rw [Entitlement.step_failed hsig h]
            exact (if_pos h).symm
          · obtain ⟨h1, h2⟩ := not_or.1 h
            obtain ⟨g, hg⟩ := Option.ne_none_iff_exists'.1 h2
            have hst : b.current.toEntitlement.status = .pastDue := not_ne_iff.1 h1
            rw [Entitlement.step_failed_again hsig hst hg]
            exact (if_neg h).symm
      | subscription st p =>
          simp only [Entitlement.step, hsig]
          rw [BillingAccount.isStale_eq, sent_time hs]
          cases b.current.toEntitlement.stale e.createdAt <;> rfl

theorem synchronize_standing (b : Books) (now : Int) (r : Resource) :
    ((b.synchronize cfg now r).getD b).standing =
      ((b.notice cfg (.synchronize r)).map (b.standing.receive cfg now)).getD b.standing := by
  unfold synchronize notice
  split
  · rfl
  · obtain ⟨h1, -, -, -, h5, -⟩ :=
      BillingAccount.applySubscription_fields cfg now (b.current.touch r) r none
    have hstale : (b.current.touch r).isStale none = false := rfl
    simp only [BillingAccount.applyEvent, hstale, Bool.false_eq_true, if_false, Option.getD_some,
      Option.map_some, Standing.receive]
    exact congrArg₂ Standing.mk h1 h5

theorem checkout_standing {a a' : BillingAccount} {o : CheckoutOrder} (h : a.checkout cfg o = some a') :
    a'.standing = a.standing := by
  unfold BillingAccount.checkout at h
  split at h
  · exact absurd h (by simp)
  · split at h
    · exact absurd h (by simp)
    · split at h <;> (obtain rfl := Option.some.inj h; rfl)

theorem consumeDocument_standing {a a' : BillingAccount} (h : a.consumeDocument now = some a') :
    a'.standing = a.standing := by
  unfold BillingAccount.consumeDocument at h
  split at h
  · obtain rfl := Option.some.inj h
    rfl
  · split at h
    · obtain rfl := Option.some.inj h
      rfl
    · split at h
      · exact absurd h (by simp)
      · obtain rfl := Option.some.inj h
        rfl

/-- A step moves the standing by the notice it brings. -/
theorem standing_advance (b : Books) (x : Int × BillingStep) :
    (b.advance cfg tenantId x).standing =
      ((b.notice cfg x.2).map (b.standing.receive cfg x.1)).getD b.standing := by
  unfold advance
  cases x.2 with
  | event e => exact deliver_standing b x.1 e
  | synchronize r => exact synchronize_standing b x.1 r
  | checkout o =>
      dsimp only
      cases h : b.current.checkout cfg o with
      | none => rfl
      | some a =>
          show a.standing = _
          exact checkout_standing h
  | upload =>
      dsimp only
      cases h : b.current.consumeDocument x.1 with
      | none => rfl
      | some a =>
          show a.standing = _
          exact consumeDocument_standing h
  | wait => rfl

end Books

end Rubrica
