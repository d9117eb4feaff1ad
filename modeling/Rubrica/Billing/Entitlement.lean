import Mathlib.Data.List.Perm.Basic
import Mathlib.Data.List.Induction
import Rubrica.Billing.Event

set_option autoImplicit false

/-! # Entitlement under delivery in any order

The provider does not promise to deliver events in the order it created them. This file abstracts an
account to what it entitles to, and an event to what it says about that (`Signal`), and finds out for
which sets of events the entitlement is a matter of the set alone (`Entitlement.OrderSafe`): what an
old event says has to agree with what a newer one has already said.

Only a subscription carries its creation time into the account. The events are therefore compared
pairwise (`Entitlement.Agrees`), and by what all of them together do to the tolerance after a failed
payment (`OrderSafe.lapse`, `OrderSafe.tolerance`). -/

namespace Rubrica

/-- What an event says about the entitlement of an account. -/
inductive Signal where
  | subscription (status : {s : AccountStatus // s ≠ .pending}) (product : ProductCode)
  | paid
  | failed
  | checkout (product : ProductCode)

/-- A signal with the time it was created. -/
structure Sent where
  time : Int
  signal : Signal

/-- The part of an account that decides about access. -/
structure Entitlement where
  status : AccountStatus
  product : Option ProductCode
  grace : Option Int
  last : Option Int

namespace Entitlement

variable (cfg : BillingSettings) (now : Int)

def stale (s : Entitlement) (t : Int) : Bool :=
  match s.last with
  | some last => t < last
  | none => false

def step (s : Entitlement) (x : Sent) : Entitlement :=
  match x.signal with
  | .checkout p =>
      { s with product := some p, status := if s.status = .active then .active else .pending }
  | .paid => { s with status := .active, grace := none }
  | .failed =>
      if s.status ≠ .pastDue ∨ s.grace = none then
        { s with status := .pastDue, grace := some (now + cfg.gracePeriod) }
      else s
  | .subscription st p =>
      if s.stale x.time then s
      else ⟨st, some p, BillingAccount.graceAfter cfg now st s.grace, some x.time⟩

def run (s : Entitlement) (l : List Sent) : Entitlement :=
  l.foldl (step cfg now) s

def access (s : Entitlement) : Bool :=
  match s.status with
  | .active => true
  | .pastDue =>
      match s.grace with
      | none => false
      | some grace => decide (now < grace)
  | _ => false

/-- What an account holder gets: the status, the plan, and whether paid access is on. -/
def shown (s : Entitlement) : AccountStatus × Option ProductCode × Bool :=
  (s.status, s.product, s.access now)

variable {cfg now}

@[simp] theorem run_nil (s : Entitlement) : run cfg now s [] = s := rfl

@[simp] theorem run_append (s : Entitlement) (l l' : List Sent) :
    run cfg now s (l ++ l') = run cfg now (run cfg now s l) l' := by
  simp [run]

@[simp] theorem run_singleton (s : Entitlement) (x : Sent) :
    run cfg now s [x] = step cfg now s x := rfl

theorem access_of_active {s : Entitlement} (h : s.status = .active) : s.access now = true := by
  simp [access, h]

theorem access_of_pastDue {s : Entitlement} {g : Int} (h : s.status = .pastDue)
    (hg : s.grace = some g) : s.access now = decide (now < g) := by
  simp [access, h, hg]

/-- Away from `past_due` the status alone decides. -/
theorem access_of_ne_pastDue {s : Entitlement} (h : s.status ≠ .pastDue) :
    s.access now = decide (s.status = .active) := by
  unfold access
  split
  · next hs => simp [hs]
  · next hs => exact absurd hs h
  · next hs _ => exact (decide_eq_false hs).symm

/-! ## Which sets of events are safe -/

/-- A subscription that is not older than what the account has already seen. -/
def LiveSubscription (s0 : Entitlement) (x : Sent) : Prop :=
  (∃ st p, x.signal = .subscription st p) ∧ s0.stale x.time = false

/-- An event that says something: not a subscription the account is already past. -/
def Live (s0 : Entitlement) (x : Sent) : Prop :=
  (∃ st p, x.signal = .subscription st p) → s0.stale x.time = false

/-- What it takes for an older event `x` to change nothing after a newer one `y`, both delivered to an
    account with entitlement `s0`. -/
def Agrees (s0 : Entitlement) : Signal → Signal → Prop
  | .subscription _ _, .subscription _ _ => True
  | .subscription st p, .paid => st.1 = .active ∧ s0.product = some p
  | .subscription st p, .failed => st.1 = .pastDue ∧ s0.product = some p
  | .subscription st p, .checkout q => st.1 = .active ∧ s0.status = .active ∧ p = q
  | .paid, .subscription st _ => st.1 = .active
  | .paid, .paid => True
  | .paid, .failed => False
  | .paid, .checkout _ => s0.status = .active
  | .failed, .subscription st _ => st.1 = .pastDue
  | .failed, .paid => False
  | .failed, .failed => True
  | .failed, .checkout _ => False
  | .checkout p, .subscription st q => st.1 = .active ∧ p = q
  | .checkout p, .paid => s0.product = some p
  | .checkout _, .failed => False
  | .checkout p, .checkout q => p = q

/-- An older event agrees with every newer one. -/
def Paired (s0 : Entitlement) (evs : List Sent) : Prop :=
  ∀ x ∈ evs, ∀ y ∈ evs, s0.Live x → s0.Live y → x.time < y.time → s0.Agrees x.signal y.signal

/-- The statuses after which no tolerance is left. -/
def clears : AccountStatus → Bool
  | .active | .cancelled | .unpaid | .paused => true
  | _ => false

/-- The tolerance after a status that clears it. -/
theorem graceAfter_of_clears {st : AccountStatus} (h : clears st = true) (grace : Option Int) :
    BillingAccount.graceAfter cfg now st grace = none := by
  cases st with
  | active | cancelled | unpaid | paused => rfl
  | _ => exact absurd h (by decide)

/-- A running tolerance goes on after a status that does not clear it. -/
theorem graceAfter_of_not_clears {st : AccountStatus} (h : clears st = false) (g : Int) :
    BillingAccount.graceAfter cfg now st (some g) = some g := by
  cases st with
  | active | cancelled | unpaid | paused => exact absurd h (by decide)
  | pastDue => rw [BillingAccount.graceAfter_pastDue, Option.getD_some]
  | _ => rfl

variable (cfg now) in
/-- A tolerance after a subscription is none, the one before, or a new one. -/
theorem graceAfter_cases (st : AccountStatus) (grace : Option Int) :
    BillingAccount.graceAfter cfg now st grace = none ∨
      BillingAccount.graceAfter cfg now st grace = grace ∨
      BillingAccount.graceAfter cfg now st grace = some (now + cfg.gracePeriod) := by
  cases hst : clears st with
  | true => exact Or.inl (graceAfter_of_clears hst grace)
  | false =>
      cases grace with
      | some g => exact Or.inr (Or.inl (graceAfter_of_not_clears hst g))
      | none =>
          cases st with
          | active | cancelled | unpaid | paused => exact absurd hst (by decide)
          | pastDue => exact Or.inr (Or.inr (BillingAccount.graceAfter_pastDue cfg now none))
          | _ => exact Or.inl rfl

/-- The tolerance the account has now is as good as a new one. -/
def SameTolerance (cfg : BillingSettings) (now : Int) (s0 : Entitlement) : Prop :=
  ∀ g, s0.grace = some g → (now < g ↔ now < now + cfg.gracePeriod)

/-- The newest live subscription of a list. -/
structure Newest (s0 : Entitlement) (l : List Sent) (m : Sent) : Prop where
  mem : m ∈ l
  live : s0.LiveSubscription m
  max : ∀ x ∈ l, s0.LiveSubscription x → x.time ≤ m.time

/-- The condition under which the events may arrive in any order. -/
structure OrderSafe (cfg : BillingSettings) (now : Int) (s0 : Entitlement) (evs : List Sent) :
    Prop where
  pairs : s0.Paired evs
  /-- If the newest subscription leaves the account past due, then a subscription before it that ends
      the running tolerance makes no difference. -/
  lapse : ∀ m p, s0.Newest evs m → m.signal = .subscription ⟨.pastDue, by simp⟩ p →
    ∀ x st q, x ∈ evs → s0.LiveSubscription x → x.signal = .subscription st q → clears st = true →
      SameTolerance cfg now s0
  /-- If both a subscription and a failed payment may make the account past due, then it makes no
      difference which of them does. -/
  tolerance : ∀ x y, x ∈ evs → s0.LiveSubscription x → y ∈ evs → y.signal = .failed →
    s0.status ≠ .pastDue → SameTolerance cfg now s0

/-- What order independence asks of the entitlement. -/
structure OrderFree (cfg : BillingSettings) (now : Int) (s0 : Entitlement) (evs : List Sent) :
    Prop where
  sameEnd : ∀ l l' : List Sent, l.Perm evs → l'.Perm evs →
    (run cfg now s0 l).shown now = (run cfg now s0 l').shown now
  /-- Once `y` has been applied, an older `x` changes nothing. -/
  lateIgnored : ∀ (p q r : List Sent) (x y : Sent), (p ++ y :: q ++ x :: r).Perm evs →
    ((∃ st c, y.signal = .subscription st c) → (run cfg now s0 p).stale y.time = false) →
    x.time < y.time →
    (run cfg now s0 (p ++ y :: q ++ [x])).shown now = (run cfg now s0 (p ++ y :: q)).shown now

/-! ## One step -/

section Step

variable {s : Entitlement} {x : Sent}

theorem step_checkout {p : ProductCode} (h : x.signal = .checkout p) :
    step cfg now s x =
      { s with product := some p, status := if s.status = .active then .active else .pending } := by
  simp [step, h]

theorem step_paid (h : x.signal = .paid) :
    step cfg now s x = { s with status := .active, grace := none } := by
  simp [step, h]

theorem step_failed (h : x.signal = .failed) (hs : s.status ≠ .pastDue ∨ s.grace = none) :
    step cfg now s x = { s with status := .pastDue, grace := some (now + cfg.gracePeriod) } := by
  simp [step, h, hs]

theorem step_failed_again {g : Int} (h : x.signal = .failed) (hs : s.status = .pastDue)
    (hg : s.grace = some g) : step cfg now s x = s := by
  simp [step, h, hs, hg]

theorem step_stale {st : {s : AccountStatus // s ≠ .pending}} {p : ProductCode}
    (h : x.signal = .subscription st p) (hs : s.stale x.time = true) : step cfg now s x = s := by
  simp [step, h, hs]

theorem step_subscription {st : {s : AccountStatus // s ≠ .pending}} {p : ProductCode}
    (h : x.signal = .subscription st p) (hs : s.stale x.time = false) :
    step cfg now s x =
      ⟨st, some p, BillingAccount.graceAfter cfg now st s.grace, some x.time⟩ := by
  simp [step, h, hs]

theorem stale_of_last {t last : Int} (h : s.last = some last) :
    s.stale t = decide (t < last) := by
  simp [stale, h]

theorem stale_congr {s' : Entitlement} (h : s'.last = s.last) (t : Int) :
    s'.stale t = s.stale t := by
  simp [stale, h]

/-- Only a subscription moves the time of the newest event the account has seen. -/
theorem step_last_of_other (h : ¬∃ st p, x.signal = .subscription st p) :
    (step cfg now s x).last = s.last := by
  unfold step
  split
  · rfl
  · rfl
  · split <;> rfl
  · next st p hx => exact absurd ⟨st, p, hx⟩ h

end Step

variable {s0 : Entitlement}

/-! ## What a run has seen -/

/-- The time and plan an account shows after a run follow the newest live subscription in it. The
    plan does so unless a checkout wrote it, the status unless another kind of event did. -/
def Tracks (s0 : Entitlement) (l : List Sent) (s : Entitlement) : Prop :=
  ((∀ x ∈ l, ¬s0.LiveSubscription x) ∧ s.last = s0.last ∧
      ((∀ x ∈ l, ∀ p, x.signal ≠ .checkout p) → s.product = s0.product) ∧
      ((∀ x ∈ l, ∃ st p, x.signal = .subscription st p) → s = s0)) ∨
    ∃ m st p, s0.Newest l m ∧ m.signal = .subscription st p ∧ s.last = some m.time ∧
      ((∀ x ∈ l, ∀ p, x.signal ≠ .checkout p) → s.product = some p) ∧
      ((∀ x ∈ l, ∃ st p, x.signal = .subscription st p) → s.status = st)

theorem LiveSubscription.time_le {m x : Sent} (hm : s0.LiveSubscription m) (h : m.time ≤ x.time)
    (hx : ∃ st p, x.signal = .subscription st p) : s0.LiveSubscription x := by
  refine ⟨hx, ?_⟩
  have hs := hm.2
  unfold stale at hs ⊢
  split
  · next last hl =>
      rw [hl] at hs
      simp only [decide_eq_false_iff_not] at hs ⊢
      omega
  · rfl

/-- A subscription joins the run as its newest. -/
theorem Newest.snoc_self {l : List Sent} {x : Sent} (hx : s0.LiveSubscription x)
    (h : ∀ y ∈ l, s0.LiveSubscription y → y.time ≤ x.time) : s0.Newest (l ++ [x]) x := by
  refine ⟨by simp, hx, fun y hy hl => ?_⟩
  rcases List.mem_append.1 hy with hy | hy
  · exact h y hy hl
  · exact Int.le_of_eq (congrArg Sent.time (List.mem_singleton.1 hy))

/-- The newest stays the newest when the next event is not a newer one. -/
theorem Newest.snoc {l : List Sent} {m x : Sent} (hm : s0.Newest l m)
    (h : s0.LiveSubscription x → x.time ≤ m.time) : s0.Newest (l ++ [x]) m := by
  refine ⟨List.mem_append_left _ hm.mem, hm.live, fun y hy hl => ?_⟩
  rcases List.mem_append.1 hy with hy | hy
  · exact hm.max y hy hl
  · rw [List.mem_singleton.1 hy] at hl ⊢
    exact h hl

theorem Newest.perm {l l' : List Sent} {m : Sent} (h : s0.Newest l m) (hl : l.Perm l') :
    s0.Newest l' m :=
  ⟨hl.mem_iff.1 h.mem, h.live, fun x hx => h.max x (hl.mem_iff.2 hx)⟩

variable (cfg now s0) in
theorem run_tracks (l : List Sent) : Tracks s0 l (run cfg now s0 l) := by
  induction l using List.reverseRecOn with
  | nil => exact Or.inl ⟨by simp, rfl, fun _ => rfl, fun _ => rfl⟩
  | append_singleton l x ih =>
      rw [run_append, run_singleton]
      have hleft : ∀ {P : Sent → Prop}, (∀ y ∈ l ++ [x], P y) → ∀ y ∈ l, P y :=
        fun h y hy => h y (List.mem_append_left _ hy)
      have hlast : ∀ {P : Sent → Prop}, (∀ y ∈ l ++ [x], P y) → P x := fun h => h x (by simp)
      generalize run cfg now s0 l = s at ih ⊢
      by_cases hx : ∃ st p, x.signal = .subscription st p
      · obtain ⟨st, p, hsig⟩ := hx
        rcases ih with ⟨hno, hs, hp, hall⟩ | ⟨m, st', p', hm, hmsig, hs, hp, hall⟩
        · cases hst : s.stale x.time with
          | true =>
              rw [step_stale hsig hst]
              have hdead : ¬s0.LiveSubscription x := fun h => by
                rw [stale_congr hs, h.2] at hst
                exact absurd hst (by simp)
              refine Or.inl ⟨fun y hy => ?_, hs, fun h => hp (hleft h), fun h => hall (hleft h)⟩
              rcases List.mem_append.1 hy with hy | hy
              · exact hno y hy
              · rwa [List.mem_singleton.1 hy]
          | false =>
              rw [step_subscription hsig hst]
              have hlive : s0.LiveSubscription x := ⟨⟨st, p, hsig⟩, by rw [← stale_congr hs, hst]⟩
              exact Or.inr ⟨x, st, p, .snoc_self hlive fun y hy hl => absurd hl (hno y hy), hsig,
                rfl, fun _ => rfl, fun _ => rfl⟩
        · cases hst : s.stale x.time with
          | true =>
              rw [step_stale hsig hst]
              rw [stale_of_last hs, decide_eq_true_eq] at hst
              exact Or.inr ⟨m, st', p', hm.snoc fun _ => Int.le_of_lt hst, hmsig, hs,
                fun h => hp (hleft h), fun h => hall (hleft h)⟩
          | false =>
              rw [step_subscription hsig hst]
              rw [stale_of_last hs, decide_eq_false_iff_not, Int.not_lt] at hst
              exact Or.inr ⟨x, st, p,
                .snoc_self (hm.live.time_le hst ⟨st, p, hsig⟩) fun y hy hl => by
                  have := hm.max y hy hl
                  omega,
                hsig, rfl, fun _ => rfl, fun _ => rfl⟩
      · have hprod : (∀ y ∈ l ++ [x], ∀ p, y.signal ≠ .checkout p) →
            (step cfg now s x).product = s.product := by
          intro h
          have := hlast h
          unfold step
          split
          · next p hsig => exact absurd hsig (this p)
          · rfl
          · split <;> rfl
          · next st p hsig => exact absurd ⟨st, p, hsig⟩ hx
        rcases ih with ⟨hno, hs, hp, hall⟩ | ⟨m, st', p', hm, hmsig, hs, hp, hall⟩
        · refine Or.inl ⟨fun y hy => ?_, (step_last_of_other hx).trans hs,
            fun h => (hprod h).trans (hp (hleft h)), fun h => absurd (hlast h) hx⟩
          rcases List.mem_append.1 hy with hy | hy
          · exact hno y hy
          · rw [List.mem_singleton.1 hy]
            exact fun h => hx h.1
        · exact Or.inr ⟨m, st', p', hm.snoc fun h => absurd h.1 hx, hmsig,
            (step_last_of_other hx).trans hs, fun h => (hprod h).trans (hp (hleft h)),
            fun h => absurd (hlast h) hx⟩

end Entitlement

end Rubrica
