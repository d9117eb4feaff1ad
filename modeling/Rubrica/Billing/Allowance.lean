import Rubrica.Billing.History

set_option autoImplicit false

/-! # The file allowance

How many files a tenant has uploaded in its period, and when the period began. This part of the account
is its `Allowance`; a step of the history moves it by the `Entry` the step makes, if it makes one
(`Books.allowance_advance`). What the entries of a history come to is the ledger law
(`Books.allowanceLedger`). -/

namespace Rubrica

open Transactions

/-! ## Entries -/

/-- The part of an account that counts uploads. -/
structure Allowance where
  used : Nat
  start : Option Int
  deriving DecidableEq, Repr

inductive Entry where
  /-- A new period. -/
  | renewal (start : Int)
  /-- The first period of the account. -/
  | firstPeriod (start : Int)
  | upload
  deriving DecidableEq, Repr

namespace Allowance

def book (a : Allowance) : Entry → Allowance
  | .renewal s => ⟨0, some s⟩
  | .firstPeriod s => { a with start := some s }
  | .upload => { a with used := a.used + 1 }

/-- The entry a period makes. -/
def period (a : Allowance) (start : Option Int) (resetUsage : Bool) : Option Entry :=
  match start, a.start with
  | none, _ => none
  | some s, none => some (.firstPeriod s)
  | some s, some c => if resetUsage ∧ c < s then some (.renewal s) else none

theorem period_renewal {a : Allowance} {start : Option Int} {resetUsage : Bool} {s : Int}
    (h : a.period start resetUsage = some (.renewal s)) :
    resetUsage = true ∧ start = some s ∧ ∃ c, a.start = some c ∧ c < s := by
  unfold period at h
  split at h
  · exact absurd h (by simp)
  · exact absurd h (by simp)
  · next t c hc =>
      split at h
      · next hlt =>
          obtain rfl : t = s := by simpa using h
          exact ⟨hlt.1, rfl, c, hc, hlt.2⟩
      · exact absurd h (by simp)

theorem period_firstPeriod {a : Allowance} {start : Option Int} {resetUsage : Bool} {s : Int}
    (h : a.period start resetUsage = some (.firstPeriod s)) : a.start = none := by
  unfold period at h
  split at h
  · exact absurd h (by simp)
  · assumption
  · split at h <;> simp at h

theorem period_ne_upload {a : Allowance} {start : Option Int} {resetUsage : Bool} :
    a.period start resetUsage ≠ some .upload := by
  unfold period
  split
  · simp
  · simp
  · split <;> simp

end Allowance

namespace BillingAccount

def allowance (a : BillingAccount) : Allowance :=
  ⟨a.filesUploadedInPeriod, a.usagePeriodStartsAt⟩

theorem syncUsagePeriod_allowance (a : BillingAccount) (period : Option Int × Option Int)
    (resetUsage : Bool) :
    (a.syncUsagePeriod period resetUsage).allowance =
      ((a.allowance.period period.1 resetUsage).map a.allowance.book).getD a.allowance := by
  obtain ⟨start, stop⟩ := period
  unfold syncUsagePeriod Allowance.period
  cases start with
  | none => rfl
  | some s =>
      cases hc : a.usagePeriodStartsAt with
      | none => simp [allowance, hc, Allowance.book]
      | some c =>
          by_cases h : resetUsage = true ∧ c < s
          · simp [allowance, hc, h, Allowance.book]
          · simp [allowance, hc, h]

end BillingAccount

namespace Books

variable {cfg : BillingSettings} {tenantId : UUID} {b : Books} {x : Int × BillingStep}
  {l : List (Int × BillingStep)}

abbrev allowance (b : Books) : Allowance :=
  b.current.allowance

/-- The entry a step makes in the books it finds. -/
def entry (b : Books) (x : Int × BillingStep) : Option Entry :=
  match x.2 with
  | .event e =>
      if e.raises then none
      else
        match e.type with
        | .invoicePaymentSucceeded =>
            b.allowance.period e.resource.invoiceServicePeriod.1
              (e.resource.billingReason = some "subscription_cycle")
        | .customerSubscription _ =>
            if b.current.isStale (some e.createdAt) ∨ e.resource.subscriptionStatus ≠ .active then none
            else b.allowance.period e.resource.subscriptionPeriod.1 false
        | _ => none
  | .synchronize r =>
      if (present b.current.providerSubscriptionId).isNone ∨ r.subscriptionStatus ≠ .active then none
      else b.allowance.period r.subscriptionPeriod.1 false
  | .upload =>
      if b.current.complimentaryLifetime then none
      else
        match b.current.activePlanFileLimit x.1 with
        | none => none
        | some limit => if limit ≤ b.allowance.used then none else some .upload
  | _ => none

/-- What a subscription that is applied does to the allowance. -/
theorem applySubscription_allowance (a : BillingAccount) (now : Int) (r : Resource) (created : Option Int) :
    (a.applySubscription cfg now r created).allowance =
      ((if r.subscriptionStatus ≠ .active then none
        else a.allowance.period r.subscriptionPeriod.1 false).map a.allowance.book).getD a.allowance := by
  unfold BillingAccount.applySubscription
  have hstatus : (a.setTerms cfg now r created).status = r.subscriptionStatus := rfl
  have hsame : (a.setTerms cfg now r created).allowance = a.allowance := rfl
  simp only [hstatus]
  by_cases h : r.subscriptionStatus = .active
  · rw [if_pos h, if_neg (not_not.2 h), BillingAccount.syncUsagePeriod_allowance, hsame]
  · rw [if_neg h, if_pos h]
    rfl

theorem deliver_allowance (b : Books) (now : Int) (e : BillingEvent) :
    (b.deliver cfg now tenantId e).1.allowance =
      ((b.entry (now, .event e)).map b.allowance.book).getD b.allowance := by
  cases hr : e.raises with
  | true =>
      rw [deliver_raises hr]
      simp [entry, hr]
  | false =>
      have hacc : (b.deliver cfg now tenantId e).1.allowance =
          (b.current.applyEvent cfg now e.type e.resource (some e.createdAt)).1.allowance := by
        rw [allowance, current, deliver_account hr]
        rfl
      rw [hacc]
      simp only [entry, hr, BillingAccount.applyEvent, Bool.false_eq_true, if_false]
      cases e.type with
      | checkoutSessionCompleted => rfl
      | invoicePaymentSucceeded => exact BillingAccount.syncUsagePeriod_allowance _ _ _
      | invoicePaymentFailed =>
          show (BillingAccount.applyPaymentFailed _ _ _).allowance = _
          unfold BillingAccount.applyPaymentFailed
          split <;> rfl
      | customerSubscription change =>
          have hstale : (b.current.touch e.resource).isStale (some e.createdAt) =
              b.current.isStale (some e.createdAt) := rfl
          dsimp only
          rw [hstale]
          cases b.current.isStale (some e.createdAt) with
          | true => simp; rfl
          | false =>
              simp only [Bool.false_eq_true, if_false, false_or]
              exact applySubscription_allowance _ _ _ _
      | other text => rfl

theorem synchronize_allowance (b : Books) (now : Int) (r : Resource) :
    ((b.synchronize cfg now r).getD b).allowance =
      ((b.entry (now, .synchronize r)).map b.allowance.book).getD b.allowance := by
  unfold synchronize entry
  split
  · next h => simp [h]
  · next h =>
      have hstale : (b.current.touch r).isStale none = false := rfl
      simp only [BillingAccount.applyEvent, hstale, Bool.false_eq_true, if_false, Option.getD_some, h,
        false_or]
      exact applySubscription_allowance _ _ _ _

theorem checkout_allowance {a a' : BillingAccount} {o : CheckoutOrder} (h : a.checkout cfg o = some a') :
    a'.allowance = a.allowance := by
  unfold BillingAccount.checkout at h
  split at h
  · exact absurd h (by simp)
  · split at h
    · exact absurd h (by simp)
    · split at h <;> (obtain rfl := Option.some.inj h; rfl)

theorem upload_allowance (b : Books) (now : Int) :
    (((b.current.consumeDocument now).map fun a => { b with account := some a }).getD b).allowance =
      ((b.entry (now, .upload)).map b.allowance.book).getD b.allowance := by
  unfold BillingAccount.consumeDocument entry
  split
  · rfl
  · dsimp only
    cases b.current.activePlanFileLimit now with
    | none => rfl
    | some limit =>
        by_cases h : limit ≤ b.allowance.used
        · have h' : limit ≤ b.current.filesUploadedInPeriod := h
          simp [h, h']
        · have h' : ¬limit ≤ b.current.filesUploadedInPeriod := h
          simp only [h, h', if_false]
          rfl

/-- A step moves the allowance by the entry it makes. -/
theorem allowance_advance (b : Books) (x : Int × BillingStep) :
    (b.advance cfg tenantId x).allowance =
      ((b.entry x).map b.allowance.book).getD b.allowance := by
  obtain ⟨now, step⟩ := x
  cases step with
  | event e => exact deliver_allowance b now e
  | synchronize r => exact synchronize_allowance b now r
  | checkout o =>
      show (((b.current.checkout cfg o).map fun a => { b with account := some a }).getD b).allowance = _
      cases h : b.current.checkout cfg o with
      | none => rfl
      | some a =>
          show a.allowance = _
          exact checkout_allowance h
  | upload => exact upload_allowance b now
  | wait => rfl

/-! ## The ledger -/

/-- An upload that counts. -/
def metered (b : Books) (x : Int × BillingStep) : Bool :=
  b.entry x = some .upload

def resets (b : Books) (x : Int × BillingStep) : Bool :=
  match b.entry x with
  | some (.renewal _) => true
  | _ => false

/-- How many steps of the history satisfy a condition, in the books they find. -/
def count (cfg : BillingSettings) (tenantId : UUID) (f : Books → Int × BillingStep → Bool) (b : Books) :
    List (Int × BillingStep) → Nat
  | [] => 0
  | x :: l => (f b x).toNat + count cfg tenantId f (b.advance cfg tenantId x) l

/-- The delivery of a paid invoice of the subscription cycle, for a period that starts at `start`, after
    the one the account is in. -/
structure CycleInvoice (b : Books) (x : Int × BillingStep) (start : Int) : Prop where
  delivered : ∃ e, x.2 = .event e ∧ e.type = .invoicePaymentSucceeded ∧
    e.resource.billingReason = some "subscription_cycle" ∧ e.resource.invoiceServicePeriod.1 = some start
  later : ∃ current, b.current.usagePeriodStartsAt = some current ∧ current < start

/-- The law of the ledger over a history. -/
structure AllowanceLedger (cfg : BillingSettings) (tenantId : UUID) (b : Books)
    (l : List (Int × BillingStep)) : Prop where
  /-- Without a reset the counter counts metered uploads. -/
  counted : ∀ p q r, l = p ++ q ++ r → (b.after cfg tenantId p).happens cfg tenantId resets q = false →
    (b.after cfg tenantId (p ++ q)).current.filesUploadedInPeriod =
      (b.after cfg tenantId p).current.filesUploadedInPeriod +
        count cfg tenantId metered (b.after cfg tenantId p) q
  /-- A reset comes from the invoice of a later period. -/
  reset : ∀ p x q, l = p ++ x :: q → (b.after cfg tenantId p).resets x = true →
    (b.after cfg tenantId (p ++ [x])).current.filesUploadedInPeriod = 0 ∧
      ∃ start, (b.after cfg tenantId p).CycleInvoice x start ∧
        (b.after cfg tenantId (p ++ [x])).current.usagePeriodStartsAt = some start
  /-- A metered upload stays within the plan in force. -/
  limited : ∀ p x q, l = p ++ x :: q → (b.after cfg tenantId p).metered x = true →
    x.2 = .upload ∧ ∃ limit, (b.after cfg tenantId p).current.activePlanFileLimit x.1 = some limit ∧
      (b.after cfg tenantId (p ++ [x])).current.filesUploadedInPeriod ≤ limit
  forward : ∀ p q r, l = p ++ q ++ r → ∀ start,
    (b.after cfg tenantId p).current.usagePeriodStartsAt = some start →
    ∃ start', (b.after cfg tenantId (p ++ q)).current.usagePeriodStartsAt = some start' ∧ start ≤ start'
  /-- Two resets have two periods. -/
  once : ∀ p x q y r start start', l = p ++ x :: (q ++ y :: r) →
    (b.after cfg tenantId p).resets x = true → (b.after cfg tenantId p).CycleInvoice x start →
    (b.after cfg tenantId (p ++ x :: q)).resets y = true →
    (b.after cfg tenantId (p ++ x :: q)).CycleInvoice y start' → start < start'

theorem entry_of_resets (h : b.resets x = true) : ∃ start, b.entry x = some (.renewal start) := by
  unfold resets at h
  split at h
  · exact ⟨_, by assumption⟩
  · exact absurd h (by simp)

/-- An entry comes from an upload or from a period, and a reset only from a paid invoice of the cycle. -/
theorem entry_cases {entry : Entry} (h : b.entry x = some entry) :
    (x.2 = .upload ∧ entry = .upload ∧ ∃ limit, b.current.activePlanFileLimit x.1 = some limit ∧
      b.allowance.used < limit) ∨
    ∃ start resetUsage, b.allowance.period start resetUsage = some entry ∧
      (resetUsage = true → ∃ e, x.2 = .event e ∧ e.type = .invoicePaymentSucceeded ∧
        e.resource.billingReason = some "subscription_cycle" ∧
        e.resource.invoiceServicePeriod.1 = start) := by
  obtain ⟨now, step⟩ := x
  cases step with
  | event e =>
      simp only [Books.entry] at h
      split at h
      · exact absurd h (by simp)
      · split at h
        · next ht => exact Or.inr ⟨_, _, h, fun hr => ⟨e, rfl, ht, of_decide_eq_true hr, rfl⟩⟩
        · split at h
          · exact absurd h (by simp)
          · exact Or.inr ⟨_, _, h, fun hr => absurd hr (by simp)⟩
        · exact absurd h (by simp)
  | synchronize r =>
      simp only [Books.entry] at h
      split at h
      · exact absurd h (by simp)
      · exact Or.inr ⟨_, _, h, fun hr => absurd hr (by simp)⟩
  | upload =>
      simp only [Books.entry] at h
      split at h
      · exact absurd h (by simp)
      · split at h
        · exact absurd h (by simp)
        · next limit hlimit =>
            split at h
            · exact absurd h (by simp)
            · next hlt => exact Or.inl ⟨rfl, (Option.some.inj h).symm, limit, hlimit, Nat.lt_of_not_le hlt⟩
  | checkout o => exact absurd h (by simp [Books.entry])
  | wait => exact absurd h (by simp [Books.entry])

theorem cycleInvoice_of_renewal {start : Int} (h : b.entry x = some (.renewal start)) :
    b.CycleInvoice x start := by
  rcases entry_cases h with ⟨-, hu, -⟩ | ⟨start', resetUsage, hp, he⟩
  · exact absurd hu (by simp)
  · obtain ⟨hr, rfl, hlater⟩ := Allowance.period_renewal hp
    exact ⟨he hr, hlater⟩

theorem limit_of_metered (h : b.metered x = true) :
    x.2 = .upload ∧ ∃ limit, b.current.activePlanFileLimit x.1 = some limit ∧ b.allowance.used < limit := by
  rcases entry_cases (of_decide_eq_true h) with ⟨hx, -, hlimit⟩ | ⟨start, resetUsage, hp, -⟩
  · exact ⟨hx, hlimit⟩
  · exact absurd hp Allowance.period_ne_upload

theorem CycleInvoice.unique {start start' : Int} (h : b.CycleInvoice x start)
    (h' : b.CycleInvoice x start') : start = start' := by
  obtain ⟨e, he, -, -, hs⟩ := h.delivered
  obtain ⟨e', he', -, -, hs'⟩ := h'.delivered
  obtain rfl := BillingStep.event.inj (he.symm.trans he')
  exact Option.some.inj (hs.symm.trans hs')

/-- One step: the counter. -/
theorem used_advance (h : b.resets x = false) :
    (b.advance cfg tenantId x).allowance.used = b.allowance.used + (b.metered x).toNat := by
  rw [allowance_advance]
  unfold resets at h
  unfold metered
  cases he : b.entry x with
  | none => rfl
  | some entry =>
      cases entry with
      | renewal start => simp [he] at h
      | firstPeriod start => rfl
      | upload => rfl

variable (cfg tenantId x) in
/-- One step: the period does not go back. -/
theorem start_advance {start : Int} (h : b.allowance.start = some start) :
    ∃ start', (b.advance cfg tenantId x).allowance.start = some start' ∧ start ≤ start' := by
  rw [allowance_advance]
  cases he : b.entry x with
  | none => exact ⟨start, h, Int.le_refl _⟩
  | some entry =>
      rcases entry_cases he with ⟨-, rfl, -⟩ | ⟨start', resetUsage, hp, -⟩
      · exact ⟨start, h, Int.le_refl _⟩
      · cases entry with
        | renewal s =>
            obtain ⟨-, -, c, hc, hlt⟩ := Allowance.period_renewal hp
            obtain rfl := Option.some.inj (h.symm.trans hc)
            exact ⟨s, rfl, Int.le_of_lt hlt⟩
        | firstPeriod s => exact absurd (h.symm.trans (Allowance.period_firstPeriod hp)) (by simp)
        | upload => exact ⟨start, h, Int.le_refl _⟩

variable (cfg tenantId) in
theorem reset_advance {start : Int} (h : b.entry x = some (.renewal start)) :
    (b.advance cfg tenantId x).allowance = ⟨0, some start⟩ := by
  rw [allowance_advance, h]
  rfl

theorem used_after (h : b.happens cfg tenantId resets l = false) :
    (b.after cfg tenantId l).allowance.used = b.allowance.used + count cfg tenantId metered b l := by
  induction l generalizing b with
  | nil => rfl
  | cons x l ih =>
      obtain ⟨hx, hl⟩ := Bool.or_eq_false_iff.1 h
      rw [after_cons, ih hl, used_advance hx, count, Nat.add_assoc]

theorem start_after {start : Int} (h : b.allowance.start = some start) :
    ∃ start', (b.after cfg tenantId l).allowance.start = some start' ∧ start ≤ start' := by
  induction l generalizing b start with
  | nil => exact ⟨start, h, Int.le_refl _⟩
  | cons x l ih =>
      obtain ⟨s, hs, hle⟩ := start_advance cfg tenantId x h
      obtain ⟨s', hs', hle'⟩ := ih hs
      exact ⟨s', hs', Int.le_trans hle hle'⟩

variable (cfg tenantId b l) in
/-- **The ledger law.** -/
theorem allowanceLedger : b.AllowanceLedger cfg tenantId l where
  counted p q r _ h := by
    rw [after_append]
    exact used_after h
  reset p x q _ h := by
    obtain ⟨start, he⟩ := entry_of_resets h
    have hadvance := reset_advance cfg tenantId he
    rw [after_append]
    exact ⟨congrArg Allowance.used hadvance, start, cycleInvoice_of_renewal he,
      congrArg Allowance.start hadvance⟩
  limited p x q _ h := by
    obtain ⟨hx, limit, hlimit, hlt⟩ := limit_of_metered h
    refine ⟨hx, limit, hlimit, ?_⟩
    have hreset : (b.after cfg tenantId p).resets x = false := by
      unfold resets
      rw [of_decide_eq_true h]
    have hused : (b.after cfg tenantId (p ++ [x])).allowance.used =
        (b.after cfg tenantId p).allowance.used + 1 := by
      rw [after_append]
      exact (used_advance hreset).trans (by rw [h]; rfl)
    show (b.after cfg tenantId (p ++ [x])).allowance.used ≤ limit
    omega
  forward p q r _ start h := by
    rw [after_append]
    exact start_after h
  once p x q y r start start' _ hx hinvoice hy hinvoice' := by
    obtain ⟨s, he⟩ := entry_of_resets hx
    obtain rfl := (cycleInvoice_of_renewal he).unique hinvoice
    obtain ⟨current, hcurrent, hlt⟩ := hinvoice'.later
    have hstart : ((b.after cfg tenantId p).advance cfg tenantId x).allowance.start = some s := by
      rw [reset_advance cfg tenantId he]
    obtain ⟨c, hc, hle⟩ := start_after (l := q) hstart
    have hafter : b.after cfg tenantId (p ++ x :: q) =
        ((b.after cfg tenantId p).advance cfg tenantId x).after cfg tenantId q := by simp
    rw [hafter] at hcurrent
    obtain rfl := Option.some.inj (hcurrent.symm.trans hc)
    exact Int.lt_of_le_of_lt hle hlt

end Books

end Rubrica
