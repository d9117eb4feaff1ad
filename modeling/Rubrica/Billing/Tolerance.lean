import Rubrica.Billing.History

set_option autoImplicit false

/-! # Tolerance after a failed payment

A payment failure gives an account time to pay. The service means this for accounts that have paid
before, and once for each lapse; the code opens a tolerance for every failed invoice that finds the
account not past due, whether or not there has ever been a payment, and whether or not there has been a
tolerance since. Both results say exactly which failures make the difference (`noAccess_iff`,
`grantedOnce_iff`). -/

namespace Rubrica

open Transactions

/-! ## Standings -/

namespace Standing

variable {cfg : BillingSettings} {now : Int} {s : Standing} {n : Notice}

/-- No paid access, now and later. -/
def Off (s : Standing) (now : Int) : Prop :=
  s.status ≠ .active ∧ (s.status = .pastDue → ∀ g, s.grace = some g → g ≤ now)

theorem off_iff : s.Off now ↔ s.access now = false := by
  obtain ⟨status, grace⟩ := s
  cases status <;> cases grace <;> simp [Off, access]

theorem Off.mono {now' : Int} (h : s.Off now) (hle : now ≤ now') : s.Off now' :=
  ⟨h.1, fun hs g hg => Int.le_trans (h.2 hs g hg) hle⟩

/-- A notice that is neither a confirmation nor a failure gives no access. -/
theorem receive_off (hc : n.confirms = false) (hf : n.fails = false) (h : s.Off now) :
    (s.receive cfg now n).Off now := by
  cases n with
  | checkout =>
      have hstatus : (s.receive cfg now .checkout).status = .pending := if_neg h.1
      exact ⟨by simp [hstatus], fun hs => by simp [hstatus] at hs⟩
  | paid => exact absurd hc (by decide)
  | failed => exact absurd hf (by decide)
  | subscription st =>
      refine ⟨fun hs : st = .active => ?_, fun hs : st = .pastDue => ?_⟩
      · rw [hs] at hc
        exact absurd hc (by decide)
      · rw [hs] at hf
        exact absurd hf (by decide)

theorem receive_confirms (h : n.confirms = true) : s.receive cfg now n = ⟨.active, none⟩ := by
  cases n with
  | paid => rfl
  | subscription st =>
      cases st with
      | active => rfl
      | _ => exact absurd h (by decide)
  | _ => exact absurd h (by decide)

theorem fails_of_opens (h : s.opens n = true) : n.fails = true := by
  cases n with
  | failed => rfl
  | subscription st =>
      cases st with
      | pastDue => rfl
      | _ => exact absurd h (by simp [opens])
  | _ => exact absurd h (by simp [opens])

theorem receive_opens (h : s.opens n = true) :
    s.receive cfg now n = ⟨.pastDue, some (now + cfg.gracePeriod)⟩ := by
  cases n with
  | failed => exact if_pos (of_decide_eq_true h)
  | subscription st =>
      cases st with
      | pastDue =>
          have hg : s.grace = none := of_decide_eq_true h
          simp only [receive, BillingAccount.graceAfter_pastDue, hg, Option.getD_none]
      | _ => exact absurd h (by simp [opens])
  | _ => exact absurd h (by simp [opens])

variable (cfg now) in
/-- A failure that opens no tolerance leaves the running one. -/
theorem receive_fails (hf : n.fails = true) (ho : s.opens n = false) :
    ∃ g, s.grace = some g ∧ s.receive cfg now n = ⟨.pastDue, some g⟩ := by
  cases n with
  | failed =>
      have ho' := of_decide_eq_false ho
      obtain ⟨h1, h2⟩ := not_or.1 ho'
      obtain ⟨g, hg⟩ := Option.ne_none_iff_exists'.1 h2
      refine ⟨g, hg, (if_neg ho').trans ?_⟩
      rw [← hg, ← not_ne_iff.1 h1]
  | subscription st =>
      cases st with
      | pastDue =>
          obtain ⟨g, hg⟩ := Option.ne_none_iff_exists'.1 (of_decide_eq_false ho)
          refine ⟨g, hg, ?_⟩
          simp only [receive, BillingAccount.graceAfter_pastDue, hg, Option.getD_some]
      | _ => exact absurd hf (by simp [Notice.fails])
  | _ => exact absurd hf (by simp [Notice.fails])

theorem confirms_of_fails (h : n.fails = true) : n.confirms = false := by
  cases n with
  | failed => rfl
  | subscription st => cases st <;> first | rfl | exact absurd h (by simp [Notice.fails])
  | _ => exact absurd h (by simp [Notice.fails])

theorem ends_of_fails (h : n.fails = true) : n.ends = false := by
  cases n with
  | failed => rfl
  | subscription st => cases st <;> first | rfl | exact absurd h (by simp [Notice.fails])
  | _ => exact absurd h (by simp [Notice.fails])

/-- A notice that is neither a confirmation nor a failure leaves the deadline or takes it away, and an
    end takes it away. -/
theorem receive_grace (hc : n.confirms = false) (hf : n.fails = false) :
    ((s.receive cfg now n).grace = none ∨
      (s.receive cfg now n).grace = s.grace ∧ n.ends = false) ∧
      ((s.receive cfg now n).status = .active → s.status = .active ∧ n.ends = false) := by
  cases n with
  | checkout =>
      refine ⟨Or.inr ⟨rfl, rfl⟩, fun h => ⟨?_, rfl⟩⟩
      by_contra hs
      have hp : (s.receive cfg now .checkout).status = .pending := if_neg hs
      rw [hp] at h
      exact absurd h (by decide)
  | paid => exact absurd hc (by decide)
  | failed => exact absurd hf (by decide)
  | subscription st =>
      cases st with
      | active => exact absurd hc (by decide)
      | pastDue => exact absurd hf (by decide)
      | unpaid => exact ⟨Or.inl rfl, fun h => absurd h (by simp [receive])⟩
      | cancelled => exact ⟨Or.inl rfl, fun h => absurd h (by simp [receive])⟩
      | paused => exact ⟨Or.inl rfl, fun h => absurd h (by simp [receive])⟩
      | notConfigured => exact ⟨Or.inr ⟨rfl, rfl⟩, fun h => absurd h (by simp [receive])⟩
      | pending => exact ⟨Or.inr ⟨rfl, rfl⟩, fun h => absurd h (by simp [receive])⟩

end Standing

/-! ## Failures and confirmations -/

namespace Books

variable (cfg : BillingSettings) (tenantId : UUID)

def confirms (b : Books) (x : Int × BillingStep) : Bool :=
  (b.notice cfg x.2).any Notice.confirms

def fails (b : Books) (x : Int × BillingStep) : Bool :=
  (b.notice cfg x.2).any Notice.fails

def ends (b : Books) (x : Int × BillingStep) : Bool :=
  (b.notice cfg x.2).any Notice.ends

/-- The step opens a tolerance. -/
def opens (b : Books) (x : Int × BillingStep) : Bool :=
  (b.notice cfg x.2).any b.standing.opens

/-- The step finds a tolerance that has lapsed. -/
def lapsed (b : Books) (x : Int × BillingStep) : Bool :=
  b.standing.status = .pastDue && b.standing.grace.any fun g => g ≤ x.1

/-- The clock of the first payment failure of a history. -/
def firstFailure (b : Books) : List (Int × BillingStep) → Option Int
  | [] => none
  | x :: l => if b.fails cfg x then some x.1 else firstFailure (b.advance cfg tenantId x) l

variable {cfg tenantId} {b : Books} {x : Int × BillingStep} {l : List (Int × BillingStep)}

theorem firstFailure_snoc :
    b.firstFailure cfg tenantId (l ++ [x]) =
      (b.firstFailure cfg tenantId l).or
        (if (b.after cfg tenantId l).fails cfg x then some x.1 else none) := by
  induction l generalizing b with
  | nil => rfl
  | cons y l ih =>
      simp only [List.cons_append, firstFailure, after_cons]
      split
      · rfl
      · exact ih

theorem mem_of_firstFailure {t : Int} (h : b.firstFailure cfg tenantId l = some t) :
    ∃ y ∈ l, y.1 = t := by
  induction l generalizing b with
  | nil => simp [firstFailure] at h
  | cons y l ih =>
      simp only [firstFailure] at h
      split at h
      · exact ⟨y, List.mem_cons_self, Option.some.inj h⟩
      · obtain ⟨z, hz, rfl⟩ := ih h
        exact ⟨z, List.mem_cons_of_mem _ hz, rfl⟩

/-- A step without a notice leaves the standing alone. -/
theorem standing_of_none (h : b.notice cfg x.2 = none) :
    (b.advance cfg tenantId x).standing = b.standing := by
  rw [standing_advance, h]
  rfl

theorem standing_of_some {n : Notice} (h : b.notice cfg x.2 = some n) :
    (b.advance cfg tenantId x).standing = b.standing.receive cfg x.1 n := by
  rw [standing_advance, h]
  rfl

/-! ## Before the first payment -/

end Books

/-- A step that may confirm a payment: a paid invoice, or a subscription that is active or trialing. -/
def BillingStep.mayConfirm : BillingStep → Bool
  | .event e =>
      match e.type with
      | .customerSubscription _ => e.resource.subscriptionStatus = .active
      | .invoicePaymentSucceeded => true
      | _ => false
  | .synchronize r => r.subscriptionStatus = .active
  | _ => false

namespace Books

variable {cfg : BillingSettings} {tenantId : UUID} {b : Books} {x : Int × BillingStep}
  {l : List (Int × BillingStep)}

theorem not_confirms (h : x.2.mayConfirm = false) : b.confirms cfg x = false := by
  unfold confirms notice
  cases hx : x.2 with
  | event e =>
      rw [hx] at h
      dsimp only
      cases hs : e.sent cfg with
      | none => rfl
      | some y =>
          obtain ⟨-, hsig⟩ := raises_of_sent hs
          unfold BillingEvent.signal at hsig
          unfold BillingStep.mayConfirm at h
          simp only [Option.bind_some]
          cases ht : e.type with
          | checkoutSessionCompleted =>
              rw [ht] at hsig
              rw [← Option.some.inj hsig]
              rfl
          | invoicePaymentSucceeded => simp [ht] at h
          | invoicePaymentFailed =>
              rw [ht] at hsig
              rw [← Option.some.inj hsig]
              rfl
          | customerSubscription change =>
              rw [ht] at hsig
              rw [← Option.some.inj hsig]
              simp only [ht, decide_eq_false_iff_not] at h
              dsimp only
              split
              · rfl
              · show Notice.confirms (.subscription e.resource.subscriptionStatus) = false
                revert h
                cases e.resource.subscriptionStatus <;> simp [Notice.confirms]
          | other text => simp [ht] at hsig
  | synchronize r =>
      rw [hx] at h
      have hr : r.subscriptionStatus ≠ .active := of_decide_eq_false h
      dsimp only
      split
      · rfl
      · show Notice.confirms (.subscription r.subscriptionStatus) = false
        revert hr
        cases r.subscriptionStatus <;> simp [Notice.confirms]
  | checkout o => rfl
  | upload => rfl
  | wait => rfl

/-- What a payment failure finds, where it gives no access: a tolerance of no days that it opens, or a
    tolerance that has lapsed. -/
def Harmless (cfg : BillingSettings) (b : Books) (x : Int × BillingStep) : Prop :=
  b.fails cfg x = true →
    (b.opens cfg x = true → cfg.billingGracePeriodDays = 0) ∧
      (b.opens cfg x = false → ∀ g, b.current.gracePeriodEndsAt = some g → g ≤ x.1)

theorem gracePeriod_pos_iff (cfg : BillingSettings) : 0 < cfg.gracePeriod ↔ cfg.billingGracePeriodDays ≠ 0 := by
  unfold BillingSettings.gracePeriod
  omega

/-- One step: without a confirmation, access comes from a failure that is not harmless. -/
theorem off_advance_iff (hc : b.confirms cfg x = false) (h : b.standing.Off x.1) :
    (b.advance cfg tenantId x).standing.Off x.1 ↔ b.Harmless cfg x := by
  unfold Harmless fails opens
  unfold confirms at hc
  cases hn : b.notice cfg x.2 with
  | none =>
      rw [standing_of_none hn]
      exact ⟨fun _ hf => absurd hf (by simp), fun _ => h⟩
  | some n =>
      rw [standing_of_some hn]
      rw [hn] at hc
      simp only [Option.any_some] at hc ⊢
      cases hf : n.fails with
      | false => exact ⟨fun _ hf' => absurd hf' (by simp), fun _ => Standing.receive_off hc hf h⟩
      | true =>
          have hpos := gracePeriod_pos_iff cfg
          cases ho : b.standing.opens n with
          | true =>
              rw [Standing.receive_opens ho]
              simp only [Standing.Off]
              constructor
              · intro hoff _
                refine ⟨fun _ => ?_, fun hcon => absurd hcon (by simp)⟩
                have := hoff.2 trivial _ rfl
                omega
              · intro hh
                have := (hh trivial).1 trivial
                refine ⟨by simp, fun _ g hg => ?_⟩
                have := Option.some.inj hg
                omega
          | false =>
              obtain ⟨g, hg, hr⟩ := Standing.receive_fails cfg x.1 hf ho
              rw [hr]
              simp only [Standing.Off]
              constructor
              · intro hoff _
                refine ⟨fun hcon => absurd hcon (by simp), fun _ g' hg' => ?_⟩
                have : some g = some g' := hg.symm.trans hg'
                exact Option.some.inj this ▸ hoff.2 trivial g rfl
              · intro hh
                refine ⟨by simp, fun _ g' hg' => ?_⟩
                exact Option.some.inj hg' ▸ (hh trivial).2 trivial g hg

/-- **No access before a payment is confirmed.** In a history without a confirmation, an account that
    starts as not configured has no paid access at any moment exactly when every payment failure is
    harmless. -/
theorem noAccess_iff (h0 : b.current.status = .notConfigured) (ho : Ordered l)
    (hc : ∀ x ∈ l, x.2.mayConfirm = false) :
    (∀ p q now, Moment l p q now → (b.after cfg tenantId p).current.paidAccessEnabled now = false) ↔
      ∀ p x q, l = p ++ x :: q → (b.after cfg tenantId p).Harmless cfg x := by
  constructor
  · intro h p x q hl
    have hx : x ∈ l := by rw [hl]; simp
    have hp : Moment l p (x :: q) x.1 := by
      obtain ⟨-, hq, hpq⟩ := List.pairwise_append.1 (hl ▸ ho : Ordered (p ++ x :: q))
      refine ⟨hl, fun y hy => hpq y hy x List.mem_cons_self, fun y hy => ?_⟩
      rcases List.mem_cons.1 hy with rfl | hy
      · exact Int.le_refl _
      · exact (List.pairwise_cons.1 hq).1 y hy
    have hbefore := h p _ _ hp
    have hafter := h _ _ _ (Moment.of_step ho hl)
    rw [after_append, paidAccessEnabled_eq] at hafter
    exact (off_advance_iff (not_confirms (hc x hx)) (Standing.off_iff.2 hbefore)).1
      (Standing.off_iff.2 hafter)
  · intro h p q now hm
    rw [paidAccessEnabled_eq, ← Standing.off_iff]
    obtain ⟨hl, hearlier, -⟩ := hm
    induction p using List.reverseRecOn generalizing q now with
    | nil =>
        have hs : b.standing.status = .notConfigured := h0
        exact ⟨by simp [hs], fun hp => absurd (hs.symm.trans hp) (by simp)⟩
    | append_singleton p x ih =>
        have hl' : l = p ++ x :: q := by rw [hl, List.append_assoc]; rfl
        have hx : x ∈ l := by rw [hl']; simp
        have hpx : ∀ y ∈ p, y.1 ≤ x.1 := fun y hy =>
          (Moment.of_step ho hl').earlier y (List.mem_append_left _ hy)
        have hoff := ih (x :: q) x.1 hl' hpx
        rw [after_append]
        exact ((off_advance_iff (not_confirms (hc x hx)) hoff).2 (h p x q hl')).mono
          (hearlier x (by simp))

/-- An account that is not configured. -/
def unpaidBooks : Books :=
  ⟨some .created, ∅⟩

def event (id : String) (type : EventType) (r : Resource) : BillingStep :=
  .event ⟨id, type, r, 0⟩

def failedInvoice : Resource :=
  { Resource.empty with id := some "in_1", metadataTenantId := some "1" }

def subscriptionOf (status : ProviderStatus) : Resource :=
  { Resource.empty with id := some "sub_1", metadataTenantId := some "1", status := some status }

/-- A checkout, and its subscription, which is never paid. -/
def neverPaid : List (Int × BillingStep) :=
  [(1, event "evt_1" .checkoutSessionCompleted { failedInvoice with subscription := some "sub_1" }),
    (2, event "evt_2" (.customerSubscription .created) (subscriptionOf .unpaid)), (3, .upload)]

theorem noAccess_neverPaid :
    (unpaidBooks.after .default 1 neverPaid).current.paidAccessEnabled 4 = false := by
  refine (noAccess_iff (l := neverPaid) rfl (by decide) (by decide)).2 (fun p x q hl hf => ?_) neverPaid []
    4 (Moment.of_end (by decide))
  have hnone : unpaidBooks.happens .default 1 (fails .default) (p ++ x :: q) = false := by
    rw [← hl]
    decide
  exact absurd (hf.symm.trans (not_of_happens hnone)) (by simp)

/-- The first invoice of an account that has never paid fails, and the plan is open. -/
theorem not_noAccess :
    ¬∀ (cfg : BillingSettings) (tenantId : UUID) (b : Books) (l : List (Int × BillingStep)),
      b.current.status = .notConfigured → b.current.complimentaryLifetime = false → Ordered l →
        (∀ x ∈ l, x.2.mayConfirm = false) → ∀ p q now, Moment l p q now →
          (b.after cfg tenantId p).current.paidAccessEnabled now = false := by
  intro h
  let l : List (Int × BillingStep) := [(0, event "evt_1" .invoicePaymentFailed failedInvoice)]
  have hoff := h .default 1 unpaidBooks l rfl rfl (by decide) (by decide) l [] 0 (Moment.of_end (by decide))
  exact absurd hoff (by decide)

/-! ## One tolerance for each lapse -/

/-- The steps `seg` come right after the confirmation `c`, and there is no other confirmation among
    them. -/
structure Since (cfg : BillingSettings) (tenantId : UUID) (b : Books) (pre : List (Int × BillingStep))
    (c : Int × BillingStep) (seg : List (Int × BillingStep)) : Prop where
  confirmed : (b.after cfg tenantId pre).confirms cfg c = true
  unconfirmed : (b.after cfg tenantId (pre ++ [c])).happens cfg tenantId (confirms cfg) seg = false

/-- What one tolerance for each lapse means in books `b` after the steps `seg`. -/
structure OneTolerance (cfg : BillingSettings) (tenantId : UUID) (b : Books)
    (seg : List (Int × BillingStep)) (now : Int) : Prop where
  window : ∀ t g, b.firstFailure cfg tenantId seg = some t →
    (b.after cfg tenantId seg).current.gracePeriodEndsAt = some g → g ≤ t + cfg.gracePeriod
  ended : b.happens cfg tenantId (ends cfg) seg = true →
    (b.after cfg tenantId seg).current.paidAccessEnabled now = false
  lapsed : b.happens cfg tenantId Books.lapsed seg = true →
    (b.after cfg tenantId seg).current.paidAccessEnabled now = false

/-- At every moment after a confirmation, until the next one. -/
def GrantedOnce (cfg : BillingSettings) (tenantId : UUID) (b : Books) (l : List (Int × BillingStep)) :
    Prop :=
  ∀ pre c seg q now, Moment l (pre ++ c :: seg) q now → b.Since cfg tenantId pre c seg →
    (b.after cfg tenantId (pre ++ [c])).OneTolerance cfg tenantId seg now

/-- A failure `x` after the steps `seg` opens a tolerance only as the first one does, and not after an
    end. -/
def OpensOnce (cfg : BillingSettings) (tenantId : UUID) (b : Books) (seg : List (Int × BillingStep))
    (x : Int × BillingStep) : Prop :=
  (b.after cfg tenantId seg).opens cfg x = true →
    (∀ t, b.firstFailure cfg tenantId seg = some t → x.1 ≤ t) ∧
      (cfg.billingGracePeriodDays ≠ 0 → b.happens cfg tenantId (ends cfg) seg = false)

/-- What holds of the steps `seg` after a confirmation when each failure among them opens at most the
    first tolerance. -/
structure Graced (cfg : BillingSettings) (tenantId : UUID) (b : Books)
    (seg : List (Int × BillingStep)) : Prop where
  active : (b.after cfg tenantId seg).standing.status = .active →
    b.happens cfg tenantId (ends cfg) seg = false ∧ b.happens cfg tenantId Books.lapsed seg = false
  grace : ∀ g, (b.after cfg tenantId seg).standing.grace = some g →
    ∃ t, b.firstFailure cfg tenantId seg = some t ∧ g = t + cfg.gracePeriod ∧
      (cfg.billingGracePeriodDays ≠ 0 → b.happens cfg tenantId (ends cfg) seg = false)
  lapsed : b.happens cfg tenantId Books.lapsed seg = true →
    ∃ t, b.firstFailure cfg tenantId seg = some t ∧ ∃ y ∈ seg, t + cfg.gracePeriod ≤ y.1

variable {seg : List (Int × BillingStep)}

variable (tenantId) in
theorem advance_opens (h : b.opens cfg x = true) :
    (b.advance cfg tenantId x).standing = ⟨.pastDue, some (x.1 + cfg.gracePeriod)⟩ ∧
      b.fails cfg x = true ∧ b.confirms cfg x = false ∧ b.ends cfg x = false := by
  unfold fails confirms ends
  obtain ⟨n, hn, ho⟩ := (Option.any_eq_true _ _).1 h
  have hf := Standing.fails_of_opens ho
  rw [standing_of_some hn, hn]
  exact ⟨Standing.receive_opens ho, hf, Standing.confirms_of_fails hf, Standing.ends_of_fails hf⟩

variable (tenantId) in
/-- A step that neither confirms nor opens a tolerance leaves the deadline or takes it away, and an end
    takes it away. -/
theorem advance_keeps (hc : b.confirms cfg x = false) (ho : b.opens cfg x = false) :
    ((b.advance cfg tenantId x).standing.grace = none ∨
      (b.advance cfg tenantId x).standing.grace = b.standing.grace ∧ b.ends cfg x = false) ∧
      ((b.advance cfg tenantId x).standing.status = .active →
        b.standing.status = .active ∧ b.ends cfg x = false) := by
  unfold confirms at hc
  unfold opens at ho
  unfold ends
  cases hn : b.notice cfg x.2 with
  | none =>
      rw [standing_of_none hn]
      exact ⟨Or.inr ⟨rfl, rfl⟩, fun h => ⟨h, rfl⟩⟩
  | some n =>
      rw [standing_of_some hn]
      rw [hn] at hc ho
      cases hf : n.fails with
      | false => exact Standing.receive_grace hc hf
      | true =>
          obtain ⟨g, hg, hr⟩ := Standing.receive_fails cfg x.1 hf ho
          rw [hr, hg]
          exact ⟨Or.inr ⟨rfl, Standing.ends_of_fails hf⟩, fun h => absurd h (by simp)⟩

theorem Graced.nil (h : b.standing = ⟨.active, none⟩) : b.Graced cfg tenantId [] := by
  refine ⟨fun _ => ⟨rfl, rfl⟩, fun g hg => ?_, fun hl => absurd hl (by simp [happens])⟩
  have hnone : b.standing.grace = none := by rw [h]
  exact absurd (hnone.symm.trans hg) (by simp)

/-- The first failure stays the first. -/
theorem firstFailure_mono {t : Int} (h : b.firstFailure cfg tenantId seg = some t) :
    b.firstFailure cfg tenantId (seg ++ [x]) = some t := by
  rw [firstFailure_snoc, h]
  rfl

/-- Who finds a tolerance that has lapsed finds it after the first failure. -/
theorem Graced.lapsed_snoc (hG : b.Graced cfg tenantId seg)
    (h : b.happens cfg tenantId Books.lapsed (seg ++ [x]) = true) :
    ∃ t, b.firstFailure cfg tenantId (seg ++ [x]) = some t ∧
      ∃ y ∈ seg ++ [x], t + cfg.gracePeriod ≤ y.1 := by
  rw [happens_snoc, Bool.or_eq_true] at h
  rcases h with h | h
  · obtain ⟨t, ht, y, hy, hle⟩ := hG.lapsed h
    exact ⟨t, firstFailure_mono ht, y, List.mem_append_left _ hy, hle⟩
  · obtain ⟨-, hany⟩ := Bool.and_eq_true_iff.1 h
    obtain ⟨g, hg, hle⟩ := (Option.any_eq_true _ _).1 hany
    obtain ⟨t, ht, rfl, -⟩ := hG.grace g hg
    exact ⟨t, firstFailure_mono ht, x, by simp, of_decide_eq_true hle⟩

/-- Who finds an active account finds no tolerance that has lapsed. -/
theorem not_lapsed_of_active (h : b.standing.status = .active) : b.lapsed x = false := by
  simp [Books.lapsed, h]

theorem Graced.snoc (hG : b.Graced cfg tenantId seg) (ho : Ordered (seg ++ [x]))
    (hc : (b.after cfg tenantId seg).confirms cfg x = false) (hx : b.OpensOnce cfg tenantId seg x) :
    b.Graced cfg tenantId (seg ++ [x]) := by
  have hends : b.happens cfg tenantId (ends cfg) (seg ++ [x]) =
      (b.happens cfg tenantId (ends cfg) seg || (b.after cfg tenantId seg).ends cfg x) :=
    happens_snoc _
  have hafter : b.after cfg tenantId (seg ++ [x]) = (b.after cfg tenantId seg).advance cfg tenantId x := by
    simp
  cases hopens : (b.after cfg tenantId seg).opens cfg x with
  | true =>
      obtain ⟨hstanding, hfails, -, hend⟩ := advance_opens tenantId hopens
      obtain ⟨hfirst, hnot⟩ := hx hopens
      refine ⟨fun hs => ?_, fun g hg => ⟨x.1, ?_, ?_, fun hd => ?_⟩, hG.lapsed_snoc⟩
      · rw [hafter, hstanding] at hs
        exact absurd hs (by simp)
      · rw [firstFailure_snoc, hfails]
        cases ht : b.firstFailure cfg tenantId seg with
        | none => rfl
        | some t =>
            obtain ⟨y, hy, rfl⟩ := mem_of_firstFailure ht
            have hyx : y.1 ≤ x.1 := (List.pairwise_append.1 ho).2.2 y hy x (by simp)
            exact congrArg some (Int.le_antisymm hyx (hfirst _ ht))
      · rw [hafter, hstanding] at hg
        exact (Option.some.inj hg).symm
      · rw [hends, hnot hd, hend]
        rfl
  | false =>
      obtain ⟨hgrace, hactive⟩ := advance_keeps tenantId hc hopens
      refine ⟨fun hs => ?_, fun g hg => ?_, hG.lapsed_snoc⟩
      · rw [hafter] at hs
        obtain ⟨hs', hend⟩ := hactive hs
        obtain ⟨he, hl⟩ := hG.active hs'
        rw [hends, happens_snoc, he, hl, hend, not_lapsed_of_active hs']
        exact ⟨rfl, rfl⟩
      · rw [hafter] at hg
        rcases hgrace with hgrace | ⟨hgrace, hend⟩
        · exact absurd (hgrace.symm.trans hg) (by simp)
        · obtain ⟨t, ht, hgt, hnot⟩ := hG.grace g (hgrace.symm.trans hg)
          refine ⟨t, firstFailure_mono ht, hgt, fun hd => ?_⟩
          rw [hends, hnot hd, hend]
          rfl

/-- The first tolerance is the only one, and it is over after an end. -/
theorem Graced.oneTolerance (hG : b.Graced cfg tenantId seg) {now : Int} (hnow : ∀ y ∈ seg, y.1 ≤ now) :
    b.OneTolerance cfg tenantId seg now := by
  refine ⟨fun t g ht hg => ?_, fun he => ?_, fun hl => ?_⟩
  · obtain ⟨t', ht', hgt, -⟩ := hG.grace g hg
    obtain rfl := Option.some.inj (ht.symm.trans ht')
    exact Int.le_of_eq hgt
  all_goals rw [paidAccessEnabled_eq, ← Standing.off_iff]
  · refine ⟨fun hs => ?_, fun _ g hg => ?_⟩
    · rw [(hG.active hs).1] at he
      exact absurd he (by simp)
    · obtain ⟨t, ht, rfl, hnot⟩ := hG.grace g hg
      obtain ⟨y, hy, rfl⟩ := mem_of_firstFailure ht
      have hdays : ¬cfg.billingGracePeriodDays ≠ 0 := by
        intro hd
        rw [hnot hd] at he
        exact absurd he (by simp)
      have := gracePeriod_pos_iff cfg
      have := hnow y hy
      omega
  · refine ⟨fun hs => ?_, fun _ g hg => ?_⟩
    · rw [(hG.active hs).2] at hl
      exact absurd hl (by simp)
    · obtain ⟨t, ht, rfl, -⟩ := hG.grace g hg
      obtain ⟨t', ht', y, hy, hle⟩ := hG.lapsed hl
      obtain rfl := Option.some.inj (ht.symm.trans ht')
      exact Int.le_trans hle (hnow y hy)

/-- A failure that opens a second tolerance. -/
theorem opensOnce_of_oneTolerance (h : b.OneTolerance cfg tenantId (seg ++ [x]) x.1) :
    b.OpensOnce cfg tenantId seg x := by
  intro hopens
  obtain ⟨hstanding, -, -, -⟩ := advance_opens tenantId hopens
  have hafter : (b.after cfg tenantId (seg ++ [x])).standing =
      ⟨.pastDue, some (x.1 + cfg.gracePeriod)⟩ := by
    rw [after_append]
    exact hstanding
  refine ⟨fun t ht => ?_, fun hd => ?_⟩
  · have := h.window t _ (firstFailure_mono ht) (congrArg Standing.grace hafter)
    omega
  · by_contra he
    have he' : b.happens cfg tenantId (ends cfg) (seg ++ [x]) = true := by
      rw [happens_snoc, (Bool.not_eq_false _).mp he]
      rfl
    have hoff := h.ended he'
    rw [paidAccessEnabled_eq, hafter] at hoff
    have hpos := (gracePeriod_pos_iff cfg).2 hd
    have hlt : ¬x.1 < x.1 + cfg.gracePeriod := of_decide_eq_false hoff
    omega

/-- **One tolerance for each lapse.** An account gets one tolerance after each confirmation exactly when
    no failure opens another one. -/
theorem grantedOnce_iff (ho : Ordered l) :
    b.GrantedOnce cfg tenantId l ↔
      ∀ pre c seg x q, l = pre ++ c :: (seg ++ x :: q) → b.Since cfg tenantId pre c seg →
        (b.after cfg tenantId (pre ++ [c])).OpensOnce cfg tenantId seg x := by
  constructor
  · intro h pre c seg x q hl hsince
    by_cases hopens : ((b.after cfg tenantId (pre ++ [c])).after cfg tenantId seg).opens cfg x = true
    · have hl' : l = (pre ++ c :: seg) ++ x :: q := by simp [hl]
      have hm := Moment.of_step ho hl'
      have hassoc : (pre ++ c :: seg) ++ [x] = pre ++ c :: (seg ++ [x]) := by simp
      rw [hassoc] at hm
      refine opensOnce_of_oneTolerance (h pre c (seg ++ [x]) q x.1 hm ⟨hsince.confirmed, ?_⟩)
      rw [happens_snoc, hsince.unconfirmed, (advance_opens tenantId hopens).2.2.1]
      rfl
    · exact fun hcon => absurd hcon hopens
  · intro h pre c seg q now hm hsince
    have hstart : (b.after cfg tenantId (pre ++ [c])).standing = ⟨.active, none⟩ := by
      obtain ⟨n, hn, hconf⟩ := (Option.any_eq_true _ _).1 hsince.confirmed
      rw [after_append]
      exact (standing_of_some hn).trans (Standing.receive_confirms hconf)
    have hG : (b.after cfg tenantId (pre ++ [c])).Graced cfg tenantId seg := by
      obtain ⟨hl, -, -⟩ := hm
      obtain ⟨-, hunconfirmed⟩ := id hsince
      have hconfirmed := hsince.confirmed
      clear hsince
      induction seg using List.reverseRecOn generalizing q with
      | nil => exact Graced.nil hstart
      | append_singleton seg x ih =>
          rw [happens_snoc, Bool.or_eq_false_iff] at hunconfirmed
          have hl' : l = pre ++ c :: (seg ++ x :: q) := by simp [hl]
          refine (ih (x :: q) (by simp [hl]) hunconfirmed.1).snoc ?_ hunconfirmed.2
            (h pre c seg x q hl' ⟨hconfirmed, hunconfirmed.1⟩)
          rw [hl'] at ho
          have hsub : (seg ++ [x]).Sublist (pre ++ c :: (seg ++ x :: q)) := by
            refine List.Sublist.trans ?_ (List.sublist_append_right _ _)
            exact List.Sublist.cons _ (List.Sublist.append_left (by simp) _)
          exact ho.sublist hsub
    exact hG.oneTolerance fun y hy => hm.earlier y (by simp [hy])

/-- A paid invoice, a failed one, and the end of the subscription. -/
def paidThenEnded : List (Int × BillingStep) :=
  [(1, event "evt_1" .invoicePaymentSucceeded failedInvoice),
    (2, event "evt_2" (.customerSubscription .updated) (subscriptionOf .canceled)),
    (3, event "evt_3" .checkoutSessionCompleted failedInvoice)]

theorem grantedOnce_paidThenEnded : unpaidBooks.GrantedOnce .default 1 paidThenEnded := by
  refine (grantedOnce_iff (by decide)).2 fun pre c seg x q hl _ hopens => ?_
  have hnone : unpaidBooks.happens .default 1 (opens .default) ((pre ++ [c] ++ seg) ++ x :: q) = false := by
    rw [show (pre ++ [c] ++ seg) ++ x :: q = paidThenEnded by simp [hl]]
    decide
  have hnot := not_of_happens hnone
  rw [after_append] at hnot
  exact absurd (hopens.symm.trans hnot) (by simp)

/-- A paid invoice, a subscription that is not paid, and an invoice that fails after it. -/
def failedAfterEnd : List (Int × BillingStep) :=
  [(0, event "evt_2" (.customerSubscription .updated) (subscriptionOf .unpaid)),
    (0, event "evt_3" .invoicePaymentFailed failedInvoice)]

/-- A failed invoice after the end of the subscription opens the plan again. -/
theorem not_grantedOnce :
    ¬∀ (cfg : BillingSettings) (tenantId : UUID) (b : Books) (l : List (Int × BillingStep)),
      Ordered l → b.GrantedOnce cfg tenantId l := by
  intro h
  let c : Int × BillingStep := (0, event "evt_1" .invoicePaymentSucceeded failedInvoice)
  have hone := h .default 1 unpaidBooks (c :: failedAfterEnd) (by decide) [] c failedAfterEnd [] 0
    (Moment.of_end (by decide)) ⟨by decide, by decide⟩
  exact absurd (hone.ended (by decide)) (by decide)

end Books

end Rubrica
