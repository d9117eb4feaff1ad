import Rubrica.Billing.DeliveryOrder

set_option autoImplicit false

/-! # Manual synchronization

`synchronize_account` fetches the provider's current subscription and applies it through `_apply_event`,
without a creation time. The account then shows the snapshot, but the time it compares later webhook
events with is still that of the last webhook event (`Books.synchronize_last`), so an event created
between the two and delivered late is applied as if it were new. -/

namespace Rubrica

open Transactions

namespace Books

variable (cfg : BillingSettings) (tenantId : UUID)

/-- `synchronize_account` with the subscription the provider returns; `none` where the service answers
    that no subscription is configured. -/
def synchronize (clock : Int) (r : Resource) (b : Books) : Option Books :=
  if (present b.current.providerSubscriptionId).isNone then none
  else
    some { b with
      account := some (b.current.applyEvent cfg clock (.customerSubscription .updated) r none).1 }

/-- Deliveries of webhook events, each at its own clock. -/
def deliverAll (b : Books) (l : List (Int × BillingEvent)) : Books :=
  l.foldl (fun b x => (b.deliver cfg x.1 tenantId x.2).1) b

/-- What a subscription snapshot sets: status, plan, cancellation, and with them the paid access. -/
def snapshot (now : Int) (b : Books) :
    AccountStatus × Option ProductCode × Bool × Option Int × Bool :=
  (b.current.status, b.current.currentProductCode, b.current.cancelAtPeriodEnd, b.current.cancelsAt,
    b.current.paidAccessEnabled now)

end Books

/-- What a subscription says about status, plan and cancellation. -/
def Resource.terms (cfg : BillingSettings) (r : Resource) :
    AccountStatus × ProductCode × Bool × Option Int :=
  (r.subscriptionStatus, r.productCode cfg, r.cancelAtPeriodEnd,
    if r.cancelAtPeriodEnd then (timestamp r.cancelAt).or r.subscriptionPeriod.2 else none)

/-- The terms an account shows. -/
def BillingAccount.Shows (a : BillingAccount)
    (terms : AccountStatus × ProductCode × Bool × Option Int) : Prop :=
  a.status = terms.1 ∧ a.currentProductCode = some terms.2.1 ∧ a.cancelAtPeriodEnd = terms.2.2.1 ∧
    a.cancelsAt = terms.2.2.2 ∧ (a.status = .pastDue → a.gracePeriodEndsAt ≠ none)

namespace BillingAccount

variable {cfg : BillingSettings} {now : Int}

variable (cfg now) in
/-- What the service period of a subscription leaves alone. -/
theorem applySubscription_fields (a : BillingAccount) (r : Resource) (created : Option Int) :
    let a' := a.applySubscription cfg now r created
    let b := a.setTerms cfg now r created
    a'.status = b.status ∧ a'.currentProductCode = b.currentProductCode ∧
      a'.cancelAtPeriodEnd = b.cancelAtPeriodEnd ∧ a'.cancelsAt = b.cancelsAt ∧
      a'.gracePeriodEndsAt = b.gracePeriodEndsAt ∧
      a'.lastProviderEventCreatedAt = b.lastProviderEventCreatedAt := by
  simp only [applySubscription]
  split
  · unfold syncUsagePeriod
    dsimp only
    split
    · exact ⟨rfl, rfl, rfl, rfl, rfl, rfl⟩
    · exact ⟨rfl, rfl, rfl, rfl, rfl, rfl⟩
    · split <;> exact ⟨rfl, rfl, rfl, rfl, rfl, rfl⟩
  · exact ⟨rfl, rfl, rfl, rfl, rfl, rfl⟩

/-- A subscription that is applied is shown. -/
theorem applySubscription_shows (a : BillingAccount) (r : Resource) (created : Option Int) :
    (a.applySubscription cfg now r created).Shows (r.terms cfg) := by
  obtain ⟨h1, h2, h3, h4, h5, -⟩ := applySubscription_fields cfg now a r created
  refine ⟨h1, h2, h3, h4, fun h => ?_⟩
  have hst : r.subscriptionStatus = .pastDue := h1.symm.trans h
  rw [h5]
  show graceAfter cfg now r.subscriptionStatus a.gracePeriodEndsAt ≠ none
  rw [hst, graceAfter_pastDue]
  exact Option.some_ne_none _

/-- Paid access after a subscription depends on the terms alone, once a tolerance is running. -/
theorem applySubscription_access (a : BillingAccount) (r : Resource) (created : Option Int)
    (h : a.Shows (r.terms cfg)) (clock : Int) :
    (a.applySubscription cfg now r created).paidAccessEnabled clock = a.paidAccessEnabled clock := by
  obtain ⟨h1, -, -, -, h5, -⟩ := applySubscription_fields cfg now a r created
  have hst : (a.applySubscription cfg now r created).status = a.status := h1.trans h.1.symm
  simp only [paidAccessEnabled, hst]
  cases hs : a.status with
  | pastDue =>
      have hrs : r.subscriptionStatus = .pastDue := h.1.symm.trans hs
      have hg : (a.applySubscription cfg now r created).gracePeriodEndsAt = a.gracePeriodEndsAt := by
        rw [h5]
        show graceAfter cfg now r.subscriptionStatus a.gracePeriodEndsAt = _
        rw [hrs]
        exact if_neg (h.2.2.2.2 hs)
      rw [hg]
  | _ => rfl

end BillingAccount

namespace Books

variable {cfg : BillingSettings} {tenantId : UUID} {clock now : Int} {b b' : Books} {r : Resource}
  {e : BillingEvent}

/-! ## One delayed delivery -/

theorem shows_entity {a : BillingAccount} {terms : AccountStatus × ProductCode × Bool × Option Int}
    (h : a.Shows terms) : (BillingAccount.entity (some a)).Shows terms := h

/-- Accounts that show the same terms, with the same access, have the same snapshot. -/
theorem snapshot_congr {terms : AccountStatus × ProductCode × Bool × Option Int}
    (h : b.current.Shows terms) (h' : b'.current.Shows terms)
    (ha : b.current.paidAccessEnabled now = b'.current.paidAccessEnabled now) :
    b.snapshot now = b'.snapshot now := by
  obtain ⟨h1, h2, h3, h4, -⟩ := h
  obtain ⟨h1', h2', h3', h4', -⟩ := h'
  simp only [snapshot, h1, h2, h3, h4, h1', h2', h3', h4', ha]

/-- The snapshot tells the terms. -/
theorem terms_of_snapshot {terms terms' : AccountStatus × ProductCode × Bool × Option Int}
    (h : b.current.Shows terms) (h' : b'.current.Shows terms') (hs : b.snapshot now = b'.snapshot now) :
    terms = terms' := by
  obtain ⟨h1, h2, h3, h4, -⟩ := h
  obtain ⟨h1', h2', h3', h4', -⟩ := h'
  simp only [snapshot, h1, h2, h3, h4, h1', h2', h3', h4', Prod.mk.injEq, Option.some.injEq] at hs
  exact Prod.ext hs.1 (Prod.ext hs.2.1 (Prod.ext hs.2.2.1 hs.2.2.2.1))

theorem not_raises_of_subscription (ht : ∃ change, e.type = .customerSubscription change) :
    e.raises = false := by
  obtain ⟨change, ht⟩ := ht
  simp [BillingEvent.raises, EventType.isInvoice, ht]

variable (cfg now tenantId) in
theorem deliver_stale (ht : ∃ change, e.type = .customerSubscription change)
    (hst : b.current.isStale (some e.createdAt) = true) :
    (b.deliver cfg now tenantId e).1.current = b.current.touch e.resource := by
  obtain ⟨change, ht'⟩ := ht
  have hst' : (b.current.touch e.resource).isStale (some e.createdAt) = true := hst
  have hdel : b.current.deletedAt = none := by
    rw [current]
    cases b.account <;> rfl
  rw [current, deliver_account (not_raises_of_subscription ⟨change, ht'⟩)]
  simp only [BillingAccount.applyEvent, ht', hst', if_true, BillingAccount.entity]
  simp only [BillingAccount.touch, hdel]

variable (cfg now tenantId) in
theorem deliver_fresh (ht : ∃ change, e.type = .customerSubscription change)
    (hst : b.current.isStale (some e.createdAt) = false) :
    (b.deliver cfg now tenantId e).1.account =
      some ((b.current.touch e.resource).applySubscription cfg now e.resource (some e.createdAt)) := by
  obtain ⟨change, ht'⟩ := ht
  have hst' : (b.current.touch e.resource).isStale (some e.createdAt) = false := hst
  rw [deliver_account (not_raises_of_subscription ⟨change, ht'⟩)]
  simp only [BillingAccount.applyEvent, ht', hst', Bool.false_eq_true, if_false]

/-- After a delivery an event is stale if it was stale before or is older than the delivered one. -/
theorem deliver_isStale (ht : ∃ change, e.type = .customerSubscription change) (t : Int) :
    (b.deliver cfg now tenantId e).1.current.isStale (some t) =
      (b.current.isStale (some t) || decide (t < e.createdAt)) := by
  cases hst : b.current.isStale (some e.createdAt) with
  | true =>
      rw [deliver_stale cfg tenantId now ht hst]
      show b.current.isStale (some t) = _
      unfold BillingAccount.isStale at hst ⊢
      cases hl : b.current.lastProviderEventCreatedAt with
      | none => simp [hl] at hst
      | some last =>
          simp only [hl, decide_eq_true_eq] at hst ⊢
          by_cases hlt : t < e.createdAt
          · simp [hlt, Int.lt_trans hlt hst]
          · simp [hlt]
  | false =>
      rw [current, deliver_fresh cfg tenantId now ht hst]
      have hlast := (BillingAccount.applySubscription_fields cfg now (b.current.touch e.resource)
        e.resource (some e.createdAt)).2.2.2.2.2
      have hnew : (BillingAccount.entity (some ((b.current.touch e.resource).applySubscription cfg now
          e.resource (some e.createdAt)))).lastProviderEventCreatedAt = some e.createdAt := hlast
      unfold BillingAccount.isStale at hst ⊢
      simp only [hnew]
      cases hl : b.current.lastProviderEventCreatedAt with
      | none => simp
      | some last =>
          simp only [hl, decide_eq_false_iff_not] at hst ⊢
          by_cases hlt : t < last
          · simp [hlt, show t < e.createdAt by omega]
          · simp [hlt]

/-! ## The snapshot along delayed deliveries -/

theorem synchronize_shows (h : b.synchronize cfg clock r = some b') :
    b'.current.Shows (r.terms cfg) := by
  unfold synchronize at h
  split at h
  · exact absurd h (by simp)
  · obtain rfl := Option.some.inj h
    exact shows_entity (BillingAccount.applySubscription_shows _ r none)

/-- A synchronization does not move the time that later events are compared with. -/
theorem synchronize_isStale (h : b.synchronize cfg clock r = some b') (t : Int) :
    b'.current.isStale (some t) = b.current.isStale (some t) := by
  unfold synchronize at h
  split at h
  · exact absurd h (by simp)
  · obtain rfl := Option.some.inj h
    have hlast := (BillingAccount.applySubscription_fields cfg clock (b.current.touch r) r none).2.2.2.2.2
    have hnew : (BillingAccount.entity (some ((b.current.touch r).applySubscription cfg clock r
        none))).lastProviderEventCreatedAt = b.current.lastProviderEventCreatedAt := hlast
    show (BillingAccount.entity (some ((b.current.touch r).applySubscription cfg clock r
      none))).isStale (some t) = _
    unfold BillingAccount.isStale
    rw [hnew]

variable {es : List (Int × BillingEvent)}

theorem deliverAll_append (b : Books) (l l' : List (Int × BillingEvent)) :
    b.deliverAll cfg tenantId (l ++ l') = (b.deliverAll cfg tenantId l).deliverAll cfg tenantId l' := by
  simp [deliverAll]

theorem deliverAll_isStale (hes : ∀ x ∈ es, ∃ change, x.2.type = .customerSubscription change)
    (t : Int) :
    (b.deliverAll cfg tenantId es).current.isStale (some t) = true ↔
      b.current.isStale (some t) = true ∨ ∃ y ∈ es, t < y.2.createdAt := by
  induction es using List.reverseRecOn with
  | nil => simp [deliverAll]
  | append_singleton es x ih =>
      have ih := ih fun y hy => hes y (List.mem_append_left _ hy)
      rw [deliverAll_append]
      show ((b.deliverAll cfg tenantId es).deliver cfg x.1 tenantId x.2).1.current.isStale _ = true ↔ _
      rw [deliver_isStale (hes x (by simp)), Bool.or_eq_true, ih, decide_eq_true_eq, or_assoc]
      simp [or_and_right, exists_or]

variable (tenantId now) in
/-- One delayed delivery keeps the snapshot exactly when it is stale or says the same. -/
theorem deliver_snapshot_iff (ht : ∃ change, e.type = .customerSubscription change)
    (hb : b.current.Shows (r.terms cfg)) (n : Int) :
    ((b.deliver cfg n tenantId e).1.snapshot now = b.snapshot now ↔
      b.current.isStale (some e.createdAt) = true ∨ e.resource.terms cfg = r.terms cfg) ∧
      ((b.deliver cfg n tenantId e).1.snapshot now = b.snapshot now →
        (b.deliver cfg n tenantId e).1.current.Shows (r.terms cfg)) := by
  cases hst : b.current.isStale (some e.createdAt) with
  | true =>
      have hcur := deliver_stale cfg tenantId n ht hst
      have hsnap : (b.deliver cfg n tenantId e).1.snapshot now = b.snapshot now := by
        unfold snapshot
        rw [hcur]
        rfl
      refine ⟨by simp [hsnap], fun _ => ?_⟩
      rw [hcur]
      exact hb
  | false =>
      have hacc := deliver_fresh cfg tenantId n ht hst
      have hshows : (b.deliver cfg n tenantId e).1.current.Shows (e.resource.terms cfg) := by
        rw [current, hacc]
        exact shows_entity (BillingAccount.applySubscription_shows _ _ _)
      have hterms : (b.deliver cfg n tenantId e).1.snapshot now = b.snapshot now →
          e.resource.terms cfg = r.terms cfg := terms_of_snapshot hshows hb
      refine ⟨⟨fun h => Or.inr (hterms h), fun h => ?_⟩, fun h => hterms h ▸ hshows⟩
      have hsame := h.resolve_left (by simp)
      rw [hsame] at hshows
      refine snapshot_congr hshows hb ?_
      rw [current, hacc]
      have htouch : (b.current.touch e.resource).Shows (e.resource.terms cfg) := hsame ▸ hb
      exact BillingAccount.applySubscription_access _ _ _ htouch now

theorem deliverAll_snoc (b : Books) (l : List (Int × BillingEvent)) (x : Int × BillingEvent) :
    b.deliverAll cfg tenantId (l ++ [x]) =
      ((b.deliverAll cfg tenantId l).deliver cfg x.1 tenantId x.2).1 := by
  simp [deliverAll]

variable (tenantId now) in
/-- As long as no delivery has changed the snapshot, its terms are still shown. -/
theorem deliverAll_shows (hb : b.current.Shows (r.terms cfg))
    (hes : ∀ x ∈ es, ∃ change, x.2.type = .customerSubscription change)
    (h : ∀ p q, es = p ++ q → (b.deliverAll cfg tenantId p).snapshot now = b.snapshot now) :
    (b.deliverAll cfg tenantId es).current.Shows (r.terms cfg) := by
  induction es using List.reverseRecOn with
  | nil => exact hb
  | append_singleton es x ih =>
      have hshows := ih (fun y hy => hes y (List.mem_append_left _ hy)) fun p q hpq =>
        h p (q ++ [x]) (by rw [hpq, List.append_assoc])
      have hbefore := h es [x] rfl
      have hafter := h (es ++ [x]) [] (by simp)
      rw [deliverAll_snoc] at hafter ⊢
      exact (deliver_snapshot_iff tenantId now (hes x (by simp)) hshows x.1).2 (hafter.trans hbefore.symm)

/-- **Synchronized snapshots.** Delayed subscription events leave the snapshot of a synchronization
    alone exactly when each of them is older than a webhook event that was applied before the
    synchronization or delivered after it, or says what the snapshot says. -/
theorem synchronize_kept_iff (hs : b.synchronize cfg clock r = some b')
    (hes : ∀ x ∈ es, ∃ change, x.2.type = .customerSubscription change) :
    (∀ p q, es = p ++ q → (b'.deliverAll cfg tenantId p).snapshot now = b'.snapshot now) ↔
      ∀ p x q, es = p ++ x :: q → b.current.isStale (some x.2.createdAt) = true ∨
        (∃ y ∈ p, x.2.createdAt < y.2.createdAt) ∨ x.2.resource.terms cfg = r.terms cfg := by
  have hb := synchronize_shows hs
  have hstale : ∀ p x q, es = p ++ x :: q →
      ((b'.deliverAll cfg tenantId p).current.isStale (some x.2.createdAt) = true ↔
        b.current.isStale (some x.2.createdAt) = true ∨ ∃ y ∈ p, x.2.createdAt < y.2.createdAt) := by
    intro p x q hpq
    rw [deliverAll_isStale fun y hy => hes y (by rw [hpq]; exact List.mem_append_left _ hy),
      synchronize_isStale hs]
  constructor
  · intro h p x q hpq
    have hx := hes x (by simp [hpq])
    have hp : ∀ y ∈ p, ∃ change, y.2.type = .customerSubscription change :=
      fun y hy => hes y (by rw [hpq]; exact List.mem_append_left _ hy)
    have hshows := deliverAll_shows tenantId now hb hp fun p' q' hp' =>
      h p' (q' ++ x :: q) (by rw [hpq, hp', List.append_assoc])
    have hbefore := h p (x :: q) hpq
    have hafter := h (p ++ [x]) q (by simp [hpq])
    rw [deliverAll_snoc] at hafter
    have := ((deliver_snapshot_iff tenantId now hx hshows x.1).1).1 (hafter.trans hbefore.symm)
    rwa [hstale p x q hpq, or_assoc] at this
  · intro h p q hpq
    have key : (b'.deliverAll cfg tenantId p).snapshot now = b'.snapshot now ∧
        (b'.deliverAll cfg tenantId p).current.Shows (r.terms cfg) := by
      induction p using List.reverseRecOn generalizing q with
      | nil => exact ⟨rfl, hb⟩
      | append_singleton p x ih =>
          have hpq' : es = p ++ x :: q := by simpa using hpq
          obtain ⟨hsnap, hshows⟩ := ih (x :: q) hpq'
          have hx := hes x (by simp [hpq'])
          obtain ⟨hiff, hnext⟩ := deliver_snapshot_iff tenantId now hx hshows x.1
          rw [deliverAll_snoc]
          have hkeep := hiff.2 (by rw [hstale p x q hpq', or_assoc]; exact h p x q hpq')
          exact ⟨hkeep.trans hsnap, hnext hkeep⟩
    exact key.1

/-- An account with a provider subscription and nothing else. -/
def subscribed : Books :=
  ⟨some { BillingAccount.created with providerSubscriptionId := some "sub_1" }, ∅⟩

/-- A delayed event that says what the snapshot says is harmless. -/
theorem synchronize_kept_same_terms :
    ∃ b', subscribed.synchronize .default 10 (subscriptionEvent 0 .active).resource = some b' ∧
      (b'.deliverAll .default 0 [(11, subscriptionEvent 5 .active)]).snapshot 12 = b'.snapshot 12 := by
  have hes : ∀ x ∈ [((11 : Int), subscriptionEvent 5 .active)],
      ∃ change, x.2.type = .customerSubscription change := by simp [subscriptionEvent]
  have hs : subscribed.synchronize .default 10 (subscriptionEvent 0 .active).resource = some _ := rfl
  refine ⟨_, hs, (synchronize_kept_iff hs hes).2 (fun p x q h => ?_) _ [] (by simp)⟩
  have hx : x ∈ [((11 : Int), subscriptionEvent 5 .active)] := by rw [h]; simp
  rw [List.mem_singleton.1 hx]
  exact Or.inr (Or.inr rfl)

/-- A cancellation that was created before the synchronization and arrives after it undoes it. -/
theorem synchronize_undone :
    ∃ b', subscribed.synchronize .default 10 (subscriptionEvent 0 .active).resource = some b' ∧
      (subscriptionEvent 5 .canceled).createdAt < 10 ∧
      (b'.deliver .default 11 0 (subscriptionEvent 5 .canceled)).1.snapshot 12 ≠ b'.snapshot 12 :=
  ⟨_, rfl, by decide, by decide⟩

end Books

end Rubrica
