import Rubrica.Billing.Entitlement

set_option autoImplicit false

/-! # Order independence of the entitlement

`Entitlement.orderFree_iff`: for events created at different times, the entitlement is a matter of the
set of events exactly when the set is `OrderSafe`.

A safe set is of one of three kinds, and each kind has its run lemma: with a failed payment in it,
everything else says *past due* (`run_pastDue`); with a payment or a checkout, every live subscription
says *active* (`run_active`, `run_product`); otherwise there are subscriptions only, and the newest
counts (`run_tracks`, `run_grace`). -/

namespace Rubrica

namespace Entitlement

variable {cfg : BillingSettings} {now : Int} {s0 : Entitlement} {evs l : List Sent}

/-! ## Live and dead events -/

theorem eq_of_time (hnd : (evs.map Sent.time).Nodup) {x y : Sent} (hx : x ∈ evs) (hy : y ∈ evs)
    (h : x.time = y.time) : x = y :=
  List.inj_on_of_nodup_map hnd hx hy h

theorem LiveSubscription.toLive {x : Sent} (h : s0.LiveSubscription x) : s0.Live x :=
  fun _ => h.2

theorem live_of_other {x : Sent} (h : ¬∃ st p, x.signal = .subscription st p) : s0.Live x :=
  fun hx => absurd hx h

theorem live_of_signal {x : Sent} {sig : Signal} (h : x.signal = sig)
    (hsig : ∀ st p, sig ≠ .subscription st p) : s0.Live x :=
  live_of_other fun ⟨st, p, hx⟩ => hsig st p (h ▸ hx)

variable (cfg now) in
/-- What is stale stays stale. -/
theorem stale_run {s : Entitlement} {t : Int} (h : s.stale t = true) (l : List Sent) :
    (run cfg now s l).stale t = true := by
  rcases run_tracks cfg now s l with ⟨-, hs, -⟩ | ⟨m, -, -, hm, -, hs, -⟩
  · rwa [stale_congr hs]
  · have hlive := hm.live.2
    unfold stale at h hlive
    rw [stale_of_last hs, decide_eq_true_eq]
    split at h
    · next last hlast =>
        rw [hlast] at hlive
        simp only [decide_eq_true_eq, decide_eq_false_iff_not] at h hlive
        omega
    · exact absurd h (by simp)

/-- A subscription that was stale to begin with never counts. -/
theorem step_dead {x : Sent} (hx : ¬s0.Live x) (l : List Sent) :
    step cfg now (run cfg now s0 l) x = run cfg now s0 l := by
  simp only [Live, not_forall, Bool.not_eq_false] at hx
  obtain ⟨⟨st, p, hsig⟩, hst⟩ := hx
  exact step_stale hsig (stale_run cfg now hst l)

/-- Once a subscription has been applied, an older one is stale. -/
theorem stale_late {p q : List Sent} {y : Sent} {t : Int}
    {st : {s : AccountStatus // s ≠ .pending}} {c : ProductCode} (hy : y.signal = .subscription st c)
    (happ : (run cfg now s0 p).stale y.time = false) (hlt : t < y.time) :
    (run cfg now s0 (p ++ y :: q)).stale t = true := by
  rw [show p ++ y :: q = p ++ ([y] ++ q) from rfl, run_append, run_append, run_singleton,
    step_subscription hy happ]
  exact stale_run cfg now (by simpa [stale] using hlt) q

/-! ## Runs with a failed payment -/

/-- Every live event is a failed payment or a subscription that is past due. -/
def AllPastDue (s0 : Entitlement) (l : List Sent) : Prop :=
  ∀ x ∈ l, s0.Live x → x.signal = .failed ∨ ∃ st p, x.signal = .subscription st p ∧ st.1 = .pastDue

theorem Paired.agrees (h : s0.Paired evs) {x y : Sent} (hx : x ∈ evs) (hy : y ∈ evs)
    (hlx : s0.Live x) (hly : s0.Live y) (hne : x.time ≠ y.time) :
    s0.Agrees x.signal y.signal ∨ s0.Agrees y.signal x.signal := by
  rcases Int.lt_or_gt_of_ne hne with hlt | hlt
  · exact Or.inl (h x hx y hy hlx hly hlt)
  · exact Or.inr (h y hy x hx hly hlx hlt)

theorem Paired.allPastDue (h : s0.Paired evs) (hnd : (evs.map Sent.time).Nodup)
    {y : Sent} (hy : y ∈ evs) (hf : y.signal = .failed) : AllPastDue s0 evs := by
  intro x hx hlx
  by_cases hxf : x.signal = .failed
  · exact Or.inl hxf
  have hne : x.time ≠ y.time := fun ht => hxf (eq_of_time hnd hx hy ht ▸ hf)
  have hly : s0.Live y := live_of_signal hf (by simp)
  have hag := h.agrees hx hy hlx hly hne
  rw [hf] at hag
  cases hsig : x.signal with
  | subscription st p =>
      refine Or.inr ⟨st, p, rfl, ?_⟩
      rw [hsig] at hag
      rcases hag with hag | hag
      · exact hag.1
      · exact hag
  | paid => rw [hsig] at hag; exact hag.elim False.elim False.elim
  | failed => exact absurd hsig hxf
  | checkout p => rw [hsig] at hag; exact hag.elim False.elim False.elim

/-- The tolerance after a live event: the one the account had, or a new one. -/
structure PastDue (cfg : BillingSettings) (now : Int) (s0 : Entitlement) (l : List Sent)
    (s : Entitlement) (g : Int) : Prop where
  status : s.status = .pastDue
  grace : s.grace = some g
  source : g = now + cfg.gracePeriod ∨ s0.grace = some g
  kept : s0.status = .pastDue → ∀ g0, s0.grace = some g0 → g = g0
  fresh : s0.status ≠ .pastDue → (∀ x ∈ l, ¬s0.LiveSubscription x) → g = now + cfg.gracePeriod

variable (cfg now) in
theorem run_pastDue (hl : AllPastDue s0 l) :
    ((∀ x ∈ l, ¬s0.Live x) ∧ run cfg now s0 l = s0) ∨
      (∃ x ∈ l, s0.Live x) ∧ ∃ g, PastDue cfg now s0 l (run cfg now s0 l) g := by
  induction l using List.reverseRecOn with
  | nil => exact Or.inl ⟨by simp, rfl⟩
  | append_singleton l x ih =>
      have hl' : AllPastDue s0 l := fun y hy => hl y (List.mem_append_left _ hy)
      have hlx := hl x (by simp)
      have htail : ∀ {P : Sent → Prop}, (∀ y ∈ l ++ [x], P y) → ∀ y ∈ l, P y :=
        fun h y hy => h y (List.mem_append_left _ hy)
      rw [run_append, run_singleton]
      by_cases hlive : s0.Live x
      · refine Or.inr ⟨⟨x, by simp, hlive⟩, ?_⟩
        rcases ih hl' with ⟨-, hs⟩ | ⟨-, g, hg⟩
        · rw [hs]
          rcases hlx hlive with hf | ⟨st, p, hsig, hst⟩
          · by_cases hfresh : s0.status ≠ .pastDue ∨ s0.grace = none
            · rw [step_failed hf hfresh]
              refine ⟨_, rfl, rfl, Or.inl rfl, fun h g0 hg0 => ?_, fun _ _ => rfl⟩
              rcases hfresh with h' | h'
              · exact absurd h h'
              · rw [h'] at hg0
                exact absurd hg0 (by simp)
            · rw [not_or, not_not] at hfresh
              obtain ⟨g, hg⟩ := Option.ne_none_iff_exists'.1 hfresh.2
              rw [step_failed_again hf hfresh.1 hg]
              refine ⟨g, hfresh.1, hg, Or.inr hg, fun _ g0 hg0 => ?_, fun h => absurd hfresh.1 h⟩
              exact Option.some.inj (hg.symm.trans hg0)
          · have hstale := hlive ⟨st, p, hsig⟩
            rw [step_subscription hsig hstale, hst]
            have hsub : ¬∀ y ∈ l ++ [x], ¬s0.LiveSubscription y :=
              fun h => h x (by simp) ⟨⟨st, p, hsig⟩, hstale⟩
            cases hg : s0.grace with
            | none =>
                refine ⟨_, rfl, rfl, Or.inl rfl, fun _ g0 hg0 => ?_, fun _ h => absurd h hsub⟩
                rw [hg] at hg0
                exact absurd hg0 (by simp)
            | some g =>
                exact ⟨g, rfl, rfl, Or.inr hg, fun _ g0 hg0 => Option.some.inj (hg.symm.trans hg0),
                  fun _ h => absurd h hsub⟩
        · refine ⟨g, ?_⟩
          rcases hlx hlive with hf | ⟨st, p, hsig, hst⟩
          · rw [step_failed_again hf hg.status hg.grace]
            exact ⟨hg.status, hg.grace, hg.source, hg.kept, fun h h' => hg.fresh h (htail h')⟩
          · cases hstale : (run cfg now s0 l).stale x.time with
            | true =>
                rw [step_stale hsig hstale]
                exact ⟨hg.status, hg.grace, hg.source, hg.kept, fun h h' => hg.fresh h (htail h')⟩
            | false =>
                rw [step_subscription hsig hstale, hst, hg.grace]
                exact ⟨rfl, rfl, hg.source, hg.kept, fun h h' => hg.fresh h (htail h')⟩
      · rw [step_dead hlive]
        rcases ih hl' with ⟨hno, hs⟩ | ⟨⟨y, hy, hly⟩, g, hg⟩
        · refine Or.inl ⟨fun y hy => ?_, hs⟩
          rcases List.mem_append.1 hy with hy | hy
          · exact hno y hy
          · rwa [List.mem_singleton.1 hy]
        · exact Or.inr ⟨⟨y, List.mem_append_left _ hy, hly⟩, g, hg.status, hg.grace, hg.source,
            hg.kept, fun h h' => hg.fresh h (htail h')⟩

/-! ## Runs with a payment or a checkout -/

/-- No live event is a failed payment, and every live subscription is active. -/
def AllActive (s0 : Entitlement) (l : List Sent) : Prop :=
  ∀ x ∈ l, s0.Live x → x.signal ≠ .failed ∧ ∀ st p, x.signal = .subscription st p → st.1 = .active

theorem Paired.allActive (h : s0.Paired evs) (hnd : (evs.map Sent.time).Nodup)
    (hnf : ∀ x ∈ evs, x.signal ≠ .failed) {y : Sent} (hy : y ∈ evs)
    (hp : y.signal = .paid ∨ ∃ p, y.signal = .checkout p) : AllActive s0 evs := by
  refine fun x hx hlx => ⟨hnf x hx, fun st p hsig => ?_⟩
  have hother : ∀ st p, y.signal ≠ .subscription st p := by
    rcases hp with hp | ⟨q, hp⟩ <;> simp [hp]
  have hne : x.time ≠ y.time := fun ht => hother st p (eq_of_time hnd hx hy ht ▸ hsig)
  have hag := h.agrees hx hy hlx (live_of_signal rfl hother) hne
  rw [hsig] at hag
  rcases hp with hp | ⟨q, hp⟩ <;> rw [hp] at hag
  · exact hag.elim (·.1) id
  · exact hag.elim (·.1) (·.1)

/-- The status after a live event: active once a payment or a subscription has come. -/
structure Paying (s0 : Entitlement) (l : List Sent) (s : Entitlement) : Prop where
  status : s.status = .active ∨ s.status = .pending
  kept : s0.status = .active → s.status = .active
  active : (∃ x ∈ l, x.signal = .paid ∨ s0.LiveSubscription x) → s.status = .active
  waiting : (∀ x ∈ l, x.signal ≠ .paid ∧ ¬s0.LiveSubscription x) → s0.status ≠ .active →
    s.status = .pending

variable (cfg now) in
theorem run_active (hl : AllActive s0 l) :
    ((∀ x ∈ l, ¬s0.Live x) ∧ run cfg now s0 l = s0) ∨
      (∃ x ∈ l, s0.Live x) ∧ Paying s0 l (run cfg now s0 l) := by
  induction l using List.reverseRecOn with
  | nil => exact Or.inl ⟨by simp, rfl⟩
  | append_singleton l x ih =>
      have hl' : AllActive s0 l := fun y hy => hl y (List.mem_append_left _ hy)
      obtain hlx := hl x (by simp)
      have htail : ∀ {P : Sent → Prop}, (∀ y ∈ l ++ [x], P y) → ∀ y ∈ l, P y :=
        fun h y hy => h y (List.mem_append_left _ hy)
      rw [run_append, run_singleton]
      by_cases hlive : s0.Live x
      · obtain ⟨hnf, hsub⟩ := hlx hlive
        refine Or.inr ⟨⟨x, by simp, hlive⟩, ?_⟩
        cases hsig : x.signal with
        | failed => exact absurd hsig hnf
        | paid =>
            rw [step_paid hsig]
            exact ⟨Or.inl rfl, fun _ => rfl, fun _ => rfl,
              fun h => absurd hsig (h x (by simp)).1⟩
        | subscription st p =>
            have hact : st.1 = .active := hsub st p hsig
            have hlsub : s0.LiveSubscription x := ⟨⟨st, p, hsig⟩, hlive ⟨st, p, hsig⟩⟩
            have hstatus : (step cfg now (run cfg now s0 l) x).status = .active := by
              cases hstale : (run cfg now s0 l).stale x.time with
              | false => rw [step_subscription hsig hstale]; exact hact
              | true =>
                  rw [step_stale hsig hstale]
                  rcases run_tracks cfg now s0 l with
                    ⟨-, hs, -⟩ | ⟨m, -, -, hm, -⟩
                  · rw [stale_congr hs, hlsub.2] at hstale
                    exact absurd hstale (by simp)
                  · rcases ih hl' with ⟨hno, -⟩ | ⟨-, hpay⟩
                    · exact absurd hm.live.toLive (hno m hm.mem)
                    · exact hpay.active ⟨m, hm.mem, Or.inr hm.live⟩
            exact ⟨Or.inl hstatus, fun _ => hstatus, fun _ => hstatus,
              fun h => absurd hlsub (h x (by simp)).2⟩
        | checkout p =>
            rw [step_checkout hsig]
            have hwait : (∃ y ∈ l ++ [x], y.signal = .paid ∨ s0.LiveSubscription y) →
                ∃ y ∈ l, y.signal = .paid ∨ s0.LiveSubscription y := by
              rintro ⟨y, hy, hyp⟩
              rcases List.mem_append.1 hy with hy | hy
              · exact ⟨y, hy, hyp⟩
              · rw [List.mem_singleton.1 hy, hsig] at hyp
                rcases hyp with hyp | ⟨⟨st, q, hyp⟩, -⟩
                · exact absurd hyp (by simp)
                · exact absurd (hsig.symm.trans hyp) (by simp)
            rcases ih hl' with ⟨hno, hs⟩ | ⟨-, hpay⟩
            · rw [hs]
              refine ⟨?_, fun h => if_pos h, fun h => ?_, fun _ h => if_neg h⟩
              · by_cases h : s0.status = .active <;> simp [h]
              · obtain ⟨y, hy, hyp | hyp⟩ := hwait h
                · exact absurd (live_of_signal hyp (by simp)) (hno y hy)
                · exact absurd hyp.toLive (hno y hy)
            · refine ⟨?_, fun h => if_pos (hpay.kept h), fun h => if_pos (hpay.active (hwait h)),
                fun h h' => if_neg ?_⟩
              · by_cases h : (run cfg now s0 l).status = .active <;> simp [h]
              · rw [hpay.waiting (htail h) h']
                simp
      · rw [step_dead hlive]
        have hnl : ¬(x.signal = .paid ∨ s0.LiveSubscription x) := by
          rintro (h | h)
          · exact hlive (live_of_signal h (by simp))
          · exact hlive h.toLive
        rcases ih hl' with ⟨hno, hs⟩ | ⟨⟨y, hy, hly⟩, hpay⟩
        · refine Or.inl ⟨fun y hy => ?_, hs⟩
          rcases List.mem_append.1 hy with hy | hy
          · exact hno y hy
          · rwa [List.mem_singleton.1 hy]
        · refine Or.inr ⟨⟨y, List.mem_append_left _ hy, hly⟩, hpay.status, hpay.kept, ?_,
            fun h => hpay.waiting (htail h)⟩
          rintro ⟨z, hz, hzp⟩
          rcases List.mem_append.1 hz with hz | hz
          · exact hpay.active ⟨z, hz, hzp⟩
          · rw [List.mem_singleton.1 hz] at hzp
            exact absurd hzp hnl

/-- Live subscriptions and checkouts all name one plan. -/
def OnePlan (s0 : Entitlement) (l : List Sent) (q : ProductCode) : Prop :=
  ∀ x ∈ l, (∀ p, x.signal = .checkout p → p = q) ∧
    (s0.LiveSubscription x → ∀ st p, x.signal = .subscription st p → p = q)

theorem Paired.onePlan (h : s0.Paired evs) (hnd : (evs.map Sent.time).Nodup)
    {y : Sent} {q : ProductCode} (hy : y ∈ evs) (hq : y.signal = .checkout q) : OnePlan s0 evs q := by
  have hly : s0.Live y := live_of_signal hq (by simp)
  intro x hx
  refine ⟨fun p hp => ?_, fun hl st p hp => ?_⟩
  · by_cases ht : x.time = y.time
    · rw [eq_of_time hnd hx hy ht, hq] at hp
      exact Signal.checkout.inj hp.symm
    · have hag := h.agrees hx hy (live_of_signal hp (by simp)) hly ht
      rw [hp, hq] at hag
      exact hag.elim id Eq.symm
  · have ht : x.time ≠ y.time := fun ht => by
      rw [eq_of_time hnd hx hy ht, hq] at hp
      exact absurd hp (by simp)
    have hag := h.agrees hx hy hl.toLive hly ht
    rw [hp, hq] at hag
    exact hag.elim (·.2.2) fun h => h.2.symm

/-- The plan shown: `q` as soon as something has named a plan. -/
def ShowsPlan (s0 : Entitlement) (l : List Sent) (q : ProductCode) (plan : Option ProductCode) :
    Prop :=
  ((∀ x ∈ l, ¬s0.LiveSubscription x ∧ ∀ p, x.signal ≠ .checkout p) ∧ plan = s0.product) ∨
    (∃ x ∈ l, s0.LiveSubscription x ∨ ∃ p, x.signal = .checkout p) ∧ plan = some q

/-- An event that names no plan leaves the plan shown as it is. -/
theorem ShowsPlan.snoc {q : ProductCode} {plan : Option ProductCode} {x : Sent}
    (h : ShowsPlan s0 l q plan)
    (hx : ¬s0.LiveSubscription x ∧ ∀ p, x.signal ≠ .checkout p) : ShowsPlan s0 (l ++ [x]) q plan := by
  rcases h with ⟨hno, hp⟩ | ⟨⟨y, hy, hyp⟩, hp⟩
  · refine Or.inl ⟨fun y hy => ?_, hp⟩
    rcases List.mem_append.1 hy with hy | hy
    · exact hno y hy
    · rwa [List.mem_singleton.1 hy]
  · exact Or.inr ⟨⟨y, List.mem_append_left _ hy, hyp⟩, hp⟩

variable (cfg now) in
theorem run_product {q : ProductCode} (hl : OnePlan s0 l q) :
    ShowsPlan s0 l q (run cfg now s0 l).product := by
  induction l using List.reverseRecOn with
  | nil => exact Or.inl ⟨by simp, rfl⟩
  | append_singleton l x ih =>
      have hl' : OnePlan s0 l q := fun y hy => hl y (List.mem_append_left _ hy)
      obtain ⟨hcheckout, hsub⟩ := hl x (by simp)
      rw [run_append, run_singleton]
      have hnotSub : (∀ st p, x.signal ≠ .subscription st p) → ¬s0.LiveSubscription x :=
        fun h ⟨⟨st, p, hx⟩, _⟩ => h st p hx
      cases hsig : x.signal with
      | paid =>
          rw [step_paid hsig]
          exact (ih hl').snoc ⟨hnotSub (by simp [hsig]), by simp [hsig]⟩
      | failed =>
          have hsame : (step cfg now (run cfg now s0 l) x).product = (run cfg now s0 l).product := by
            simp only [step, hsig]
            split <;> rfl
          rw [hsame]
          exact (ih hl').snoc ⟨hnotSub (by simp [hsig]), by simp [hsig]⟩
      | checkout p =>
          rw [step_checkout hsig]
          exact Or.inr ⟨⟨x, by simp, Or.inr ⟨p, hsig⟩⟩, congrArg some (hcheckout p hsig)⟩
      | subscription st p =>
          cases hstale : (run cfg now s0 l).stale x.time with
          | false =>
              have hlive : s0.LiveSubscription x := by
                refine ⟨⟨st, p, hsig⟩, ?_⟩
                by_contra h
                rw [Bool.not_eq_false] at h
                rw [stale_run cfg now h l] at hstale
                exact absurd hstale (by simp)
              rw [step_subscription hsig hstale]
              exact Or.inr ⟨⟨x, by simp, Or.inl hlive⟩, congrArg some (hsub hlive st p hsig)⟩
          | true =>
              rw [step_stale hsig hstale]
              rcases run_tracks cfg now s0 l with
                ⟨-, hs, -⟩ | ⟨m, -, -, hm, -⟩
              · refine (ih hl').snoc ⟨fun h => ?_, by simp [hsig]⟩
                rw [stale_congr hs, h.2] at hstale
                exact absurd hstale (by simp)
              · rcases ih hl' with ⟨hno, -⟩ | ⟨⟨y, hy, hyp⟩, hp⟩
                · exact absurd hm.live (hno m hm.mem).1
                · exact Or.inr ⟨⟨y, List.mem_append_left _ hy, hyp⟩, hp⟩

/-! ## Runs of subscriptions only -/

variable (cfg now s0) in
/-- The tolerance after subscriptions only. -/
theorem run_grace (hl : ∀ x ∈ l, ∃ st p, x.signal = .subscription st p) :
    ((run cfg now s0 l).grace = none ∨ (run cfg now s0 l).grace = s0.grace ∨
        (run cfg now s0 l).grace = some (now + cfg.gracePeriod)) ∧
      (∀ g, s0.grace = some g →
        (∀ x st p, x ∈ l → s0.LiveSubscription x → x.signal = .subscription st p →
          clears st = false) → (run cfg now s0 l).grace = some g) ∧
      ((∃ x ∈ l, s0.LiveSubscription x) → (run cfg now s0 l).status = .pastDue →
        (run cfg now s0 l).grace ≠ none) := by
  induction l using List.reverseRecOn with
  | nil => exact ⟨Or.inr (Or.inl rfl), fun g hg _ => hg, by simp⟩
  | append_singleton l x ih =>
      obtain ⟨h1, h2, h3⟩ := ih fun y hy => hl y (List.mem_append_left _ hy)
      obtain ⟨st, p, hsig⟩ := hl x (by simp)
      rw [run_append, run_singleton]
      cases hstale : (run cfg now s0 l).stale x.time with
      | true =>
          rw [step_stale hsig hstale]
          refine ⟨h1, fun g hg h => h2 g hg fun y st p hy => h y st p (List.mem_append_left _ hy), ?_⟩
          rintro ⟨y, hy, hly⟩
          refine h3 ?_
          rcases List.mem_append.1 hy with hy | hy
          · exact ⟨y, hy, hly⟩
          · rw [List.mem_singleton.1 hy] at hly
            rcases run_tracks cfg now s0 l with
              ⟨-, hs, -⟩ | ⟨m, -, -, hm, -⟩
            · rw [stale_congr hs, hly.2] at hstale
              exact absurd hstale (by simp)
            · exact ⟨m, hm.mem, hm.live⟩
      | false =>
          have hlive : s0.LiveSubscription x := by
            refine ⟨⟨st, p, hsig⟩, ?_⟩
            by_contra h
            rw [Bool.not_eq_false] at h
            rw [stale_run cfg now h l] at hstale
            exact absurd hstale (by simp)
          rw [step_subscription hsig hstale]
          generalize run cfg now s0 l = s at h1 h2 ⊢
          refine ⟨?_, fun g hg h => ?_, fun _ hpd => ?_⟩
          · rcases graceAfter_cases cfg now st.1 s.grace with h | h | h
            · exact Or.inl h
            · exact h1.imp h.trans (Or.imp h.trans h.trans)
            · exact Or.inr (Or.inr h)
          · have hs := h2 g hg fun y st p hy => h y st p (List.mem_append_left _ hy)
            have hclear := h x st p (by simp) hlive hsig
            show BillingAccount.graceAfter cfg now st.1 s.grace = some g
            rw [hs, graceAfter_of_not_clears hclear]
          · show BillingAccount.graceAfter cfg now st.1 s.grace ≠ none
            rw [show st.1 = .pastDue from hpd, BillingAccount.graceAfter_pastDue]
            exact Option.some_ne_none _

/-! ## The same end -/

theorem Newest.unique (hnd : (evs.map Sent.time).Nodup) {m m' : Sent} (h : s0.Newest evs m)
    (h' : s0.Newest evs m') : m = m' := by
  have h1 := h.max m' h'.mem h'.live
  have h2 := h'.max m h.mem h.live
  exact eq_of_time hnd h.mem h'.mem (by omega)

variable (cfg now s0) in
/-- Two orders of the same events agree in what follows the newest subscription. -/
theorem tracks_agree (hnd : (evs.map Sent.time).Nodup) {l l' : List Sent} (hl : l.Perm evs)
    (hl' : l'.Perm evs) :
    ((∀ x ∈ evs, ∀ p, x.signal ≠ .checkout p) →
        (run cfg now s0 l).product = (run cfg now s0 l').product) ∧
      ((∀ x ∈ evs, ∃ st p, x.signal = .subscription st p) →
        (run cfg now s0 l).status = (run cfg now s0 l').status) := by
  have hin : ∀ {P : Sent → Prop}, (∀ x ∈ evs, P x) → (∀ x ∈ l, P x) ∧ ∀ x ∈ l', P x :=
    fun h => ⟨fun x hx => h x (hl.mem_iff.1 hx), fun x hx => h x (hl'.mem_iff.1 hx)⟩
  have hswap : ∀ x, x ∈ l ↔ x ∈ l' := fun x => hl.mem_iff.trans hl'.mem_iff.symm
  rcases run_tracks cfg now s0 l with
    ⟨hno, -, hp, hs⟩ | ⟨m, st, p, hm, hsig, -, hp, hs⟩ <;>
  rcases run_tracks cfg now s0 l' with
    ⟨hno', -, hp', hs'⟩ | ⟨m', st', p', hm', hsig', -, hp', hs'⟩
  · refine ⟨fun h => (hp (hin h).1).trans (hp' (hin h).2).symm, fun h => ?_⟩
    rw [hs (hin h).1, hs' (hin h).2]
  · exact absurd hm'.live (hno m' ((hswap m').2 hm'.mem))
  · exact absurd hm.live (hno' m ((hswap m).1 hm.mem))
  · obtain rfl := Newest.unique hnd (hm.perm hl) (hm'.perm hl')
    obtain ⟨rfl, rfl⟩ := Signal.subscription.inj (hsig.symm.trans hsig')
    exact ⟨fun h => (hp (hin h).1).trans (hp' (hin h).2).symm,
      fun h => (hs (hin h).1).trans (hs' (hin h).2).symm⟩

theorem shown_congr {s s' : Entitlement} (hs : s.status = s'.status) (hp : s.product = s'.product)
    (ha : s.access now = s'.access now) : s.shown now = s'.shown now := by
  simp [shown, hs, hp, ha]

/-- Each tolerance is the account's own or a new one, and the two are equally good. -/
theorem SameTolerance.decide_eq (h : SameTolerance cfg now s0) {g g' : Int}
    (hg : g = now + cfg.gracePeriod ∨ s0.grace = some g)
    (hg' : g' = now + cfg.gracePeriod ∨ s0.grace = some g') :
    decide (now < g) = decide (now < g') := by
  have key : ∀ {g}, (g = now + cfg.gracePeriod ∨ s0.grace = some g) →
      (now < g ↔ now < now + cfg.gracePeriod) := by
    rintro g (rfl | hg)
    · exact Iff.rfl
    · exact h g hg
  rw [decide_eq_decide]
  exact (key hg).trans (key hg').symm

theorem OrderSafe.sameEnd_pastDue (h : OrderSafe cfg now s0 evs) (hnd : (evs.map Sent.time).Nodup)
    {y : Sent} (hy : y ∈ evs) (hf : y.signal = .failed) {l l' : List Sent} (hl : l.Perm evs)
    (hl' : l'.Perm evs) :
    (run cfg now s0 l).shown now = (run cfg now s0 l').shown now := by
  have hall := h.pairs.allPastDue hnd hy hf
  have hlive : ∃ x ∈ evs, s0.Live x := ⟨y, hy, live_of_signal hf (by simp)⟩
  have key : ∀ k : List Sent, k.Perm evs → ∃ g, PastDue cfg now s0 k (run cfg now s0 k) g := by
    intro k hk
    rcases run_pastDue cfg now fun x hx => hall x (hk.mem_iff.1 hx) with
      ⟨hno, -⟩ | ⟨-, hg⟩
    · obtain ⟨x, hx, hlx⟩ := hlive
      exact absurd hlx (hno x (hk.mem_iff.2 hx))
    · exact hg
  obtain ⟨g, hg⟩ := key l hl
  obtain ⟨g', hg'⟩ := key l' hl'
  have hno : ∀ x ∈ evs, ∀ p, x.signal ≠ .checkout p := by
    intro x hx p hsig
    rcases hall x hx (live_of_signal hsig (by simp)) with hx' | ⟨st, q, hx', -⟩ <;>
      exact absurd (hsig.symm.trans hx') (by simp)
  refine shown_congr (hg.status.trans hg'.status.symm) ((tracks_agree cfg now s0 hnd hl hl').1 hno) ?_
  rw [access_of_pastDue hg.status hg.grace, access_of_pastDue hg'.status hg'.grace]
  by_cases hst : s0.status = .pastDue
  · cases hs : s0.grace with
    | some g0 => rw [hg.kept hst g0 hs, hg'.kept hst g0 hs]
    | none =>
        have hnone : ∀ {g}, ¬s0.grace = some g := by simp [hs]
        rw [hg.source.resolve_right hnone, hg'.source.resolve_right hnone]
  · by_cases hsub : ∃ x ∈ evs, s0.LiveSubscription x
    · obtain ⟨x, hx, hlx⟩ := hsub
      exact (h.tolerance x y hx hlx hy hf hst).decide_eq hg.source hg'.source
    · have hsub' : ∀ k : List Sent, k.Perm evs → ∀ x ∈ k, ¬s0.LiveSubscription x :=
        fun k hk x hx hlx => hsub ⟨x, hk.mem_iff.1 hx, hlx⟩
      rw [hg.fresh hst (hsub' l hl), hg'.fresh hst (hsub' l' hl')]

theorem OrderSafe.product_eq (h : OrderSafe cfg now s0 evs) (hnd : (evs.map Sent.time).Nodup)
    {l l' : List Sent} (hl : l.Perm evs) (hl' : l'.Perm evs) :
    (run cfg now s0 l).product = (run cfg now s0 l').product := by
  by_cases hc : ∀ x ∈ evs, ∀ p, x.signal ≠ .checkout p
  · exact (tracks_agree cfg now s0 hnd hl hl').1 hc
  · simp only [not_forall, not_not] at hc
    obtain ⟨y, hy, q, hq⟩ := hc
    have hone := h.pairs.onePlan hnd hy hq
    have key : ∀ k : List Sent, k.Perm evs → (run cfg now s0 k).product = some q := by
      intro k hk
      rcases run_product cfg now fun x hx => hone x (hk.mem_iff.1 hx) with
        ⟨hno, -⟩ | ⟨-, hp⟩
      · exact absurd hq ((hno y (hk.mem_iff.2 hy)).2 q)
      · exact hp
    rw [key l hl, key l' hl']

theorem OrderSafe.sameEnd_paying (h : OrderSafe cfg now s0 evs) (hnd : (evs.map Sent.time).Nodup)
    (hnf : ∀ x ∈ evs, x.signal ≠ .failed) {y : Sent} (hy : y ∈ evs)
    (hp : y.signal = .paid ∨ ∃ p, y.signal = .checkout p) {l l' : List Sent} (hl : l.Perm evs)
    (hl' : l'.Perm evs) :
    (run cfg now s0 l).shown now = (run cfg now s0 l').shown now := by
  have hall := h.pairs.allActive hnd hnf hy hp
  have hly : s0.Live y := by
    rcases hp with hp | ⟨q, hp⟩ <;> exact live_of_signal hp (by simp)
  have key : ∀ k : List Sent, k.Perm evs → Paying s0 k (run cfg now s0 k) := by
    intro k hk
    rcases run_active cfg now fun x hx => hall x (hk.mem_iff.1 hx) with
      ⟨hno, -⟩ | ⟨-, hpay⟩
    · exact absurd hly (hno y (hk.mem_iff.2 hy))
    · exact hpay
  have hstatus : (run cfg now s0 l).status = (run cfg now s0 l').status := by
    by_cases h0 : s0.status = .active
    · rw [(key l hl).kept h0, (key l' hl').kept h0]
    · by_cases hact : ∃ x ∈ evs, x.signal = .paid ∨ s0.LiveSubscription x
      · obtain ⟨x, hx, hxp⟩ := hact
        rw [(key l hl).active ⟨x, hl.mem_iff.2 hx, hxp⟩,
          (key l' hl').active ⟨x, hl'.mem_iff.2 hx, hxp⟩]
      · have hwait : ∀ k : List Sent, k.Perm evs →
            ∀ x ∈ k, x.signal ≠ .paid ∧ ¬s0.LiveSubscription x := fun k hk x hx =>
          not_or.1 fun hxp => hact ⟨x, hk.mem_iff.1 hx, hxp⟩
        rw [(key l hl).waiting (hwait l hl) h0, (key l' hl').waiting (hwait l' hl') h0]
  refine shown_congr hstatus (h.product_eq hnd hl hl') ?_
  have hne : ∀ k : List Sent, k.Perm evs → (run cfg now s0 k).status ≠ .pastDue := fun k hk => by
    rcases (key k hk).status with hs | hs <;> simp [hs]
  rw [access_of_ne_pastDue (hne l hl), access_of_ne_pastDue (hne l' hl'), hstatus]

theorem OrderSafe.sameEnd_subscriptions (h : OrderSafe cfg now s0 evs)
    (hnd : (evs.map Sent.time).Nodup) (hsub : ∀ x ∈ evs, ∃ st p, x.signal = .subscription st p)
    {l l' : List Sent} (hl : l.Perm evs) (hl' : l'.Perm evs) :
    (run cfg now s0 l).shown now = (run cfg now s0 l').shown now := by
  have hstatus := (tracks_agree cfg now s0 hnd hl hl').2 hsub
  refine shown_congr hstatus (h.product_eq hnd hl hl') ?_
  by_cases hlive : ∃ x ∈ evs, s0.LiveSubscription x
  swap
  · -- Nothing counts, so both runs end where they began.
    have key : ∀ k : List Sent, k.Perm evs → run cfg now s0 k = s0 := by
      intro k hk
      rcases run_tracks cfg now s0 k with ⟨-, -, -, hs⟩ | ⟨m, -, -, hm, -⟩
      · exact hs fun x hx => hsub x (hk.mem_iff.1 hx)
      · exact absurd ⟨m, hk.mem_iff.1 hm.mem, hm.live⟩ hlive
    rw [key l hl, key l' hl']
  have key : ∀ k : List Sent, k.Perm evs → ∃ m p st, s0.Newest evs m ∧
      m.signal = .subscription st p ∧ (run cfg now s0 k).status = st := by
    intro k hk
    rcases run_tracks cfg now s0 k with ⟨hno, -⟩ | ⟨m, st, p, hm, hsig, -, -, hs⟩
    · obtain ⟨x, hx, hlx⟩ := hlive
      exact absurd hlx (hno x (hk.mem_iff.2 hx))
    · exact ⟨m, p, st, hm.perm hk, hsig, hs fun x hx => hsub x (hk.mem_iff.1 hx)⟩
  obtain ⟨m, p, ⟨st, hst⟩, hm, hsig, hs⟩ := key l hl
  have hs' := hstatus ▸ hs
  have hpast : st = .pastDue → ∀ k : List Sent, k.Perm evs → (run cfg now s0 k).status = .pastDue →
      ∃ g, (run cfg now s0 k).grace = some g ∧
        (g = now + cfg.gracePeriod ∨ s0.grace = some g) ∧
        (¬SameTolerance cfg now s0 → ∀ g0, s0.grace = some g0 → g = g0) := by
    rintro rfl k hk hks
    obtain ⟨h1, h2, h3⟩ := run_grace cfg now s0
      fun x hx => hsub x (hk.mem_iff.1 hx)
    obtain ⟨x, hx, hlx⟩ := hlive
    obtain ⟨g, hg⟩ := Option.ne_none_iff_exists'.1 (h3 ⟨x, hk.mem_iff.2 hx, hlx⟩ hks)
    refine ⟨g, hg, ?_, fun hsame g0 hg0 => ?_⟩
    · rcases h1 with h1 | h1 | h1
      · exact absurd (hg.symm.trans h1) (by simp)
      · exact Or.inr (h1 ▸ hg)
      · exact Or.inl (Option.some.inj (hg.symm.trans h1))
    · refine Option.some.inj (hg.symm.trans (h2 g0 hg0 fun x st q hx hlx hxs => ?_))
      by_contra hclear
      rw [Bool.not_eq_false] at hclear
      exact hsame (h.lapse m p hm hsig x st q (hk.mem_iff.1 hx) hlx hxs hclear)
  by_cases hpd : st = .pastDue
  · obtain ⟨g, hg, hsrc, hkeep⟩ := hpast hpd l hl (hs.trans hpd)
    obtain ⟨g', hg', hsrc', hkeep'⟩ := hpast hpd l' hl' (hs'.trans hpd)
    rw [access_of_pastDue (hs.trans hpd) hg, access_of_pastDue (hs'.trans hpd) hg']
    by_cases hsame : SameTolerance cfg now s0
    · exact hsame.decide_eq hsrc hsrc'
    · cases hg0 : s0.grace with
      | some g0 => rw [hkeep hsame g0 hg0, hkeep' hsame g0 hg0]
      | none =>
          have hnone : ∀ {g}, ¬s0.grace = some g := by simp [hg0]
          rw [hsrc.resolve_right hnone, hsrc'.resolve_right hnone]
  · rw [access_of_ne_pastDue (hs ▸ hpd), access_of_ne_pastDue (hs' ▸ hpd), hs, hs']

/-! ## Late events -/

/-- The plan is still the first one when every subscription that could have been applied names it. -/
theorem product_of_older (hc : ∀ x ∈ l, ∀ p, x.signal ≠ .checkout p) {t : Int}
    (ht : (run cfg now s0 l).stale t = false)
    (hold : ∀ m st p, m ∈ l → s0.LiveSubscription m → m.time ≤ t → m.signal = .subscription st p →
      s0.product = some p) :
    (run cfg now s0 l).product = s0.product := by
  rcases run_tracks cfg now s0 l with
    ⟨-, -, hp, -⟩ | ⟨m, st, p, hm, hsig, hlast, hp, -⟩
  · exact hp hc
  · rw [stale_of_last hlast, decide_eq_false_iff_not, Int.not_lt] at ht
    rw [hp hc, hold m st p hm.mem hm.live ht hsig]

section Late

variable {x y : Sent} (h : OrderSafe cfg now s0 evs) (hl : ∀ z ∈ l, z ∈ evs) (hy : y ∈ l) (hx : x ∈ evs)
  (hly : s0.Live y) (hlx : s0.Live x)
  (hlt : x.time < y.time)
  (hsub : ∀ st st' c c', x.signal = .subscription st c → y.signal = .subscription st' c' →
    (run cfg now s0 l).stale x.time = true)

include h hl hy hx hly hlx hlt hsub

theorem late_pastDue (hall : AllPastDue s0 evs) :
    (step cfg now (run cfg now s0 l) x).shown now = (run cfg now s0 l).shown now := by
  have hag := h.pairs x hx y (hl y hy) hlx hly hlt
  rcases run_pastDue cfg now fun z hz => hall z (hl z hz) with
    ⟨hno, -⟩ | ⟨-, g, hg⟩
  · exact absurd hly (hno y hy)
  rcases hall x hx hlx with hxf | ⟨st, c, hxs, hst⟩
  · rw [step_failed_again hxf hg.status hg.grace]
  cases hstale : (run cfg now s0 l).stale x.time with
  | true => rw [step_stale hxs hstale]
  | false =>
      rcases hall y (hl y hy) hly with hyf | ⟨st', c', hys, -⟩
      · have hno : ∀ z ∈ l, ∀ p, z.signal ≠ .checkout p := by
          intro z hz p hzs
          rcases hall z (hl z hz) (live_of_signal hzs (by simp)) with hz' | ⟨_, _, hz', -⟩ <;>
            exact absurd (hzs.symm.trans hz') (by simp)
        rw [hxs, hyf] at hag
        have hprod : (run cfg now s0 l).product = s0.product := by
          refine product_of_older hno hstale fun m st p hm hlm hle hms => ?_
          have hmag := h.pairs m (hl m hm) y (hl y hy) hlm.toLive hly (by omega)
          rw [hms, hyf] at hmag
          exact hmag.2
        rw [step_subscription hxs hstale, hst, hg.grace]
        refine shown_congr hg.status.symm (hag.2.symm.trans hprod.symm) ?_
        rw [access_of_pastDue (g := g) rfl rfl, access_of_pastDue hg.status hg.grace]
      · rw [hsub st st' c c' hxs hys] at hstale
        exact absurd hstale (by simp)

theorem late_paying (hnd : (evs.map Sent.time).Nodup) (hall : AllActive s0 evs) :
    (step cfg now (run cfg now s0 l) x).shown now = (run cfg now s0 l).shown now := by
  have hag := h.pairs x hx y (hl y hy) hlx hly hlt
  rcases run_active cfg now fun z hz => hall z (hl z hz) with
    ⟨hno, -⟩ | ⟨-, hpay⟩
  · exact absurd hly (hno y hy)
  have hne : (run cfg now s0 l).status ≠ .pastDue := by
    rcases hpay.status with hs | hs <;> simp [hs]
  have hysub : ∀ st c, y.signal = .subscription st c → s0.LiveSubscription y :=
    fun st c hys => ⟨⟨st, c, hys⟩, hly ⟨st, c, hys⟩⟩
  cases hxs : x.signal with
  | failed => exact absurd hxs (hall x hx hlx).1
  | paid =>
      rw [hxs] at hag
      have hact : (run cfg now s0 l).status = .active := by
        cases hys : y.signal with
        | subscription st c => exact hpay.active ⟨y, hy, Or.inr (hysub st c hys)⟩
        | paid => exact hpay.active ⟨y, hy, Or.inl hys⟩
        | failed => exact absurd hys (hall y (hl y hy) hly).1
        | checkout p => rw [hys] at hag; exact hpay.kept hag
      rw [step_paid hxs]
      exact shown_congr hact.symm rfl ((access_of_active rfl).trans (access_of_active hact).symm)
  | checkout c =>
      rw [hxs] at hag
      have hstatus : (if (run cfg now s0 l).status = .active then AccountStatus.active else .pending) =
          (run cfg now s0 l).status := by
        rcases hpay.status with hs | hs <;> simp [hs]
      have hplan : (run cfg now s0 l).product = some c := by
        have hone := h.pairs.onePlan hnd hx hxs
        rcases run_product cfg now fun z hz => hone z (hl z hz) with
          ⟨hno, hp⟩ | ⟨-, hp⟩
        · cases hys : y.signal with
          | subscription st c' => exact absurd (hysub st c' hys) (hno y hy).1
          | paid => rw [hys] at hag; exact hp.trans hag
          | failed => exact absurd hys (hall y (hl y hy) hly).1
          | checkout p => exact absurd hys ((hno y hy).2 p)
        · exact hp
      rw [step_checkout hxs, hstatus]
      refine shown_congr rfl hplan.symm ?_
      exact (access_of_ne_pastDue hne).trans (access_of_ne_pastDue hne).symm
  | subscription st c =>
      cases hstale : (run cfg now s0 l).stale x.time with
      | true => rw [step_stale hxs hstale]
      | false =>
          rw [hxs] at hag
          have hact : st.1 = .active := (hall x hx hlx).2 st c hxs
          have hlsub : s0.LiveSubscription x := ⟨⟨st, c, hxs⟩, hlx ⟨st, c, hxs⟩⟩
          have hnow : (run cfg now s0 l).status = .active ∧ (run cfg now s0 l).product = some c := by
            cases hys : y.signal with
            | subscription st' c' =>
                rw [hsub st st' c c' hxs hys] at hstale
                exact absurd hstale (by simp)
            | failed => exact absurd hys (hall y (hl y hy) hly).1
            | paid =>
                rw [hys] at hag
                refine ⟨hpay.active ⟨y, hy, Or.inl hys⟩, ?_⟩
                by_cases hc : ∀ z ∈ l, ∀ p, z.signal ≠ .checkout p
                · refine (product_of_older hc hstale fun m st p hm hlm hle hms => ?_).trans hag.2
                  have hmag := h.pairs m (hl m hm) y (hl y hy) hlm.toLive hly (by omega)
                  rw [hms, hys] at hmag
                  exact hmag.2
                · simp only [not_forall, not_not] at hc
                  obtain ⟨z, hz, q, hzs⟩ := hc
                  have hone := h.pairs.onePlan hnd (hl z hz) hzs
                  obtain rfl := (hone x hx).2 hlsub st c hxs
                  rcases run_product cfg now fun z hz => hone z (hl z hz) with
                    ⟨-, hp⟩ | ⟨-, hp⟩
                  · exact hp.trans hag.2
                  · exact hp
            | checkout q =>
                rw [hys] at hag
                refine ⟨hpay.kept hag.2.1, ?_⟩
                have hone := h.pairs.onePlan hnd (hl y hy) hys
                rcases run_product cfg now fun z hz => hone z (hl z hz) with
                  ⟨hno, -⟩ | ⟨-, hp⟩
                · exact absurd hys ((hno y hy).2 q)
                · rw [hp, hag.2.2]
          rw [step_subscription hxs hstale, hact]
          refine shown_congr hnow.1.symm hnow.2.symm ?_
          exact (access_of_active rfl).trans (access_of_active hnow.1).symm

end Late

/-- **Safe sets.** The events of a safe set can arrive in any order. -/
theorem OrderSafe.orderFree (h : OrderSafe cfg now s0 evs) (hnd : (evs.map Sent.time).Nodup) :
    OrderFree cfg now s0 evs := by
  have hkinds : ((∃ y ∈ evs, y.signal = .failed) ∧ AllPastDue s0 evs) ∨
      ((∀ y ∈ evs, y.signal ≠ .failed) ∧
        (∃ y ∈ evs, y.signal = .paid ∨ ∃ p, y.signal = .checkout p) ∧ AllActive s0 evs) ∨
      ∀ y ∈ evs, ∃ st p, y.signal = .subscription st p := by
    by_cases hf : ∃ y ∈ evs, y.signal = .failed
    · obtain ⟨y, hy, hys⟩ := hf
      exact Or.inl ⟨⟨y, hy, hys⟩, h.pairs.allPastDue hnd hy hys⟩
    have hnf : ∀ y ∈ evs, y.signal ≠ .failed := fun y hy hys => hf ⟨y, hy, hys⟩
    by_cases hp : ∃ y ∈ evs, y.signal = .paid ∨ ∃ p, y.signal = .checkout p
    · obtain ⟨y, hy, hys⟩ := hp
      exact Or.inr (Or.inl ⟨hnf, ⟨y, hy, hys⟩, h.pairs.allActive hnd hnf hy hys⟩)
    · refine Or.inr (Or.inr fun y hy => ?_)
      cases hys : y.signal with
      | subscription st p => exact ⟨st, p, rfl⟩
      | paid => exact absurd ⟨y, hy, Or.inl hys⟩ hp
      | failed => exact absurd hys (hnf y hy)
      | checkout p => exact absurd ⟨y, hy, Or.inr ⟨p, hys⟩⟩ hp
  refine ⟨fun l l' hl hl' => ?_, fun p q r x y hperm happ hlt => ?_⟩
  · rcases hkinds with ⟨⟨y, hy, hys⟩, -⟩ | ⟨hnf, ⟨y, hy, hys⟩, -⟩ | hsub
    · exact h.sameEnd_pastDue hnd hy hys hl hl'
    · exact h.sameEnd_paying hnd hnf hy hys hl hl'
    · exact h.sameEnd_subscriptions hnd hsub hl hl'
  · have hmem : ∀ z ∈ p ++ y :: q, z ∈ evs := fun z hz =>
      hperm.mem_iff.1 (List.mem_append_left _ hz)
    have hx : x ∈ evs := hperm.mem_iff.1 (by simp)
    have hy : y ∈ p ++ y :: q := by simp
    have hly : s0.Live y := fun hys => by
      by_contra hst
      rw [Bool.not_eq_false] at hst
      have := happ hys
      rw [stale_run cfg now hst p] at this
      exact absurd this (by simp)
    have hstale : ∀ st st' c c', x.signal = .subscription st c → y.signal = .subscription st' c' →
        (run cfg now s0 (p ++ y :: q)).stale x.time = true :=
      fun st st' c c' _ hys => stale_late hys (happ ⟨st', c', hys⟩) hlt
    rw [run_append, run_singleton]
    by_cases hlx : s0.Live x
    · rcases hkinds with ⟨-, hall⟩ | ⟨-, -, hall⟩ | hsub
      · exact late_pastDue h hmem hy hx hly hlx hlt hstale hall
      · exact late_paying h hmem hy hx hly hlx hlt hstale hnd hall
      · obtain ⟨st, c, hxs⟩ := hsub x hx
        obtain ⟨st', c', hys⟩ := hsub y (hmem y hy)
        rw [step_stale hxs (hstale st st' c c' hxs hys)]
    · rw [step_dead hlx]

/-! ## Nothing less is safe -/

section Necessary

variable {x y : Sent}

theorem exists_perm_cons (hx : x ∈ evs) : ∃ r, (x :: r).Perm evs := by
  classical exact ⟨evs.erase x, (List.perm_cons_erase hx).symm⟩

theorem exists_perm_cons_cons (hx : x ∈ evs) (hy : y ∈ evs) (hne : x ≠ y) :
    ∃ r, (y :: x :: r).Perm evs := by
  obtain ⟨r, hr⟩ := exists_perm_cons hy
  have hxr : x ∈ r := (List.mem_cons.1 (hr.mem_iff.2 hx)).resolve_left hne
  obtain ⟨r', hr'⟩ := exists_perm_cons hxr
  exact ⟨r', (hr'.cons y).trans hr⟩

variable (cfg now) in
theorem step_failed_fields (s : Entitlement) (hf : x.signal = .failed) :
    (step cfg now s x).status = .pastDue ∧ (step cfg now s x).product = s.product ∧
      (step cfg now s x).last = s.last := by
  by_cases hs : s.status ≠ .pastDue ∨ s.grace = none
  · simp [step_failed hf hs]
  · rw [not_or, not_not] at hs
    obtain ⟨g, hg⟩ := Option.ne_none_iff_exists'.1 hs.2
    simp [step_failed_again hf hs.1 hg, hs.1]

/-- An older event that changes nothing after a newer one agrees with it. -/
theorem agrees_of_step (hlx : s0.Live x) (hly : s0.Live y)
    (h : (step cfg now (step cfg now s0 y) x).shown now = (step cfg now s0 y).shown now) :
    s0.Agrees x.signal y.signal := by
  have hstatus := congrArg Prod.fst h
  have hplan := congrArg (fun v => v.2.1) h
  simp only [shown] at hstatus hplan
  cases hxs : x.signal with
  | subscription st p =>
      have hx0 := hlx ⟨st, p, hxs⟩
      cases hys : y.signal with
      | subscription st' p' => exact trivial
      | paid =>
          rw [step_paid hys] at hstatus hplan
          rw [step_subscription hxs (by rwa [stale_congr rfl])] at hstatus hplan
          exact ⟨hstatus, hplan.symm⟩
      | failed =>
          obtain ⟨h1, h2, h3⟩ := step_failed_fields cfg now s0 hys
          rw [step_subscription hxs (by rwa [stale_congr h3])] at hstatus hplan
          exact ⟨hstatus.trans h1, (hplan.trans h2).symm⟩
      | checkout q =>
          rw [step_checkout hys] at hstatus hplan
          rw [step_subscription hxs (by rwa [stale_congr rfl])] at hstatus hplan
          by_cases h0 : s0.status = .active
          · exact ⟨hstatus.trans (if_pos h0), h0, Option.some.inj hplan⟩
          · exact absurd (hstatus.trans (if_neg h0)) st.2
  | paid =>
      rw [step_paid hxs] at hstatus
      cases hys : y.signal with
      | subscription st' p' =>
          rw [step_subscription hys (hly ⟨st', p', hys⟩)] at hstatus
          exact hstatus.symm
      | paid => exact trivial
      | failed =>
          rw [(step_failed_fields cfg now s0 hys).1] at hstatus
          exact absurd hstatus (by simp)
      | checkout q =>
          rw [step_checkout hys] at hstatus
          by_contra h0
          rw [show (if s0.status = .active then AccountStatus.active else .pending) = .pending from
            if_neg h0] at hstatus
          exact absurd hstatus (by simp)
  | failed =>
      rw [(step_failed_fields cfg now _ hxs).1] at hstatus
      cases hys : y.signal with
      | subscription st' p' =>
          rw [step_subscription hys (hly ⟨st', p', hys⟩)] at hstatus
          exact hstatus.symm
      | paid =>
          rw [step_paid hys] at hstatus
          exact absurd hstatus (by simp)
      | failed => exact trivial
      | checkout q =>
          rw [step_checkout hys] at hstatus
          by_cases h0 : s0.status = .active <;> simp [h0] at hstatus
  | checkout p =>
      rw [step_checkout hxs] at hstatus hplan
      cases hys : y.signal with
      | subscription st' p' =>
          rw [step_subscription hys (hly ⟨st', p', hys⟩)] at hstatus hplan
          refine ⟨?_, Option.some.inj hplan⟩
          by_contra h0
          exact st'.2 (hstatus.symm.trans (if_neg h0))
      | paid =>
          rw [step_paid hys] at hplan
          exact hplan.symm
      | failed =>
          rw [(step_failed_fields cfg now s0 hys).1] at hstatus
          exact absurd hstatus (by simp)
      | checkout q =>
          rw [step_checkout hys] at hplan
          exact Option.some.inj hplan

theorem OrderFree.paired (h : OrderFree cfg now s0 evs) : s0.Paired evs := by
  intro x hx y hy hlx hly hlt
  obtain ⟨r, hr⟩ := exists_perm_cons_cons hx hy (fun he => by rw [he] at hlt; omega)
  have := h.lateIgnored [] [] r x y hr (fun hys => hly hys) hlt
  exact agrees_of_step hlx hly this

/-- Behind the newest subscription, older ones change nothing. -/
theorem run_stale {s : Entitlement} {t : Int} (hs : s.last = some t)
    (hl : ∀ z ∈ l, (∃ st p, z.signal = .subscription st p) ∧ z.time < t) : run cfg now s l = s := by
  induction l with
  | nil => rfl
  | cons z l ih =>
      obtain ⟨⟨st, p, hz⟩, hlt⟩ := hl z (by simp)
      have hstep : step cfg now s z = s := step_stale hz (by rwa [stale_of_last hs, decide_eq_true_eq])
      rw [show z :: l = [z] ++ l from rfl, run_append, run_singleton, hstep]
      exact ih fun z hz => hl z (List.mem_cons_of_mem _ hz)

/-- Equal views of a past-due account mean equally good tolerances. -/
theorem decide_of_shown {s s' : Entitlement} {g g' : Int} (h : s.shown now = s'.shown now)
    (hs : s.status = .pastDue) (hs' : s'.status = .pastDue) (hg : s.grace = some g)
    (hg' : s'.grace = some g') : now < g ↔ now < g' := by
  have := congrArg (fun v => v.2.2) h
  simp only [shown] at this
  rwa [access_of_pastDue hs hg, access_of_pastDue hs' hg', decide_eq_decide] at this

theorem OrderFree.lapse (h : OrderFree cfg now s0 evs) (hnd : (evs.map Sent.time).Nodup) {m : Sent}
    {p : ProductCode} (hm : s0.Newest evs m) (hms : m.signal = .subscription ⟨.pastDue, by simp⟩ p)
    {st : {s : AccountStatus // s ≠ .pending}} {q : ProductCode} (hx : x ∈ evs)
    (hlx : s0.LiveSubscription x) (hxs : x.signal = .subscription st q) (hclear : clears st = true) :
    SameTolerance cfg now s0 := by
  intro g hg
  have hpairs := h.paired
  have hne : x ≠ m := fun he => by
    rw [he, hms] at hxs
    obtain ⟨rfl, -⟩ := Signal.subscription.inj hxs
    exact absurd hclear (by simp [clears])
  -- A past-due and a clearing subscription leave no room for other events.
  have hsub : ∀ z ∈ evs, ∃ st p, z.signal = .subscription st p := by
    intro z hz
    by_contra hz'
    have hlz : s0.Live z := live_of_other hz'
    have hother : ∀ w ∈ evs, (∃ st p, w.signal = .subscription st p) → w.time ≠ z.time :=
      fun w hw hws ht => hz' (eq_of_time hnd hw hz ht ▸ hws)
    have hagm := hpairs.agrees hm.mem hz hm.live.toLive hlz (hother m hm.mem hm.live.1)
    have hagx := hpairs.agrees hx hz hlx.toLive hlz (hother x hx hlx.1)
    rw [hms] at hagm
    rw [hxs] at hagx
    cases hzs : z.signal with
    | subscription st p => exact hz' ⟨st, p, hzs⟩
    | paid => rw [hzs] at hagm; exact absurd (hagm.elim (·.1) id) (by simp)
    | failed =>
        rw [hzs] at hagx
        have : st.1 = .pastDue := hagx.elim (·.1) id
        rw [this] at hclear
        exact absurd hclear (by simp [clears])
    | checkout c => rw [hzs] at hagm; exact absurd (hagm.elim (·.1) (·.1)) (by simp)
  have holder : ∀ z ∈ evs, z ≠ m → (∃ st p, z.signal = .subscription st p) ∧ z.time < m.time := by
    intro z hz hzm
    refine ⟨hsub z hz, ?_⟩
    by_contra hle
    have := hm.max z hz (hm.live.time_le (Int.not_lt.1 hle) (hsub z hz))
    exact hzm (eq_of_time hnd hz hm.mem (by omega))
  have hrest : ∀ {r : List Sent} {a : List Sent}, (a ++ m :: r).Perm evs → ∀ z ∈ r,
      (∃ st p, z.signal = .subscription st p) ∧ z.time < m.time := by
    intro r a hr z hz
    have hnd' : (a ++ m :: r).Nodup := (hr.nodup_iff).2 hnd.of_map
    refine holder z (hr.mem_iff.1 (by simp [hz])) fun he => ?_
    exact (List.nodup_cons.1 (List.nodup_append.1 hnd').2.1).1 (he ▸ hz)
  obtain ⟨r, hr⟩ := exists_perm_cons hm.mem
  obtain ⟨r', hr'⟩ := exists_perm_cons_cons hm.mem hx hne.symm
  have hend := h.sameEnd _ _ hr hr'
  -- The tolerance is kept when the newest comes first.
  have hfirst : run cfg now s0 (m :: r) = ⟨.pastDue, some p, some g, some m.time⟩ := by
    rw [show m :: r = [m] ++ r from rfl, run_append, run_singleton,
      step_subscription hms hm.live.2, hg]
    exact run_stale rfl (hrest (a := []) hr)
  -- It is a new one when the clearing subscription comes before.
  have hsecond : run cfg now s0 (x :: m :: r') =
      ⟨.pastDue, some p, some (now + cfg.gracePeriod), some m.time⟩ := by
    have hgrace : BillingAccount.graceAfter cfg now st s0.grace = none :=
      graceAfter_of_clears hclear _
    have hmx : (⟨st, some q, none, some x.time⟩ : Entitlement).stale m.time = false := by
      rw [stale_of_last rfl, decide_eq_false_iff_not, Int.not_lt]
      exact hm.max x hx hlx
    rw [show x :: m :: r' = [x] ++ ([m] ++ r') from rfl, run_append, run_append, run_singleton,
      run_singleton, step_subscription hxs hlx.2, hgrace, step_subscription hms hmx]
    exact run_stale rfl (hrest (a := [x]) hr')
  rw [hfirst, hsecond] at hend
  exact decide_of_shown hend rfl rfl rfl rfl

theorem OrderFree.tolerance (h : OrderFree cfg now s0 evs) (hnd : (evs.map Sent.time).Nodup)
    (hx : x ∈ evs) (hlx : s0.LiveSubscription x) (hy : y ∈ evs) (hf : y.signal = .failed)
    (hs0 : s0.status ≠ .pastDue) : SameTolerance cfg now s0 := by
  intro g hg
  have hall := h.paired.allPastDue hnd hy hf
  -- Whatever made the account past due first sets the tolerance for good.
  have hkeep : ∀ (z : Sent) (g' : Int), z ∈ evs → (step cfg now s0 z).status = .pastDue →
      (step cfg now s0 z).grace = some g' →
      (∀ w, s0.stale w = true → (step cfg now s0 z).stale w = true) →
      ∃ l, l.Perm evs ∧ (run cfg now s0 l).status = .pastDue ∧ (run cfg now s0 l).grace = some g' := by
    intro z g' hz hst hgr hmono
    obtain ⟨r, hr⟩ := exists_perm_cons hz
    refine ⟨z :: r, hr, ?_⟩
    have hallr : AllPastDue (step cfg now s0 z) r := by
      intro w hw hlw
      refine hall w (hr.mem_iff.1 (List.mem_cons_of_mem _ hw)) fun hws => ?_
      by_contra hstale
      rw [Bool.not_eq_false] at hstale
      have := hlw hws
      rw [hmono _ hstale] at this
      exact absurd this (by simp)
    rw [show z :: r = [z] ++ r from rfl, run_append, run_singleton]
    rcases run_pastDue cfg now hallr with ⟨-, hrun⟩ | ⟨-, g'', hg''⟩
    · rw [hrun]
      exact ⟨hst, hgr⟩
    · rw [hg''.kept hst g' hgr] at hg''
      exact ⟨hg''.status, hg''.grace⟩
  obtain ⟨st, p, hxs⟩ := hlx.1
  have hst : st.1 = .pastDue := by
    rcases hall x hx hlx.toLive with hxf | ⟨st', p', hxs', hst'⟩
    · exact absurd (hxs.symm.trans hxf) (by simp)
    · obtain ⟨rfl, -⟩ := Signal.subscription.inj (hxs.symm.trans hxs')
      exact hst'
  have hmono : ∀ z w, s0.stale w = true → (step cfg now s0 z).stale w = true := fun z w hw =>
    stale_run cfg now hw [z]
  obtain ⟨l, hl, hls, hlg⟩ := hkeep x g hx (by rw [step_subscription hxs hlx.2]; exact hst)
    (by rw [step_subscription hxs hlx.2, hst, hg]; rfl) (hmono x)
  obtain ⟨l', hl', hls', hlg'⟩ := hkeep y (now + cfg.gracePeriod) hy
    (by rw [step_failed hf (Or.inl hs0)]) (by rw [step_failed hf (Or.inl hs0)]) (hmono y)
  exact decide_of_shown (h.sameEnd l l' hl hl') hls hls' hlg hlg'

/-- **Order independence.** Events created at different times leave the same entitlement in every
    order, and old ones never disturb it, exactly when the set of them is safe. -/
theorem orderFree_iff (hnd : (evs.map Sent.time).Nodup) :
    OrderFree cfg now s0 evs ↔ OrderSafe cfg now s0 evs where
  mp h :=
    { pairs := h.paired
      lapse := fun _ _ hm hms _ _ _ hx hlx hxs hclear => h.lapse hnd hm hms hx hlx hxs hclear
      tolerance := fun _ _ hx hlx hy hf hs0 => h.tolerance hnd hx hlx hy hf hs0 }
  mpr h := h.orderFree hnd

end Necessary

end Entitlement

end Rubrica
