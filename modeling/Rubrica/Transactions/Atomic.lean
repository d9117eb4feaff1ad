import Rubrica.Transactions.Rules

set_option autoImplicit false

/-! # Calls that publish at most once

A program is atomic, as far as some exceptions go, when it cannot raise one of them after its first
commit or outside write (`Code.Atomic`). What such a call has raised it raised before anybody could
see it: in any run, a session that ended so has changed nothing (`Run.rejected`). -/

namespace Transactions

variable {σ κ τ ε α β ρ : Type}

/-! ## Atomic programs -/

/-- The program cannot raise an exception that `R` names. -/
def Code.Never (R : ε → Prop) : Code σ κ τ ε α → Prop
  | .pure _ => True
  | .raise e => ¬R e
  | .step _ _ next fail => (∀ v, (next v).Never R) ∧ fail.Never R

/-- The program cannot raise an exception that `R` names once others have seen something of it. -/
def Code.Atomic (R : ε → Prop) : Code σ κ τ ε α → Prop
  | .pure _ => True
  | .raise _ => True
  | .step _ act next fail =>
      if act.isPublic then (∀ v, (next v).Never R) ∧ fail.Never R
      else (∀ v, (next v).Atomic R) ∧ fail.Atomic R

namespace Code

variable {R : ε → Prop} {W : (σ → σ) → Prop}

/-- A stretch without commits in front of an atomic program. -/
theorem Local.atomic_bind {x : Code σ κ τ ε α} {f : α → Code σ κ τ ε β} {h : ε → Code σ κ τ ε β}
    (hx : x.Local W) (hf : ∀ a, ((f a).tryCatch h).Atomic R) (hh : ∀ e, (h e).Atomic R) :
    ((x >>= f).tryCatch h).Atomic R := by
  show ((x.bind f).tryCatch h).Atomic R
  induction x with
  | pure a => exact hf a
  | raise e => exact hh e
  | step pt act next fail ihn _ =>
      obtain ⟨hact, hnext, e, rfl⟩ := hx
      have hquiet : act.isPublic = false := by
        cases act with
        | effect u => exact absurd hact id
        | commit => exact absurd hact id
        | _ => rfl
      simp only [bind, tryCatch, Atomic, hquiet, Bool.false_eq_true, if_false]
      exact ⟨fun v => ihn v (hnext v), hh e⟩

/-- A transaction can raise after its commit only that it failed. -/
theorem Local.atomic [Faulty ε] {quiet : τ} {x : Code σ κ τ ε (α × τ)} (hx : x.Local W)
    (hR : ¬R Faulty.fault) : (Code.transaction quiet x).Atomic R := by
  refine hx.atomic_bind (fun r => ?_) fun e => ?_
  · exact ⟨fun _ => trivial, fun _ => hR, hR⟩
  · exact ⟨fun _ => trivial, trivial⟩

theorem Never.map {x : Code σ κ τ ε α} (hx : x.Never R) (g : α → β) : (x >>= fun a => pure (g a)).Never R := by
  show (x.bind _).Never R
  induction x with
  | pure a => trivial
  | raise e => exact hx
  | step pt act next fail ihn ihf => exact ⟨fun v => ihn v (hx.1 v), ihf hx.2⟩

theorem Atomic.map {x : Code σ κ τ ε α} (hx : x.Atomic R) (g : α → β) :
    (x >>= fun a => pure (g a)).Atomic R := by
  show (x.bind _).Atomic R
  induction x with
  | pure a => trivial
  | raise e => trivial
  | step pt act next fail ihn ihf =>
      unfold Atomic at hx
      unfold bind Atomic
      split at hx
      · next hact =>
          rw [if_pos hact]
          exact ⟨fun v => (hx.1 v).map g, hx.2.map g⟩
      · next hact =>
          rw [if_neg hact]
          exact ⟨fun v => ihn v (hx.1 v), ihf hx.2⟩

end Code

/-! ## Sessions of a run -/

/-- None of the steps of session `i` was seen by others. -/
def Quiet (i : Nat) (steps : List (System σ κ τ ε ρ × Label σ κ τ ε ρ)) : Prop :=
  ∀ x ∈ steps, x.2.session = some i → x.1.publishes x.2 = none

section Runs

variable {R : ε → Prop} {W : Setting σ κ τ ε ρ} {Y Y' Z : System σ κ τ ε ρ} {l : Label σ κ τ ε ρ} {i : Nat}
  {steps : List (System σ κ τ ε ρ × Label σ κ τ ε ρ)}

theorem quiet_snoc (h : Quiet i steps) (hl : l.session = some i → Y.publishes l = none) :
    Quiet i (steps ++ [(Y, l)]) := by
  intro x hx hi
  rcases List.mem_append.1 hx with hx | hx
  · exact h x hx hi
  · obtain rfl := List.mem_singleton.1 hx
    exact hl hi

variable [Faulty ε]

/-- What a step makes of the program of its session. -/
inductive Continues (Y : System σ κ τ ε ρ) (l : Label σ κ τ ε ρ) :
    Code σ κ τ ε ρ → Code σ κ τ ε ρ → Prop where
  | crashed (x : Code σ κ τ ε ρ) (quiet : Y.publishes l = none) : Continues Y l x (.raise Faulty.fault)
  | failed (pt : τ) (act : Act σ κ) (next : σ → Code σ κ τ ε ρ) (fail : Code σ κ τ ε ρ)
      (seen : Y.publishes l = none ∨ act.isPublic = true) : Continues Y l (.step pt act next fail) fail
  | went (pt : τ) (act : Act σ κ) (next : σ → Code σ κ τ ε ρ) (fail : Code σ κ τ ε ρ) (v : σ)
      (seen : Y.publishes l = none ∧ act.isPublic = false ∨ act.isPublic = true) :
      Continues Y l (.step pt act next fail) (next v)

/-- What an atomic program has left, while nobody has seen a step of it and after. -/
def AtomicSince (R : ε → Prop) (i : Nat) (steps : List (System σ κ τ ε ρ × Label σ κ τ ε ρ))
    (x : Code σ κ τ ε ρ) : Prop :=
  x.Atomic R ∧ Quiet i steps ∨ x.Never R

/-- One step of an atomic program. -/
theorem Continues.atomic (hR : ¬R Faulty.fault) {X : System σ κ τ ε ρ} {x x' : Code σ κ τ ε ρ}
    (h : Continues X l x x') (hx : AtomicSince R i steps x) : AtomicSince R i (steps ++ [(X, l)]) x' := by
  cases h with
  | crashed x hq => exact Or.inr hR
  | failed pt act next fail hseen =>
      rcases hx with ⟨hatomic, hquiet⟩ | hnever
      · unfold Code.Atomic at hatomic
        split at hatomic
        · exact Or.inr hatomic.2
        · next hact => exact Or.inl ⟨hatomic.2, quiet_snoc hquiet fun _ => hseen.resolve_right hact⟩
      · exact Or.inr hnever.2
  | went pt act next fail v hseen =>
      rcases hx with ⟨hatomic, hquiet⟩ | hnever
      · unfold Code.Atomic at hatomic
        split at hatomic
        · exact Or.inr (hatomic.1 v)
        · next hact =>
            exact Or.inl ⟨hatomic.1 v, quiet_snoc hquiet fun _ => (hseen.resolve_right hact).1⟩
      · exact Or.inr (hnever.1 v)

variable [DecidableEq κ]

omit [DecidableEq κ] in
theorem continues_run {c : Ctx σ κ} {pt : τ} {act : Act σ κ} {next : σ → Code σ κ τ ε ρ}
    {fail : Code σ κ τ ε ρ} (hi : Y.sessions[i]? = some ⟨c, .step pt act next fail⟩) (v : σ) :
    Continues Y (.run i) (.step pt act next fail) (next v) := by
  refine .went pt act next fail v ?_
  have hpub : Y.publishes (.run i) = _ := System.publishes_of_executes (System.next_eq hi)
  cases hact : act.isPublic with
  | false => exact Or.inl ⟨by rw [hpub, hact]; rfl, rfl⟩
  | true => exact Or.inr rfl

theorem continues_of_turn {t t' : Session σ κ τ ε ρ} {s' : σ} (h : Y.Turn i l t t' s')
    (hi : Y.sessions[i]? = some t) : Continues Y l t.code t'.code := by
  cases h with
  | crash t => exact .crashed _ rfl
  | fail c pt act next fail => exact .failed pt act next fail (Or.inl rfl)
  | lose c pt next fail => exact .failed pt .commit next fail (Or.inr rfl)
  | _ => exact continues_run hi _

/-- What nobody sees changes nothing. -/
theorem shared_of_turn {t t' : Session σ κ τ ε ρ} {s' : σ} (h : Y.Turn i l t t' s')
    (hi : Y.sessions[i]? = some t) (hq : Y.publishes l = none) : s' = Y.shared := by
  have seen : ∀ pt act, Y.executes l = some (pt, act) → act.isPublic = false := by
    intro pt act hex
    rw [System.publishes_of_executes hex] at hq
    cases hact : act.isPublic with
    | false => rfl
    | true => exact absurd hq (by simp [hact])
  cases h with
  | lose c pt next fail => exact absurd (seen pt .commit (System.next_eq hi)) (by simp [Act.isPublic])
  | effect c pt u next fail => exact absurd (seen pt (.effect u) (System.next_eq hi)) (by simp [Act.isPublic])
  | commit c pt next fail => exact absurd (seen pt .commit (System.next_eq hi)) (by simp [Act.isPublic])
  | _ => rfl

/-- A step of a session: the others stay as they are, and so does the shared state unless others see
    the step. -/
theorem System.step_session (hl : l.session = some i) (h : Y.step l = some Y') :
    (∃ t t', Y.sessions[i]? = some t ∧ Y'.sessions = Y.sessions.set i t' ∧ Continues Y l t.code t'.code) ∧
      (Y.publishes l = none → Y'.shared = Y.shared) := by
  obtain ⟨t, t', hi, heq, hturn⟩ := System.step_turn hl h
  refine ⟨⟨t, t', hi, ?_, continues_of_turn hturn hi⟩, shared_of_turn hturn hi⟩
  rw [heq]
  rfl

/-- Along a run that starts without sessions, a session that starts with an atomic program keeps to
    it. -/
theorem Run.atomic (hR : ¬R Faulty.fault) (hidle : Y.sessions = []) (hrun : Run W Y steps Z)
    (hstart : ∀ x ∈ steps, ∀ base code, x.2 = .start base code → x.1.sessions.length = i → code.Atomic R) :
    match Z.sessions[i]? with
    | none => Quiet i steps
    | some t => AtomicSince R i steps t.code := by
  induction hrun with
  | nil =>
      rw [hidle]
      intro x hx
      exact absurd hx (by simp)
  | @snoc steps X X' l before _ taken ih =>
      have ih := ih fun x hx => hstart x (List.mem_append_left _ hx)
      -- A step that is not one of session `i` and leaves it as it is.
      have keep : l.session ≠ some i → X'.sessions[i]? = X.sessions[i]? →
          match X'.sessions[i]? with
          | none => Quiet i (steps ++ [(X, l)])
          | some t => AtomicSince R i (steps ++ [(X, l)]) t.code := by
        intro hl hsame
        rw [hsame]
        split
        · next hnone =>
            rw [hnone] at ih
            exact quiet_snoc ih fun h => absurd h hl
        · next t hsome =>
            rw [hsome] at ih
            exact ih.imp_left fun h => ⟨h.1, quiet_snoc h.2 fun h => absurd h hl⟩
      cases hl : l.session with
      | some j =>
          obtain ⟨⟨t, t', ht, hsessions, hcont⟩, -⟩ := System.step_session hl taken
          by_cases hj : j = i
          · subst hj
            have hlt := (List.getElem?_eq_some_iff.1 ht).1
            rw [ht] at ih
            rw [hsessions, List.getElem?_set_self hlt]
            exact hcont.atomic hR ih
          · refine keep (by rw [hl]; simpa using hj) ?_
            rw [hsessions, List.getElem?_set_ne hj]
      | none =>
          have hother : l.session ≠ some i := by rw [hl]; simp
          cases l with
          | start base code =>
              simp only [System.step] at taken
              split at taken
              · cases taken
                by_cases hi : X.sessions.length = i
                · -- The session starts here.
                  rw [List.getElem?_eq_none (Nat.le_of_eq hi)] at ih
                  subst hi
                  simp only [List.getElem?_append_right (Nat.le_refl _), Nat.sub_self,
                    List.getElem?_cons_zero]
                  exact Or.inl ⟨hstart (X, .start base code) (by simp) base code rfl rfl,
                    quiet_snoc ih fun h => absurd h hother⟩
                · refine keep hother ?_
                  rw [List.getElem?_append]
                  split
                  · rfl
                  · next hlt =>
                      rw [List.getElem?_eq_none (Nat.le_of_not_lt hlt), List.getElem?_eq_none]
                      rw [List.length_singleton]
                      omega
              · exact absurd taken (by simp)
          | env s =>
              cases taken
              exact keep hother rfl
          | run j => exact absurd hl (by simp [Label.session])
          | fail j => exact absurd hl (by simp [Label.session])
          | lose j => exact absurd hl (by simp [Label.session])
          | crash j => exact absurd hl (by simp [Label.session])

/-- **Rejected calls.** A session that started with an atomic program and has raised an exception that
    `R` names has changed nothing. -/
theorem Run.rejected (hR : ¬R Faulty.fault) (hidle : Y.sessions = []) (hrun : Run W Y steps Z)
    (hstart : ∀ x ∈ steps, ∀ base code, x.2 = .start base code → x.1.sessions.length = i → code.Atomic R)
    {c : Ctx σ κ} {e : ε} (hraised : Z.sessions[i]? = some ⟨c, .raise e⟩) (he : R e) :
    ∀ x ∈ steps, x.2.session = some i → ∀ X', x.1.step x.2 = some X' → X'.shared = x.1.shared := by
  have h := hrun.atomic hR hidle hstart
  rw [hraised] at h
  intro x hx hi X' hstep
  rcases h with ⟨-, hquiet⟩ | hnever
  · exact (System.step_session hi hstep).2 (hquiet x hx hi)
  · exact absurd he hnever

end Runs

end Transactions
