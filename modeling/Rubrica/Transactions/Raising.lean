import Mathlib.Data.List.Basic

set_option autoImplicit false

/-! # Calls that may raise

Calls to something that keeps a state of its own: what a call has changed stays changed where a later one raises. -/

namespace Transactions

variable {S E α β : Type}

/-- Calls on a state that may raise. -/
abbrev Raising (E S α : Type) : Type :=
  ExceptT E (StateM S) α

theorem run_bind (x : Raising E S α) (f : α → Raising E S β) (s : S) :
    (x >>= f).run s =
      match x.run s with
      | (.ok a, s') => (f a).run s'
      | (.error e, s') => (.error e, s') := by
  show (StateT.bind (x.run) (ExceptT.bindCont f)) s = _
  unfold StateT.bind
  generalize x.run s = r
  obtain ⟨a, s'⟩ := r
  cases a <;> rfl

theorem run_tryCatch (x : Raising E S α) (h : E → Raising E S α) (s : S) :
    (tryCatch x h : Raising E S α).run s =
      match x.run s with
      | (.ok a, s') => (.ok a, s')
      | (.error e, s') => (h e).run s' := by
  simp only [tryCatch, tryCatchThe, MonadExceptOf.tryCatch, ExceptT.tryCatch, ExceptT.run_mk]
  show (StateT.bind (x.run) _) s = _
  unfold StateT.bind
  generalize x.run s = r
  obtain ⟨a, s'⟩ := r
  cases a <;> rfl

theorem run_tryCatch_ok {x : Raising E S α} {a : α} {s s' : S} (h : x.run s = (.ok a, s'))
    (handler : E → Raising E S α) : (tryCatch x handler : Raising E S α).run s = (.ok a, s') := by
  rw [run_tryCatch, h]

namespace Raising

/-- From `s` the calls end with `Q` of the value and the state where they return, with `R` of the exception and the
    state where they raise. -/
def Ends (x : Raising E S α) (s : S) (Q : α → S → Prop) (R : E → S → Prop) : Prop :=
  (∀ a, (x.run s).1 = .ok a → Q a (x.run s).2) ∧ ∀ e, (x.run s).1 = .error e → R e (x.run s).2

variable {x : Raising E S α} {f : α → Raising E S β} {s : S} {Q Q' : α → S → Prop} {R R' : E → S → Prop}

theorem ends_pure {a : α} (h : Q a s) : Ends (pure a : Raising E S α) s Q R := by
  refine ⟨fun a' ha => ?_, fun e he => ?_⟩
  · obtain rfl := Except.ok.inj ha
    exact h
  · exact absurd he (by rintro ⟨⟩)

theorem ends_throw {e : E} (h : R e s) : Ends (throw e : Raising E S α) s Q R := by
  refine ⟨fun a ha => ?_, fun e' he => ?_⟩
  · exact absurd ha (by rintro ⟨⟩)
  · obtain rfl := Except.error.inj he
    exact h

theorem ends_get {Q : S → S → Prop} (h : Q s s) : Ends (get : Raising E S S) s Q R :=
  ends_pure (a := s) (Q := Q) h

theorem ends_set {s' : S} {Q : PUnit → S → Prop} (h : Q ⟨⟩ s') : Ends (set s' : Raising E S PUnit) s Q R := by
  refine ⟨fun a _ => h, fun e he => ?_⟩
  exact absurd he (by rintro ⟨⟩)

theorem ends_bind {Q : β → S → Prop} (h : Ends x s (fun a s' => Ends (f a) s' Q R) R) : Ends (x >>= f) s Q R := by
  obtain ⟨hok, herror⟩ := h
  unfold Ends
  rw [run_bind]
  generalize x.run s = r at hok herror
  obtain ⟨a, s'⟩ := r
  cases a with
  | ok a => exact hok a rfl
  | error e =>
      refine ⟨fun a ha => ?_, fun e' he => ?_⟩
      · exact absurd ha (by rintro ⟨⟩)
      · obtain rfl := Except.error.inj he
        exact herror e rfl

theorem ends_tryCatch {h : E → Raising E S α} (hx : Ends x s Q fun e s' => Ends (h e) s' Q R) :
    Ends (tryCatch x h) s Q R := by
  obtain ⟨hok, herror⟩ := hx
  unfold Ends
  rw [run_tryCatch]
  generalize x.run s = r at hok herror
  obtain ⟨a, s'⟩ := r
  cases a with
  | ok a => exact ends_pure (hok a rfl)
  | error e => exact herror e rfl

theorem Ends.mono (h : Ends x s Q R) (hQ : ∀ a s', Q a s' → Q' a s') (hR : ∀ e s', R e s' → R' e s') :
    Ends x s Q' R' :=
  ⟨fun a ha => hQ a _ (h.1 a ha), fun e he => hR e _ (h.2 e he)⟩

/-- Calls whose end is known. -/
theorem ends_of_run {a : α} {s' : S} (hx : x.run s = (.ok a, s')) (h : Q a s') : Ends x s Q R := by
  unfold Ends
  rw [hx]
  exact ends_pure h

/-- A loop, with an invariant about the rounds that are done. -/
theorem ends_foldlM {b : β} {f : β → α → Raising E S β} {l : List α} {I : List α → β → S → Prop}
    (h : ∀ done x later b s, l = done ++ x :: later → I done b s →
      Ends (f b x) s (fun b' s' => I (done ++ [x]) b' s') R) (hs : I [] b s) :
    Ends (l.foldlM f b) s (fun b' s' => I l b' s') R := by
  suffices hrest : ∀ rest done b s, l = done ++ rest → I done b s →
      Ends (rest.foldlM f b) s (fun b' s' => I l b' s') R from hrest l [] b s rfl hs
  intro rest
  induction rest with
  | nil =>
      intro done b s hl hdone
      rw [List.append_nil] at hl
      exact ends_pure (hl ▸ hdone)
  | cons x rest ih =>
      intro done b s hl hdone
      rw [List.foldlM_cons]
      refine ends_bind ((h done x rest b s hl hdone).mono ?_ fun _ _ hR => hR)
      intro b' s' hround
      exact ih (done ++ [x]) b' s' (by rw [hl, List.append_assoc, List.singleton_append]) hround

variable {T E' : Type}

/-- Calls on a part of the state, with exceptions of their own. -/
def zoom (part : S → T) (put : T → S → S) (raised : E' → E) (x : Raising E' T α) : Raising E S α :=
  ExceptT.mk fun s => (((x.run (part s)).1).mapError raised, put (x.run (part s)).2 s)

theorem ends_zoom {part : S → T} {put : T → S → S} {raised : E' → E} {x : Raising E' T α}
    (h : Ends x (part s) (fun a t => Q a (put t s)) fun e t => R (raised e) (put t s)) :
    Ends (zoom part put raised x) s Q R := by
  obtain ⟨hok, herror⟩ := h
  have hrun : (zoom part put raised x).run s =
      (((x.run (part s)).1).mapError raised, put (x.run (part s)).2 s) := rfl
  unfold Ends
  rw [hrun]
  generalize x.run (part s) = r at hok herror
  obtain ⟨a, t⟩ := r
  cases a with
  | ok a => exact ends_pure (hok a rfl)
  | error e => exact ends_throw (herror e rfl)

/-- What holds of the state however the calls end. -/
theorem Ends.always {P : S → Prop} (h : Ends x s (fun _ s' => P s') fun _ s' => P s') : P (x.run s).2 := by
  cases hx : (x.run s).1 with
  | ok a => exact h.1 a hx
  | error e => exact h.2 e hx

end Raising

/-! ## One call after the other -/

variable {C : Type}

/-- The state after some calls. -/
def stateAfter (step : C → S → S) (s : S) : List C → S
  | [] => s
  | c :: calls => stateAfter step (step c s) calls

/-- The calls, each with the state it is made in. -/
def callsFrom (step : C → S → S) (s : S) : List C → List (S × C)
  | [] => []
  | c :: calls => (s, c) :: callsFrom step (step c s) calls

theorem stateAfter_append (step : C → S → S) (s : S) (calls later : List C) :
    stateAfter step s (calls ++ later) = stateAfter step (stateAfter step s calls) later := by
  induction calls generalizing s with
  | nil => rfl
  | cons c calls ih => exact ih (step c s)

theorem callsFrom_append (step : C → S → S) (s : S) (calls later : List C) :
    callsFrom step s (calls ++ later) = callsFrom step s calls ++ callsFrom step (stateAfter step s calls) later := by
  induction calls generalizing s with
  | nil => rfl
  | cons c calls ih => exact congrArg _ (ih (step c s))

theorem mem_of_mem_callsFrom {step : C → S → S} {s : S} {calls : List C} {y : S × C}
    (h : y ∈ callsFrom step s calls) : y.2 ∈ calls := by
  induction calls generalizing s with
  | nil => exact absurd h List.not_mem_nil
  | cons c calls ih =>
      rcases List.mem_cons.1 h with rfl | hlater
      · exact List.mem_cons_self
      · exact List.mem_cons_of_mem _ (ih hlater)

/-- What every call keeps where it is made is there after all of them. -/
theorem stateAfter_keeps {step : C → S → S} {P : S → Prop} {s : S} {calls : List C} (hs : P s)
    (h : ∀ y ∈ callsFrom step s calls, P y.1 → P (step y.2 y.1)) : P (stateAfter step s calls) := by
  induction calls generalizing s with
  | nil => exact hs
  | cons c calls ih =>
      obtain ⟨hc, hcalls⟩ := List.forall_mem_cons.1 h
      exact ih (hc hs) hcalls

end Transactions
