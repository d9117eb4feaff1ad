import Rubrica.Transactions.Program

set_option autoImplicit false

/-! # Runs that are computed

A script says which call begins next or which session executes a statement next. Where it replays, and what the
calls ask of their beginnings holds there, the replay is a run. -/

namespace Transactions

variable {σ κ τ ε ρ γ : Type} [DecidableEq κ] [Faulty ε]

/-- How calls begin. -/
structure Calling (σ κ τ ε ρ γ : Type) where
  rights : γ → Rights κ
  run : γ → Code σ κ τ ε ρ
  fresh : γ → σ → Bool

namespace Calling

variable (C : Calling σ κ τ ε ρ γ) {W : Setting σ κ τ ε ρ} {Y Z : System σ κ τ ε ρ}

def labelOf : γ ⊕ Nat → Label σ κ τ ε ρ
  | .inl x => .start (C.rights x) (C.run x)
  | .inr i => .run i

/-- What the calls ask holds where they begin. -/
def begins : List (γ ⊕ Nat) → List (System σ κ τ ε ρ × Label σ κ τ ε ρ) → Bool
  | .inl x :: script, y :: steps => C.fresh x y.1.shared && begins script steps
  | .inr _ :: script, _ :: steps => begins script steps
  | _, _ => true

/-- Calls one after the other, each with the number of its statements. -/
def inTurn (calls : List (γ × Nat)) : List (γ ⊕ Nat) :=
  (calls.zipIdx.map fun x => .inl x.1.1 :: List.replicate x.1.2 (.inr x.2)).flatten

variable {C}

theorem allows_of_begins (hstarts : ∀ x s, C.fresh x s = true → W.starts (C.rights x) (C.run x) s)
    {script : List (γ ⊕ Nat)} {steps : List (System σ κ τ ε ρ × Label σ κ τ ε ρ)}
    (h : Y.replay (script.map C.labelOf) = some (steps, Z)) (hbegins : C.begins script steps = true) :
    ∀ x ∈ steps, W.Allows x.1 x.2 := by
  induction script generalizing Y steps with
  | nil =>
      obtain ⟨rfl, rfl⟩ := Prod.mk.inj (Option.some.inj h)
      simp
  | cons next script ih =>
      obtain ⟨Y', -, h⟩ := Option.bind_eq_some_iff.1 h
      obtain ⟨⟨steps', Z'⟩, hrest, h⟩ := Option.map_eq_some_iff.1 h
      obtain ⟨rfl, rfl⟩ := Prod.mk.inj h
      rw [List.forall_mem_cons]
      cases next with
      | inl x =>
          obtain ⟨hx, hscript⟩ := Bool.and_eq_true_iff.1 hbegins
          exact ⟨hstarts x _ hx, ih hrest hscript⟩
      | inr i => exact ⟨trivial, ih hrest hbegins⟩

/-- A script that replays is a run, of its labels. -/
theorem exists_labelled_run (hstarts : ∀ x s, C.fresh x s = true → W.starts (C.rights x) (C.run x) s)
    (script : List (γ ⊕ Nat)) {p : List (System σ κ τ ε ρ × Label σ κ τ ε ρ) → System σ κ τ ε ρ → Bool}
    (h : ((Y.replay (script.map C.labelOf)).any fun r => C.begins script r.1 && p r.1 r.2) = true) :
    ∃ steps Z, Run W Y steps Z ∧ steps.map Prod.snd = script.map C.labelOf ∧ p steps Z = true := by
  obtain ⟨steps, Z, hreplay, hp⟩ := System.exists_replay (Y := Y) _
    (p := fun steps Z => C.begins script steps && p steps Z) h
  obtain ⟨hbegins, hp⟩ := Bool.and_eq_true_iff.1 hp
  exact ⟨steps, Z, System.replay_steps_run hreplay (allows_of_begins hstarts hreplay hbegins),
    System.replay_labels hreplay, hp⟩

/-- A script that replays is a run. -/
theorem exists_run (hstarts : ∀ x s, C.fresh x s = true → W.starts (C.rights x) (C.run x) s)
    (script : List (γ ⊕ Nat)) {p : List (System σ κ τ ε ρ × Label σ κ τ ε ρ) → System σ κ τ ε ρ → Bool}
    (h : ((Y.replay (script.map C.labelOf)).any fun r => C.begins script r.1 && p r.1 r.2) = true) :
    ∃ steps Z, Run W Y steps Z ∧ p steps Z = true := by
  obtain ⟨steps, Z, hrun, -, hp⟩ := exists_labelled_run hstarts script h
  exact ⟨steps, Z, hrun, hp⟩

end Calling

end Transactions
