import Rubrica.Transactions.Atomic

set_option autoImplicit false

/-! # What a session does, whatever the others do

The commits and outside writes of one session, in order, with the shared states before and after each: its
`Deed`s. `Code.ensures` is a weakest precondition that knows nothing of the other sessions and keeps the list of
the deeds; `Run.ensures` says that the session of a run does what it says. -/

namespace Transactions

variable {σ κ τ ε α β ρ : Type}

/-- Something that others can see of a session. -/
structure Deed (σ τ : Type) where
  point : τ
  before : σ
  after : σ

/-! ## Programs -/

/-- With the writes `u` uncommitted and the deeds `l` done, the program ends with `Q` where it returns and with
    `E` where it raises. `J` holds of the shared state at each statement; statements fail only at points in `F`. -/
def Code.ensures (J : σ → Prop) (F : τ → Prop) : Code σ κ τ ε α → (α → (σ → σ) → List (Deed σ τ) → Prop) →
    (ε → (σ → σ) → List (Deed σ τ) → Prop) → (σ → σ) → List (Deed σ τ) → Prop
  | .pure a, Q, _, u, l => Q a u l
  | .raise e, _, E, u, l => E e u l
  | .step pt act next fail, Q, E, u, l =>
      (F pt → fail.ensures J F Q E id l) ∧ ∀ s, J s →
        match act with
        | .read => (next (u s)).ensures J F Q E u l
        | .lock _ _ => (next (u s)).ensures J F Q E u l
        | .write f => (next (f (u s))).ensures J F Q E (f ∘ u) l
        | .effect f => (next (u s)).ensures J F Q E u (l ++ [⟨pt, s, f s⟩])
        | .commit => (next (u s)).ensures J F Q E id (l ++ [⟨pt, s, u s⟩])
        | .rollback => (next s).ensures J F Q E id l

namespace Code

variable {J : σ → Prop} {F : τ → Prop} {Q Q' : α → (σ → σ) → List (Deed σ τ) → Prop}
  {E E' : ε → (σ → σ) → List (Deed σ τ) → Prop} {u : σ → σ} {l : List (Deed σ τ)} {x : Code σ κ τ ε α}

theorem ensures_mono (h : x.ensures J F Q E u l) (hQ : ∀ a u l, Q a u l → Q' a u l)
    (hE : ∀ e u l, E e u l → E' e u l) : x.ensures J F Q' E' u l := by
  induction x generalizing u l with
  | pure a => exact hQ a u l h
  | raise e => exact hE e u l h
  | step pt act next fail ihn ihf =>
      refine ⟨fun hF => ihf (h.1 hF), fun s hs => ?_⟩
      have h := h.2 s hs
      cases act <;> exact ihn _ h

theorem ensures_bind {f : α → Code σ κ τ ε β} {Q : β → (σ → σ) → List (Deed σ τ) → Prop} :
    (x >>= f).ensures J F Q E u l ↔ x.ensures J F (fun a u l => (f a).ensures J F Q E u l) E u l := by
  show (x.bind f).ensures J F Q E u l ↔ _
  induction x generalizing u l with
  | pure a => rfl
  | raise e => rfl
  | step pt act next fail ihn ihf => cases act <;> simp only [bind, ensures, ihn, ihf]

theorem ensures_tryCatch {h : ε → Code σ κ τ ε α} :
    (x.tryCatch h).ensures J F Q E u l ↔ x.ensures J F Q (fun e u l => (h e).ensures J F Q E u l) u l := by
  induction x generalizing u l with
  | pure a => rfl
  | raise e => rfl
  | step pt act next fail ihn ihf => cases act <;> simp only [tryCatch, ensures, ihn, ihf]

theorem ensures_seq {f : α → Code σ κ τ ε β} {Q' : β → (σ → σ) → List (Deed σ τ) → Prop}
    (hx : x.ensures J F Q E' u l) (hE : ∀ e u l, E' e u l → E e u l)
    (hf : ∀ a u l, Q a u l → (f a).ensures J F Q' E u l) : (x >>= f).ensures J F Q' E u l :=
  ensures_bind.2 (ensures_mono hx hf hE)

/-- A stretch without commits does nothing that others see; `V` is what its writes keep of the ones before. -/
theorem ensures_local {W V : (σ → σ) → Prop} (hx : x.Local W) (hu : V u)
    (hV : ∀ f v, W f → V v → V (f ∘ v)) (hQ : ∀ a v, V v → Q a v l) (hE : ∀ e v, E e v l) :
    x.ensures J F Q E u l := by
  induction x generalizing u with
  | pure a => exact hQ a u hu
  | raise e => exact hE e u
  | step pt act next fail ihn _ =>
      obtain ⟨hact, hnext, e, rfl⟩ := hx
      refine ⟨fun _ => hE e id, fun s _ => ?_⟩
      cases act with
      | read => exact ihn _ (hnext _) hu
      | lock mode row => exact ihn _ (hnext _) hu
      | write f => exact ihn _ (hnext _) (hV f u hact hu)
      | effect f => exact absurd hact id
      | commit => exact absurd hact id
      | rollback => exact absurd hact id

/-- A stretch without commits, and the program after it. -/
theorem ensures_quiet {V : (σ → σ) → Prop} {f : α → Code σ κ τ ε β} {Q : β → (σ → σ) → List (Deed σ τ) → Prop}
    (hx : x.Local V) (hu : V u) (hV : ∀ f v, V f → V v → V (f ∘ v))
    (hf : ∀ a v, V v → (f a).ensures J F Q E v l) (hE : ∀ e v, E e v l) : (x >>= f).ensures J F Q E u l :=
  ensures_bind.2 (ensures_local hx hu hV hf hE)

theorem ensures_require {p : Prop} [Decidable p] {e : ε} {Q : Unit → (σ → σ) → List (Deed σ τ) → Prop}
    (hQ : p → Q () u l) (hE : ¬p → E e u l) : (require p e : Code σ κ τ ε Unit).ensures J F Q E u l := by
  unfold require
  split
  · next h => exact hQ h
  · next h => exact hE h

theorem ensures_orRaise {o : Option α} {e : ε} (hQ : ∀ a, o = some a → Q a u l) (hE : o = none → E e u l) :
    (orRaise o e : Code σ κ τ ε α).ensures J F Q E u l := by
  cases o with
  | none => exact hE rfl
  | some a => exact hQ a rfl

variable [Faulty ε]

theorem ensures_select {point : τ} {query : σ → α} (hQ : ∀ s, J s → Q (query (u s)) u l)
    (hE : E Faulty.fault id l) : (select point query : Code σ κ τ ε α).ensures J F Q E u l :=
  ⟨fun _ => hE, hQ⟩

theorem ensures_selectLocking {point : τ} {mode : LockMode} {row : σ → Option κ} {query : σ → α}
    (hQ : ∀ s, J s → Q (query (u s)) u l) (hE : E Faulty.fault id l) :
    (selectLocking point mode row query : Code σ κ τ ε α).ensures J F Q E u l :=
  ⟨fun _ => hE, hQ⟩

theorem ensures_effect {point : τ} {f : σ → σ} {query : σ → α}
    (hQ : ∀ s, J s → Q (query (u s)) u (l ++ [⟨point, s, f s⟩])) (hE : F point → E Faulty.fault id l) :
    (effect point f query : Code σ κ τ ε α).ensures J F Q E u l :=
  ⟨hE, hQ⟩

omit [Faulty ε] in
/-- Statements that are rolled back where they raise. -/
theorem ensures_rollingBack {quiet : τ} (hx : x.ensures J F Q (fun e _ l => E e id l) u l) :
    (rollingBack quiet x).ensures J F Q E u l :=
  ensures_tryCatch.2 (ensures_mono hx (fun _ _ _ h => h) fun _ _ _ h => ⟨fun _ => h, fun _ _ => h⟩)

/-- A transaction does one thing, or nothing where it raises. -/
theorem ensures_transaction {quiet : τ} {body : Code σ κ τ ε (α × τ)}
    (hbody : body.ensures J F
      (fun r u l => E Faulty.fault id l ∧ ∀ s, J s → Q r.1 id (l ++ [⟨r.2, s, u s⟩])) (fun e _ l => E e id l) u l) :
    (transaction quiet body).ensures J F Q E u l := by
  refine ensures_rollingBack (ensures_bind.2 (ensures_mono hbody (fun r u l h => ?_) fun _ _ _ h => h))
  exact ⟨fun _ => h.1, h.2⟩

end Code

/-! ## Sessions -/

section Runs

variable [DecidableEq κ] [Faulty ε]

/-- What others can see of session `i` in a step. -/
def deedOf (i : Nat) (x : System σ κ τ ε ρ × Label σ κ τ ε ρ) : Option (Deed σ τ) :=
  if x.2.session = some i then
    (x.1.publishes x.2).bind fun pt => (x.1.step x.2).map fun X' => ⟨pt, x.1.shared, X'.shared⟩
  else none

def deedsOf (i : Nat) (steps : List (System σ κ τ ε ρ × Label σ κ τ ε ρ)) : List (Deed σ τ) :=
  steps.filterMap (deedOf i)

theorem deedOf_eq_some {x : System σ κ τ ε ρ × Label σ κ τ ε ρ} {d : Deed σ τ} {i : Nat} (h : deedOf i x = some d) :
    ∃ X', x.2.session = some i ∧ x.1.step x.2 = some X' ∧ x.1.publishes x.2 = some d.point ∧
      x.1.shared = d.before ∧ X'.shared = d.after := by
  unfold deedOf at h
  split at h
  · next hi =>
    obtain ⟨pt, hpt, h⟩ := Option.bind_eq_some_iff.1 h
    obtain ⟨X', hX', rfl⟩ := Option.map_eq_some_iff.1 h
    exact ⟨X', hi, hX', hpt, rfl, rfl⟩
  · exact absurd h (by simp)

theorem mem_deedsOf {steps : List (System σ κ τ ε ρ × Label σ κ τ ε ρ)} {d : Deed σ τ} {i : Nat}
    (h : d ∈ deedsOf i steps) :
    ∃ x ∈ steps, ∃ X', x.2.session = some i ∧ x.1.step x.2 = some X' ∧ x.1.publishes x.2 = some d.point ∧
      x.1.shared = d.before ∧ X'.shared = d.after := by
  obtain ⟨x, hx, hd⟩ := List.mem_filterMap.1 h
  exact ⟨x, hx, deedOf_eq_some hd⟩

/-- The statements of session `i` are executed where `J` holds and fail only at points in `F`; it does not
    die, and is not told that a commit failed that took place. -/
structure Undisturbed (J : σ → Prop) (F : τ → Prop) (i : Nat)
    (steps : List (System σ κ τ ε ρ × Label σ κ τ ε ρ)) : Prop where
  holds : ∀ x ∈ steps, x.2 = .run i → J x.1.shared
  fails : ∀ x ∈ steps, x.2 = .fail i → ∀ pt act, x.1.next i = some (pt, act) → F pt
  lives : ∀ x ∈ steps, x.2 ≠ .crash i ∧ x.2 ≠ .lose i

/-- The step neither begins session `i` nor is one of its steps. -/
def spares (i : Nat) (x : System σ κ τ ε ρ × Label σ κ τ ε ρ) : Bool :=
  match x.2 with
  | .start _ _ => x.1.sessions.length ≠ i
  | l => l.session ≠ some i

/-- Session `i` has returned. -/
def System.hasReturned (Y : System σ κ τ ε ρ) (i : Nat) : Bool :=
  match Y.sessions[i]? with
  | some ⟨_, .pure _⟩ => true
  | _ => false

/-- Session `i` has raised an exception. -/
def System.hasRaised (Y : System σ κ τ ε ρ) (i : Nat) : Bool :=
  match Y.sessions[i]? with
  | some ⟨_, .raise _⟩ => true
  | _ => false

variable {J : σ → Prop} {F : τ → Prop} {i : Nat} {Y Y' Z : System σ κ τ ε ρ} {l : Label σ κ τ ε ρ}
  {steps : List (System σ κ τ ε ρ × Label σ κ τ ε ρ)} {W : Setting σ κ τ ε ρ}

omit [DecidableEq κ] [Faulty ε] in
theorem not_start_of_spares {x : System σ κ τ ε ρ × Label σ κ τ ε ρ} (h : spares i x = true) {base : Rights κ}
    {code : Code σ κ τ ε ρ} (hstart : x.2 = .start base code) : x.1.sessions.length ≠ i := by
  simpa [spares, hstart] using h

omit [DecidableEq κ] [Faulty ε] in
theorem session_ne_of_spares {x : System σ κ τ ε ρ × Label σ κ τ ε ρ} (h : spares i x = true) :
    x.2.session ≠ some i := by
  unfold spares at h
  split at h
  · next hstart => simp [hstart, Label.session]
  · exact of_decide_eq_true h

omit [DecidableEq κ] [Faulty ε] in
/-- A session is not disturbed before it begins. -/
theorem Undisturbed.spared {past : List (System σ κ τ ε ρ × Label σ κ τ ε ρ)}
    (hpast : ∀ x ∈ past, spares i x = true) (h : Undisturbed J F i steps) : Undisturbed J F i (past ++ steps) := by
  have later : ∀ x ∈ past ++ steps, x.2.session = some i → x ∈ steps := fun x hx hl =>
    (List.mem_append.1 hx).resolve_left fun hx => session_ne_of_spares (hpast x hx) hl
  refine ⟨fun x hx hl => ?_, fun x hx hl => ?_, fun x hx => ⟨fun hl => ?_, fun hl => ?_⟩⟩
  · exact h.holds x (later x hx (by rw [hl, Label.session])) hl
  · exact h.fails x (later x hx (by rw [hl, Label.session])) hl
  · exact (h.lives x (later x hx (by rw [hl, Label.session]))).1 hl
  · exact (h.lives x (later x hx (by rw [hl, Label.session]))).2 hl

theorem deedsOf_snoc (h : Y.step l = some Y') : deedsOf i (steps ++ [(Y, l)]) =
    deedsOf i steps ++ (if l.session = some i then
      ((Y.publishes l).map fun pt => (⟨pt, Y.shared, Y'.shared⟩ : Deed σ τ)).toList else []) := by
  rw [deedsOf, List.filterMap_append]
  congr 1
  have hof : deedOf i (Y, l) = if l.session = some i then
      (Y.publishes l).map fun pt => (⟨pt, Y.shared, Y'.shared⟩ : Deed σ τ) else none := by
    simp only [deedOf, h]
    cases Y.publishes l <;> rfl
  cases hd : deedOf i (Y, l) with
  | none =>
      rw [List.filterMap_cons_none hd, List.filterMap_nil]
      rw [hd] at hof
      split at hof
      · next hs => rw [if_pos hs, ← hof, Option.toList_none]
      · next hs => rw [if_neg hs]
  | some d =>
      rw [List.filterMap_cons_some hd, List.filterMap_nil]
      rw [hd] at hof
      split at hof
      · next hs => rw [if_pos hs, ← hof, Option.toList_some]
      · exact absurd hof (by simp)

/-- What a program ensures, as far as a session has come. -/
abbrev Session.Ensures (J : σ → Prop) (F : τ → Prop) (Q : ρ → (σ → σ) → List (Deed σ τ) → Prop)
    (E : ε → (σ → σ) → List (Deed σ τ) → Prop) (l : List (Deed σ τ)) (t : Session σ κ τ ε ρ) : Prop :=
  t.code.ensures J F Q E t.ctx.pending l

/-- One step of the session. -/
theorem ensures_of_turn {Q : ρ → (σ → σ) → List (Deed σ τ) → Prop} {E : ε → (σ → σ) → List (Deed σ τ) → Prop}
    {t t' : Session σ κ τ ε ρ} {s' : σ} (hturn : Y.Turn i l t t' s') (hi : Y.sessions[i]? = some t)
    (hJ : l = .run i → J Y.shared) (hF : l = .fail i → ∀ pt act, Y.next i = some (pt, act) → F pt)
    (hlives : l ≠ .crash i ∧ l ≠ .lose i) {done : List (Deed σ τ)} (ht : t.Ensures J F Q E done) :
    t'.Ensures J F Q E
      (done ++ ((Y.publishes l).map fun pt => (⟨pt, Y.shared, s'⟩ : Deed σ τ)).toList) := by
  -- What the step shows, from the statement that it executes.
  have seen : ∀ pt act, Y.executes l = some (pt, act) → act.isPublic →
      done ++ ((Y.publishes l).map fun pt => (⟨pt, Y.shared, s'⟩ : Deed σ τ)).toList =
        done ++ [⟨pt, Y.shared, s'⟩] := by
    intro pt act hex hpublic
    rw [System.publishes_of_executes hex, if_pos hpublic]
    rfl
  have silent : ∀ pt act, Y.executes l = some (pt, act) → act.isPublic = false →
      done ++ ((Y.publishes l).map fun pt => (⟨pt, Y.shared, s'⟩ : Deed σ τ)).toList = done := by
    intro pt act hex hpublic
    rw [System.publishes_of_executes hex, if_neg (by simp [hpublic])]
    exact List.append_nil _
  cases hturn with
  | crash => exact absurd rfl hlives.1
  | lose => exact absurd rfl hlives.2
  | fail c pt act next fail =>
      have hnone : Y.publishes (.fail i) = none := rfl
      rw [hnone, Option.map_none, Option.toList_none, List.append_nil]
      exact ht.1 (hF rfl pt act (System.next_eq hi))
  | read c pt next fail =>
      rw [silent _ _ (System.next_eq hi) rfl]
      exact ht.2 _ (hJ rfl)
  | pass c pt mode row next fail =>
      rw [silent _ _ (System.next_eq hi) rfl]
      exact ht.2 _ (hJ rfl)
  | lock c pt mode row next fail =>
      rw [silent _ _ (System.next_eq hi) rfl]
      exact ht.2 _ (hJ rfl)
  | write c pt u next fail =>
      rw [silent _ _ (System.next_eq hi) rfl]
      exact ht.2 _ (hJ rfl)
  | effect c pt u next fail =>
      rw [seen _ _ (System.next_eq hi) rfl]
      exact ht.2 _ (hJ rfl)
  | commit c pt next fail =>
      rw [seen _ _ (System.next_eq hi) rfl]
      exact ht.2 _ (hJ rfl)
  | rollback c pt next fail =>
      rw [silent _ _ (System.next_eq hi) rfl]
      exact ht.2 _ (hJ rfl)

/-- A property of a session and what it has done, kept by each of its turns, holds of it along a run that starts
    without sessions. -/
theorem Run.tracks {P : Session σ κ τ ε ρ → List (Deed σ τ) → Prop} (hrun : Run W Y steps Z)
    (hidle : Y.sessions = [])
    (hstart : ∀ x ∈ steps, ∀ base code, x.2 = .start base code → x.1.sessions.length = i → P ⟨.start base, code⟩ [])
    (hturn : ∀ past x future, steps = past ++ x :: future → ∀ X' t t', x.2.session = some i →
      x.1.sessions[i]? = some t → x.1.Turn i x.2 t t' X' → P t (deedsOf i past) →
        P t' (deedsOf i past ++ ((x.1.publishes x.2).map fun pt => (⟨pt, x.1.shared, X'⟩ : Deed σ τ)).toList)) :
    match Z.sessions[i]? with
    | none => deedsOf i steps = []
    | some t => P t (deedsOf i steps) := by
  induction hrun with
  | nil =>
      rw [hidle]
      rfl
  | @snoc steps X X' l before _ taken ih =>
      have ih := ih (fun x hx => hstart x (List.mem_append_left _ hx)) fun past x future hsplit =>
        hturn past x (future ++ [(X, l)]) (by rw [hsplit, List.append_assoc, List.cons_append])
      rw [deedsOf_snoc taken]
      -- A step that is not one of session `i` and leaves it as it is.
      have keep : l.session ≠ some i → X'.sessions[i]? = X.sessions[i]? →
          match X'.sessions[i]? with
          | none => deedsOf i steps ++ (if l.session = some i then
              ((X.publishes l).map fun pt => (⟨pt, X.shared, X'.shared⟩ : Deed σ τ)).toList else []) = []
          | some t => P t (deedsOf i steps ++ (if l.session = some i then
              ((X.publishes l).map fun pt => (⟨pt, X.shared, X'.shared⟩ : Deed σ τ)).toList else [])) := by
        intro hl hsame
        rw [hsame, if_neg hl, List.append_nil]
        exact ih
      cases hl : l.session with
      | some j =>
          obtain ⟨t, t', ht, heq, hmove⟩ := System.step_turn hl taken
          by_cases hj : j = i
          · subst hj
            have hlt := (List.getElem?_eq_some_iff.1 ht).1
            rw [ht] at ih
            have hdone := hturn steps (X, l) [] rfl X'.shared t t' hl ht hmove ih
            rw [heq]
            simp only [System.replace, List.getElem?_set_self hlt, if_true]
            exact hdone
          · have hne : l.session ≠ some i := by
              rw [hl]
              simpa using hj
            rw [← hl]
            refine keep hne ?_
            rw [heq]
            exact List.getElem?_set_ne hj
      | none =>
          have hother : l.session ≠ some i := by rw [hl]; simp
          rw [← hl]
          cases l with
          | start base code =>
              simp only [System.step] at taken
              split at taken
              · cases taken
                by_cases hlen : X.sessions.length = i
                · -- The session starts here.
                  rw [List.getElem?_eq_none (Nat.le_of_eq hlen)] at ih
                  rw [if_neg hother, List.append_nil, ih]
                  subst hlen
                  simp only [List.getElem?_append_right (Nat.le_refl _), Nat.sub_self, List.getElem?_cons_zero]
                  exact hstart (X, .start base code) (by simp) base code rfl rfl
                · refine keep hother ?_
                  rw [List.getElem?_append]
                  split
                  · rfl
                  · next hlt =>
                      rw [List.getElem?_eq_none (Nat.le_of_not_lt hlt), List.getElem?_eq_none]
                      rw [List.length_singleton]
                      omega
              · exact absurd taken (by simp)
          | env s =>
              cases taken
              exact keep hother rfl
          | run j => exact absurd hl (by simp [Label.session])
          | fail j => exact absurd hl (by simp [Label.session])
          | lose j => exact absurd hl (by simp [Label.session])
          | crash j => exact absurd hl (by simp [Label.session])

/-- **What a session of a run has done.** Along a run that starts without sessions, session `i` does what its
    program ensures. -/
theorem Run.ensures {Q : ρ → (σ → σ) → List (Deed σ τ) → Prop} {E : ε → (σ → σ) → List (Deed σ τ) → Prop}
    (hrun : Run W Y steps Z) (hidle : Y.sessions = []) (hi : Undisturbed J F i steps)
    (hstart : ∀ x ∈ steps, ∀ base code, x.2 = .start base code → x.1.sessions.length = i →
      code.ensures J F Q E id []) :
    match Z.sessions[i]? with
    | none => deedsOf i steps = []
    | some t => t.Ensures J F Q E (deedsOf i steps) := by
  refine hrun.tracks (P := fun t done => t.Ensures J F Q E done) hidle hstart
    fun past x future hsplit _ _ _ _ ht hturn => ?_
  have hx : x ∈ steps := by simp [hsplit]
  exact ensures_of_turn hturn ht (fun h => hi.holds x hx h) (fun h => hi.fails x hx h) (hi.lives x hx)

/-- What a session that has ended did. -/
theorem Run.ended {Q E : List (Deed σ τ) → Prop} (hrun : Run W Y steps Z) (hidle : Y.sessions = [])
    (hi : Undisturbed J F i steps)
    (hstart : ∀ x ∈ steps, ∀ base code, x.2 = .start base code → x.1.sessions.length = i →
      code.ensures J F (fun _ _ l => Q l) (fun _ _ l => E l) id []) :
    (Z.hasReturned i = true → Q (deedsOf i steps)) ∧ (Z.hasRaised i = true → E (deedsOf i steps)) := by
  have h := hrun.ensures hidle hi hstart
  constructor <;> intro hended
  · unfold System.hasReturned at hended
    split at hended
    · next hcode =>
      rw [hcode] at h
      exact h
    · exact absurd hended (by simp)
  · unfold System.hasRaised at hended
    split at hended
    · next hcode =>
      rw [hcode] at h
      exact h
    · exact absurd hended (by simp)

end Runs

end Transactions
