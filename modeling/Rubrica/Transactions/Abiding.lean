import Rubrica.Transactions.Deeds
import Rubrica.Transactions.Parts
import Rubrica.Transactions.Shown

set_option autoImplicit false

/-! # What a session does in view of what it has done

`Code.ensures` says what a session has done when it has ended, and leaves out those that die or are told that a
commit failed that took place. `Code.abides` says of each thing that a session does how it goes with what the
session has done before, at the moment when it is done: nothing is left out, and `Run.abided` says it of every
step of a run. -/

namespace Transactions

variable {σ ω κ κ' τ τ' ε α β ρ : Type}

/-! ## Programs -/

/-- With the writes `u` uncommitted and the deeds `l` done, `V` allows each further deed after the ones before
    it; the program ends with `Q` where it returns and with `E` where it raises. `J` holds, after what has been
    done, of the shared state at each statement. -/
def Code.abides (J : List (Deed σ τ) → σ → Prop) (V : List (Deed σ τ) → Deed σ τ → Prop) :
    Code σ κ τ ε α → (α → (σ → σ) → List (Deed σ τ) → Prop) → (ε → (σ → σ) → List (Deed σ τ) → Prop) →
      (σ → σ) → List (Deed σ τ) → Prop
  | .pure a, Q, _, u, l => Q a u l
  | .raise e, _, E, u, l => E e u l
  | .step pt act next fail, Q, E, u, l =>
      fail.abides J V Q E id l ∧ ∀ s, J l s →
        match act with
        | .read => (next (u s)).abides J V Q E u l
        | .lock _ _ => (next (u s)).abides J V Q E u l
        | .write f => (next (f (u s))).abides J V Q E (f ∘ u) l
        | .effect f => V l ⟨pt, s, f s⟩ ∧ (next (u s)).abides J V Q E u (l ++ [⟨pt, s, f s⟩])
        | .commit => V l ⟨pt, s, u s⟩ ∧ (next (u s)).abides J V Q E id (l ++ [⟨pt, s, u s⟩]) ∧
            fail.abides J V Q E id (l ++ [⟨pt, s, u s⟩])
        | .rollback => (next s).abides J V Q E id l

namespace Code

variable {J : List (Deed σ τ) → σ → Prop} {V : List (Deed σ τ) → Deed σ τ → Prop}
  {Q Q' : α → (σ → σ) → List (Deed σ τ) → Prop} {E E' : ε → (σ → σ) → List (Deed σ τ) → Prop} {u : σ → σ}
  {l : List (Deed σ τ)} {x : Code σ κ τ ε α}

theorem abides_mono (h : x.abides J V Q E u l) (hQ : ∀ a u l, Q a u l → Q' a u l)
    (hE : ∀ e u l, E e u l → E' e u l) : x.abides J V Q' E' u l := by
  induction x generalizing u l with
  | pure a => exact hQ a u l h
  | raise e => exact hE e u l h
  | step pt act next fail ihn ihf =>
      refine ⟨ihf h.1, fun s hs => ?_⟩
      have h := h.2 s hs
      cases act with
      | effect f => exact ⟨h.1, ihn _ h.2⟩
      | commit => exact ⟨h.1, ihn _ h.2.1, ihf h.2.2⟩
      | _ => exact ihn _ h

theorem abides_bind {f : α → Code σ κ τ ε β} {Q : β → (σ → σ) → List (Deed σ τ) → Prop} :
    (x >>= f).abides J V Q E u l ↔ x.abides J V (fun a u l => (f a).abides J V Q E u l) E u l := by
  show (x.bind f).abides J V Q E u l ↔ _
  induction x generalizing u l with
  | pure a => rfl
  | raise e => rfl
  | step pt act next fail ihn ihf => cases act <;> simp only [bind, abides, ihn, ihf]

theorem abides_tryCatch {h : ε → Code σ κ τ ε α} :
    (x.tryCatch h).abides J V Q E u l ↔ x.abides J V Q (fun e u l => (h e).abides J V Q E u l) u l := by
  induction x generalizing u l with
  | pure a => rfl
  | raise e => rfl
  | step pt act next fail ihn ihf => cases act <;> simp only [tryCatch, abides, ihn, ihf]

/-- A stretch without commits does nothing that others see; `U` is what its writes keep of the ones before. -/
theorem abides_local {W U : (σ → σ) → Prop} (hx : x.Local W) (hu : U u) (hU : ∀ f v, W f → U v → U (f ∘ v))
    (hQ : ∀ a v, U v → Q a v l) (hE : ∀ e v, E e v l) : x.abides J V Q E u l := by
  induction x generalizing u with
  | pure a => exact hQ a u hu
  | raise e => exact hE e u
  | step pt act next fail ihn _ =>
      obtain ⟨hact, hnext, e, rfl⟩ := hx
      refine ⟨hE e id, fun s _ => ?_⟩
      cases act with
      | write f => exact ihn _ (hnext _) (hU f u hact hu)
      | effect f => exact absurd hact id
      | commit => exact absurd hact id
      | rollback => exact absurd hact id
      | _ => exact ihn _ (hnext _) hu

/-- A stretch without commits, and the program after it; nothing is said of what it writes. -/
theorem abides_quiet {W : (σ → σ) → Prop} {f : α → Code σ κ τ ε β} {Q : β → (σ → σ) → List (Deed σ τ) → Prop}
    (hx : x.Local W) (hf : ∀ a v, (f a).abides J V Q E v l) (hE : ∀ e v, E e v l) :
    (x >>= f).abides J V Q E u l :=
  abides_bind.2 (abides_local (U := fun _ => True) hx trivial (fun _ _ _ _ => trivial) (fun a v _ => hf a v) hE)

theorem abides_require {p : Prop} [Decidable p] {e : ε} {Q : Unit → (σ → σ) → List (Deed σ τ) → Prop}
    (hQ : p → Q () u l) (hE : ¬p → E e u l) : (require p e : Code σ κ τ ε Unit).abides J V Q E u l := by
  unfold require
  split
  · next h => exact hQ h
  · next h => exact hE h

theorem abides_orRaise {o : Option α} {e : ε} (hQ : ∀ a, o = some a → Q a u l) (hE : o = none → E e u l) :
    (orRaise o e : Code σ κ τ ε α).abides J V Q E u l := by
  cases o with
  | none => exact hE rfl
  | some a => exact hQ a rfl

/-- Statements that are rolled back where they raise. -/
theorem abides_rollingBack {quiet : τ} (hx : x.abides J V Q (fun e _ l => E e id l) u l) :
    (rollingBack quiet x).abides J V Q E u l :=
  abides_tryCatch.2 (abides_mono hx (fun _ _ _ h => h) fun _ _ _ h => ⟨h, fun _ _ => h⟩)

/-- What the points of a program allow needs no memory. -/
theorem abides_of_shows {G : τ → (σ → σ) → Prop} {Q : α → (σ → σ) → Prop} {E : ε → (σ → σ) → Prop}
    (hx : x.shows G Q E u) (hV : ∀ l pt f s, G pt f → V l ⟨pt, s, f s⟩) :
    x.abides J V (fun a u _ => Q a u) (fun e u _ => E e u) u l := by
  induction x generalizing u l with
  | pure a => exact hx
  | raise e => exact hx
  | step pt act next fail ihn ihf =>
      refine ⟨ihf hx.1, fun s _ => ?_⟩
      cases act with
      | read => exact ihn _ (hx.2 (u s))
      | lock mode row => exact ihn _ (hx.2 (u s))
      | write f => exact ihn _ (hx.2 (f (u s)))
      | effect f => exact ⟨hV _ _ _ _ (hx.2 (u s)).1, ihn _ (hx.2 (u s)).2⟩
      | commit => exact ⟨hV _ _ _ _ (hx.2 (u s)).1, ihn _ (hx.2 (u s)).2, ihf hx.1⟩
      | rollback => exact ihn _ (hx.2 s)

section Statements

variable [Faulty ε] {point : τ}

theorem abides_select {query : σ → α} (hQ : ∀ s, J l s → Q (query (u s)) u l) (hE : E Faulty.fault id l) :
    (select point query : Code σ κ τ ε α).abides J V Q E u l :=
  ⟨hE, hQ⟩

theorem abides_selectLocking {mode : LockMode} {row : σ → Option κ} {query : σ → α}
    (hQ : ∀ s, J l s → Q (query (u s)) u l) (hE : E Faulty.fault id l) :
    (selectLocking point mode row query : Code σ κ τ ε α).abides J V Q E u l :=
  ⟨hE, hQ⟩

theorem abides_effect {f : σ → σ} {query : σ → α}
    (hQ : ∀ s, J l s → V l ⟨point, s, f s⟩ ∧ Q (query (u s)) u (l ++ [⟨point, s, f s⟩])) (hE : E Faulty.fault id l) :
    (effect point f query : Code σ κ τ ε α).abides J V Q E u l :=
  ⟨hE, hQ⟩

/-- A transaction does one thing, or nothing where it raises; that it has been done it may not be told. -/
theorem abides_transaction {quiet : τ} {body : Code σ κ τ ε (α × τ)}
    (hbody : body.abides J V (fun r u l => E Faulty.fault id l ∧ ∀ s, J l s → V l ⟨r.2, s, u s⟩ ∧
        Q r.1 id (l ++ [⟨r.2, s, u s⟩]) ∧ E Faulty.fault id (l ++ [⟨r.2, s, u s⟩])) (fun e _ l => E e id l) u l) :
    (transaction quiet body).abides J V Q E u l := by
  refine abides_rollingBack (abides_bind.2 (abides_mono hbody (fun r u l h => ?_) fun _ _ _ h => h))
  exact ⟨h.1, h.2⟩

end Statements

/-! ### Programs over a part of the state -/

/-- A program over a part, of which nothing is asked that it has to remember. `P` is what the whole program
    remembers meanwhile. -/
theorem abides_zoom {L : Part σ ω} {k : κ → κ'} {f : τ → τ'} {J : σ → Prop} {J' : List (Deed ω τ') → ω → Prop}
    {V' : List (Deed ω τ') → Deed ω τ' → Prop} {Q' : α → (ω → ω) → List (Deed ω τ') → Prop}
    {E' : ε → (ω → ω) → List (Deed ω τ') → Prop} {P : List (Deed ω τ') → Prop} {D : Deed σ τ → Prop}
    {Q : α → (σ → σ) → Prop} {E : ε → (σ → σ) → Prop} {l' : List (Deed ω τ')}
    (hx : x.abides (fun _ => J) (fun _ d => D d) (fun a u _ => Q a u) (fun e u _ => E e u) u l)
    (hJ : ∀ l w, J' l w → J (L.get w))
    (hV : ∀ l pt w s, P l → D ⟨pt, L.get w, s⟩ →
      V' l ⟨f pt, w, L.set s w⟩ ∧ P (l ++ [⟨f pt, w, L.set s w⟩]))
    (hQ : ∀ a v l, P l → Q a v → Q' a (L.lift v) l) (hE : ∀ e v l, P l → E e v → E' e (L.lift v) l) (hP : P l') :
    (x.zoom L k f).abides J' V' Q' E' (L.lift u) l' := by
  induction x generalizing u l l' with
  | pure a => exact hQ a u l' hP hx
  | raise e => exact hE e u l' hP hx
  | step pt act next fail ihn ihf =>
      refine ⟨L.lift_id ▸ ihf hx.1 hP, fun w hw => ?_⟩
      have hx' := hx.2 (L.get w) (hJ l' w hw)
      cases act with
      | read =>
          simp only [Act.zoom, L.get_lift]
          exact ihn _ hx' hP
      | lock mode row =>
          simp only [Act.zoom, L.get_lift]
          exact ihn _ hx' hP
      | write g =>
          simp only [Act.zoom, L.get_lift, L.lift_comp]
          exact ihn _ hx' hP
      | effect g =>
          obtain ⟨hd, hP'⟩ := hV l' pt w _ hP hx'.1
          simp only [Act.zoom, L.get_lift]
          exact ⟨hd, ihn _ hx'.2 hP'⟩
      | commit =>
          obtain ⟨hd, hP'⟩ := hV l' pt w _ hP hx'.1
          simp only [Act.zoom, L.get_lift]
          exact ⟨hd, L.lift_id ▸ ihn _ hx'.2.1 hP', L.lift_id ▸ ihf hx'.2.2 hP'⟩
      | rollback => exact L.lift_id ▸ ihn _ hx' hP

end Code

/-! ## Runs -/

section Runs

variable [DecidableEq κ] [Faulty ε] {J : List (Deed σ τ) → σ → Prop} {V : List (Deed σ τ) → Deed σ τ → Prop}
  {Q : ρ → (σ → σ) → List (Deed σ τ) → Prop} {Y Z : System σ κ τ ε ρ} {label : Label σ κ τ ε ρ}
  {steps : List (System σ κ τ ε ρ × Label σ κ τ ε ρ)} {W : Setting σ κ τ ε ρ} {i : Nat}

omit [DecidableEq κ] [Faulty ε] in
/-- It is a session that is seen. -/
theorem System.session_of_publishes {pt : τ} (h : Y.publishes label = some pt) : ∃ i, label.session = some i := by
  cases label with
  | run i => exact ⟨i, rfl⟩
  | lose i => exact ⟨i, rfl⟩
  | _ => exact absurd h (by simp [System.publishes, System.executes])

/-- The session abides from here on. -/
abbrev Session.Abides (J : List (Deed σ τ) → σ → Prop) (V : List (Deed σ τ) → Deed σ τ → Prop)
    (Q : ρ → (σ → σ) → List (Deed σ τ) → Prop) (done : List (Deed σ τ)) (t : Session σ κ τ ε ρ) : Prop :=
  t.code.abides J V Q (fun _ _ _ => True) t.ctx.pending done

/-- One step of the session. -/
theorem abides_of_turn {t t' : Session σ κ τ ε ρ} {s' : σ} (hturn : Y.Turn i label t t' s')
    (hi : Y.sessions[i]? = some t) {done : List (Deed σ τ)} (hJ : J done Y.shared) (ht : t.Abides J V Q done) :
    (∀ pt, Y.publishes label = some pt → V done ⟨pt, Y.shared, s'⟩) ∧
      t'.Abides J V Q (done ++ ((Y.publishes label).map fun pt => (⟨pt, Y.shared, s'⟩ : Deed σ τ)).toList) := by
  have seen : ∀ pt act, Y.executes label = some (pt, act) → act.isPublic → V done ⟨pt, Y.shared, s'⟩ →
      t'.Abides J V Q (done ++ [⟨pt, Y.shared, s'⟩]) → (∀ pt, Y.publishes label = some pt →
        V done ⟨pt, Y.shared, s'⟩) ∧ t'.Abides J V Q (done ++ ((Y.publishes label).map fun pt =>
          (⟨pt, Y.shared, s'⟩ : Deed σ τ)).toList) := by
    intro pt act hex hpublic hd ht'
    have hpub : Y.publishes label = some pt := by rw [System.publishes_of_executes hex, if_pos hpublic]
    rw [hpub]
    refine ⟨fun pt' hpt' => ?_, ht'⟩
    obtain rfl := Option.some.inj hpt'
    exact hd
  have unseen : Y.publishes label = none → t'.Abides J V Q done → (∀ pt, Y.publishes label = some pt →
      V done ⟨pt, Y.shared, s'⟩) ∧ t'.Abides J V Q (done ++ ((Y.publishes label).map fun pt =>
        (⟨pt, Y.shared, s'⟩ : Deed σ τ)).toList) := by
    intro hpub ht'
    rw [hpub, Option.map_none, Option.toList_none, List.append_nil]
    exact ⟨fun pt hpt => absurd hpt (by simp), ht'⟩
  have silent : ∀ pt act, Y.executes label = some (pt, act) → act.isPublic = false → Y.publishes label = none := by
    intro pt act hex hpublic
    rw [System.publishes_of_executes hex, if_neg (by simp [hpublic])]
  cases hturn with
  | crash => exact unseen rfl trivial
  | fail c pt act next fail => exact unseen rfl ht.1
  | lose c pt next fail => exact seen _ _ (System.next_eq hi) rfl (ht.2 _ hJ).1 (ht.2 _ hJ).2.2
  | read c pt next fail => exact unseen (silent _ _ (System.next_eq hi) rfl) (ht.2 _ hJ)
  | pass c pt mode row next fail => exact unseen (silent _ _ (System.next_eq hi) rfl) (ht.2 _ hJ)
  | lock c pt mode row next fail => exact unseen (silent _ _ (System.next_eq hi) rfl) (ht.2 _ hJ)
  | write c pt u next fail => exact unseen (silent _ _ (System.next_eq hi) rfl) (ht.2 _ hJ)
  | effect c pt u next fail => exact seen _ _ (System.next_eq hi) rfl (ht.2 _ hJ).1 (ht.2 _ hJ).2
  | commit c pt next fail => exact seen _ _ (System.next_eq hi) rfl (ht.2 _ hJ).1 (ht.2 _ hJ).2.1
  | rollback c pt next fail => exact unseen (silent _ _ (System.next_eq hi) rfl) (ht.2 _ hJ)

/-- A session of a run abides, after what it has done. -/
theorem Run.abides (hrun : Run W Y steps Z) (hidle : Y.sessions = [])
    (hJ : ∀ past x future, steps = past ++ x :: future → x.2.session = some i → J (deedsOf i past) x.1.shared)
    (hstart : ∀ x ∈ steps, ∀ base code, x.2 = .start base code → x.1.sessions.length = i →
      code.abides J V Q (fun _ _ _ => True) id []) :
    match Z.sessions[i]? with
    | none => deedsOf i steps = []
    | some t => t.Abides J V Q (deedsOf i steps) :=
  hrun.tracks (P := fun t done => t.Abides J V Q done) hidle hstart
    fun past x future hsplit _ _ _ hl ht hturn habides => (abides_of_turn hturn ht (hJ past x future hsplit hl) habides).2

/-- **What a session does in view of what it has done.** Where `J` holds of every state in which the session takes
    a step and of what it has done until then, whatever it does is what `V` allows after the things that it has done
    before. -/
theorem Run.abided {past future : List (System σ κ τ ε ρ × Label σ κ τ ε ρ)}
    {x : System σ κ τ ε ρ × Label σ κ τ ε ρ} (hrun : Run W Y (past ++ x :: future) Z) (hidle : Y.sessions = [])
    (hJ : ∀ before y after, past ++ x :: future = before ++ y :: after → y.2.session = some i →
      J (deedsOf i before) y.1.shared)
    (hstart : ∀ y ∈ past ++ x :: future, ∀ base code, y.2 = .start base code → y.1.sessions.length = i →
      code.abides J V Q (fun _ _ _ => True) id []) {X' : System σ κ τ ε ρ} (hstep : x.1.step x.2 = some X')
    (hi : x.2.session = some i) {pt : τ} (hpt : x.1.publishes x.2 = some pt) :
    V (deedsOf i past) ⟨pt, x.1.shared, X'.shared⟩ := by
  obtain ⟨t, t', ht, -, hturn⟩ := System.step_turn hi hstep
  have habides := (hrun.split).1.abides hidle
    (fun before y after hsplit => hJ before y (after ++ x :: future) (by
      rw [hsplit, List.append_assoc, List.cons_append]))
    fun y hy => hstart y (List.mem_append_left _ hy)
  rw [ht] at habides
  exact (abides_of_turn hturn ht (hJ past x future rfl hi) habides).1 pt hpt

/-- What a session that has returned has brought about. -/
theorem Run.abided_returned (hrun : Run W Y steps Z) (hidle : Y.sessions = [])
    (hJ : ∀ past x future, steps = past ++ x :: future → x.2.session = some i → J (deedsOf i past) x.1.shared)
    (hstart : ∀ x ∈ steps, ∀ base code, x.2 = .start base code → x.1.sessions.length = i →
      code.abides J V Q (fun _ _ _ => True) id []) {a : ρ} (h : Z.returned i = some a) :
    ∃ u, Q a u (deedsOf i steps) := by
  have habides := hrun.abides hidle hJ hstart
  unfold System.returned at h
  split at h
  · next c b hi =>
      obtain rfl := Option.some.inj h
      rw [hi] at habides
      exact ⟨c.pending, habides⟩
  · exact absurd h (by simp)

/-- What a session does, it has done. -/
theorem deed_mem_deedsOf {x : System σ κ τ ε ρ × Label σ κ τ ε ρ} (hx : x ∈ steps) (hi : x.2.session = some i)
    {X' : System σ κ τ ε ρ} (hstep : x.1.step x.2 = some X') {pt : τ} (hpt : x.1.publishes x.2 = some pt) :
    (⟨pt, x.1.shared, X'.shared⟩ : Deed σ τ) ∈ deedsOf i steps := by
  refine List.mem_filterMap.2 ⟨x, hx, ?_⟩
  simp [deedOf, hi, hstep, hpt]

/-- **What holds because of what sessions know.** An invariant of the shared state that is kept by whatever `V` lets
    a session do, in programs that abide wherever the invariant holds. -/
theorem Run.abided_invariant {K : σ → Prop} {V : Nat → List (Deed σ τ) → Deed σ τ → Prop}
    {Q : Nat → ρ → (σ → σ) → List (Deed σ τ) → Prop} (hrun : Run W Y steps Z) (hidle : Y.sessions = [])
    (hY : K Y.shared) (henv : ∀ x ∈ steps, ∀ s, x.2 = .env s → K x.1.shared → K s)
    (hstart : ∀ i, ∀ x ∈ steps, ∀ base code, x.2 = .start base code → x.1.sessions.length = i →
      code.abides (fun _ s => K s ∧ ∃ y ∈ steps, y.2.session = some i ∧ y.1.shared = s) (V i) (Q i) (fun _ _ _ => True)
        id [])
    (hdeed : ∀ i, ∀ x ∈ steps, x.2.session = some i → ∀ pt, x.1.publishes x.2 = some pt → ∀ l s',
      V i l ⟨pt, x.1.shared, s'⟩ → K x.1.shared → K s') :
    (∀ x ∈ steps, K x.1.shared) ∧ K Z.shared := by
  have hprefixed : ∀ past X, Run W Y past X → past <+: steps → (∀ x ∈ past, K x.1.shared) ∧ K X.shared := by
    intro past X hpast
    induction hpast with
    | nil => exact fun _ => ⟨fun x hx => absurd hx (by simp), hY⟩
    | @snoc past X X' l before allowed taken ih =>
        intro hsub
        have hmem : ∀ x ∈ past ++ [(X, l)], x ∈ steps := fun x hx => hsub.subset hx
        obtain ⟨hK, hX⟩ := ih ((List.prefix_append _ _).trans hsub)
        have hall : ∀ x ∈ past ++ [(X, l)], K x.1.shared := by
          intro x hx
          rcases List.mem_append.1 hx with hx | hx
          · exact hK x hx
          · obtain rfl := List.mem_singleton.1 hx
            exact hX
        refine ⟨hall, ?_⟩
        have hlast : (X, l) ∈ steps := hmem _ (by simp)
        cases hl : l.session with
        | some i =>
            cases hpt : X.publishes l with
            | none =>
                rw [(System.step_session hl taken).2 hpt]
                exact hX
            | some pt =>
                have hV := (before.snoc allowed taken).abided hidle (fun p y f hsplit hyi =>
                  have hy : y ∈ past ++ [(X, l)] := by simp [hsplit]
                  ⟨hall y hy, y, hmem y hy, hyi, rfl⟩) (fun y hy => hstart i y (hmem y hy)) taken hl hpt
                exact hdeed i (X, l) hlast hl pt hpt _ _ hV hX
        | none =>
            cases l with
            | start base code =>
                simp only [System.step] at taken
                split at taken
                · cases taken
                  exact hX
                · exact absurd taken (by simp)
            | env s =>
                cases taken
                exact henv _ hlast s rfl hX
            | run j => exact absurd hl (by simp [Label.session])
            | fail j => exact absurd hl (by simp [Label.session])
            | lose j => exact absurd hl (by simp [Label.session])
            | crash j => exact absurd hl (by simp [Label.session])
  exact hprefixed steps Z hrun (List.prefix_refl _)

end Runs

end Transactions
