import Rubrica.Transactions.Atomic

set_option autoImplicit false

/-! # What a program shows, and where

Each commit and each outside write of a program stands at a point. `Code.shows` says what the program does to
the shared state there, whatever it reads and wherever it fails: no other session and no state enters into it.
`Run.shown` says the same of the steps of a run, of those too whose acknowledgement is lost. -/

namespace Transactions

variable {σ κ τ τ' ε α β ρ : Type}

/-! ## Programs -/

/-- With the writes `u` uncommitted, every commit and every outside write does what `G` allows at its point, and
    the program leaves writes with `Q` uncommitted where it returns, and with `E` where it raises. -/
def Code.shows (G : τ → (σ → σ) → Prop) :
    Code σ κ τ ε α → (α → (σ → σ) → Prop) → (ε → (σ → σ) → Prop) → (σ → σ) → Prop
  | .pure a, Q, _, u => Q a u
  | .raise e, _, E, u => E e u
  | .step pt act next fail, Q, E, u =>
      fail.shows G Q E id ∧ ∀ s,
        match act with
        | .read => (next s).shows G Q E u
        | .lock _ _ => (next s).shows G Q E u
        | .write f => (next s).shows G Q E (f ∘ u)
        | .effect f => G pt f ∧ (next s).shows G Q E u
        | .commit => G pt u ∧ (next s).shows G Q E id
        | .rollback => (next s).shows G Q E id

namespace Code

variable {G : τ → (σ → σ) → Prop} {Q Q' : α → (σ → σ) → Prop} {E E' : ε → (σ → σ) → Prop} {u : σ → σ}
  {x : Code σ κ τ ε α}

theorem shows_mono (h : x.shows G Q E u) (hQ : ∀ a u, Q a u → Q' a u) (hE : ∀ e u, E e u → E' e u) :
    x.shows G Q' E' u := by
  induction x generalizing u with
  | pure a => exact hQ a u h
  | raise e => exact hE e u h
  | step pt act next fail ihn ihf =>
      refine ⟨ihf h.1, fun s => ?_⟩
      have h := h.2 s
      cases act with
      | effect f => exact ⟨h.1, ihn s h.2⟩
      | commit => exact ⟨h.1, ihn s h.2⟩
      | _ => exact ihn s h

theorem shows_imp {G' : τ → (σ → σ) → Prop} (h : x.shows G Q E u) (hG : ∀ pt f, G pt f → G' pt f) :
    x.shows G' Q E u := by
  induction x generalizing u with
  | pure a => exact h
  | raise e => exact h
  | step pt act next fail ihn ihf =>
      refine ⟨ihf h.1, fun s => ?_⟩
      have h := h.2 s
      cases act with
      | effect f => exact ⟨hG pt f h.1, ihn s h.2⟩
      | commit => exact ⟨hG pt u h.1, ihn s h.2⟩
      | _ => exact ihn s h

theorem shows_bind {f : α → Code σ κ τ ε β} {Q : β → (σ → σ) → Prop} :
    (x >>= f).shows G Q E u ↔ x.shows G (fun a u => (f a).shows G Q E u) E u := by
  show (x.bind f).shows G Q E u ↔ _
  induction x generalizing u with
  | pure a => rfl
  | raise e => rfl
  | step pt act next fail ihn ihf => cases act <;> simp only [bind, shows, ihn, ihf]

theorem shows_tryCatch {h : ε → Code σ κ τ ε α} :
    (x.tryCatch h).shows G Q E u ↔ x.shows G Q (fun e u => (h e).shows G Q E u) u := by
  induction x generalizing u with
  | pure a => rfl
  | raise e => rfl
  | step pt act next fail ihn ihf => cases act <;> simp only [tryCatch, shows, ihn, ihf]

/-- The program under other names of its points. -/
theorem shows_mapPoint {f : τ → τ'} {G : τ' → (σ → σ) → Prop} :
    (x.mapPoint f).shows G Q E u ↔ x.shows (fun pt => G (f pt)) Q E u := by
  induction x generalizing u with
  | pure a => rfl
  | raise e => rfl
  | step pt act next fail ihn ihf => cases act <;> simp only [mapPoint, shows, ihn, ihf]

/-- A stretch without commits shows nothing; `V` is what its writes keep of the ones before. -/
theorem shows_local {W V : (σ → σ) → Prop} (hx : x.Local W) (hu : V u) (hV : ∀ f v, W f → V v → V (f ∘ v))
    (hQ : ∀ a v, V v → Q a v) (hE : ∀ e v, E e v) : x.shows G Q E u := by
  induction x generalizing u with
  | pure a => exact hQ a u hu
  | raise e => exact hE e u
  | step pt act next fail ihn _ =>
      obtain ⟨hact, hnext, e, rfl⟩ := hx
      refine ⟨hE e id, fun s => ?_⟩
      cases act with
      | read => exact ihn s (hnext s) hu
      | lock mode row => exact ihn s (hnext s) hu
      | write f => exact ihn s (hnext s) (hV f u hact hu)
      | effect f => exact absurd hact id
      | commit => exact absurd hact id
      | rollback => exact absurd hact id

/-- A stretch without commits, and the program after it. -/
theorem shows_quiet {W V : (σ → σ) → Prop} {f : α → Code σ κ τ ε β} {Q : β → (σ → σ) → Prop} (hx : x.Local W)
    (hu : V u) (hV : ∀ f v, W f → V v → V (f ∘ v)) (hf : ∀ a v, V v → (f a).shows G Q E v) (hE : ∀ e v, E e v) :
    (x >>= f).shows G Q E u :=
  shows_bind.2 (shows_local hx hu hV hf hE)

theorem local_of_reads {W : (σ → σ) → Prop} (hx : x.Reads) : x.Local W := by
  induction x with
  | pure a => trivial
  | raise e => trivial
  | step pt act next fail ihn _ =>
      obtain ⟨hact, hnext, hfail⟩ := hx
      refine ⟨?_, fun v => ihn v (hnext v), hfail⟩
      cases act with
      | read => trivial
      | _ => exact absurd hact id

/-- Statements that are rolled back where they raise. -/
theorem shows_rollingBack {quiet : τ} (hx : x.shows G Q (fun e _ => E e id) u) :
    (rollingBack quiet x).shows G Q E u := by
  refine shows_tryCatch.2 (shows_mono hx (fun _ _ h => h) fun e v h => ?_)
  exact ⟨h, fun _ => h⟩

variable [Faulty ε]

/-- A transaction shows what it has written, where its body says. -/
theorem shows_transaction {quiet : τ} {body : Code σ κ τ ε (α × τ)} (hfault : E Faulty.fault id)
    (hbody : body.shows G (fun r u => G r.2 u ∧ Q r.1 id) (fun e _ => E e id) u) :
    (transaction quiet body).shows G Q E u := by
  refine shows_rollingBack (shows_bind.2 (shows_mono hbody (fun r v h => ?_) fun _ _ h => h))
  exact ⟨hfault, fun _ => h⟩

theorem shows_effect {point : τ} {f : σ → σ} {query : σ → α} (hG : G point f) (hQ : ∀ a, Q a u)
    (hE : E Faulty.fault id) : (effect point f query : Code σ κ τ ε α).shows G Q E u :=
  ⟨hE, fun s => ⟨hG, hQ (query s)⟩⟩

end Code

/-! ## Runs -/

section Runs

variable [DecidableEq κ] [Faulty ε] {G : τ → (σ → σ) → Prop} {Y Z X' : System σ κ τ ε ρ} {l : Label σ κ τ ε ρ}
  {steps : List (System σ κ τ ε ρ × Label σ κ τ ε ρ)} {W : Setting σ κ τ ε ρ}

/-- The session shows only what `G` allows from here on. -/
abbrev Session.Shows (G : τ → (σ → σ) → Prop) (t : Session σ κ τ ε ρ) : Prop :=
  t.code.shows G (fun _ _ => True) (fun _ _ => True) t.ctx.pending

/-- What a step makes of the shared state: what `G` allows at its point, where others see something of it. -/
def System.Showed (G : τ → (σ → σ) → Prop) (Y : System σ κ τ ε ρ) (l : Label σ κ τ ε ρ) (s' : σ) : Prop :=
  match Y.publishes l with
  | none => s' = Y.shared
  | some pt => ∃ f, G pt f ∧ s' = f Y.shared

/-- One turn of a session. -/
theorem shown_of_turn {i : Nat} {t t' : Session σ κ τ ε ρ} {s' : σ} (hturn : Y.Turn i l t t' s')
    (hi : Y.sessions[i]? = some t) (ht : t.Shows G) : t'.Shows G ∧ Y.Showed G l s' := by
  have seen : ∀ pt act f, Y.executes l = some (pt, act) → act.isPublic → G pt f → Y.Showed G l (f Y.shared) := by
    intro pt act f hex hpublic hf
    unfold System.Showed
    rw [System.publishes_of_executes hex, if_pos hpublic]
    exact ⟨f, hf, rfl⟩
  have silent : ∀ pt act, Y.executes l = some (pt, act) → act.isPublic = false → Y.Showed G l Y.shared := by
    intro pt act hex hpublic
    unfold System.Showed
    rw [System.publishes_of_executes hex, if_neg (by simp [hpublic])]
  cases hturn with
  | crash => exact ⟨trivial, rfl⟩
  | fail c pt act next fail => exact ⟨ht.1, rfl⟩
  | lose c pt next fail => exact ⟨ht.1, seen _ _ _ (System.next_eq hi) rfl (ht.2 Y.shared).1⟩
  | read c pt next fail => exact ⟨ht.2 _, silent _ _ (System.next_eq hi) rfl⟩
  | pass c pt mode row next fail => exact ⟨ht.2 _, silent _ _ (System.next_eq hi) rfl⟩
  | lock c pt mode row next fail => exact ⟨ht.2 _, silent _ _ (System.next_eq hi) rfl⟩
  | write c pt u next fail => exact ⟨ht.2 _, silent _ _ (System.next_eq hi) rfl⟩
  | effect c pt u next fail => exact ⟨(ht.2 _).2, seen _ _ _ (System.next_eq hi) rfl (ht.2 Y.shared).1⟩
  | commit c pt next fail => exact ⟨(ht.2 _).2, seen _ _ _ (System.next_eq hi) rfl (ht.2 Y.shared).1⟩
  | rollback c pt next fail => exact ⟨ht.2 _, silent _ _ (System.next_eq hi) rfl⟩

/-- Every session of the system shows only what `G` allows. -/
def System.Shows (G : τ → (σ → σ) → Prop) (Y : System σ κ τ ε ρ) : Prop :=
  ∀ t ∈ Y.sessions, t.Shows G

/-- One step of a system: it shows what `G` allows, or is one of the rest of the world. -/
theorem System.Shows.step (hY : Y.Shows G)
    (hstarts : ∀ base code s, W.starts base code s → code.shows G (fun _ _ => True) (fun _ _ => True) id)
    (hallow : W.Allows Y l) (hstep : Y.step l = some X') :
    X'.Shows G ∧ (Y.Showed G l X'.shared ∨ W.env Y.shared X'.shared ∧ Y.publishes l = none) := by
  cases hl : l.session with
  | some i =>
      obtain ⟨t, t', hi, heq, hturn⟩ := System.step_turn hl hstep
      obtain ⟨ht', hshown⟩ := shown_of_turn hturn hi (hY t (List.mem_of_getElem? hi))
      refine ⟨?_, Or.inl hshown⟩
      rw [heq]
      intro s hs
      rcases List.mem_or_eq_of_mem_set hs with hs | rfl
      · exact hY s hs
      · exact ht'
  | none =>
      cases l with
      | start base code =>
          simp only [System.step] at hstep
          split at hstep
          · cases hstep
            refine ⟨fun t ht => ?_, Or.inl rfl⟩
            rcases List.mem_append.1 ht with ht | ht
            · exact hY t ht
            · obtain rfl := List.mem_singleton.1 ht
              exact hstarts base code Y.shared hallow
          · exact absurd hstep (by simp)
      | env s =>
          cases hstep
          exact ⟨hY, Or.inr ⟨hallow, rfl⟩⟩
      | run i => exact absurd hl (by simp [Label.session])
      | fail i => exact absurd hl (by simp [Label.session])
      | lose i => exact absurd hl (by simp [Label.session])
      | crash i => exact absurd hl (by simp [Label.session])

/-- **What the steps of a run show.** Where every program that may start shows only what `G` allows, so does
    every step. -/
theorem Run.shown (hrun : Run W Y steps Z) (hidle : Y.sessions = [])
    (hstarts : ∀ base code s, W.starts base code s → code.shows G (fun _ _ => True) (fun _ _ => True) id)
    {x : System σ κ τ ε ρ × Label σ κ τ ε ρ} (hx : x ∈ steps) {X' : System σ κ τ ε ρ}
    (hstep : x.1.step x.2 = some X') :
    x.1.Showed G x.2 X'.shared ∨ W.env x.1.shared X'.shared ∧ x.1.publishes x.2 = none := by
  have key : Z.Shows G ∧ ∀ x ∈ steps, ∀ X', x.1.step x.2 = some X' →
      x.1.Showed G x.2 X'.shared ∨ W.env x.1.shared X'.shared ∧ x.1.publishes x.2 = none := by
    clear hstep hx
    induction hrun with
    | nil =>
        refine ⟨fun t ht => ?_, fun x hx => absurd hx List.not_mem_nil⟩
        rw [hidle] at ht
        exact absurd ht List.not_mem_nil
    | @snoc past X X' l before allowed taken ih =>
        obtain ⟨hX, hpast⟩ := ih
        obtain ⟨hX', hshown⟩ := hX.step hstarts allowed taken
        refine ⟨hX', fun x hx X'' hx' => ?_⟩
        rcases List.mem_append.1 hx with hx | hx
        · exact hpast x hx X'' hx'
        · obtain rfl := List.mem_singleton.1 hx
          obtain rfl := Option.some.inj (taken.symm.trans hx')
          exact hshown
  exact key.2 x hx X' hstep

/-- A run is one in any setting that allows its steps too. -/
theorem Run.allowed {W' : Setting σ κ τ ε ρ} (hrun : Run W Y steps Z)
    (h : ∀ x ∈ steps, W.Allows x.1 x.2 → W'.Allows x.1 x.2) : Run W' Y steps Z := by
  induction hrun with
  | nil => exact .nil
  | @snoc past X X' l before allowed taken ih =>
      have hlast := h (X, l) (by simp) allowed
      exact .snoc (ih fun x hx => h x (List.mem_append_left _ hx)) hlast taken

end Runs

end Transactions
