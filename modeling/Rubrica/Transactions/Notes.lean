import Rubrica.Transactions.Ownership

set_option autoImplicit false

/-! # What sessions note

An invariant over all sessions at once. Each session carries a note, which no program reads; marked statements
are told, in order. `Story.follows` is a weakest precondition over such scenes: at each statement the session
may count on the invariant, and has to find a note with which it holds again. `Story.scene_of_run` says that
the invariant holds all along a run whose programs follow the story. -/

namespace Transactions

variable {σ κ τ ε α β ρ γ μ : Type}

/-! ## Scenes -/

/-- What can be said at one moment: what has been told, the shared state, what each session holds and what it
    notes. -/
structure Scene (σ κ γ μ : Type) where
  told : List (Nat × μ)
  shared : σ
  held : Nat → Rights κ
  note : Nat → γ

/-- Session `i` takes a turn. -/
def Scene.turn (S : Scene σ κ γ μ) (i : Nat) (m : Option μ) (s : σ) (H : Rights κ) (g : γ) : Scene σ κ γ μ where
  told := S.told ++ (m.map fun x => (i, x)).toList
  shared := s
  held := Function.update S.held i H
  note := Function.update S.note i g

/-- A turn that changes nothing. -/
theorem Scene.turn_same {S : Scene σ κ γ μ} {i : Nat} {H : Rights κ} {g : γ} (hH : S.held i = H)
    (hg : S.note i = g) : S.turn i none S.shared H g = S := by
  subst hH hg
  simp [turn]

theorem Scene.turn_note {S : Scene σ κ γ μ} {i j : Nat} {m : Option μ} {s : σ} {H : Rights κ} {g : γ} :
    (S.turn i m s H g).note j = if j = i then g else S.note j := by
  simp [turn, Function.update_apply]

theorem Scene.turn_held {S : Scene σ κ γ μ} {i j : Nat} {m : Option μ} {s : σ} {H : Rights κ} {g : γ} :
    (S.turn i m s H g).held j = if j = i then H else S.held j := by
  simp [turn, Function.update_apply]

@[simp] theorem Scene.turn_shared {S : Scene σ κ γ μ} {i : Nat} {m : Option μ} {s : σ} {H : Rights κ} {g : γ} :
    (S.turn i m s H g).shared = s := rfl

@[simp] theorem Scene.turn_told_none {S : Scene σ κ γ μ} {i : Nat} {s : σ} {H : Rights κ} {g : γ} :
    (S.turn i none s H g).told = S.told := by
  simp [turn]

@[simp] theorem Scene.turn_told_some {S : Scene σ κ γ μ} {i : Nat} {m : μ} {s : σ} {H : Rights κ} {g : γ} :
    (S.turn i (some m) s H g).told = S.told ++ [(i, m)] := rfl

/-- What one session holds exclusively no other one holds. -/
def Scene.Exclusive (S : Scene σ κ γ μ) : Prop :=
  ∀ i j r mode, i ≠ j → (r, .exclusive) ∈ S.held i → (r, mode) ∉ S.held j

/-- A session keeps what it holds, or is granted what nobody holds against it. -/
theorem Scene.Exclusive.turn {S : Scene σ κ γ μ} (h : S.Exclusive) {i : Nat} {H : Rights κ}
    (hH : ∀ y ∈ H, y ∈ S.held i ∨ ∀ j, j ≠ i → ∀ x ∈ S.held j, x.1 = y.1 → x.2.conflicts y.2 = false)
    (m : Option μ) (s : σ) (g : γ) : (S.turn i m s H g).Exclusive := by
  intro a b r mode hab ha hb
  rw [Scene.turn_held] at ha hb
  split at ha <;> split at hb
  · next ha' hb' => exact hab (ha'.trans hb'.symm)
  · next ha' hb' =>
    subst ha'
    rcases hH _ ha with hmine | hfree
    · exact h a b r mode hab hmine hb
    · exact absurd (hfree b hb' _ hb rfl) (by cases mode <;> simp [LockMode.conflicts])
  · next ha' hb' =>
    subst hb'
    rcases hH _ hb with hmine | hfree
    · exact h a b r mode hab ha hmine
    · exact absurd (hfree a ha' _ ha rfl) (by simp [LockMode.conflicts])
  · exact h a b r mode hab ha hb

/-- The statements of a program stand within `V`. -/
def Code.Within (V : τ → Prop) : Code σ κ τ ε α → Prop
  | .pure _ => True
  | .raise _ => True
  | .step pt _ next fail => V pt ∧ (∀ v, (next v).Within V) ∧ fail.Within V

theorem Code.within_bind {V : τ → Prop} {x : Code σ κ τ ε α} {f : α → Code σ κ τ ε β} (hx : x.Within V)
    (hf : ∀ a, (f a).Within V) : (x >>= f).Within V := by
  show (x.bind f).Within V
  induction x with
  | pure a => exact hf a
  | raise e => trivial
  | step pt act next fail ihn ihf => exact ⟨hx.1, fun v => ihn v (hx.2.1 v), ihf hx.2.2⟩

theorem Code.within_tryCatch {V : τ → Prop} {x : Code σ κ τ ε α} {h : ε → Code σ κ τ ε α} (hx : x.Within V)
    (hh : ∀ e, (h e).Within V) : (x.tryCatch h).Within V := by
  induction x with
  | pure a => trivial
  | raise e => exact hh e
  | step pt act next fail ihn ihf => exact ⟨hx.1, fun v => ihn v (hx.2.1 v), ihf hx.2.2⟩

theorem Code.within_mapPoint {τ' : Type} {V : τ' → Prop} {f : τ → τ'} (h : ∀ pt, V (f pt)) (x : Code σ κ τ ε α) :
    (x.mapPoint f).Within V := by
  induction x with
  | pure a => trivial
  | raise e => trivial
  | step pt act next fail ihn ihf => exact ⟨h pt, ihn, ihf⟩

structure Story (σ κ τ γ μ : Type) where
  inv : Scene σ κ γ μ → Prop
  /-- What the execution of a statement tells. -/
  tell : τ → σ → Option μ
  /-- Which statement a session with the note may stand at; `none` is one that has ended. -/
  fits : γ → Option τ → Prop
  /-- Where statements are executed. -/
  cond : τ → Scene σ κ γ μ → Prop
  /-- Which statements may fail. -/
  fails : τ → Prop
  /-- Sessions may die. -/
  crashes : Prop

namespace Story

/-! ## Programs -/

/-- Session `i` takes a turn to the note it finds, and goes on from there. -/
def Turns (T : Story σ κ τ γ μ) (i : Nat) (S : Scene σ κ γ μ) (m : Option μ) (s : σ) (H : Rights κ)
    (next : γ → Prop) : Prop :=
  ∃ g, T.inv (S.turn i m s H g) ∧ next g

/-- Session `i`, with the note `g`, keeps to the story as the program goes on, and ends with `Q` where the
    program returns and with `E` where it raises. -/
def follows (T : Story σ κ τ γ μ) (i : Nat) : Code σ κ τ ε α → (α → Ctx σ κ → γ → Prop) →
    (ε → Ctx σ κ → γ → Prop) → Ctx σ κ → γ → Prop
  | .pure a, Q, _, c, g => Q a c g
  | .raise e, _, E, c, g => E e c g
  | .step pt act next fail, Q, E, c, g =>
      T.fits g (some pt) ∧ ∀ S, T.inv S → S.held i = c.held → S.note i = g →
        (T.fails pt → T.Turns i S none S.shared c.base (T.follows i fail Q E c.reset)) ∧
        (T.cond pt S →
          match act with
          | .read => T.Turns i S (T.tell pt S.shared) S.shared c.held
              (T.follows i (next (c.pending S.shared)) Q E c)
          | .lock mode row =>
              match row (c.pending S.shared) with
              | none => T.Turns i S (T.tell pt S.shared) S.shared c.held
                  (T.follows i (next (c.pending S.shared)) Q E c)
              | some r => (∀ j, j ≠ i → ∀ h ∈ S.held j, h.1 = r → h.2.conflicts mode = false) →
                  T.Turns i S (T.tell pt S.shared) S.shared ((r, mode) :: c.held)
                    (T.follows i (next (c.pending S.shared)) Q E (c.take r mode))
          | .write u => T.Turns i S (T.tell pt S.shared) S.shared c.held
              (T.follows i (next (u (c.pending S.shared))) Q E (c.buffer u))
          | .effect u => T.Turns i S (T.tell pt S.shared) (u S.shared) c.held
              (T.follows i (next (c.pending S.shared)) Q E c)
          | .commit =>
              T.Turns i S (T.tell pt S.shared) (c.pending S.shared) c.base
                  (T.follows i (next (c.pending S.shared)) Q E c.reset) ∧
                T.Turns i S (T.tell pt S.shared) (c.pending S.shared) c.base (T.follows i fail Q E c.reset)
          | .rollback => T.Turns i S (T.tell pt S.shared) S.shared c.base
              (T.follows i (next S.shared) Q E c.reset))

section Rules

variable {T : Story σ κ τ γ μ} {i : Nat} {x : Code σ κ τ ε α} {Q Q' : α → Ctx σ κ → γ → Prop}
  {E E' : ε → Ctx σ κ → γ → Prop} {c : Ctx σ κ} {g : γ}

theorem Turns.mono {S : Scene σ κ γ μ} {m : Option μ} {s : σ} {H : Rights κ} {P P' : γ → Prop}
    (h : T.Turns i S m s H P) (hP : ∀ g, P g → P' g) : T.Turns i S m s H P' := by
  obtain ⟨g, hinv, hg⟩ := h
  exact ⟨g, hinv, hP g hg⟩

/-- A turn that tells nothing and changes nothing. -/
theorem Turns.same {S : Scene σ κ γ μ} {H : Rights κ} {P : γ → Prop} (hinv : T.inv S) (hH : S.held i = H)
    (hg : S.note i = g) (hP : P g) : T.Turns i S none S.shared H P :=
  ⟨g, (Scene.turn_same hH hg).symm ▸ hinv, hP⟩

theorem follows_mono (h : T.follows i x Q E c g) (hQ : ∀ a c g, Q a c g → Q' a c g)
    (hE : ∀ e c g, E e c g → E' e c g) : T.follows i x Q' E' c g := by
  induction x generalizing c g with
  | pure a => exact hQ a c g h
  | raise e => exact hE e c g h
  | step pt act next fail ihn ihf =>
      refine ⟨h.1, fun S hinv hH hg => ?_⟩
      obtain ⟨hfail, hrun⟩ := h.2 S hinv hH hg
      refine ⟨fun hF => (hfail hF).mono fun _ => ihf, fun hcond => ?_⟩
      have hrun := hrun hcond
      cases act with
      | lock mode row =>
          simp only at hrun ⊢
          split at hrun
          · exact hrun.mono fun _ => ihn _
          · exact fun hfree => (hrun hfree).mono fun _ => ihn _
      | commit => exact ⟨hrun.1.mono fun _ => ihn _, hrun.2.mono fun _ => ihf⟩
      | _ => exact hrun.mono fun _ => ihn _

theorem follows_bind {f : α → Code σ κ τ ε β} {Q : β → Ctx σ κ → γ → Prop} :
    T.follows i (x >>= f) Q E c g ↔ T.follows i x (fun a c g => T.follows i (f a) Q E c g) E c g := by
  show T.follows i (x.bind f) Q E c g ↔ _
  induction x generalizing c g with
  | pure a => rfl
  | raise e => rfl
  | step pt act next fail ihn ihf =>
      have hn : ∀ v, (fun c g => T.follows i ((next v).bind f) Q E c g) =
          fun c g => T.follows i (next v) (fun a c g => T.follows i (f a) Q E c g) E c g := fun v => by
        funext c g
        exact propext (ihn v)
      have hf : (fun c g => T.follows i (fail.bind f) Q E c g) =
          fun c g => T.follows i fail (fun a c g => T.follows i (f a) Q E c g) E c g := by
        funext c g
        exact propext ihf
      cases act <;> simp only [Code.bind, follows, congrFun (hn _), congrFun hf]

theorem follows_tryCatch {h : ε → Code σ κ τ ε α} :
    T.follows i (x.tryCatch h) Q E c g ↔ T.follows i x Q (fun e c g => T.follows i (h e) Q E c g) c g := by
  induction x generalizing c g with
  | pure a => rfl
  | raise e => rfl
  | step pt act next fail ihn ihf =>
      have hn : ∀ v, (fun c g => T.follows i ((next v).tryCatch h) Q E c g) =
          fun c g => T.follows i (next v) Q (fun e c g => T.follows i (h e) Q E c g) c g := fun v => by
        funext c g
        exact propext (ihn v)
      have hf : (fun c g => T.follows i (fail.tryCatch h) Q E c g) =
          fun c g => T.follows i fail Q (fun e c g => T.follows i (h e) Q E c g) c g := by
        funext c g
        exact propext ihf
      cases act <;> simp only [Code.tryCatch, follows, congrFun (hn _), congrFun hf]

theorem follows_orRaise {o : Option α} {e : ε} (hQ : ∀ a, o = some a → Q a c g) (hE : o = none → E e c g) :
    T.follows i (Code.orRaise o e : Code σ κ τ ε α) Q E c g := by
  cases o with
  | none => exact hE rfl
  | some a => exact hQ a rfl

/-- A local stretch that notes nothing of what it locks and writes. -/
theorem follows_local {V : τ → Prop} {W : (σ → σ) → Prop} {R : κ → Prop} (hx : x.Local W) (hV : x.Within V)
    (hR : x.LocksOnly R) (hfits : ∀ pt, V pt → T.fits g (some pt))
    (hread : ∀ S pt, V pt → T.inv S → S.note i = g →
      T.inv (S.turn i (T.tell pt S.shared) S.shared (S.held i) g))
    (htake : ∀ S pt r, V pt → R r.1 → T.inv S → S.note i = g →
      (∀ j, j ≠ i → ∀ h ∈ S.held j, h.1 = r.1 → h.2.conflicts r.2 = false) →
      T.inv (S.turn i (T.tell pt S.shared) S.shared (r :: S.held i) g))
    (hfail : ∀ e S, T.inv S → S.note i = g → T.Turns i S none S.shared c.base (E e c.reset))
    (hQ : ∀ a c', c.Grows W c' → (∀ y ∈ c'.held, y ∈ c.held ∨ R y.1) → Q a c' g)
    (hE : ∀ e c', c.Grows W c' → E e c' g) : T.follows i x Q E c g := by
  suffices h : ∀ c', c.Grows W c' → (∀ y ∈ c'.held, y ∈ c.held ∨ R y.1) → T.follows i x Q E c' g from
    h c .refl fun _ hy => Or.inl hy
  induction x with
  | pure a => exact fun c' hc hlocks => hQ a c' hc hlocks
  | raise e => exact fun c' hc _ => hE e c' hc
  | step pt act next fail ihn _ =>
      intro c' hc hlocks
      obtain ⟨hact, hnext, e, rfl⟩ := hx
      obtain ⟨hpt, hVnext, -⟩ := hV
      obtain ⟨hrows, hRnext, -⟩ := hR
      refine ⟨hfits pt hpt, fun S hinv hH hg => ⟨fun _ => ?_, fun _ => ?_⟩⟩
      · rw [hc.base, hc.reset]
        exact hfail e S hinv hg
      · have go : ∀ v c'', c.Grows W c'' → (∀ y ∈ c''.held, y ∈ c.held ∨ R y.1) →
            T.follows i (next v) Q E c'' g :=
          fun v c'' hc'' hlocks'' => ihn v (hnext v) (hVnext v) (hRnext v) c'' hc'' hlocks''
        have keep : ∀ {P : γ → Prop}, P g → T.Turns i S (T.tell pt S.shared) S.shared c'.held P := fun hP =>
          ⟨g, hH ▸ hread S pt hpt hinv hg, hP⟩
        cases act with
        | read => exact keep (go _ _ hc hlocks)
        | lock mode row =>
            simp only
            split
            · exact keep (go _ _ hc hlocks)
            · next r hr =>
              refine fun hfree => ⟨g, hH ▸ htake S pt (r, mode) hpt (hrows _ r hr) hinv hg hfree,
                go _ _ (hc.take _ _) fun y hy => ?_⟩
              rcases List.mem_cons.1 hy with rfl | hy
              · exact Or.inr (hrows _ _ hr)
              · exact hlocks y hy
        | write u => exact keep (go _ _ (hc.buffer hact) hlocks)
        | effect u => exact absurd hact id
        | commit => exact absurd hact id
        | rollback => exact absurd hact id

section Statements

variable [Faulty ε] {point : τ}

/-- What a statement that fails leaves: the transaction is over, and the program raises. -/
def Fails (T : Story σ κ τ γ μ) (i : Nat) (point : τ) (E : ε → Ctx σ κ → γ → Prop) (c : Ctx σ κ) (g : γ) : Prop :=
  T.fails point → ∀ S, T.inv S → S.held i = c.held → S.note i = g →
    T.Turns i S none S.shared c.base (E Faulty.fault c.reset)

theorem follows_select {query : σ → α} (hfits : T.fits g (some point)) (hfail : T.Fails i point E c g)
    (hQ : ∀ S, T.inv S → S.held i = c.held → S.note i = g → T.cond point S →
      T.Turns i S (T.tell point S.shared) S.shared c.held (Q (query (c.pending S.shared)) c)) :
    T.follows i (Code.select point query : Code σ κ τ ε α) Q E c g :=
  ⟨hfits, fun S hinv hH hg => ⟨fun hF => hfail hF S hinv hH hg, fun hcond => hQ S hinv hH hg hcond⟩⟩

theorem follows_effect {u : σ → σ} {query : σ → α} (hfits : T.fits g (some point)) (hfail : T.Fails i point E c g)
    (hQ : ∀ S, T.inv S → S.held i = c.held → S.note i = g → T.cond point S →
      T.Turns i S (T.tell point S.shared) (u S.shared) c.held (Q (query (c.pending S.shared)) c)) :
    T.follows i (Code.effect point u query : Code σ κ τ ε α) Q E c g :=
  ⟨hfits, fun S hinv hH hg => ⟨fun hF => hfail hF S hinv hH hg, fun hcond => hQ S hinv hH hg hcond⟩⟩

theorem follows_write {u : σ → σ} {Q : Unit → Ctx σ κ → γ → Prop} (hfits : T.fits g (some point))
    (hfail : T.Fails i point E c g)
    (hQ : ∀ S, T.inv S → S.held i = c.held → S.note i = g → T.cond point S →
      T.Turns i S (T.tell point S.shared) S.shared c.held (Q () (c.buffer u))) :
    T.follows i (Code.write point u : Code σ κ τ ε Unit) Q E c g :=
  ⟨hfits, fun S hinv hH hg => ⟨fun hF => hfail hF S hinv hH hg, fun hcond => hQ S hinv hH hg hcond⟩⟩

theorem follows_selectLocking {mode : LockMode} {row : σ → Option κ} {query : σ → α}
    (hfits : T.fits g (some point)) (hfail : T.Fails i point E c g)
    (hnone : ∀ S, T.inv S → S.held i = c.held → S.note i = g → T.cond point S →
      row (c.pending S.shared) = none →
      T.Turns i S (T.tell point S.shared) S.shared c.held (Q (query (c.pending S.shared)) c))
    (hsome : ∀ S r, T.inv S → S.held i = c.held → S.note i = g → T.cond point S →
      row (c.pending S.shared) = some r → (∀ j, j ≠ i → ∀ h ∈ S.held j, h.1 = r → h.2.conflicts mode = false) →
      T.Turns i S (T.tell point S.shared) S.shared ((r, mode) :: c.held)
        (Q (query (c.pending S.shared)) (c.take r mode))) :
    T.follows i (Code.selectLocking point mode row query : Code σ κ τ ε α) Q E c g := by
  refine ⟨hfits, fun S hinv hH hg => ⟨fun hF => hfail hF S hinv hH hg, fun hcond => ?_⟩⟩
  simp only
  split
  · next hrow => exact hnone S hinv hH hg hcond hrow
  · next r hrow => exact fun hfree => hsome S r hinv hH hg hcond hrow hfree

/-- A transaction: where it raises it is rolled back. -/
theorem follows_transaction {quiet : τ} {body : Code σ κ τ ε (α × τ)}
    (hbody : T.follows i body (fun r c g => T.fits g (some r.2) ∧ T.Fails i r.2
        (fun e c g => T.follows i (.step quiet .rollback (fun _ => .raise e) (.raise e) : Code σ κ τ ε α) Q E c g) c g ∧
          ∀ S, T.inv S → S.held i = c.held → S.note i = g → T.cond r.2 S →
            T.Turns i S (T.tell r.2 S.shared) (c.pending S.shared) c.base (Q r.1 c.reset) ∧
              T.Turns i S (T.tell r.2 S.shared) (c.pending S.shared) c.base fun g =>
                T.follows i (.step quiet .rollback (fun _ => .raise Faulty.fault) (.raise Faulty.fault) :
                  Code σ κ τ ε α) Q E c.reset g)
      (fun e c g => T.follows i (.step quiet .rollback (fun _ => .raise e) (.raise e) : Code σ κ τ ε α) Q E c g)
      c g) :
    T.follows i (Code.transaction quiet body) Q E c g := by
  refine follows_tryCatch.2 (follows_bind.2 (follows_mono hbody (fun r c g h => ?_) fun _ _ _ h => h))
  exact ⟨h.1, fun S hinv hH hg => ⟨fun hF => h.2.1 hF S hinv hH hg, fun hcond => h.2.2 S hinv hH hg hcond⟩⟩

end Statements

end Rules

end Story

/-! ## Runs -/

section Runs

variable {T : Story σ κ τ γ μ} {W : Setting σ κ τ ε ρ} {X X' Y Z : System σ κ τ ε ρ}
  {l : Label σ κ τ ε ρ} {i : Nat} {steps : List (System σ κ τ ε ρ × Label σ κ τ ε ρ)}
  {Q : ρ → Ctx σ κ → γ → Prop} {note : Nat → γ}

/-- What a step tells. -/
def toldBy (tell : τ → σ → Option μ) (x : System σ κ τ ε ρ × Label σ κ τ ε ρ) : Option (Nat × μ) :=
  x.2.session.bind fun i => (x.1.executes x.2).bind fun y => (tell y.1 x.1.shared).map fun m => (i, m)

/-- What is told in a run. -/
def toldIn (tell : τ → σ → Option μ) (steps : List (System σ κ τ ε ρ × Label σ κ τ ε ρ)) : List (Nat × μ) :=
  steps.filterMap (toldBy tell)

/-- What session `i` holds. -/
def System.heldBy (X : System σ κ τ ε ρ) (i : Nat) : Rights κ :=
  (X.sessions[i]?.map fun t => t.ctx.held).getD []

/-- The scene that steps have led to. -/
def System.scene (tell : τ → σ → Option μ) (X : System σ κ τ ε ρ)
    (steps : List (System σ κ τ ε ρ × Label σ κ τ ε ρ)) (note : Nat → γ) : Scene σ κ γ μ :=
  ⟨toldIn tell steps, X.shared, X.heldBy, note⟩

/-- The statement a session stands at. -/
def System.pointOf (X : System σ κ τ ε ρ) (i : Nat) : Option τ :=
  (X.next i).map Prod.fst

/-- A session that executes a statement stands at it. -/
theorem System.pointOf_of_executes {pt : τ} {act : Act σ κ} (h : X.executes l = some (pt, act)) :
    ∃ i t, l.session = some i ∧ X.sessions[i]? = some t ∧ X.pointOf i = some pt := by
  have hnext : ∀ i, X.next i = some (pt, act) → ∃ t, X.sessions[i]? = some t ∧ X.pointOf i = some pt := by
    intro i hi
    have hpoint : X.pointOf i = some pt := by rw [System.pointOf, hi, Option.map_some]
    cases ht : X.sessions[i]? with
    | some t => exact ⟨t, rfl, hpoint⟩
    | none =>
        rw [System.next, ht] at hi
        exact absurd hi (by simp)
  cases l with
  | run i => exact ⟨i, (hnext i h).choose, rfl, (hnext i h).choose_spec⟩
  | lose i => exact ⟨i, (hnext i h).choose, rfl, (hnext i h).choose_spec⟩
  | _ => exact absurd h (by simp [System.executes])

/-- What is told in a run, each session tells when it executes a statement. -/
theorem mem_toldIn {tell : τ → σ → Option μ} {m : μ} : (i, m) ∈ toldIn tell steps ↔
    ∃ x ∈ steps, x.2.session = some i ∧ ∃ y, x.1.executes x.2 = some y ∧ tell y.1 x.1.shared = some m := by
  simp only [toldIn, List.mem_filterMap, toldBy, Option.bind_eq_some_iff, Option.map_eq_some_iff, Prod.mk.injEq]
  constructor
  · rintro ⟨x, hx, j, hj, y, hy, m', hm, rfl, rfl⟩
    exact ⟨x, hx, hj, y, hy, hm⟩
  · rintro ⟨x, hx, hi, y, hy, hm⟩
    exact ⟨x, hx, i, hi, y, hy, m, hm, rfl, rfl⟩

/-- Every session keeps to the story from where it stands. -/
structure Story.Keeps (T : Story σ κ τ γ μ) (Q : ρ → Ctx σ κ → γ → Prop)
    (steps : List (System σ κ τ ε ρ × Label σ κ τ ε ρ)) (X : System σ κ τ ε ρ) (note : Nat → γ) : Prop where
  inv : T.inv (X.scene T.tell steps note)
  base : ∀ (i : Nat) t, X.sessions[i]? = some t → t.ctx.base ⊆ t.ctx.held
  follows : ∀ i t, X.sessions[i]? = some t →
    T.follows i t.code (fun a c g => T.fits g none ∧ Q a c g) (fun _ _ g => T.fits g none) t.ctx (note i)

/-- Each session stands where its note says. -/
structure Story.Placed (T : Story σ κ τ γ μ) (idle : γ) (X : System σ κ τ ε ρ) (note : Nat → γ) : Prop where
  fits : ∀ i t, X.sessions[i]? = some t → T.fits (note i) (X.pointOf i)
  idle : ∀ i, X.sessions.length ≤ i → note i = idle

/-- A step is taken as the story has it. -/
structure Story.Meets (T : Story σ κ τ γ μ) (idle : γ) (x : System σ κ τ ε ρ × Label σ κ τ ε ρ) : Prop where
  cond : ∀ steps note i pt act, T.Placed idle x.1 note → x.2.session = some i →
    x.1.executes x.2 = some (pt, act) → T.cond pt (x.1.scene T.tell steps note)
  fails : ∀ i pt act, x.2 = .fail i → x.1.next i = some (pt, act) → T.fails pt
  crashes : ∀ i, x.2 = .crash i → T.crashes

/-- What a setting has to bring so that its runs keep to a story. -/
structure Story.Told (T : Story σ κ τ γ μ) (Q : ρ → Ctx σ κ → γ → Prop) (idle : γ) (W : Setting σ κ τ ε ρ) :
    Prop where
  starts : ∀ S i base code, T.inv S → W.starts base code S.shared → S.held i = [] → S.note i = idle →
    (∀ r mode, (r, mode) ∈ base → ∀ j, ∀ y ∈ S.held j, y.1 = r → y.2.conflicts mode = false) →
    T.Turns i S none S.shared base
      (T.follows i code (fun a c g => T.fits g none ∧ Q a c g) (fun _ _ g => T.fits g none) (.start base))
  env : ∀ S s, T.inv S → W.env S.shared s → T.inv { S with shared := s }
  crashes : T.crashes → ∀ S i base, base ⊆ S.held i → T.inv S →
    T.Turns i S none S.shared base fun g => T.fits g none

theorem toldIn_snoc (tell : τ → σ → Option μ) (x : System σ κ τ ε ρ × Label σ κ τ ε ρ) :
    toldIn tell (steps ++ [x]) = toldIn tell steps ++ (toldBy tell x).toList := by
  rw [toldIn, List.filterMap_append]
  cases h : toldBy tell x with
  | none =>
      rw [List.filterMap_cons_none h, List.filterMap_nil, Option.toList_none]
      rfl
  | some m =>
      rw [List.filterMap_cons_some h, List.filterMap_nil, Option.toList_some]
      rfl

/-- What is made of what a step tells. -/
theorem toldBy_bind {δ : Type} {tell : τ → σ → Option μ} {f : μ → Option δ}
    (x : System σ κ τ ε ρ × Label σ κ τ ε ρ) : ((toldBy tell x).bind fun y => f y.2) =
      (x.1.executes x.2).bind fun y => (tell y.1 x.1.shared).bind f := by
  obtain ⟨X, l⟩ := x
  have hrun : ∀ (i : Nat) (m : Option μ), ((m.map fun m => (i, m)).bind fun y => f y.2) = m.bind f := by
    intro i m
    cases m <;> rfl
  unfold toldBy
  cases l with
  | run i =>
      simp only [Label.session, System.executes]
      cases X.next i with
      | none => rfl
      | some y => exact hrun i _
  | lose i =>
      simp only [Label.session, System.executes]
      cases X.next i with
      | none => rfl
      | some y => exact hrun i _
  | _ => simp [System.executes]

theorem toldBy_any {tell : τ → σ → Option μ} {p : μ → Bool} (x : System σ κ τ ε ρ × Label σ κ τ ε ρ) :
    ((toldBy tell x).any fun y => p y.2) = (x.1.executes x.2).any fun y => (tell y.1 x.1.shared).any p := by
  have hany : ∀ {α : Type} (o : Option α) (q : α → Bool),
      o.any q = (o.bind fun a => (some (q a)).filter id).isSome := by
    intro α o q
    cases o with
    | none => rfl
    | some a => cases h : q a <;> simp [h]
  rw [hany, toldBy_bind (f := fun m => (some (p m)).filter id)]
  cases x.1.executes x.2 with
  | none => rfl
  | some y => exact (hany _ _).symm

/-- Counting what was told is counting steps. -/
theorem countP_toldIn {tell : τ → σ → Option μ} {p : μ → Bool} {q : System σ κ τ ε ρ × Label σ κ τ ε ρ → Bool}
    (h : ∀ x, ((x.1.executes x.2).any fun y => (tell y.1 x.1.shared).any p) = q x) :
    ((toldIn tell steps).countP fun y => p y.2) = steps.countP q := by
  rw [toldIn, List.countP_filterMap]
  congr 1
  funext x
  rw [← h x, ← toldBy_any]
  cases toldBy tell x <;> rfl

theorem heldBy_replace {t : Session σ κ τ ε ρ} (hlt : i < X.sessions.length) (s : σ) :
    (X.replace i t s).heldBy = Function.update X.heldBy i t.ctx.held := by
  funext j
  by_cases hj : j = i
  · subst hj
    simp [System.heldBy, System.replace, hlt]
  · rw [Function.update_of_ne hj]
    simp only [System.heldBy, System.replace]
    rw [List.getElem?_set_ne (Ne.symm hj)]

/-- What is held once a session has begun. -/
theorem heldBy_start (base : Rights κ) (code : Code σ κ τ ε ρ) :
    System.heldBy (⟨X.shared, X.sessions ++ [⟨.start base, code⟩]⟩ : System σ κ τ ε ρ) =
      Function.update X.heldBy X.sessions.length base := by
  funext j
  by_cases hj : j = X.sessions.length
  · subst hj
    simp [System.heldBy]
  · rw [Function.update_of_ne hj]
    simp only [System.heldBy, List.getElem?_append]
    split
    · rfl
    · next hlt =>
        rw [List.getElem?_eq_none (Nat.le_of_not_lt hlt), List.getElem?_eq_none]
        rw [List.length_singleton]
        omega

/-- The scene after a step of session `i`. -/
theorem scene_turn {t : Session σ κ τ ε ρ} {s : σ} {m : Option μ} {g : γ} (hlt : i < X.sessions.length)
    (htold : toldBy T.tell (X, l) = m.map fun x => (i, x)) :
    (X.replace i t s).scene T.tell (steps ++ [(X, l)]) (Function.update note i g) =
      (X.scene T.tell steps note).turn i m s t.ctx.held g := by
  unfold System.scene Scene.turn
  rw [toldIn_snoc, htold, heldBy_replace hlt]
  rfl

/-- A program that keeps to the story stands where its note says. -/
theorem fits_of_follows {t : Session σ κ τ ε ρ} (ht : X.sessions[i]? = some t) {g : γ}
    (h : T.follows i t.code (fun a c g => T.fits g none ∧ Q a c g) (fun _ _ g => T.fits g none) t.ctx g) :
    T.fits g (X.pointOf i) := by
  obtain ⟨c, code⟩ := t
  have hpoint : X.pointOf i = (X.next i).map Prod.fst := rfl
  unfold System.next at hpoint
  rw [ht] at hpoint
  cases code with
  | pure a =>
      rw [hpoint]
      exact h.1
  | raise e =>
      rw [hpoint]
      exact h
  | step pt act next fail =>
      rw [hpoint]
      exact h.1

variable [DecidableEq κ]

/-- What is granted to session `i` nobody else holds. -/
theorem free_of_grants {r : κ} {mode : LockMode} (h : X.grants i r mode = true) :
    ∀ j, j ≠ i → ∀ y ∈ X.heldBy j, y.1 = r → y.2.conflicts mode = false := by
  intro j hj y hy hr
  unfold System.heldBy at hy
  cases ht : X.sessions[j]? with
  | none => simp [ht] at hy
  | some t =>
      rw [ht] at hy
      have hmem : t ∈ X.sessions.eraseIdx i := List.mem_eraseIdx_iff_getElem?.2 ⟨j, hj, ht⟩
      exact Rights.admits_iff.1 (List.all_eq_true.1 h t hmem) y hy hr

/-- A session has begun, under rights that were free. -/
theorem Story.Keeps.started {idle : γ} (h : T.Keeps Q steps X note) (htold : T.Told Q idle W)
    (hnote : ∀ i, X.sessions.length ≤ i → note i = idle) {base : Rights κ} {code : Code σ κ τ ε ρ}
    (hadmits : X.sessions.all (fun t => base.all fun y => t.ctx.held.admits y.1 y.2) = true)
    (allowed : W.starts base code X.shared)
    (htoldIn : toldIn T.tell (steps ++ [(X, l)]) = toldIn T.tell steps) :
    ∃ note, T.Keeps Q (steps ++ [(X, l)]) ⟨X.shared, X.sessions ++ [⟨.start base, code⟩]⟩ note ∧
      ∀ i, X.sessions.length + 1 ≤ i → note i = idle := by
  have hfree : ∀ r mode, (r, mode) ∈ base → ∀ j, ∀ y ∈ X.heldBy j, y.1 = r → y.2.conflicts mode = false := by
    intro r mode hr j y hy hyr
    unfold System.heldBy at hy
    cases ht : X.sessions[j]? with
    | none => simp [ht] at hy
    | some t =>
        rw [ht] at hy
        have hall := List.all_eq_true.1 hadmits t (List.mem_of_getElem? ht)
        exact Rights.admits_iff.1 (List.all_eq_true.1 hall (r, mode) hr) y hy hyr
  have hlen : X.heldBy X.sessions.length = [] := by simp [System.heldBy]
  obtain ⟨g, hinv, hg⟩ := htold.starts _ X.sessions.length base code h.inv allowed hlen
    (hnote _ (Nat.le_refl _)) hfree
  refine ⟨Function.update note X.sessions.length g, ⟨?_, fun j u hu => ?_, fun j u hu => ?_⟩, fun j hj => ?_⟩
  · simp only [System.scene, htoldIn, heldBy_start]
    simpa [Scene.turn, System.scene] using hinv
  · rcases List.mem_append.1 (List.mem_of_getElem? hu) with hold | hnew
    · obtain ⟨a, ha⟩ := List.mem_iff_getElem?.1 hold
      exact h.base a u ha
    · rw [List.mem_singleton.1 hnew]
      exact fun _ h => h
  · by_cases hj : j = X.sessions.length
    · subst hj
      simp only [List.getElem?_append_right (Nat.le_refl _), Nat.sub_self, List.getElem?_cons_zero,
        Option.some.injEq] at hu
      rw [Function.update_self, ← hu]
      exact hg
    · rw [Function.update_of_ne hj]
      refine h.follows j u ?_
      rw [List.getElem?_append] at hu
      split at hu
      · exact hu
      · next hlt =>
          rw [List.getElem?_eq_none] at hu
          · exact absurd hu (by simp)
          · rw [List.length_singleton]
            omega
  · rw [Function.update_of_ne (by omega)]
    exact hnote j (by omega)

variable [Faulty ε]

/-- One step of session `i`. -/
theorem Story.Keeps.turn {idle : γ} (h : T.Keeps Q steps X note) (htold : T.Told Q idle W)
    (hidle : ∀ i, X.sessions.length ≤ i → note i = idle) {t t' : Session σ κ τ ε ρ} {s : σ}
    (hi : X.sessions[i]? = some t) (hl : l.session = some i) (hturn : X.Turn i l t t' s)
    (hmeets : T.Meets idle (X, l)) :
    ∃ g, T.inv ((X.replace i t' s).scene T.tell (steps ++ [(X, l)]) (Function.update note i g)) ∧
      T.follows i t'.code (fun a c g => T.fits g none ∧ Q a c g) (fun _ _ g => T.fits g none) t'.ctx g := by
  have hlt := (List.getElem?_eq_some_iff.1 hi).1
  have hfollows := h.follows i t hi
  have hheld : (X.scene T.tell steps note).held i = t.ctx.held := by
    show (X.sessions[i]?.map fun t => t.ctx.held).getD [] = _
    rw [hi]
    rfl
  have hplaced : T.Placed idle X note := ⟨fun j t ht => fits_of_follows ht (h.follows j t ht), hidle⟩
  -- A turn of the story is a step of the run.
  have done : ∀ {m : Option μ} {H : Rights κ}, toldBy T.tell (X, l) = m.map (fun x => (i, x)) →
      t'.ctx.held = H → T.Turns i (X.scene T.tell steps note) m s H
        (T.follows i t'.code (fun a c g => T.fits g none ∧ Q a c g) (fun _ _ g => T.fits g none) t'.ctx) →
      ∃ g, T.inv ((X.replace i t' s).scene T.tell (steps ++ [(X, l)]) (Function.update note i g)) ∧
        T.follows i t'.code (fun a c g => T.fits g none ∧ Q a c g) (fun _ _ g => T.fits g none) t'.ctx g := by
    rintro m H htell rfl ⟨g, hinv, hg⟩
    exact ⟨g, (scene_turn hlt htell).symm ▸ hinv, hg⟩
  have told : ∀ {pt act}, X.executes l = some (pt, act) →
      toldBy T.tell (X, l) = (T.tell pt X.shared).map fun m => (i, m) := by
    intro pt act hex
    simp only [toldBy, hl, hex, Option.bind_some]
  have silent : X.executes l = none → toldBy T.tell (X, l) = (none : Option μ).map fun m => (i, m) := by
    intro hex
    simp only [toldBy, hl, hex, Option.bind_some, Option.bind_none, Option.map_none]
  have cond : ∀ {pt act}, X.executes l = some (pt, act) → T.cond pt (X.scene T.tell steps note) :=
    fun hex => hmeets.cond steps note i _ _ hplaced hl hex
  cases hturn with
  | crash =>
      exact done (silent rfl) rfl (htold.crashes (hmeets.crashes i rfl) _ i _ (hheld ▸ h.base i t hi) h.inv)
  | fail c pt act next fail =>
      have hF := hmeets.fails i pt act rfl (System.next_eq hi)
      exact done (silent rfl) rfl ((hfollows.2 _ h.inv hheld rfl).1 hF)
  | lose c pt next fail =>
      have hex : X.executes (.lose i) = some (pt, .commit) := System.next_eq hi
      exact done (told hex) rfl ((hfollows.2 _ h.inv hheld rfl).2 (cond hex)).2
  | read c pt next fail =>
      have hex : X.executes (.run i) = some (pt, .read) := System.next_eq hi
      exact done (told hex) rfl ((hfollows.2 _ h.inv hheld rfl).2 (cond hex))
  | pass c pt mode row next fail absent =>
      have hex : X.executes (.run i) = some (pt, .lock mode row) := System.next_eq hi
      have hrun := (hfollows.2 _ h.inv hheld rfl).2 (cond hex)
      have absent : row (c.pending (X.scene T.tell steps note).shared) = none := absent
      simp only [absent] at hrun
      exact done (told hex) rfl hrun
  | lock c pt mode row next fail r found granted =>
      have hex : X.executes (.run i) = some (pt, .lock mode row) := System.next_eq hi
      have hrun := (hfollows.2 _ h.inv hheld rfl).2 (cond hex)
      have found : row (c.pending (X.scene T.tell steps note).shared) = some r := found
      simp only [found] at hrun
      exact done (told hex) rfl (hrun (free_of_grants granted))
  | write c pt u next fail =>
      have hex : X.executes (.run i) = some (pt, .write u) := System.next_eq hi
      exact done (told hex) rfl ((hfollows.2 _ h.inv hheld rfl).2 (cond hex))
  | effect c pt u next fail =>
      have hex : X.executes (.run i) = some (pt, .effect u) := System.next_eq hi
      exact done (told hex) rfl ((hfollows.2 _ h.inv hheld rfl).2 (cond hex))
  | commit c pt next fail =>
      have hex : X.executes (.run i) = some (pt, .commit) := System.next_eq hi
      exact done (told hex) rfl ((hfollows.2 _ h.inv hheld rfl).2 (cond hex)).1
  | rollback c pt next fail =>
      have hex : X.executes (.run i) = some (pt, .rollback) := System.next_eq hi
      exact done (told hex) rfl ((hfollows.2 _ h.inv hheld rfl).2 (cond hex))

/-- Session `i` has taken its step, and its note is changed. -/
theorem Story.Keeps.acted {idle : γ} (h : T.Keeps Q steps X note) (hnote : ∀ i, X.sessions.length ≤ i → note i = idle)
    {t t' : Session σ κ τ ε ρ} {s : σ} {g : γ} (hi : X.sessions[i]? = some t) (hturn : X.Turn i l t t' s)
    (hinv : T.inv ((X.replace i t' s).scene T.tell (steps ++ [(X, l)]) (Function.update note i g)))
    (hg : T.follows i t'.code (fun a c g => T.fits g none ∧ Q a c g) (fun _ _ g => T.fits g none) t'.ctx g) :
    T.Keeps Q (steps ++ [(X, l)]) (X.replace i t' s) (Function.update note i g) ∧
      ∀ j, (X.replace i t' s).sessions.length ≤ j → Function.update note i g j = idle := by
  have hlt := (List.getElem?_eq_some_iff.1 hi).1
  refine ⟨⟨hinv, fun j u hu => ?_, fun j u hu => ?_⟩, fun j hj => ?_⟩
  · by_cases hj : j = i
    · subst hj
      simp only [System.replace, List.getElem?_set_self hlt, Option.some.injEq] at hu
      rw [← hu]
      exact (Protocol.turns_of_turn hturn).base (h.base j t hi)
    · simp only [System.replace] at hu
      rw [List.getElem?_set_ne (Ne.symm hj)] at hu
      exact h.base j u hu
  · by_cases hj : j = i
    · subst hj
      simp only [System.replace, List.getElem?_set_self hlt, Option.some.injEq] at hu
      rw [Function.update_self, ← hu]
      exact hg
    · rw [Function.update_of_ne hj]
      simp only [System.replace] at hu
      rw [List.getElem?_set_ne (Ne.symm hj)] at hu
      exact h.follows j u hu
  · simp only [System.replace, List.length_set] at hj
    rw [Function.update_of_ne (by omega)]
    exact hnote j hj

/-- **The story of a run.** From no sessions on, the programs of a run keep to the story. -/
theorem Story.keeps_of_run {idle : γ} (htold : T.Told Q idle W) (hrun : Run W Y steps Z) (hidle : Y.sessions = [])
    (hinit : T.inv ⟨[], Y.shared, fun _ => [], fun _ => idle⟩) (hmeets : ∀ x ∈ steps, T.Meets idle x) :
    ∃ note, T.Keeps Q steps Z note ∧ ∀ i, Z.sessions.length ≤ i → note i = idle := by
  induction hrun with
  | nil =>
      refine ⟨fun _ => idle, ⟨?_, fun i t ht => ?_, fun i t ht => ?_⟩, fun _ _ => rfl⟩
      · have hheld : Y.heldBy = fun _ => [] := by
          funext i
          simp [System.heldBy, hidle]
        unfold System.scene
        rw [hheld]
        exact hinit
      · rw [hidle] at ht
        exact absurd ht (by simp)
      · rw [hidle] at ht
        exact absurd ht (by simp)
  | @snoc steps X X' l before allowed taken ih =>
      obtain ⟨note, hkeeps, hnote⟩ := ih fun x hx => hmeets x (List.mem_append_left _ hx)
      have hmeets : T.Meets idle (X, l) := hmeets _ (by simp)
      cases hl : l.session with
      | some i =>
          obtain ⟨t, t', ht, heq, hturn⟩ := System.step_turn hl taken
          obtain ⟨g, hinv, hg⟩ := hkeeps.turn htold hnote ht hl hturn hmeets
          rw [heq]
          exact ⟨Function.update note i g, hkeeps.acted hnote ht hturn hinv hg⟩
      | none =>
          have hsilent : toldBy T.tell (X, l) = none := by simp [toldBy, hl]
          have htoldIn : toldIn T.tell (steps ++ [(X, l)]) = toldIn T.tell steps := by
            rw [toldIn_snoc, hsilent, Option.toList_none, List.append_nil]
          cases l with
          | start base code =>
              simp only [System.step] at taken
              split at taken
              · next hadmits =>
                cases taken
                rw [List.length_append, List.length_singleton]
                exact hkeeps.started htold hnote hadmits allowed htoldIn
              · exact absurd taken (by simp)
          | env s =>
              cases taken
              refine ⟨note, ⟨?_, hkeeps.base, hkeeps.follows⟩, hnote⟩
              simp only [System.scene, htoldIn]
              exact htold.env _ _ hkeeps.inv allowed
          | run j => exact absurd hl (by simp [Label.session])
          | fail j => exact absurd hl (by simp [Label.session])
          | lose j => exact absurd hl (by simp [Label.session])
          | crash j => exact absurd hl (by simp [Label.session])

end Runs

end Transactions
