import Rubrica.Transactions.Guarantee

set_option autoImplicit false

/-! # Proof rules

One rule for each statement of a program, stated with an assertion `A` that the others cannot break
(`Protocol.Stable`), so that a proof names what it knows between two statements and never mentions
interference again. `Protocol.wp_local` takes a whole stretch of queries, locks and buffered writes
at once, when all that matters about it is what its writes leave alone. -/

namespace Transactions

variable {σ κ τ τ' ε α β : Type}

namespace Protocol

variable {P : Protocol σ κ τ} {Q : α → Ctx σ κ → σ → Prop} {E : ε → Ctx σ κ → σ → Prop}
  {c : Ctx σ κ} {s : σ} {A : σ → Prop}

/-! ## Consequence and sequencing -/

/-- A context in which a session that started from `c` can be: it still has the rights it keeps for
    life. -/
def Follows (c c' : Ctx σ κ) : Prop :=
  c'.base = c.base ∧ c'.base ⊆ c'.held

theorem Follows.reset {c c' : Ctx σ κ} (h : Follows c c') : c'.reset = c.reset := by
  simp [Ctx.reset, h.1]

theorem Follows.trans {c c' c'' : Ctx σ κ} (h : Follows c c') (h' : Follows c' c'') : Follows c c'' :=
  ⟨h'.1.trans h.1, h'.2⟩

/-- Consequence. No statement gives up the rights a session keeps for life, so a proof may assume that
    they are still there. -/
theorem wp_mono {Q' : α → Ctx σ κ → σ → Prop} {E' : ε → Ctx σ κ → σ → Prop} {x : Code σ κ τ ε α}
    (h : P.wp x Q E c s) (hb : c.base ⊆ c.held)
    (hQ : ∀ a c' s', Follows c c' → Q a c' s' → Q' a c' s')
    (hE : ∀ e c' s', Follows c c' → E e c' s' → E' e c' s') : P.wp x Q' E' c s := by
  induction x generalizing c s with
  | pure a => exact hQ a c s ⟨rfl, hb⟩ h
  | raise e => exact hE e c s ⟨rfl, hb⟩ h
  | step pt act next fail ihn ihf =>
      -- Every statement leads to a context that follows `c`.
      have go : ∀ {y : Code σ κ τ ε α} {c' : Ctx σ κ} {t : σ},
          (∀ {c s}, P.wp y Q E c s → c.base ⊆ c.held →
            (∀ a c' s', Follows c c' → Q a c' s' → Q' a c' s') →
            (∀ e c' s', Follows c c' → E e c' s' → E' e c' s') → P.wp y Q' E' c s) →
          P.wp y Q E c' t → Follows c c' → P.wp y Q' E' c' t :=
        fun ih hw hc => ih hw hc.2 (fun a c'' s'' h => hQ a c'' s'' (hc.trans h))
          (fun e c'' s'' h => hE e c'' s'' (hc.trans h))
      have hreset : Follows c c.reset := ⟨rfl, fun _ h => h⟩
      intro s' hr hinv
      obtain ⟨hfail, hgo⟩ := h s' hr hinv
      refine ⟨go ihf hfail hreset, fun hc => ?_⟩
      have hgo := hgo hc
      cases act with
      | read => exact go (ihn _) hgo ⟨rfl, hb⟩
      | lock mode row =>
          simp only at hgo ⊢
          split at hgo
          · exact go (ihn _) hgo ⟨rfl, hb⟩
          · exact go (ihn _) hgo ⟨rfl, fun _ h => List.mem_cons_of_mem _ (hb h)⟩
      | write u => exact go (ihn _) hgo ⟨rfl, hb⟩
      | effect u => exact ⟨hgo.1, hgo.2.1, go (ihn _) hgo.2.2 ⟨rfl, hb⟩⟩
      | commit =>
          exact ⟨hgo.1, hgo.2.1, go (ihn _) hgo.2.2.1 hreset, fun hl => go ihf (hgo.2.2.2 hl) hreset⟩
      | rollback => exact go (ihn _) hgo hreset

theorem wp_seq {x : Code σ κ τ ε β} {f : β → Code σ κ τ ε α}
    (h : P.wp x (fun b c s => P.wp (f b) Q E c s) E c s) : P.wp (x >>= f) Q E c s :=
  (wp_bind x f Q E c s).mpr h

theorem wp_try {x : Code σ κ τ ε α} {f : ε → Code σ κ τ ε α}
    (h : P.wp x Q (fun e c s => P.wp (f e) Q E c s) c s) : P.wp (x.tryCatch f) Q E c s :=
  (wp_tryCatch x f Q E c s).mpr h

/-- Sequencing of programs whose points are translated. -/
theorem wp_seqVia {f : τ' → τ} {x : Code σ κ τ' ε β} {g : β → Code σ κ τ' ε α}
    (h : P.wp (x.mapPoint f) (fun b c s => P.wp ((g b).mapPoint f) Q E c s) E c s) :
    P.wp ((x >>= g).mapPoint f) Q E c s := by
  rw [Code.mapPoint_bind]
  exact wp_seq h

theorem wp_tryVia {f : τ' → τ} {x : Code σ κ τ' ε α} {g : ε → Code σ κ τ' ε α}
    (h : P.wp (x.mapPoint f) Q (fun e c s => P.wp ((g e).mapPoint f) Q E c s) c s) :
    P.wp ((x.tryCatch g).mapPoint f) Q E c s := by
  rw [Code.mapPoint_tryCatch]
  exact wp_try h

theorem wp_pure {a : α} (h : Q a c s) : P.wp (pure a : Code σ κ τ ε α) Q E c s := h

theorem wp_require {p : Prop} [Decidable p] {e : ε} {Q : Unit → Ctx σ κ → σ → Prop}
    (h : p → Q () c s) (he : ¬p → E e c s) :
    P.wp (Code.require p e : Code σ κ τ ε Unit) Q E c s := by
  unfold Code.require
  split
  · next hp => exact h hp
  · next hp => exact he hp

theorem wp_requireVia {f : τ' → τ} {p : Prop} [Decidable p] {e : ε} {Q : Unit → Ctx σ κ → σ → Prop}
    (h : p → Q () c s) (he : ¬p → E e c s) :
    P.wp ((Code.require p e : Code σ κ τ' ε Unit).mapPoint f) Q E c s := by
  unfold Code.require
  split
  · next hp => exact h hp
  · next hp => exact he hp

theorem wp_orRaise {a : Option α} {e : ε} (h : ∀ x, a = some x → Q x c s)
    (he : a = none → E e c s) : P.wp (Code.orRaise a e : Code σ κ τ ε α) Q E c s := by
  cases a with
  | none => exact he rfl
  | some x => exact h x rfl

theorem wp_ofExcept {x : Except ε α} (h : ∀ a, x = .ok a → Q a c s) (he : ∀ e, x = .error e → E e c s) :
    P.wp (MonadExcept.ofExcept x : Code σ κ τ ε α) Q E c s := by
  cases x with
  | ok a => exact h a rfl
  | error e => exact he e rfl

/-! ## Statements -/

section Statements

variable [Faulty ε]

theorem wp_select {point : τ} {query : σ → α} (hA : P.Stable c.held A) (hs : A s)
    (hQ : ∀ s', A s' → P.inv s' → P.cond point s' → Q (query (c.pending s')) c s')
    (hE : ∀ s', A s' → P.inv s' → E Faulty.fault c.reset s') :
    P.wp (Code.select point query) Q E c s :=
  fun s' hr hinv => ⟨hE s' (hA.rely hr hs) hinv, hQ s' (hA.rely hr hs) hinv⟩

theorem wp_selectLocking {point : τ} {mode : LockMode} {row : σ → Option κ} {query : σ → α}
    (hA : P.Stable c.held A) (hs : A s)
    (hnone : ∀ s', A s' → P.inv s' → P.cond point s' → row (c.pending s') = none →
      Q (query (c.pending s')) c s')
    (hsome : ∀ s' r, A s' → P.inv s' → P.cond point s' → row (c.pending s') = some r →
      Q (query (c.pending s')) (c.take r mode) s')
    (hE : ∀ s', A s' → P.inv s' → E Faulty.fault c.reset s') :
    P.wp (Code.selectLocking point mode row query) Q E c s := by
  intro s' hr hinv
  have hs' := hA.rely hr hs
  refine ⟨hE s' hs' hinv, fun hc => ?_⟩
  simp only
  split
  · next h => exact hnone s' hs' hinv hc h
  · next r h => exact hsome s' r hs' hinv hc h

theorem wp_write {point : τ} {u : σ → σ} {Q : Unit → Ctx σ κ → σ → Prop} (hA : P.Stable c.held A)
    (hs : A s) (hQ : ∀ s', A s' → P.inv s' → P.cond point s' → Q () (c.buffer u) s')
    (hE : ∀ s', A s' → P.inv s' → E Faulty.fault c.reset s') :
    P.wp (Code.write point u : Code σ κ τ ε Unit) Q E c s :=
  fun s' hr hinv => ⟨hE s' (hA.rely hr hs) hinv, hQ s' (hA.rely hr hs) hinv⟩

theorem wp_effect {point : τ} {u : σ → σ} {query : σ → α} (hA : P.Stable c.held A) (hs : A s)
    (hQ : ∀ s', A s' → P.inv s' → P.cond point s' →
      P.inv (u s') ∧ P.guar point c.held s' (u s') ∧ Q (query (c.pending s')) c (u s'))
    (hE : ∀ s', A s' → P.inv s' → E Faulty.fault c.reset s') :
    P.wp (Code.effect point u query) Q E c s :=
  fun s' hr hinv => ⟨hE s' (hA.rely hr hs) hinv, hQ s' (hA.rely hr hs) hinv⟩

/-! ## Transactions -/

variable (P) in
/-- What a transaction owes at its commit: `D` is what survives when the commit fails, `R` what holds
    after it. -/
def CommitsAt (point : τ) (D : σ → Prop) (R : Ctx σ κ → σ → Prop) (c : Ctx σ κ) (s : σ) : Prop :=
  ∀ s', P.Rely c.held s s' → P.inv s' → D s' ∧ (P.cond point s' →
    P.inv (c.pending s') ∧ P.guar point c.held s' (c.pending s') ∧ R c.reset (c.pending s') ∧
      (P.lossy → D (c.pending s')))

theorem commitsAt_of {point : τ} {D : σ → Prop} {R : Ctx σ κ → σ → Prop} (hA : P.Stable c.held A)
    (hs : A s) (hD : ∀ s', A s' → D s')
    (h : ∀ s', A s' → P.inv s' → P.cond point s' →
      P.inv (c.pending s') ∧ P.guar point c.held s' (c.pending s') ∧ R c.reset (c.pending s') ∧
        (P.lossy → D (c.pending s'))) :
    P.CommitsAt point D R c s :=
  fun s' hr hinv => ⟨hD s' (hA.rely hr hs), h s' (hA.rely hr hs) hinv⟩

omit [Faulty ε] in
/-- Statements that are rolled back where they raise. What holds where they raise, `D`, does not need
    the locks of the transaction. -/
theorem wp_rollingBack {quiet : τ} {x : Code σ κ τ ε α} {D : ε → σ → Prop} (hb : c.base ⊆ c.held)
    (hD : ∀ e, P.Stable c.base (D e)) (hE : ∀ e s', D e s' → P.inv s' → E e c.reset s')
    (hx : P.wp x Q (fun e _ s => D e s) c s) : P.wp (Code.rollingBack quiet x) Q E c s := by
  refine (wp_tryCatch _ _ Q E c s).mpr (wp_mono hx hb (fun _ _ _ _ h => h) ?_)
  intro e c' s' hc hd t hr hinv
  -- The rollback loses the locks and the writes, and keeps `D`.
  have hdt : D e t := ((hD e).anti (hc.1 ▸ hc.2)).rely hr hd
  have := hE e t hdt hinv
  rw [← hc.reset] at this
  exact ⟨this, fun _ => this⟩

/-- A transaction: wherever its body stops early with an exception, `D` holds of it. The points may be
    translated. -/
theorem wp_transactionVia (f : τ' → τ) {quiet : τ'} {body : Code σ κ τ' ε (α × τ')} {D : ε → σ → Prop}
    (hb : c.base ⊆ c.held) (hD : ∀ e, P.Stable c.base (D e))
    (hE : ∀ e s', D e s' → P.inv s' → E e c.reset s')
    (hbody : P.wp (body.mapPoint f) (fun r c s => P.CommitsAt (f r.2) (D Faulty.fault) (Q r.1) c s)
      (fun e _ s => D e s) c s) :
    P.wp ((Code.transaction quiet body).mapPoint f) Q E c s := by
  unfold Code.transaction
  rw [Code.mapPoint_rollingBack]
  refine wp_rollingBack hb hD hE ?_
  have hsplit := Code.mapPoint_bind (f := f) body
    fun r => .step r.2 .commit (fun _ => .pure r.1) (.raise Faulty.fault)
  rw [show body.bind _ = body >>= _ from rfl, hsplit]
  refine wp_seq (wp_mono hbody hb ?_ fun _ _ _ _ h => h)
  intro r c' s' hc hr s'' hrely hinv
  obtain ⟨hd, hgo⟩ := hr s'' hrely hinv
  refine ⟨hd, fun hcond => ?_⟩
  obtain ⟨h1, h2, h3, h4⟩ := hgo hcond
  exact ⟨h1, h2, h3, fun hl => h4 hl⟩

theorem wp_transaction {quiet : τ} {body : Code σ κ τ ε (α × τ)} {D : ε → σ → Prop}
    (hb : c.base ⊆ c.held) (hD : ∀ e, P.Stable c.base (D e))
    (hE : ∀ e s', D e s' → P.inv s' → E e c.reset s')
    (hbody : P.wp body (fun r c s => P.CommitsAt r.2 (D Faulty.fault) (Q r.1) c s)
      (fun e _ s => D e s) c s) :
    P.wp (Code.transaction quiet body) Q E c s := by
  rw [← Code.mapPoint_id (Code.transaction quiet body)]
  exact wp_transactionVia id hb hD hE (by rw [Code.mapPoint_id]; exact hbody)

end Statements

end Protocol

/-! ## Stretches of a transaction -/

/-- The program only queries, locks and buffers writes of the kind `W`, and raises where a statement
    fails. -/
def Code.Local (W : (σ → σ) → Prop) : Code σ κ τ ε α → Prop
  | .pure _ => True
  | .raise _ => True
  | .step _ act next fail =>
      (match act with
        | .read => True
        | .lock _ _ => True
        | .write u => W u
        | _ => False) ∧
      (∀ v, (next v).Local W) ∧ ∃ e, fail = .raise e

namespace Code

variable {W : (σ → σ) → Prop}

theorem local_pure (a : α) : (pure a : Code σ κ τ ε α).Local W := trivial

theorem local_raise (e : ε) : (Code.raise e : Code σ κ τ ε α).Local W := trivial

theorem local_bind {x : Code σ κ τ ε α} {f : α → Code σ κ τ ε β} (hx : x.Local W)
    (hf : ∀ a, (f a).Local W) : (x >>= f).Local W := by
  show (x.bind f).Local W
  induction x with
  | pure a => exact hf a
  | raise e => trivial
  | step pt act next fail ihn _ =>
      obtain ⟨hact, hnext, e, rfl⟩ := hx
      exact ⟨hact, fun v => ihn v (hnext v), e, rfl⟩

/-- A handler that raises again keeps a stretch local. -/
theorem local_tryCatch {x : Code σ κ τ ε α} {f : ε → Code σ κ τ ε α} (hx : x.Local W)
    (hf : ∀ e, ∃ e', f e = .raise e') : (x.tryCatch f).Local W := by
  induction x with
  | pure a => trivial
  | raise e =>
      obtain ⟨e', he⟩ := hf e
      show (f e).Local W
      rw [he]
      trivial
  | step pt act next fail ihn _ =>
      obtain ⟨hact, hnext, e, rfl⟩ := hx
      exact ⟨hact, fun v => ihn v (hnext v), hf e⟩

theorem local_require (p : Prop) [Decidable p] (e : ε) :
    (Code.require p e : Code σ κ τ ε Unit).Local W := by
  unfold Code.require
  split <;> trivial

theorem local_onlyIf (p : Prop) [Decidable p] {x : Code σ κ τ ε Unit} (hx : p → x.Local W) :
    (Code.onlyIf p x).Local W := by
  unfold Code.onlyIf
  split
  · next h => exact hx h
  · trivial

theorem local_orRaise (a : Option α) (e : ε) : (Code.orRaise a e : Code σ κ τ ε α).Local W := by
  cases a <;> trivial

theorem local_ite {p : Prop} [Decidable p] {x y : Code σ κ τ ε α} (hx : x.Local W)
    (hy : y.Local W) : (if p then x else y).Local W := by
  split
  · exact hx
  · exact hy

theorem local_select [Faulty ε] (point : τ) (query : σ → α) :
    (Code.select point query : Code σ κ τ ε α).Local W :=
  ⟨trivial, fun _ => trivial, _, rfl⟩

theorem local_selectLocking [Faulty ε] (point : τ) (mode : LockMode) (row : σ → Option κ)
    (query : σ → α) : (Code.selectLocking point mode row query : Code σ κ τ ε α).Local W :=
  ⟨trivial, fun _ => trivial, _, rfl⟩

theorem local_write [Faulty ε] (point : τ) {u : σ → σ} (hu : W u) :
    (Code.write point u : Code σ κ τ ε Unit).Local W :=
  ⟨hu, fun _ => trivial, _, rfl⟩

theorem local_mapPoint (f : τ → τ') {x : Code σ κ τ ε α} (hx : x.Local W) : (x.mapPoint f).Local W := by
  induction x with
  | pure a => trivial
  | raise e => trivial
  | step pt act next fail ihn _ =>
      obtain ⟨hact, hnext, e, rfl⟩ := hx
      exact ⟨hact, fun v => ihn v (hnext v), e, rfl⟩

/-- The program only queries, and raises where a query fails. -/
def Reads : Code σ κ τ ε α → Prop
  | .pure _ => True
  | .raise _ => True
  | .step _ act next fail =>
      (match act with
        | .read => True
        | _ => False) ∧
      (∀ v, (next v).Reads) ∧ ∃ e, fail = .raise e

theorem reads_pure (a : α) : (pure a : Code σ κ τ ε α).Reads := trivial

theorem reads_raise (e : ε) : (Code.raise e : Code σ κ τ ε α).Reads := trivial

theorem reads_bind {x : Code σ κ τ ε α} {f : α → Code σ κ τ ε β} (hx : x.Reads)
    (hf : ∀ a, (f a).Reads) : (x >>= f).Reads := by
  show (x.bind f).Reads
  induction x with
  | pure a => exact hf a
  | raise e => trivial
  | step pt act next fail ihn _ =>
      obtain ⟨hact, hnext, e, rfl⟩ := hx
      exact ⟨hact, fun v => ihn v (hnext v), e, rfl⟩

theorem reads_mapPoint (f : τ → τ') {x : Code σ κ τ ε α} (hx : x.Reads) : (x.mapPoint f).Reads := by
  induction x with
  | pure a => trivial
  | raise e => trivial
  | step pt act next fail ihn _ =>
      obtain ⟨hact, hnext, e, rfl⟩ := hx
      exact ⟨hact, fun v => ihn v (hnext v), e, rfl⟩

theorem reads_select [Faulty ε] (point : τ) (query : σ → α) :
    (Code.select point query : Code σ κ τ ε α).Reads :=
  ⟨trivial, fun _ => trivial, _, rfl⟩

end Code

/-- The contexts a local stretch leads to. -/
inductive Ctx.Grows (W : (σ → σ) → Prop) (c : Ctx σ κ) : Ctx σ κ → Prop where
  | refl : Grows W c c
  | take {c' : Ctx σ κ} (h : Grows W c c') (row : κ) (mode : LockMode) : Grows W c (c'.take row mode)
  | buffer {c' : Ctx σ κ} (h : Grows W c c') {u : σ → σ} (hu : W u) : Grows W c (c'.buffer u)

namespace Ctx.Grows

variable {W : (σ → σ) → Prop} {c c' : Ctx σ κ}

theorem base (h : Grows W c c') : c'.base = c.base := by
  induction h with
  | refl => rfl
  | take _ _ _ ih => exact ih
  | buffer _ _ ih => exact ih

theorem held (h : Grows W c c') : c.held ⊆ c'.held := by
  induction h with
  | refl => exact fun _ h => h
  | take _ _ _ ih => exact fun _ h => List.mem_cons_of_mem _ (ih h)
  | buffer _ _ ih => exact ih

theorem reset (h : Grows W c c') : c'.reset = c.reset := by
  simp [Ctx.reset, h.base]

theorem trans {c'' : Ctx σ κ} (h : Grows W c c') (h' : Grows W c' c'') : Grows W c c'' := by
  induction h' with
  | refl => exact h
  | take _ row mode ih => exact ih.take row mode
  | buffer _ hu ih => exact ih.buffer hu

/-- What the writes of a stretch do each, the whole stretch does. -/
theorem relate (h : Grows W c c') {R : σ → σ → Prop} (hrefl : ∀ w, R w w)
    (htrans : ∀ w w' w'', R w w' → R w' w'' → R w w'') (hR : ∀ u, W u → ∀ w, R w (u w)) (w : σ) :
    R (c.pending w) (c'.pending w) := by
  induction h with
  | refl => exact hrefl _
  | take _ _ _ ih => exact ih
  | buffer _ hu ih => exact htrans _ _ _ ih (hR _ hu _)

/-- What the writes of a stretch leave alone, the whole stretch leaves alone. -/
theorem project {γ : Type} (h : Grows W c c') {f : σ → γ} (hf : ∀ u, W u → ∀ w, f (u w) = f w) (w : σ) :
    f (c'.pending w) = f (c.pending w) := by
  induction h with
  | refl => rfl
  | take _ _ _ ih => exact ih
  | buffer _ hu ih => exact (hf _ hu _).trans ih

end Ctx.Grows

/-- A local stretch, of which only the kind of its writes matters. -/
theorem Protocol.wp_local {P : Protocol σ κ τ} {Q : α → Ctx σ κ → σ → Prop}
    {E : ε → Ctx σ κ → σ → Prop} {W : (σ → σ) → Prop} {x : Code σ κ τ ε α} (hx : x.Local W)
    {c : Ctx σ κ} {s : σ} {A : σ → Prop} (hA : P.Stable c.held A) (hs : A s)
    (hQ : ∀ a c' s', c.Grows W c' → A s' → Q a c' s')
    (hE : ∀ e c' s', c.Grows W c' ∨ c' = c.reset → A s' → E e c' s') : P.wp x Q E c s := by
  suffices h : ∀ c' s', c.Grows W c' → A s' → P.wp x Q E c' s' from h c s .refl hs
  induction x with
  | pure a => exact fun c' s' hc hs' => hQ a c' s' hc hs'
  | raise e => exact fun c' s' hc hs' => hE e c' s' (Or.inl hc) hs'
  | step pt act next fail ihn _ =>
      intro c' s' hc hs' s'' hr _
      obtain ⟨hact, hnext, e, rfl⟩ := hx
      have hs'' : A s'' := (hA.anti hc.held).rely hr hs'
      refine ⟨hE e _ _ (Or.inr hc.reset) hs'', fun _ => ?_⟩
      have go : ∀ v c'', c.Grows W c'' → P.wp (next v) Q E c'' s'' := fun v c'' hc'' =>
        ihn v (hnext v) c'' s'' hc'' hs''
      cases act with
      | read => exact go _ _ hc
      | lock mode row =>
          simp only
          split
          · exact go _ _ hc
          · exact go _ _ (hc.take _ _)
      | write u => exact go _ _ (hc.buffer hact)
      | effect u => exact absurd hact id
      | commit => exact absurd hact id
      | rollback => exact absurd hact id

/-- A stretch of queries, of which nothing matters but that it changes nothing. -/
theorem Protocol.wp_reads {P : Protocol σ κ τ} {Q : α → Ctx σ κ → σ → Prop}
    {E : ε → Ctx σ κ → σ → Prop} {x : Code σ κ τ ε α} (hx : x.Reads) {c : Ctx σ κ} {s : σ}
    {A : σ → Prop} (hA : P.Stable c.held A) (hs : A s) (hQ : ∀ a s', A s' → Q a c s')
    (hE : ∀ e c' s', c' = c ∨ c' = c.reset → A s' → E e c' s') : P.wp x Q E c s := by
  induction x generalizing s with
  | pure a => exact hQ a s hs
  | raise e => exact hE e c s (Or.inl rfl) hs
  | step pt act next fail ihn _ =>
      intro s' hr _
      obtain ⟨hact, hnext, e, rfl⟩ := hx
      have hs' := hA.rely hr hs
      refine ⟨hE e _ _ (Or.inr rfl) hs', fun _ => ?_⟩
      cases act with
      | read => exact ihn _ (hnext _) hs'
      | _ => exact absurd hact id

end Transactions
