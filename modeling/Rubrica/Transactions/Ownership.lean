import Rubrica.Transactions.Rules

set_option autoImplicit false

/-! # Names that sessions draw

A session keeps the rights it started with for life; the others it takes by locking rows. In programs
that only lock rows of some kind, a right to anything else is one the session started with: a name it
drew. What nobody does without the right to a name, a session did that drew the name
(`Governs.owner`). -/

namespace Transactions

variable {σ κ τ ε α β ρ : Type}

/-! ## Programs that only lock some rows -/

def Code.LocksOnly (rows : κ → Prop) : Code σ κ τ ε α → Prop
  | .pure _ => True
  | .raise _ => True
  | .step _ act next fail =>
      (match act with
        | .lock _ row => ∀ v r, row v = some r → rows r
        | _ => True) ∧
      (∀ v, (next v).LocksOnly rows) ∧ fail.LocksOnly rows

namespace Code

variable {rows : κ → Prop}

/-- Any program locks rows. -/
theorem locksOnly_true (x : Code σ κ τ ε α) : x.LocksOnly fun _ => True := by
  induction x with
  | pure a => trivial
  | raise e => trivial
  | step pt act next fail ihn ihf =>
      refine ⟨?_, ihn, ihf⟩
      cases act with
      | lock mode row => exact fun _ _ _ => trivial
      | _ => trivial

theorem locksOnly_pure (a : α) : (pure a : Code σ κ τ ε α).LocksOnly rows := trivial

theorem locksOnly_bind {x : Code σ κ τ ε α} {f : α → Code σ κ τ ε β} (hx : x.LocksOnly rows)
    (hf : ∀ a, (f a).LocksOnly rows) : (x >>= f).LocksOnly rows := by
  show (x.bind f).LocksOnly rows
  induction x with
  | pure a => exact hf a
  | raise e => trivial
  | step pt act next fail ihn ihf => exact ⟨hx.1, fun v => ihn v (hx.2.1 v), ihf hx.2.2⟩

theorem locksOnly_tryCatch {x : Code σ κ τ ε α} {h : ε → Code σ κ τ ε α} (hx : x.LocksOnly rows)
    (hh : ∀ e, (h e).LocksOnly rows) : (x.tryCatch h).LocksOnly rows := by
  induction x with
  | pure a => trivial
  | raise e => exact hh e
  | step pt act next fail ihn ihf => exact ⟨hx.1, fun v => ihn v (hx.2.1 v), ihf hx.2.2⟩

theorem locksOnly_onlyIf (p : Prop) [Decidable p] {x : Code σ κ τ ε Unit} (hx : x.LocksOnly rows) :
    (Code.onlyIf p x).LocksOnly rows := by
  unfold onlyIf
  split
  · exact hx
  · trivial

theorem locksOnly_orRaise (a : Option α) (e : ε) : (Code.orRaise a e : Code σ κ τ ε α).LocksOnly rows := by
  cases a <;> trivial

theorem locksOnly_ite {p : Prop} [Decidable p] {x y : Code σ κ τ ε α} (hx : x.LocksOnly rows)
    (hy : y.LocksOnly rows) : (if p then x else y).LocksOnly rows := by
  split
  · exact hx
  · exact hy

variable [Faulty ε]

theorem locksOnly_select (point : τ) (query : σ → α) :
    (Code.select point query : Code σ κ τ ε α).LocksOnly rows :=
  ⟨trivial, fun _ => trivial, trivial⟩

theorem locksOnly_selectLocking (point : τ) (mode : LockMode) {row : σ → Option κ} (query : σ → α)
    (h : ∀ v r, row v = some r → rows r) :
    (Code.selectLocking point mode row query : Code σ κ τ ε α).LocksOnly rows :=
  ⟨h, fun _ => trivial, trivial⟩

theorem locksOnly_write (point : τ) (u : σ → σ) :
    (Code.write point u : Code σ κ τ ε Unit).LocksOnly rows :=
  ⟨trivial, fun _ => trivial, trivial⟩

theorem locksOnly_effect (point : τ) (u : σ → σ) (query : σ → α) :
    (Code.effect point u query : Code σ κ τ ε α).LocksOnly rows :=
  ⟨trivial, fun _ => trivial, trivial⟩

theorem locksOnly_transaction (quiet : τ) {body : Code σ κ τ ε (α × τ)} (h : body.LocksOnly rows) :
    (Code.transaction quiet body).LocksOnly rows := by
  refine locksOnly_tryCatch (locksOnly_bind h fun r => ?_) fun e => ?_
  · exact ⟨trivial, fun _ => trivial, trivial⟩
  · exact ⟨trivial, fun _ => trivial, trivial⟩

end Code

/-! ## Sessions and their names -/

section Runs

variable [DecidableEq κ] [Faulty ε] {Y Y' Z : System σ κ τ ε ρ} {l : Label σ κ τ ε ρ} {i : Nat}
  {rows : κ → Prop} {t t' : Session σ κ τ ε ρ} {s' : σ}

/-- The session locks only some rows, and has drawn whatever else it has a right to. -/
structure Session.Draws (rows : κ → Prop) (t : Session σ κ τ ε ρ) : Prop where
  locks : t.code.LocksOnly rows
  drawn : ∀ h ∈ t.ctx.held, ¬rows h.1 → h ∈ t.ctx.base

theorem base_of_turn (h : Y.Turn i l t t' s') : t'.ctx.base = t.ctx.base := by
  cases h <;> rfl

/-- One step of a session. -/
theorem draws_of_turn (h : Y.Turn i l t t' s') (ht : t.Draws rows) : t'.Draws rows := by
  obtain ⟨hlocks, hdrawn⟩ := ht
  cases h with
  | crash t => exact ⟨trivial, fun h hh _ => hh⟩
  | fail c pt act next fail => exact ⟨hlocks.2.2, fun h hh _ => hh⟩
  | lose c pt next fail => exact ⟨hlocks.2.2, fun h hh _ => hh⟩
  | read c pt next fail => exact ⟨hlocks.2.1 _, hdrawn⟩
  | pass c pt mode row next fail absent => exact ⟨hlocks.2.1 _, hdrawn⟩
  | lock c pt mode row next fail r found granted =>
      refine ⟨hlocks.2.1 _, fun h hh hn => ?_⟩
      rcases List.mem_cons.1 hh with rfl | hh
      · exact absurd (hlocks.1 _ _ found) hn
      · exact hdrawn h hh hn
  | write c pt u next fail => exact ⟨hlocks.2.1 _, hdrawn⟩
  | effect c pt u next fail => exact ⟨hlocks.2.1 _, hdrawn⟩
  | commit c pt next fail => exact ⟨hlocks.2.1 _, fun h hh _ => hh⟩
  | rollback c pt next fail => exact ⟨hlocks.2.1 _, fun h hh _ => hh⟩

/-- A step keeps every session there is, with the names it drew. -/
theorem System.step_base (h : Y.step l = some Y') (hi : Y.sessions[i]? = some t) :
    ∃ t', Y'.sessions[i]? = some t' ∧ t'.ctx.base = t.ctx.base := by
  have hlt : i < Y.sessions.length := (List.getElem?_eq_some_iff.1 hi).1
  cases hl : l.session with
  | some j =>
      obtain ⟨u, u', hj, heq, hturn⟩ := System.step_turn hl h
      rw [heq]
      by_cases hij : j = i
      · subst hij
        obtain rfl := Option.some.inj (hi.symm.trans hj)
        exact ⟨u', List.getElem?_set_self hlt, base_of_turn hturn⟩
      · exact ⟨t, (List.getElem?_set_ne hij).trans hi, rfl⟩
  | none =>
      cases l with
      | start base code =>
          simp only [System.step] at h
          split at h
          · cases h
            exact ⟨t, (List.getElem?_append_left hlt).trans hi, rfl⟩
          · exact absurd h (by simp)
      | env s =>
          cases h
          exact ⟨t, hi, rfl⟩
      | run j => exact absurd hl (by simp [Label.session])
      | fail j => exact absurd hl (by simp [Label.session])
      | lose j => exact absurd hl (by simp [Label.session])
      | crash j => exact absurd hl (by simp [Label.session])

variable {W : Setting σ κ τ ε ρ} {steps : List (System σ κ τ ε ρ × Label σ κ τ ε ρ)}

/-- Along a run from a system without sessions, every session has drawn what it has a right to. -/
theorem Run.draws (hlocks : ∀ base code s, W.starts base code s → code.LocksOnly rows)
    (hidle : Y.sessions = []) (hrun : Run W Y steps Z) : ∀ t ∈ Z.sessions, t.Draws rows := by
  induction hrun with
  | nil =>
      rw [hidle]
      intro t ht
      exact absurd ht (by simp)
  | @snoc past X X' l before allowed taken ih =>
      intro t ht
      cases hl : l.session with
      | some j =>
          obtain ⟨u, u', hj, heq, hturn⟩ := System.step_turn hl taken
          rw [heq] at ht
          rcases List.mem_or_eq_of_mem_set ht with ht | rfl
          · exact ih t ht
          · exact draws_of_turn hturn (ih u (List.mem_of_getElem? hj))
      | none =>
          cases l with
          | start base code =>
              simp only [System.step] at taken
              split at taken
              · cases taken
                rcases List.mem_append.1 ht with ht | ht
                · exact ih t ht
                · obtain rfl := List.mem_singleton.1 ht
                  exact ⟨hlocks base code X.shared allowed, fun h hh _ => hh⟩
              · exact absurd taken (by simp)
          | env s =>
              cases taken
              exact ih t ht
          | run j => exact absurd hl (by simp [Label.session])
          | fail j => exact absurd hl (by simp [Label.session])
          | lose j => exact absurd hl (by simp [Label.session])
          | crash j => exact absurd hl (by simp [Label.session])

namespace Protocol

variable {P : Protocol σ κ τ} {Q : ρ → Ctx σ κ → σ → Prop} {E : ε → Ctx σ κ → σ → Prop}

/-- **Owners.** What comes about only by holders of a right that is not a right to a row, a session
    brought about that started with this right. -/
theorem Governs.owner (hW : P.Governs Q E W) (h0 : P.inv Y.shared) (hidle : Y.sessions = [])
    (hrun : Run W Y steps Z) (hmeets : ∀ x ∈ steps, P.Meets x.1 x.2)
    (hlocks : ∀ base code s, W.starts base code s → code.LocksOnly rows) {k : κ} (hk : ¬rows k)
    {D : σ → Prop} (hstart : ¬D Y.shared) (henv : ∀ s s', P.env s s' → D s' → D s)
    (hguar : ∀ pt H s s', P.guar pt H s s' → D s' → D s ∨ (k, LockMode.exclusive) ∈ H) (hZ : D Z.shared) :
    ∃ (i : Nat) (t : Session σ κ τ ε ρ), Z.sessions[i]? = some t ∧
      (k, LockMode.exclusive) ∈ t.ctx.base := by
  induction hrun with
  | nil => exact absurd hZ hstart
  | @snoc past X X' l before allowed taken ih =>
      have hpast : ∀ x ∈ past, P.Meets x.1 x.2 := fun x hx => hmeets x (List.mem_append_left _ hx)
      have hl := hmeets (X, l) (List.mem_append_right _ (List.mem_singleton.2 rfl))
      -- Who drew the name before this step still has it.
      have keep : D X.shared → ∃ (i : Nat) (t : Session σ κ τ ε ρ), X'.sessions[i]? = some t ∧
          (k, LockMode.exclusive) ∈ t.ctx.base := by
        intro hX
        obtain ⟨i, t, hi, ht⟩ := ih hpast hX
        obtain ⟨t', hi', hbase⟩ := System.step_base taken hi
        exact ⟨i, t', hi', hbase ▸ ht⟩
      have hgood := hW.good (good_of_idle P h0 hidle) before hpast
      cases hs : l.session with
      | some j =>
          have hlossy : l = .lose j → P.lossy := fun he => hW.lossy (by rw [he] at allowed; exact allowed)
          obtain ⟨u, u', hj, heq, hturn⟩ := System.step_turn hs taken
          obtain ⟨-, hp⟩ := steps_of_turn hturn hj hgood.inv hl hlossy Q E hW.fault (hgood.wp j u hj)
          unfold Promised at hp
          cases hpub : X.publishes l with
          | none =>
              rw [hpub] at hp
              exact keep (hp ▸ hZ)
          | some pt =>
              rw [hpub] at hp
              rcases hguar pt _ _ _ hp.2.2 hZ with hX | hheld
              · exact keep hX
              · have hdraws := before.draws hlocks hidle u (List.mem_of_getElem? hj)
                obtain ⟨t', hi', hbase⟩ := System.step_base taken hj
                exact ⟨j, t', hi', hbase ▸ hdraws.drawn _ hheld hk⟩
      | none =>
          cases l with
          | start base code =>
              obtain ⟨rfl, -⟩ := hgood.start hW allowed taken
              exact keep hZ
          | env s =>
              cases taken
              exact keep (henv _ _ (hW.env _ _ hgood.inv allowed).1 hZ)
          | run j => exact absurd hs (by simp [Label.session])
          | fail j => exact absurd hs (by simp [Label.session])
          | lose j => exact absurd hs (by simp [Label.session])
          | crash j => exact absurd hs (by simp [Label.session])

end Protocol

/-! ## Names that are drawn once -/

namespace Protocol

/-- The protocol that asks for nothing. -/
def lax : Protocol σ κ τ where
  inv _ := True
  guar _ _ _ _ := True
  env _ _ := True
  cond _ _ := True
  lossy := True

omit [DecidableEq κ] [Faulty ε] in
theorem wp_lax (x : Code σ κ τ ε α) (c : Ctx σ κ) (s : σ) :
    (lax : Protocol σ κ τ).wp x (fun _ _ _ => True) (fun _ _ _ => True) c s := by
  induction x generalizing c s with
  | pure a => trivial
  | raise e => trivial
  | step pt act next fail ihn ihf =>
      intro s' _ _
      refine ⟨ihf _ _, fun _ => ?_⟩
      cases act with
      | lock mode row => cases h : row (c.pending s') <;> simp only [h, ihn]
      | effect u => exact ⟨trivial, trivial, ihn _ _ _⟩
      | commit => exact ⟨trivial, trivial, ihn _ _ _, fun _ => ihf _ _⟩
      | _ => exact ihn _ _ _

omit [DecidableEq κ] in
theorem lax_governs (W : Setting σ κ τ ε ρ) :
    (lax : Protocol σ κ τ).Governs (fun _ _ _ => True) (fun _ _ _ => True) W where
  lasting := lasting_true
  lasting_raise := lasting_true
  starts _ code s _ _ := wp_lax code _ s
  env _ _ _ _ := ⟨trivial, trivial⟩
  lossy _ := trivial
  fault _ _ _ := trivial

end Protocol

/-- A session keeps the names that it started with. -/
theorem Run.base_of_start (hrun : Run W Y steps Z) {x : System σ κ τ ε ρ × Label σ κ τ ε ρ} (hx : x ∈ steps)
    {base : Rights κ} {code : Code σ κ τ ε ρ} (hstart : x.2 = .start base code) :
    ∃ t, Z.sessions[x.1.sessions.length]? = some t ∧ t.ctx.base = base := by
  induction hrun with
  | nil => exact absurd hx (by simp)
  | @snoc past X X' l before allowed taken ih =>
      rcases List.mem_append.1 hx with hx | hx
      · obtain ⟨t, ht, hbase⟩ := ih hx
        obtain ⟨t', ht', hbase'⟩ := System.step_base taken ht
        exact ⟨t', ht', hbase'.trans hbase⟩
      · obtain rfl := List.mem_singleton.1 hx
        obtain rfl : l = .start base code := hstart
        simp only [System.step] at taken
        split at taken
        · cases taken
          exact ⟨⟨.start base, code⟩, by simp, rfl⟩
        · exact absurd taken (by simp)

/-- A session starts once. -/
theorem Run.started_once (hrun : Run W Y steps Z) {x y : System σ κ τ ε ρ × Label σ κ τ ε ρ} (hx : x ∈ steps)
    (hy : y ∈ steps) {base base' : Rights κ} {code code' : Code σ κ τ ε ρ} (hstart : x.2 = .start base code)
    (hstart' : y.2 = .start base' code') (hlength : x.1.sessions.length = y.1.sessions.length) : x = y := by
  induction hrun with
  | nil => exact absurd hx (by simp)
  | @snoc past X X' l before allowed taken ih =>
      -- A session that has started is there when another starts.
      have hearlier : ∀ z ∈ past, ∀ base code, z.2 = .start base code → z.1.sessions.length < X.sessions.length := by
        intro z hz base code hz'
        obtain ⟨t, ht, -⟩ := before.base_of_start hz hz'
        exact (List.getElem?_eq_some_iff.1 ht).1
      rcases List.mem_append.1 hx with hx | hx
      · rcases List.mem_append.1 hy with hy | hy
        · exact ih hx hy
        · obtain rfl := List.mem_singleton.1 hy
          exact absurd hlength (Nat.ne_of_lt (hearlier x hx _ _ hstart))
      · obtain rfl := List.mem_singleton.1 hx
        rcases List.mem_append.1 hy with hy | hy
        · exact absurd hlength.symm (Nat.ne_of_lt (hearlier y hy _ _ hstart'))
        · exact (List.mem_singleton.1 hy).symm

/-- No two sessions start with one name. -/
theorem Run.drawn_once (hrun : Run W Y steps Z) (hidle : Y.sessions = [])
    {x y : System σ κ τ ε ρ × Label σ κ τ ε ρ} (hx : x ∈ steps) (hy : y ∈ steps) {base base' : Rights κ}
    {code code' : Code σ κ τ ε ρ} (hstart : x.2 = .start base code) (hstart' : y.2 = .start base' code') {k : κ}
    (hk : (k, LockMode.exclusive) ∈ base) (hk' : (k, LockMode.exclusive) ∈ base') :
    x.1.sessions.length = y.1.sessions.length := by
  have hgood := (Protocol.lax_governs W).good (Protocol.good_of_idle _ trivial hidle) hrun fun _ _ _ _ _ => trivial
  obtain ⟨t, ht, rfl⟩ := hrun.base_of_start hx hstart
  obtain ⟨t', ht', rfl⟩ := hrun.base_of_start hy hstart'
  by_contra hne
  have hcompatible := hgood.compatible _ _ t t' hne ht ht'
  exact hcompatible.ne_of_exclusive (hgood.base _ t ht hk) (hgood.base _ t' ht' hk') rfl

end Runs

end Transactions
