import Rubrica.Transactions.Solo

set_option autoImplicit false

/-! # Stretches one after the other

With nobody else at work, a stretch without commits is a relation between the state it sees first, its value
and the state it sees last (`Code.Ends`). Stretches compose as relations do (`ends_bind`), and a
transaction around a stretch that ends commits the state the stretch has come to
(`alone_transaction_iff`). -/

namespace Transactions

variable {σ κ τ ε α β : Type}

namespace Code

/-- The stretch, which sees `s`, returns `a`, and sees `s'` then. -/
def Ends : Code σ κ τ ε α → σ → α → σ → Prop
  | .pure b, s, a, s' => b = a ∧ s = s'
  | .raise _, _, _, _ => False
  | .step _ act next _, s, a, s' =>
      match act with
      | .write u => (next (u s)).Ends (u s) a s'
      | _ => (next s).Ends s a s'

variable {W : (σ → σ) → Prop} {x : Code σ κ τ ε α} {f : α → Code σ κ τ ε β} {s s' : σ} {a : α} {b : β}

theorem ends_bind : (x >>= f).Ends s b s' ↔ ∃ a t, x.Ends s a t ∧ (f a).Ends t b s' := by
  show (x.bind f).Ends s b s' ↔ _
  induction x generalizing s with
  | pure a =>
      constructor
      · intro h
        exact ⟨a, s, ⟨rfl, rfl⟩, h⟩
      · rintro ⟨a', t, ⟨rfl, rfl⟩, h⟩
        exact h
  | raise e =>
      constructor
      · intro h
        exact h.elim
      · rintro ⟨a, t, h, -⟩
        exact h.elim
  | step pt act next fail ihn _ => cases act <;> exact ihn _

theorem ends_seq {t : σ} (hx : x.Ends s a t) (hf : (f a).Ends t b s') : (x >>= f).Ends s b s' :=
  ends_bind.2 ⟨a, t, hx, hf⟩

theorem ends_pure {c : α} : (Pure.pure c : Code σ κ τ ε α).Ends s a s' ↔ c = a ∧ s = s' := Iff.rfl

theorem ends_require {p : Prop} [Decidable p] {e : ε} {u : Unit} :
    (require p e : Code σ κ τ ε Unit).Ends s u s' ↔ p ∧ s = s' := by
  unfold require
  split
  · next h => simp [Ends, h]
  · next h => simp [Ends, h]

theorem ends_orRaise {o : Option α} {e : ε} :
    (orRaise o e : Code σ κ τ ε α).Ends s a s' ↔ o = some a ∧ s = s' := by
  cases o <;> simp [orRaise, Ends]

theorem ends_onlyIf {p : Prop} [Decidable p] {x : Code σ κ τ ε Unit} {u : Unit} :
    (onlyIf p x).Ends s u s' ↔ (p → x.Ends s u s') ∧ (¬p → s = s') := by
  unfold onlyIf
  split
  · next h => simp [h]
  · next h => simp [h, Ends]

section Statements

variable [Faulty ε]

/-- A query goes on with what it finds. -/
theorem ends_select_bind {point : τ} {q : σ → α} : (select point q >>= f).Ends s b s' ↔ (f (q s)).Ends s b s' :=
  Iff.rfl

theorem ends_selectLocking_bind {point : τ} {mode : LockMode} {row : σ → Option κ} {q : σ → α} :
    (selectLocking point mode row q >>= f).Ends s b s' ↔ (f (q s)).Ends s b s' :=
  Iff.rfl

theorem ends_selectLocking {point : τ} {mode : LockMode} {row : σ → Option κ} {q : σ → α} :
    (selectLocking point mode row q : Code σ κ τ ε α).Ends s a s' ↔ q s = a ∧ s = s' := Iff.rfl

theorem ends_write {point : τ} {v : σ → σ} {u : Unit} :
    (write point v : Code σ κ τ ε Unit).Ends s u s' ↔ v s = s' :=
  ⟨fun h => h.2, fun h => ⟨rfl, h⟩⟩

end Statements

/-- A stretch ends in one way only. -/
theorem Ends.unique {t : σ} {c : α} (h : x.Ends s a s') (h' : x.Ends s c t) : c = a ∧ t = s' := by
  induction x generalizing s with
  | pure b => exact ⟨h'.1.symm.trans h.1, h'.2.symm.trans h.2⟩
  | raise e => exact h.elim
  | step pt act next fail ihn _ => cases act <;> exact ihn _ h h'

/-- What none of a stretch's writes changes is the same at its end. -/
theorem Ends.keeps {γ : Type} {g : σ → γ} (h : x.Ends s a s') (hx : x.Local fun u => ∀ s, g (u s) = g s) :
    g s' = g s := by
  induction x generalizing s with
  | pure b => rw [h.2]
  | raise e => exact h.elim
  | step pt act next fail ihn _ =>
      obtain ⟨hact, hnext, -⟩ := hx
      cases act with
      | read => exact ihn _ h (hnext _)
      | lock mode row => exact ihn _ h (hnext _)
      | write u => exact (ihn _ h (hnext _)).trans (hact s)
      | effect u => exact absurd hact id
      | commit => exact absurd hact id
      | rollback => exact absurd hact id

/-- Alone, with the writes `w` pending, a stretch returns what it ends with, and leaves pending what makes
    of the shared state the one it ends in. -/
theorem ends_iff_alone (hx : x.Local W) (w : σ → σ) :
    x.Ends (w s) a s' ↔ ∃ v, x.alone w s = ⟨.ok a, v, s⟩ ∧ v s = s' := by
  induction x generalizing w with
  | pure b =>
      constructor
      · rintro ⟨rfl, rfl⟩
        exact ⟨w, rfl, rfl⟩
      · rintro ⟨v, h, rfl⟩
        obtain ⟨hb, hv, -⟩ := Ended.mk.inj h
        exact ⟨Except.ok.inj hb, by rw [← hv]⟩
  | raise e =>
      constructor
      · intro h
        exact h.elim
      · rintro ⟨v, h, -⟩
        obtain ⟨he, -, -⟩ := Ended.mk.inj h
        exact absurd he (by simp)
  | step pt act next fail ihn _ =>
      obtain ⟨hact, hnext, -⟩ := hx
      cases act with
      | read => exact ihn _ (hnext _) w
      | lock mode row => exact ihn _ (hnext _) w
      | write u => exact ihn _ (hnext _) (u ∘ w)
      | effect u => exact absurd hact id
      | commit => exact absurd hact id
      | rollback => exact absurd hact id

/-- A transaction returns exactly where its body ends, and commits what the body has come to. -/
theorem alone_transaction_iff [Faulty ε] {quiet : τ} {body : Code σ κ τ ε (α × τ)} (hbody : body.Local W) :
    (Code.transaction quiet body).alone id s = ⟨.ok a, id, s'⟩ ↔ ∃ pt, body.Ends s (a, pt) s' := by
  rw [alone_transaction_local hbody]
  constructor
  · intro h
    cases hr : body.result id s with
    | error e =>
        rw [hr] at h
        obtain ⟨he, -, -⟩ := Ended.mk.inj h
        exact absurd he (by simp)
    | ok r =>
        rw [hr] at h
        obtain ⟨hok, -, hs⟩ := Ended.mk.inj h
        obtain rfl := Except.ok.inj hok
        have halone : body.alone id s =
            ⟨body.result id s, (body.alone id s).pending, (body.alone id s).shared⟩ := rfl
        rw [hr, alone_local hbody] at halone
        exact ⟨r.2, (ends_iff_alone hbody id).2 ⟨_, halone, hs⟩⟩
  · rintro ⟨pt, h⟩
    obtain ⟨v, halone, hv⟩ := (ends_iff_alone hbody id).1 h
    have hr : body.result id s = .ok (a, pt) := by rw [result, halone]
    rw [hr, halone]
    exact congrArg _ hv

/-- Where a transaction returns, it has left nothing pending. -/
theorem exists_alone_transaction [Faulty ε] {quiet : τ} {body : Code σ κ τ ε (α × τ)} (hbody : body.Local W)
    (h : (Code.transaction quiet body).result id s = .ok a) :
    ∃ s', (Code.transaction quiet body).alone id s = ⟨.ok a, id, s'⟩ := by
  unfold result at h
  rw [alone_transaction_local hbody] at h ⊢
  cases hr : body.result id s with
  | ok r =>
      rw [hr] at h
      obtain rfl := Except.ok.inj h
      exact ⟨_, rfl⟩
  | error e =>
      rw [hr] at h
      exact absurd h (by simp)

end Code

end Transactions
