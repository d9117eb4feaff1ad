import Rubrica.Transactions.Program

set_option autoImplicit false

/-! # Programs without transactions

A program that only queries, and whose writes take place at once, runs like an ordinary procedure.
`Code.leads` is its weakest precondition; what it says is what `Code.alone` comes to. -/

namespace Transactions

variable {σ κ τ ε α β : Type}

namespace Code

/-- Run alone from `s`, the program ends with `Q` where it returns and with `E` where it raises; it takes no
    lock and leaves no write uncommitted. -/
def leads : Code σ κ τ ε α → (α → σ → Prop) → (ε → σ → Prop) → σ → Prop
  | .pure a, Q, _, s => Q a s
  | .raise e, _, E, s => E e s
  | .step _ act next _, Q, E, s =>
      match act with
      | .read => (next s).leads Q E s
      | .effect u => (next s).leads Q E (u s)
      | _ => False

variable {x : Code σ κ τ ε α} {Q Q' : α → σ → Prop} {E E' : ε → σ → Prop} {s : σ}

theorem leads_mono (h : x.leads Q E s) (hQ : ∀ a s, Q a s → Q' a s) (hE : ∀ e s, E e s → E' e s) :
    x.leads Q' E' s := by
  induction x generalizing s with
  | pure a => exact hQ a s h
  | raise e => exact hE e s h
  | step pt act next fail ih _ =>
      cases act with
      | read => exact ih _ h
      | effect u => exact ih _ h
      | _ => exact h

/-- Running `x` and then `f` is running `f` where `x` ended. -/
theorem leads_bind {f : α → Code σ κ τ ε β} {Q : β → σ → Prop} :
    (x >>= f).leads Q E s ↔ x.leads (fun a s => (f a).leads Q E s) E s := by
  show (x.bind f).leads Q E s ↔ _
  induction x generalizing s with
  | pure a => rfl
  | raise e => rfl
  | step pt act next fail ih _ =>
      cases act with
      | read => exact ih _
      | effect u => exact ih _
      | _ => rfl

/-- What `leads` says, `alone` comes to. -/
theorem leads_alone (h : x.leads Q E s) : (x.alone id s).pending = id ∧
    (∀ a, (x.alone id s).result = .ok a → Q a (x.alone id s).shared) ∧
    ∀ e, (x.alone id s).result = .error e → E e (x.alone id s).shared := by
  induction x generalizing s with
  | pure a =>
      refine ⟨rfl, fun b hb => ?_, fun e he => absurd he (by simp [alone])⟩
      obtain rfl := Except.ok.inj hb
      exact h
  | raise e =>
      refine ⟨rfl, fun b hb => absurd hb (by simp [alone]), fun e' he => ?_⟩
      obtain rfl := Except.error.inj he
      exact h
  | step pt act next fail ih _ =>
      cases act with
      | read => exact ih _ h
      | effect u => exact ih _ h
      | _ => exact h.elim

/-- An assertion that holds where the program ends, however it ends. -/
theorem leads_shared {A : σ → Prop} (h : x.leads (fun _ => A) (fun _ => A) s) : A (x.alone id s).shared := by
  obtain ⟨-, hok, herror⟩ := leads_alone h
  cases hr : (x.alone id s).result with
  | ok a => exact hok a hr
  | error e => exact herror e hr

theorem leads_seq {f : α → Code σ κ τ ε β} {Q' : β → σ → Prop} (hx : x.leads Q E' s) (hE : ∀ e s, E' e s → E e s)
    (hf : ∀ a s, Q a s → (f a).leads Q' E s) : (x >>= f).leads Q' E s :=
  leads_bind.2 (leads_mono hx hf hE)

theorem leads_require {p : Prop} [Decidable p] {e : ε} {Q : Unit → σ → Prop} :
    (require p e : Code σ κ τ ε Unit).leads Q E s ↔ (p → Q () s) ∧ (¬p → E e s) := by
  unfold require
  split
  · next h => simp [leads, h]
  · next h => simp [leads, h]

theorem leads_orRaise {o : Option α} {e : ε} :
    (orRaise o e : Code σ κ τ ε α).leads Q E s ↔ (∀ a, o = some a → Q a s) ∧ (o = none → E e s) := by
  cases o <;> simp [orRaise, leads]

theorem leads_onlyIf {p : Prop} [Decidable p] {x : Code σ κ τ ε Unit} {Q : Unit → σ → Prop} :
    (onlyIf p x).leads Q E s ↔ (p → x.leads Q E s) ∧ (¬p → Q () s) := by
  unfold onlyIf
  split
  · next h => simp [h]
  · next h => simp [h, leads]

end Code

end Transactions
