import Rubrica.Transactions.Rules

set_option autoImplicit false

/-! # Stretches and transactions alone

What `Code.alone` makes of a stretch without commits, of a transaction around one, and of what is rolled
back in any case. A program that looks only (`Code.Looks`) is nothing but its result. -/

namespace Transactions

variable {σ κ τ ε α β : Type}

namespace Code

/-- The program queries and locks, and writes nothing. -/
abbrev Looks (x : Code σ κ τ ε α) : Prop :=
  x.Local fun _ => False

/-- What the program returns or raises, alone. -/
abbrev result (x : Code σ κ τ ε α) (w : σ → σ) (s : σ) : Except ε α :=
  (x.alone w s).result

variable {W : (σ → σ) → Prop} {x : Code σ κ τ ε α} {f : α → Code σ κ τ ε β} {w : σ → σ} {s : σ}

/-- A stretch without commits leaves the shared state alone. -/
theorem alone_local (hx : x.Local W) (w : σ → σ) (s : σ) : (x.alone w s).shared = s := by
  induction x generalizing w with
  | pure a => rfl
  | raise e => rfl
  | step pt act next fail ihn _ =>
      obtain ⟨hact, hnext, -⟩ := hx
      cases act with
      | read => exact ihn _ (hnext _) _
      | lock mode row => exact ihn _ (hnext _) _
      | write u => exact ihn _ (hnext _) _
      | effect u => exact absurd hact id
      | commit => exact absurd hact id
      | rollback => exact absurd hact id

/-- A program does not both return and raise. -/
theorem ok_ne_error_of_alone {a : α} {e : ε} {w' : σ → σ} {s' : σ} (h : x.alone w s = ⟨.ok a, w', s'⟩)
    (he : x.result w s = .error e) : False := by
  rw [result, h] at he
  exact absurd he (by simp)

theorem alone_looks (hx : x.Looks) (w : σ → σ) (s : σ) : x.alone w s = ⟨x.result w s, w, s⟩ := by
  induction x with
  | pure a => rfl
  | raise e => rfl
  | step pt act next fail ihn _ =>
      obtain ⟨hact, hnext, -⟩ := hx
      cases act with
      | read => exact ihn _ (hnext _)
      | lock mode row => exact ihn _ (hnext _)
      | write u => exact absurd hact id
      | effect u => exact absurd hact id
      | commit => exact absurd hact id
      | rollback => exact absurd hact id

/-- After looking, the program goes on from where it was. -/
theorem alone_bind_looks (hx : x.Looks) (f : α → Code σ κ τ ε β) (w : σ → σ) (s : σ) :
    (x >>= f).alone w s =
      match x.result w s with
      | .ok a => (f a).alone w s
      | .error e => ⟨.error e, w, s⟩ := by
  have h := alone_bind x f w s
  rw [alone_looks hx] at h
  exact h

theorem alone_bind_looks_ok {a : α} (hx : x.Looks) (h : x.result w s = .ok a) :
    (x >>= f).alone w s = (f a).alone w s := by
  rw [alone_bind_looks hx, h]

theorem result_bind_looks (hx : x.Looks) (f : α → Code σ κ τ ε β) (w : σ → σ) (s : σ) :
    (x >>= f).result w s = (x.result w s).bind fun a => (f a).result w s := by
  show ((x >>= f).alone w s).result = _
  rw [alone_bind_looks hx]
  cases x.result w s <;> rfl

theorem result_bind_error {e : ε} (h : x.result w s = .error e) : (x >>= f).result w s = .error e := by
  show ((x.bind f).alone w s).result = _
  rw [alone_bind, show (x.alone w s).result = .error e from h]

theorem alone_bind_error {e : ε} {v : σ → σ} {s' : σ} (h : x.alone w s = ⟨.error e, v, s'⟩)
    (f : α → Code σ κ τ ε β) : (x >>= f).alone w s = ⟨.error e, v, s'⟩ := by
  show (x.bind f).alone w s = _
  rw [alone_bind, h]

/-- What a transaction around a stretch comes to, alone. -/
theorem alone_transaction_local [Faulty ε] {quiet : τ} {body : Code σ κ τ ε (α × τ)}
    (hbody : body.Local W) (s : σ) :
    (Code.transaction quiet body).alone id s =
      match body.result id s with
      | .ok r => ⟨.ok r.1, id, (body.alone id s).pending s⟩
      | .error e => ⟨.error e, id, s⟩ :=
  alone_transaction quiet (alone_local hbody id s)

theorem alone_transaction_error [Faulty ε] {quiet : τ} {body : Code σ κ τ ε (α × τ)} {e : ε} {w' : σ → σ}
    (h : body.alone id s = ⟨.error e, w', s⟩) :
    (Code.transaction quiet body).alone id s = ⟨.error e, id, s⟩ := by
  rw [alone_transaction quiet (by rw [h]), h]

theorem alone_transaction_ok [Faulty ε] {quiet : τ} {body : Code σ κ τ ε (α × τ)} {r : α × τ} {v : σ → σ}
    (h : body.alone id s = ⟨.ok r, v, s⟩) :
    (Code.transaction quiet body).alone id s = ⟨.ok r.1, id, v s⟩ := by
  rw [alone_transaction quiet (by rw [h]), h]

theorem alone_rollingBack_error {quiet : τ} {e : ε} {w' : σ → σ} {s' : σ}
    (h : x.alone w s = ⟨.error e, w', s'⟩) : (rollingBack quiet x).alone w s = ⟨.error e, id, s'⟩ := by
  unfold rollingBack
  rw [alone_tryCatch, h]
  rfl

/-- A transaction raises what its body raises. -/
theorem result_transaction_error [Faulty ε] {quiet : τ} {body : Code σ κ τ ε (α × τ)} {e : ε}
    (h : body.result id s = .error e) : (Code.transaction quiet body).result id s = .error e := by
  have hbody : body.alone id s = ⟨.error e, (body.alone id s).pending, (body.alone id s).shared⟩ := by
    rw [← h]
  exact congrArg Ended.result (alone_rollingBack_error (alone_bind_error hbody _))

/-! ## Refusals -/

/-- The program raises, alone, and has changed nothing that others can see. -/
def Refused (x : Code σ κ τ ε α) (w : σ → σ) (s : σ) : Prop :=
  ∃ e w', x.alone w s = ⟨.error e, w', s⟩

theorem refused_raise (e : ε) : (raise e : Code σ κ τ ε α).Refused w s :=
  ⟨e, w, rfl⟩

/-- A check refuses, or what follows on everything it lets through. -/
theorem refused_bind (hx : x.Looks) (h : ∀ a, x.result w s = .ok a → (f a).Refused w s) :
    (x >>= f).Refused w s := by
  unfold Refused
  rw [alone_bind_looks hx]
  cases hr : x.result w s with
  | ok a => exact h a hr
  | error e => exact ⟨e, w, rfl⟩

theorem refused_bind_of {w' : σ → σ} {a : α} (hx : x.alone w s = ⟨.ok a, w', s⟩) (h : (f a).Refused w' s) :
    (x >>= f).Refused w s := by
  unfold Refused
  rw [alone_bind_of hx]
  exact h

theorem refused_require {p : Prop} [Decidable p] {e : ε} {f : Unit → Code σ κ τ ε β}
    (h : p → (f ()).Refused w s) : (require p e >>= f).Refused w s := by
  by_cases hp : p
  · obtain ⟨e, w', he⟩ := h hp
    exact ⟨e, w', (alone_require_bind hp w s).trans he⟩
  · exact ⟨e, w, alone_require_bind_not hp w s⟩

theorem refused_orRaise {o : Option α} {e : ε} (h : ∀ a, o = some a → (f a).Refused w s) :
    (orRaise o e >>= f).Refused w s := by
  cases o with
  | none => exact ⟨e, w, rfl⟩
  | some a => exact h a rfl

theorem Refused.bind (h : x.Refused w s) (f : α → Code σ κ τ ε β) : (x >>= f).Refused w s := by
  obtain ⟨e, w', he⟩ := h
  exact ⟨e, w', alone_bind_error he f⟩

theorem Refused.rollingBack {quiet : τ} (h : x.Refused w s) : (Code.rollingBack quiet x).Refused w s := by
  obtain ⟨e, w', he⟩ := h
  exact ⟨e, id, alone_rollingBack_error he⟩

theorem Refused.transaction [Faulty ε] {quiet : τ} {body : Code σ κ τ ε (α × τ)} (h : body.Refused id s) :
    (Code.transaction quiet body).Refused id s := by
  obtain ⟨e, w', he⟩ := h
  exact ⟨e, id, alone_transaction_error he⟩

theorem Refused.shared (h : x.Refused w s) : (x.alone w s).shared = s := by
  obtain ⟨e, w', he⟩ := h
  rw [he]

/-- The program, alone, refuses, or ends where it began. -/
def Idle (x : Code σ κ τ ε α) (w : σ → σ) (s : σ) : Prop :=
  x.Refused w s ∨ ∃ a, x.alone w s = ⟨.ok a, w, s⟩

theorem idle_bind (hx : x.Looks) (h : ∀ a, x.result w s = .ok a → (f a).Idle w s) : (x >>= f).Idle w s := by
  unfold Idle Refused
  rw [alone_bind_looks hx]
  cases hr : x.result w s with
  | ok a => exact h a hr
  | error e => exact Or.inl ⟨e, w, rfl⟩

theorem idle_require {p : Prop} [Decidable p] {e : ε} {f : Unit → Code σ κ τ ε β}
    (h : p → (f ()).Idle w s) : (require p e >>= f).Idle w s := by
  by_cases hp : p
  · unfold Idle Refused
    rw [alone_require_bind hp]
    exact h hp
  · exact Or.inl (refused_require fun h => absurd h hp)

theorem Idle.transaction [Faulty ε] {quiet : τ} {body : Code σ κ τ ε (α × τ)} (h : body.Idle id s) :
    ((Code.transaction quiet body).alone id s).shared = s := by
  obtain h | ⟨r, hr⟩ := h
  · exact h.transaction.shared
  · rw [alone_transaction_ok hr]
    rfl

end Code

end Transactions
