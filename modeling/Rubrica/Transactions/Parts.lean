import Rubrica.Transactions.Notes

set_option autoImplicit false

/-! # Programs over a part of the state

A program is written over the tables that it uses. Where it runs beside programs that use others, `Code.zoom`
makes of it a program over the whole state: it queries and writes its own part and leaves the rest alone. -/

namespace Transactions

variable {σ ω κ κ' τ τ' ε α β γ : Type}

/-- A part `σ` of a state `ω`. -/
structure Part (σ ω : Type) where
  get : ω → σ
  set : σ → ω → ω
  get_set : ∀ s w, get (set s w) = s
  set_get : ∀ w, set (get w) w = w
  set_set : ∀ s s' w, set s (set s' w) = set s w

/-- A write of the part. -/
def Part.lift (L : Part σ ω) (u : σ → σ) (w : ω) : ω :=
  L.set (u (L.get w)) w

theorem Part.get_lift (L : Part σ ω) (u : σ → σ) (w : ω) : L.get (L.lift u w) = u (L.get w) :=
  L.get_set _ _

theorem Part.lift_id (L : Part σ ω) : L.lift id = id :=
  funext fun w => L.set_get w

theorem Part.lift_comp (L : Part σ ω) (g u : σ → σ) : L.lift g ∘ L.lift u = L.lift (g ∘ u) := by
  funext w
  simp [Part.lift, L.get_set, L.set_set]

/-- A statement over the part. -/
def Act.zoom (L : Part σ ω) (k : κ → κ') : Act σ κ → Act ω κ'
  | .read => .read
  | .lock mode row => .lock mode fun w => (row (L.get w)).map k
  | .write u => .write (L.lift u)
  | .effect u => .effect (L.lift u)
  | .commit => .commit
  | .rollback => .rollback

/-- A program over the part, with its rows and its points translated. -/
def Code.zoom (L : Part σ ω) (k : κ → κ') (f : τ → τ') : Code σ κ τ ε α → Code ω κ' τ' ε α
  | .pure a => .pure a
  | .raise e => .raise e
  | .step pt act next fail => .step (f pt) (act.zoom L k) (fun w => (next (L.get w)).zoom L k f) (fail.zoom L k f)

namespace Code

variable {L : Part σ ω} {k : κ → κ'} {f : τ → τ'}

theorem zoom_bind (x : Code σ κ τ ε α) (g : α → Code σ κ τ ε β) :
    (x >>= g).zoom L k f = x.zoom L k f >>= fun a => (g a).zoom L k f := by
  show (x.bind g).zoom L k f = (x.zoom L k f).bind _
  induction x with
  | pure a => rfl
  | raise e => rfl
  | step pt act next fail ihn ihf => simp only [bind, zoom, ihn, ihf]

theorem zoom_tryCatch (x : Code σ κ τ ε α) (h : ε → Code σ κ τ ε α) :
    (x.tryCatch h).zoom L k f = (x.zoom L k f).tryCatch fun e => (h e).zoom L k f := by
  induction x with
  | pure a => rfl
  | raise e => rfl
  | step pt act next fail ihn ihf => simp only [tryCatch, zoom, ihn, ihf]

theorem bind_pure_bind (x : Code σ κ τ ε α) (g : α → β) (h : β → Code σ κ τ ε γ) :
    ((x >>= fun a => pure (g a)) >>= h) = x >>= fun a => h (g a) := by
  show (x.bind fun a => .pure (g a)).bind h = x.bind _
  induction x with
  | pure a => rfl
  | raise e => rfl
  | step pt act next fail ihn ihf => simp only [bind, ihn, ihf]

theorem zoom_transaction [Faulty ε] (quiet : τ) (body : Code σ κ τ ε (α × τ)) :
    (transaction quiet body).zoom L k f =
      transaction (f quiet) (body.zoom L k f >>= fun r => pure (r.1, f r.2)) := by
  unfold transaction rollingBack
  rw [zoom_tryCatch]
  congr 1
  show (body >>= _).zoom L k f = ((body.zoom L k f >>= _) >>= _)
  rw [zoom_bind, bind_pure_bind]
  rfl

section Statements

variable [Faulty ε] {point : τ}

theorem zoom_selectLocking (mode : LockMode) (row : σ → Option κ) (query : σ → α) :
    (selectLocking point mode row query : Code σ κ τ ε α).zoom L k f =
      (selectLocking (f point) mode (fun w => (row (L.get w)).map k) (fun w => query (L.get w)) :
        Code ω κ' τ' ε α) := rfl

end Statements

theorem local_zoom {W : (σ → σ) → Prop} {V : (ω → ω) → Prop} (hV : ∀ u, W u → V (L.lift u))
    {x : Code σ κ τ ε α} (hx : x.Local W) : (x.zoom L k f).Local V := by
  induction x with
  | pure a => trivial
  | raise e => trivial
  | step pt act next fail ihn _ =>
      obtain ⟨hact, hnext, e, rfl⟩ := hx
      refine ⟨?_, fun w => ihn (L.get w) (hnext (L.get w)), e, rfl⟩
      cases act with
      | write u => exact hV u hact
      | read => trivial
      | lock mode row => trivial
      | _ => exact hact

theorem within_zoom {V : τ' → Prop} {x : Code σ κ τ ε α} (hx : x.Within fun pt => V (f pt)) :
    (x.zoom L k f).Within V := by
  induction x with
  | pure a => trivial
  | raise e => trivial
  | step pt act next fail ihn ihf => exact ⟨hx.1, fun w => ihn (L.get w) (hx.2.1 (L.get w)), ihf hx.2.2⟩

theorem locksOnly_zoom {R : κ' → Prop} {x : Code σ κ τ ε α} (hx : x.LocksOnly fun r => R (k r)) :
    (x.zoom L k f).LocksOnly R := by
  induction x with
  | pure a => trivial
  | raise e => trivial
  | step pt act next fail ihn ihf =>
      refine ⟨?_, fun w => ihn (L.get w) (hx.2.1 (L.get w)), ihf hx.2.2⟩
      cases act with
      | lock mode row =>
          intro w r hr
          obtain ⟨r', hr', rfl⟩ := Option.map_eq_some_iff.1 hr
          exact hx.1 _ _ hr'
      | _ => trivial

end Code

namespace Story

variable {γ μ : Type} {T : Story ω κ' τ' γ μ} {i : Nat} {L : Part σ ω} {k : κ → κ'} {f : τ → τ'}
  {E : ε → Ctx ω κ' → γ → Prop} {c : Ctx ω κ'} {g : γ}

theorem follows_zoom_bind {x : Code σ κ τ ε α} {h : α → Code σ κ τ ε β} {Q : β → Ctx ω κ' → γ → Prop} :
    T.follows i ((x >>= h).zoom L k f) Q E c g ↔
      T.follows i (x.zoom L k f) (fun a c g => T.follows i ((h a).zoom L k f) Q E c g) E c g := by
  rw [Code.zoom_bind, follows_bind]

theorem follows_zoom_orRaise {o : Option α} {e : ε} {Q : α → Ctx ω κ' → γ → Prop}
    (hQ : ∀ a, o = some a → Q a c g) (hE : o = none → E e c g) :
    T.follows i ((Code.orRaise o e : Code σ κ τ ε α).zoom L k f) Q E c g := by
  cases o with
  | none => exact hE rfl
  | some a => exact hQ a rfl

/-- A transaction over a part. -/
theorem follows_zoom_transaction [Faulty ε] {quiet : τ} {body : Code σ κ τ ε (α × τ)}
    {Q : α → Ctx ω κ' → γ → Prop}
    (hbody : T.follows i (body.zoom L k f) (fun r c g => T.fits g (some (f r.2)) ∧ T.Fails i (f r.2)
        (fun e c g => T.follows i (.step (f quiet) .rollback (fun _ => .raise e) (.raise e) :
          Code ω κ' τ' ε α) Q E c g) c g ∧
          ∀ S, T.inv S → S.held i = c.held → S.note i = g → T.cond (f r.2) S →
            T.Turns i S (T.tell (f r.2) S.shared) (c.pending S.shared) c.base (Q r.1 c.reset) ∧
              T.Turns i S (T.tell (f r.2) S.shared) (c.pending S.shared) c.base fun g =>
                T.follows i (.step (f quiet) .rollback (fun _ => .raise Faulty.fault) (.raise Faulty.fault) :
                  Code ω κ' τ' ε α) Q E c.reset g)
      (fun e c g => T.follows i (.step (f quiet) .rollback (fun _ => .raise e) (.raise e) : Code ω κ' τ' ε α) Q E
        c g) c g) :
    T.follows i ((Code.transaction quiet body).zoom L k f) Q E c g := by
  rw [Code.zoom_transaction]
  exact follows_transaction (follows_bind.2 hbody)

end Story

end Transactions
