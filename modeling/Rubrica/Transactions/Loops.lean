import Rubrica.Transactions.Rules

set_option autoImplicit false

/-! # Loops

`for x in l: f(x)` is `l.forM f`. A loop keeps what each of its rounds keeps, and alone it comes to its rounds in
order. `Code.Frames` is for a stretch that writes outside the transaction only. -/

namespace Transactions

variable {σ κ τ ε α β γ : Type}

/-! ## Loops among others -/

/-- A loop, with an invariant about the rounds that are done. -/
theorem Protocol.wp_forM {P : Protocol σ κ τ} {E : ε → Ctx σ κ → σ → Prop} {c : Ctx σ κ} {s : σ}
    {f : α → Code σ κ τ ε PUnit} {I : List α → σ → Prop} {l : List α} (hb : c.base ⊆ c.held)
    (h : ∀ done x t, x ∈ l → I done t → P.wp (f x) (fun _ c' t' => c' = c ∧ I (done ++ [x]) t') E c t)
    (hs : I [] s) : P.wp (l.forM f) (fun _ c' t => c' = c ∧ I l t) E c s := by
  suffices hrest : ∀ rest done t, (∀ x ∈ rest, x ∈ l) → I done t →
      P.wp (rest.forM f) (fun _ c' t' => c' = c ∧ I (done ++ rest) t') E c t by
    have hloop := hrest l [] s (fun _ hx => hx) hs
    rwa [List.nil_append] at hloop
  intro rest
  induction rest with
  | nil =>
      intro done t _ hdone
      exact ⟨rfl, by rwa [List.append_nil]⟩
  | cons x rest ih =>
      intro done t hmem hdone
      refine wp_seq (wp_mono (h done x t (hmem x List.mem_cons_self) hdone) hb ?_ fun _ _ _ _ hE => hE)
      rintro _ c' t' _ ⟨rfl, hround⟩
      have hloop := ih (done ++ [x]) t' (fun y hy => hmem y (List.mem_cons_of_mem _ hy)) hround
      rwa [List.append_assoc, List.singleton_append] at hloop

/-! ## Loops alone -/

/-- A loop whose rounds write outside the transaction only, alone, is its rounds in order. -/
theorem Code.alone_forM {f : α → Code σ κ τ ε PUnit} {g : α → σ → σ} {J : σ → Prop} {l : List α} {w : σ → σ}
    (h : ∀ x ∈ l, ∀ s, J s → (f x).alone w s = ⟨.ok (), w, g x s⟩ ∧ J (g x s)) {s : σ} (hs : J s) :
    (l.forM f).alone w s = ⟨.ok (), w, l.foldl (fun s x => g x s) s⟩ := by
  induction l generalizing s with
  | nil => rfl
  | cons x l ih =>
      obtain ⟨hx, hJ⟩ := h x List.mem_cons_self s hs
      exact (Code.alone_bind_of hx).trans (ih (fun y hy => h y (List.mem_cons_of_mem _ hy)) hJ)

/-! ## Stretches outside the transaction -/

namespace Code

/-- The program queries, and writes outside the transaction what `f` does not see. -/
def Frames (f : σ → γ) : Code σ κ τ ε α → Prop
  | .pure _ => True
  | .raise _ => True
  | .step _ act next _ =>
      (match act with
        | .read => True
        | .effect u => ∀ s, f (u s) = f s
        | _ => False) ∧
      ∀ v, (next v).Frames f

variable {f : σ → γ}

theorem frames_bind {x : Code σ κ τ ε α} {g : α → Code σ κ τ ε β} (hx : x.Frames f)
    (hg : ∀ a, (g a).Frames f) : (x >>= g).Frames f := by
  show (x.bind g).Frames f
  induction x with
  | pure a => exact hg a
  | raise e => trivial
  | step pt act next fail ihn _ => exact ⟨hx.1, fun v => ihn v (hx.2 v)⟩

theorem frames_tryCatch {x : Code σ κ τ ε α} {g : ε → Code σ κ τ ε α} (hx : x.Frames f)
    (hg : ∀ e, (g e).Frames f) : (x.tryCatch g).Frames f := by
  induction x with
  | pure a => trivial
  | raise e => exact hg e
  | step pt act next fail ihn _ => exact ⟨hx.1, fun v => ihn v (hx.2 v)⟩

theorem frames_require (p : Prop) [Decidable p] (e : ε) : (require p e : Code σ κ τ ε Unit).Frames f := by
  unfold require
  split <;> trivial

theorem frames_orRaise (a : Option α) (e : ε) : (orRaise a e : Code σ κ τ ε α).Frames f := by
  cases a <;> trivial

theorem frames_select [Faulty ε] (point : τ) (query : σ → α) :
    (select point query : Code σ κ τ ε α).Frames f :=
  ⟨trivial, fun _ => trivial⟩

theorem frames_effect [Faulty ε] (point : τ) {u : σ → σ} (query : σ → α) (hu : ∀ s, f (u s) = f s) :
    (effect point u query : Code σ κ τ ε α).Frames f :=
  ⟨hu, fun _ => trivial⟩

theorem frames_forM {g : α → Code σ κ τ ε PUnit} {l : List α} (h : ∀ x ∈ l, (g x).Frames f) :
    (l.forM g).Frames f := by
  induction l with
  | nil => trivial
  | cons x l ih =>
      exact frames_bind (h x List.mem_cons_self) fun _ => ih fun y hy => h y (List.mem_cons_of_mem _ hy)

/-- Alone, such a stretch leaves the transaction as it was, and what `f` sees. -/
theorem Frames.alone {x : Code σ κ τ ε α} (hx : x.Frames f) (w : σ → σ) (s : σ) :
    (x.alone w s).pending = w ∧ f (x.alone w s).shared = f s := by
  induction x generalizing s with
  | pure a => exact ⟨rfl, rfl⟩
  | raise e => exact ⟨rfl, rfl⟩
  | step pt act next fail ihn _ =>
      obtain ⟨hact, hnext⟩ := hx
      cases act with
      | read => exact ihn _ (hnext _) s
      | effect u =>
          obtain ⟨hpending, hshared⟩ := ihn _ (hnext _) (u s)
          exact ⟨hpending, hshared.trans (hact s)⟩
      | lock mode row => exact absurd hact id
      | write u => exact absurd hact id
      | commit => exact absurd hact id
      | rollback => exact absurd hact id

end Code

end Transactions
