import Rubrica.Transactions.Parts
import Rubrica.Transactions.Rules

set_option autoImplicit false

/-! # Protocols of a part

A program that keeps the protocol of a part of the state keeps the one of the whole, if the whole promises no
less there and interferes with the part no more (`Protocol.Embeds`). -/

namespace Transactions

variable {σ ω κ τ τ' ε α : Type}

/-- The context of a program over a part, as one over the whole. -/
def Ctx.along (L : Part σ ω) (c : Ctx σ κ) : Ctx ω κ :=
  ⟨c.base, c.held, L.lift c.pending⟩

theorem Ctx.along_start (L : Part σ ω) (base : Rights κ) : (Ctx.start base).along L = Ctx.start base := by
  simp [Ctx.along, Ctx.start, L.lift_id]

theorem Ctx.along_reset (L : Part σ ω) (c : Ctx σ κ) : (c.along L).reset = c.reset.along L := by
  simp [Ctx.along, Ctx.reset, L.lift_id]

/-- The protocol of a part within the one of the whole. -/
structure Protocol.Embeds (L : Part σ ω) (f : τ → τ') (P : Protocol σ κ τ) (P' : Protocol ω κ τ') : Prop where
  inv : ∀ w, P'.inv w → P.inv (L.get w)
  set : ∀ w s, P'.inv w → P.inv s → P'.inv (L.set s w)
  guar : ∀ pt H w s, P.guar pt H (L.get w) s → P'.guar (f pt) H w (L.set s w)
  interferes : ∀ H w w', P'.Interferes H w w' → P.Rely H (L.get w) (L.get w')
  cond : ∀ pt w, P'.cond (f pt) w → P.cond pt (L.get w)
  lossy : P'.lossy → P.lossy

namespace Protocol

variable {L : Part σ ω} {f : τ → τ'} {P : Protocol σ κ τ} {P' : Protocol ω κ τ'} {Q : α → Ctx σ κ → σ → Prop}
  {E : ε → Ctx σ κ → σ → Prop} {Q' : α → Ctx ω κ → ω → Prop} {E' : ε → Ctx ω κ → ω → Prop}

theorem Embeds.rely (h : P.Embeds L f P') {H : Rights κ} {w w' : ω} (hr : P'.Rely H w w') :
    P.Rely H (L.get w) (L.get w') := by
  induction hr with
  | refl => exact Relation.ReflTransGen.refl
  | tail _ hi ih => exact ih.trans (h.interferes _ _ _ hi)

theorem Embeds.stable (h : P.Embeds L f P') {H : Rights κ} {A : σ → Prop} (hA : P.Stable H A) :
    P'.Stable H fun w => A (L.get w) :=
  fun _ _ hi ha => hA.rely (h.interferes _ _ _ hi) ha

/-- A program over a part keeps the protocol of the whole. -/
theorem wp_zoom (h : P.Embeds L f P') {x : Code σ κ τ ε α} {c : Ctx σ κ} {w : ω}
    (hx : P.wp x Q E c (L.get w)) (hQ : ∀ a c w, Q a c (L.get w) → Q' a (c.along L) w)
    (hE : ∀ e c w, E e c (L.get w) → E' e (c.along L) w) : P'.wp (x.zoom L id f) Q' E' (c.along L) w := by
  induction x generalizing c w with
  | pure a => exact hQ a c w hx
  | raise e => exact hE e c w hx
  | step pt act next fail ihn ihf =>
      intro w' hr hinv
      obtain ⟨hfail, hgo⟩ := hx (L.get w') (h.rely hr) (h.inv w' hinv)
      refine ⟨?_, fun hc => ?_⟩
      · rw [Ctx.along_reset]
        exact ihf hfail
      have hgo := hgo (h.cond pt w' hc)
      -- What a statement sees of the whole shows it the part.
      have hsees : L.get ((c.along L).pending w') = c.pending (L.get w') := L.get_lift _ _
      cases act with
      | read =>
          simp only [Act.zoom, hsees]
          exact ihn _ hgo
      | lock mode row =>
          simp only [Act.zoom, hsees]
          cases hrow : row (c.pending (L.get w')) with
          | none =>
              simp only [hrow] at hgo
              exact ihn _ hgo
          | some r =>
              simp only [hrow] at hgo
              exact ihn _ hgo
      | write g =>
          have hbuffer : (c.along L).buffer (L.lift g) = (c.buffer g).along L := by
            simp [Ctx.along, Ctx.buffer, L.lift_comp]
          simp only [Act.zoom, L.get_lift, hsees, hbuffer]
          exact ihn _ hgo
      | effect g =>
          obtain ⟨hinv', hguar, hnext⟩ := hgo
          simp only [Act.zoom, hsees]
          refine ⟨h.set _ _ hinv hinv', h.guar _ _ _ _ hguar, ihn _ ?_⟩
          rw [L.get_lift]
          exact hnext
      | commit =>
          obtain ⟨hinv', hguar, hnext, hlost⟩ := hgo
          have hpending : (c.along L).pending w' = L.set (c.pending (L.get w')) w' := rfl
          simp only [Act.zoom, hsees, Ctx.along_reset]
          rw [hpending]
          refine ⟨h.set _ _ hinv hinv', h.guar _ _ _ _ hguar, ihn _ ?_, fun hl => ihf ?_⟩
          · rw [L.get_set]
            exact hnext
          · rw [L.get_set]
            exact hlost (h.lossy hl)
      | rollback =>
          simp only [Act.zoom, Ctx.along_reset]
          exact ihn _ hgo

end Protocol

end Transactions
