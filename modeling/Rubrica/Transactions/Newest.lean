import Mathlib.Data.List.Dedup
import Mathlib.Order.Lattice

set_option autoImplicit false

/-! # Newest-wins registers

A register keeps a value and the time it was written at, and refuses writes that are older. What a
series of writes leaves does not depend on writes that are repeated (`Register.puts_dedup`), and is the
newest write when there is one (`Register.puts_newest`). -/

namespace Transactions

variable {τ α ε : Type}

structure Register (τ α : Type) where
  /-- The time of the last write, if there was one. -/
  time : Option τ
  value : α
  deriving DecidableEq, Repr

namespace Register

/-- What a write leaves that is not refused. -/
def of (u : τ × α) : Register τ α :=
  ⟨some u.1, u.2⟩

variable [LinearOrder τ]

/-- The register holds something newer than `t`. -/
def isNewer (r : Register τ α) (t : τ) : Bool :=
  r.time.any fun last => t < last

/-- A write at a time. -/
def put (r : Register τ α) (u : τ × α) : Register τ α :=
  if r.isNewer u.1 then r else of u

/-- The writes of a series, in order. -/
def puts (f : ε → τ × α) (r : Register τ α) (l : List ε) : Register τ α :=
  l.foldl (fun r e => r.put (f e)) r

variable {r r' : Register τ α} {u v : τ × α} {f : ε → τ × α}

@[simp] theorem isNewer_of (u : τ × α) (t : τ) : (of u).isNewer t = decide (t < u.1) := rfl

theorem put_of_newer (h : r.isNewer u.1 = true) : r.put u = r := if_pos h

theorem put_of_not_newer (h : r.isNewer u.1 = false) : r.put u = of u :=
  if_neg (by simp [h])

/-- What is not newer than a time is not newer than a later one. -/
theorem isNewer_mono {t t' : τ} (h : r.isNewer t = false) (ht : t ≤ t') : r.isNewer t' = false := by
  obtain ⟨time, value⟩ := r
  cases time with
  | none => rfl
  | some last =>
      simp only [isNewer, Option.any_some, decide_eq_false_iff_not, not_lt] at h ⊢
      exact h.trans ht

theorem put_isNewer {t : τ} (h : r.isNewer t = false) (hu : u.1 ≤ t) : (r.put u).isNewer t = false := by
  unfold put
  split
  · exact h
  · simpa using hu

/-- Writing what a later write of the same series repeats changes nothing in the end. -/
theorem puts_of_mem {e : ε} {l : List ε} (he : e ∈ l)
    (h : r = r' ∨ r' = of (f e) ∧ r.isNewer (f e).1 = false) : puts f r' l = puts f r l := by
  induction l generalizing r r' with
  | nil => exact absurd he List.not_mem_nil
  | cons b l ih =>
      rcases h with rfl | ⟨rfl, hr⟩
      · rfl
      rcases List.mem_cons.1 he with rfl | he
      · show puts f ((of (f e)).put (f e)) l = puts f (r.put (f e)) l
        rw [put_of_not_newer hr, put_of_not_newer (by simp)]
      · show puts f ((of (f e)).put (f b)) l = puts f (r.put (f b)) l
        refine ih he ?_
        rcases lt_or_ge (f b).1 (f e).1 with hlt | hle
        · exact Or.inr ⟨put_of_newer (by simpa using hlt), put_isNewer hr hlt.le⟩
        · rw [put_of_not_newer (isNewer_mono hr hle), put_of_not_newer (by simpa using hle)]
          exact Or.inl rfl

/-- A series leaves what it leaves without its repetitions. -/
theorem puts_dedup [DecidableEq ε] (f : ε → τ × α) (r : Register τ α) (l : List ε) :
    puts f r l.dedup = puts f r l := by
  induction l generalizing r with
  | nil => rfl
  | cons e l ih =>
      by_cases he : e ∈ l
      · rw [List.dedup_cons_of_mem he, ih]
        show puts f r l = puts f (r.put (f e)) l
        refine (puts_of_mem he ?_).symm
        by_cases hr : r.isNewer (f e).1 = true
        · exact Or.inl (put_of_newer hr).symm
        · exact Or.inr ⟨put_of_not_newer (by simpa using hr), by simpa using hr⟩
      · rw [List.dedup_cons_of_notMem he]
        exact ih _

/-- The newest write stays, whatever else is written. -/
theorem puts_of_newest {e : ε} {l : List ε} (h : ∀ b ∈ l, b = e ∨ (f b).1 < (f e).1) :
    puts f (of (f e)) l = of (f e) := by
  induction l with
  | nil => rfl
  | cons b l ih =>
      have hput : (of (f e)).put (f b) = of (f e) := by
        rcases h b List.mem_cons_self with rfl | hlt
        · exact put_of_not_newer (by simp)
        · exact put_of_newer (by simpa using hlt)
      show puts f ((of (f e)).put (f b)) l = of (f e)
      rw [hput]
      exact ih fun b' hb' => h b' (List.mem_cons_of_mem _ hb')

/-- A series leaves its newest write, unless what was there is newer still. -/
theorem puts_newest {e : ε} {l : List ε} (he : e ∈ l) (h : ∀ b ∈ l, b = e ∨ (f b).1 < (f e).1)
    (hr : r.isNewer (f e).1 = false) : puts f r l = of (f e) := by
  induction l generalizing r with
  | nil => exact absurd he List.not_mem_nil
  | cons b l ih =>
      have hl : ∀ b' ∈ l, b' = e ∨ (f b').1 < (f e).1 := fun b' hb' => h b' (List.mem_cons_of_mem _ hb')
      show puts f (r.put (f b)) l = of (f e)
      by_cases hb : b = e
      · rw [hb, put_of_not_newer hr]
        exact puts_of_newest hl
      · refine ih ((List.mem_cons.1 he).resolve_left (Ne.symm hb)) hl (put_isNewer hr ?_)
        exact ((h b List.mem_cons_self).resolve_left hb).le

end Register

end Transactions
