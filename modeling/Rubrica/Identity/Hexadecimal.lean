import Mathlib.Data.List.Basic
import Mathlib.Tactic.IntervalCases

set_option autoImplicit false

/-! # Numbers in texts

Hexadecimal digits, written and read, and texts that are filled up to a length. -/

namespace Texts

/-! ## Decimal digits -/

theorem isDigit_of_mem_toString {n : Nat} {c : Char} (h : c ∈ (toString n).toList) : c.isDigit = true := by
  refine Nat.isDigit_of_mem_toDigits (b := 10) (n := n) (by omega) (by omega) ?_
  simpa [toString, Nat.repr] using h

theorem toString_injective : Function.Injective (toString : Nat → String) := by
  intro n m h
  have hdigits : Nat.toDigits 10 n = Nat.toDigits 10 m := by
    rw [← Nat.toList_repr, ← Nat.toList_repr]
    exact congrArg String.toList h
  rw [← Nat.ofDigitChars_ten_toDigits (n := n), hdigits, Nat.ofDigitChars_ten_toDigits]

theorem toList_toString_negSucc (n : Nat) : (toString (Int.negSucc n)).toList = '-' :: (toString (n + 1)).toList := by
  show ("-" ++ Nat.repr (n + 1)).toList = _
  rw [String.toList_append]
  rfl

theorem isDigit_or_minus_of_mem_toString {n : Int} {c : Char} (h : c ∈ (toString n).toList) :
    c.isDigit = true ∨ c = '-' := by
  cases n with
  | ofNat m => exact Or.inl (isDigit_of_mem_toString (n := m) h)
  | negSucc m =>
      rw [toList_toString_negSucc] at h
      rcases List.mem_cons.1 h with rfl | hm
      · exact Or.inr rfl
      · exact Or.inl (isDigit_of_mem_toString hm)

theorem toString_int_injective : Function.Injective (toString : Int → String) := by
  have hminus : ∀ m k : Nat, toString (Int.ofNat m) ≠ toString (Int.negSucc k) := by
    intro m k h
    have hmem : '-' ∈ (toString m).toList := by
      show '-' ∈ (toString (Int.ofNat m)).toList
      rw [h, toList_toString_negSucc]
      exact List.mem_cons_self
    exact absurd (isDigit_of_mem_toString hmem) (by decide)
  intro n m h
  cases n with
  | ofNat a =>
      cases m with
      | ofNat b => exact congrArg Int.ofNat (toString_injective h)
      | negSucc b => exact absurd h (hminus a b)
  | negSucc a =>
      cases m with
      | ofNat b => exact absurd h.symm (hminus b a)
      | negSucc b =>
          have hlist := congrArg String.toList h
          rw [toList_toString_negSucc, toList_toString_negSucc] at hlist
          have hnat := toString_injective (String.toList_inj.1 (List.cons.inj hlist).2)
          rw [Nat.succ.inj hnat]

/-! ## Hexadecimal digits -/

/-- `to_hex`, and `%x`. -/
def toHex (n : Nat) : List Char :=
  Nat.toDigits 16 n

/-- The value of a digit, of either case. -/
def hexDigit (c : Char) : Option Nat :=
  if 48 ≤ c.toNat ∧ c.toNat ≤ 57 then some (c.toNat - 48)
  else if 97 ≤ c.toNat ∧ c.toNat ≤ 102 then some (c.toNat - 87)
  else if 65 ≤ c.toNat ∧ c.toNat ≤ 70 then some (c.toNat - 55)
  else none

/-- The number that digits write on after a number. -/
def readHex : Nat → List Char → Option Nat
  | n, [] => some n
  | n, c :: s => (hexDigit c).bind fun d => readHex (16 * n + d) s

theorem hexDigit_digitChar {d : Nat} (h : d < 16) : hexDigit (Nat.digitChar d) = some d := by
  interval_cases d <;> rfl

theorem readHex_append (n : Nat) (s t : List Char) :
    readHex n (s ++ t) = (readHex n s).bind fun m => readHex m t := by
  induction s generalizing n with
  | nil => rfl
  | cons c s ih =>
      rw [List.cons_append, readHex, readHex]
      cases hexDigit c with
      | none => rfl
      | some d => exact ih _

/-- What is written is read. -/
theorem readHex_toHex (n : Nat) : readHex 0 (toHex n) = some n := by
  induction n using Nat.strong_induction_on with
  | _ n ih =>
      unfold toHex at ih ⊢
      by_cases h : n < 16
      · rw [Nat.toDigits_of_lt_base h, readHex, hexDigit_digitChar h]
        simp [readHex]
      · rw [Nat.toDigits_of_base_le (by omega) (by omega), readHex_append,
          ih (n / 16) (Nat.div_lt_self (by omega) (by omega)), Option.bind_some, readHex,
          hexDigit_digitChar (Nat.mod_lt _ (by omega)), Option.bind_some, readHex, Nat.div_add_mod]

theorem isSome_hexDigit_of_mem {n : Nat} {c : Char} (h : c ∈ toHex n) : (hexDigit c).isSome = true := by
  have hread : ∀ (s : List Char) (m : Nat), (readHex m s).isSome = true → ∀ c ∈ s, (hexDigit c).isSome = true := by
    intro s
    induction s with
    | nil => simp
    | cons c s ih =>
        intro m hsome c' hc'
        rw [readHex] at hsome
        cases hd : hexDigit c with
        | none => simp [hd] at hsome
        | some d =>
            rw [hd, Option.bind_some] at hsome
            rcases List.mem_cons.1 hc' with rfl | hc'
            · rw [hd]
              rfl
            · exact ih _ hsome c' hc'
  exact hread (toHex n) 0 (by rw [readHex_toHex]; rfl) c h

/-- Digits can be read. -/
theorem exists_readHex {s : List Char} (h : ∀ c ∈ s, (hexDigit c).isSome = true) (n : Nat) :
    ∃ m, readHex n s = some m := by
  induction s generalizing n with
  | nil => exact ⟨n, rfl⟩
  | cons c s ih =>
      obtain ⟨hc, hs⟩ := List.forall_mem_cons.1 h
      obtain ⟨d, hd⟩ := Option.isSome_iff_exists.1 hc
      obtain ⟨m, hm⟩ := ih hs (16 * n + d)
      exact ⟨m, by rw [readHex, hd, Option.bind_some, hm]⟩

/-! ## Texts of a length -/

/-- `lpad`: fills up from the left, and cuts off what is too long. -/
def lpad (length : Nat) (fill : Char) (s : List Char) : List Char :=
  List.replicate (length - s.length) fill ++ s.take length

theorem length_lpad (length : Nat) (fill : Char) (s : List Char) : (lpad length fill s).length = length := by
  rw [lpad, List.length_append, List.length_replicate, List.length_take]
  omega

theorem lpad_of_le {length : Nat} {fill : Char} {s : List Char} (h : s.length ≤ length) :
    lpad length fill s = List.replicate (length - s.length) fill ++ s := by
  rw [lpad, List.take_of_length_le h]

/-- `zfill`: fills up from the left. -/
def zfill (length : Nat) (s : List Char) : List Char :=
  List.replicate (length - s.length) '0' ++ s

theorem readHex_replicate (k : Nat) : readHex 0 (List.replicate k '0') = some 0 := by
  induction k with
  | zero => rfl
  | succ k ih => exact ih

theorem readHex_zfill (length n : Nat) : readHex 0 (zfill length (toHex n)) = some n := by
  rw [zfill, readHex_append, readHex_replicate, Option.bind_some, readHex_toHex]

theorem length_toHex_le {n k : Nat} (hk : 0 < k) (h : n < 16 ^ k) : (toHex n).length ≤ k :=
  (Nat.length_toDigits_le_iff (by omega) hk).2 h

theorem isSome_hexDigit_zfill {length n : Nat} {c : Char} (h : c ∈ zfill length (toHex n)) :
    (hexDigit c).isSome = true := by
  rcases List.mem_append.1 h with hzero | hdigit
  · rw [List.eq_of_mem_replicate hzero]
    rfl
  · exact isSome_hexDigit_of_mem hdigit

end Texts
