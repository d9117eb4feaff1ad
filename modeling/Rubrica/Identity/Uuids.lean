import Rubrica.Billing.Account
import Rubrica.Identity.Hexadecimal

set_option autoImplicit false

/-! # Texts of identifiers

`str(uuid)`, the `uuid` type of PostgreSQL, and the identifiers that the migration to UUIDs computes from
integers. -/

namespace Rubrica

open Texts

/-! ## Texts -/

/-- `UUID(int=n)`; it raises `ValueError` where the number has more than 128 bits. -/
def uuidOfInt (n : Nat) : Option UUID :=
  if n < 2 ^ 128 then some n else none

/-- Digits in groups of 8, 4, 4, 4 and the rest. -/
def grouped (s : List Char) : List Char :=
  s.take 8 ++ '-' :: ((s.drop 8).take 4 ++ '-' :: ((s.drop 12).take 4 ++ '-' ::
    ((s.drop 16).take 4 ++ '-' :: s.drop 20)))

/-- `str(uuid)`, of its number. -/
def uuidString (n : UUID) : String :=
  String.ofList (grouped (zfill 32 (toHex n)))

theorem ne_hyphen_of_hexDigit {c : Char} (h : (hexDigit c).isSome = true) : c ≠ '-' := by
  rintro rfl
  exact absurd h (by decide)

theorem filter_grouped {s : List Char} (h : ∀ c ∈ s, c ≠ '-') : (grouped s).filter (fun c => c ≠ '-') = s := by
  have hall : ∀ t : List Char, (∀ c ∈ t, c ∈ s) → t.filter (fun c => c ≠ '-') = t := by
    intro t ht
    exact List.filter_eq_self.2 fun c hc => decide_eq_true (h c (ht c hc))
  have hparts : s = s.take 8 ++ ((s.drop 8).take 4 ++ ((s.drop 12).take 4 ++ ((s.drop 16).take 4 ++ s.drop 20))) := by
    conv_lhs => rw [← List.take_append_drop 8 s, ← List.take_append_drop 4 (s.drop 8), List.drop_drop,
      ← List.take_append_drop 4 (s.drop 12), List.drop_drop, ← List.take_append_drop 4 (s.drop 16), List.drop_drop]
  have htake : ∀ k m, ∀ c ∈ (s.drop k).take m, c ∈ s := fun k m c hc => List.mem_of_mem_drop (List.mem_of_mem_take hc)
  have hhyphen : ∀ t : List Char, ('-' :: t).filter (fun c => c ≠ '-') = t.filter fun c => c ≠ '-' := fun _ => rfl
  rw [grouped, List.filter_append, hhyphen, List.filter_append, hhyphen, List.filter_append, hhyphen,
    List.filter_append, hhyphen, hall _ fun c hc => List.mem_of_mem_take hc, hall _ (htake 8 4), hall _ (htake 12 4),
    hall _ (htake 16 4), hall _ fun c hc => List.mem_of_mem_drop hc]
  exact hparts.symm

/-- The text tells the identifier. -/
theorem uuidString_injective : Function.Injective uuidString := by
  intro n m h
  have hfilter : ∀ k : UUID, (grouped (zfill 32 (toHex k))).filter (fun c => c ≠ '-') = zfill 32 (toHex k) :=
    fun k => filter_grouped fun c hc => ne_hyphen_of_hexDigit (isSome_hexDigit_zfill hc)
  have hlist : zfill 32 (toHex n) = zfill 32 (toHex m) := by
    rw [← hfilter n, ← hfilter m, String.ofList_inj.1 h]
  exact Option.some.inj ((readHex_zfill 32 n).symm.trans (hlist ▸ readHex_zfill 32 m))

theorem hyphen_mem_uuidString (n : UUID) : '-' ∈ (uuidString n).toList := by
  simp [uuidString, grouped]

/-- A text of an identifier has no other characters than digits and hyphens. -/
theorem hexDigit_of_mem_uuidString {n : UUID} {c : Char} (h : c ∈ (uuidString n).toList) :
    c = '-' ∨ (hexDigit c).isSome = true := by
  have hmem : ∀ c ∈ grouped (zfill 32 (toHex n)), c = '-' ∨ c ∈ zfill 32 (toHex n) := by
    intro c hc
    by_cases hhyphen : c = '-'
    · exact Or.inl hhyphen
    · have hfilter := filter_grouped (s := zfill 32 (toHex n)) fun c hc =>
        ne_hyphen_of_hexDigit (isSome_hexDigit_zfill hc)
      exact Or.inr (hfilter ▸ List.mem_filter.2 ⟨hc, decide_eq_true hhyphen⟩)
  rw [uuidString, String.toList_ofList] at h
  exact (hmem c h).imp_right isSome_hexDigit_zfill

/-! ## `uuid` -/

def withoutHyphen : List Char → List Char
  | '-' :: s => s
  | s => s

/-- Groups of four digits, with an optional hyphen between two groups. -/
def uuidGroups : Nat → Nat → List Char → Option Nat
  | 0, n, [] => some n
  | k + 1, n, a :: b :: c :: d :: s => (readHex n [a, b, c, d]).bind fun m =>
      uuidGroups k m (if k = 0 then s else withoutHyphen s)
  | _, _, _ => none

/-- `text::uuid`: 32 digits, which may stand in braces. -/
def castUuid : List Char → Option UUID
  | '\x7b' :: s => if s.getLast? = some '\x7d' then uuidGroups 8 0 s.dropLast else none
  | s => uuidGroups 8 0 s

theorem withoutHyphen_digits {s : List Char} (h : ∀ c ∈ s, (hexDigit c).isSome = true) : withoutHyphen s = s := by
  unfold withoutHyphen
  split
  · exact absurd (h '-' (by simp)) (by decide)
  · rfl

/-- Digits without hyphens are read as one number. -/
theorem uuidGroups_digits (k n : Nat) {s : List Char} (hlength : s.length = 4 * k)
    (h : ∀ c ∈ s, (hexDigit c).isSome = true) : uuidGroups k n s = readHex n s := by
  induction k generalizing n s with
  | zero =>
      obtain rfl := List.length_eq_zero_iff.1 hlength
      rfl
  | succ k ih =>
      match s with
      | a :: b :: c :: d :: s =>
          have hs : ∀ c' ∈ s, (hexDigit c').isSome = true := fun c' hc' => h c' (by simp [hc'])
          have hrest : (if k = 0 then s else withoutHyphen s) = s := by
            rw [withoutHyphen_digits hs, ite_self]
          have hsplit : readHex n (a :: b :: c :: d :: s) = (readHex n [a, b, c, d]).bind fun m => readHex m s :=
            readHex_append n [a, b, c, d] s
          rw [uuidGroups, hrest, hsplit]
          exact congrArg _ (funext fun m => ih m (by simp at hlength; omega) hs)
      | [] | [_] | [_, _] | [_, _, _] =>
          simp only [List.length_cons, List.length_nil] at hlength
          omega

/-! ## Identifiers of the migration -/

/-- `'00000000-0000-0000-0000-' || lpad(hex, 12, '0')`. -/
def migratedText (hex : List Char) : List Char :=
  List.replicate 8 '0' ++ '-' :: (List.replicate 4 '0' ++ '-' :: (List.replicate 4 '0' ++ '-' ::
    (List.replicate 4 '0' ++ '-' :: lpad 12 '0' hex)))

theorem castUuid_migratedText {hex : List Char} (h : ∀ c ∈ lpad 12 '0' hex, (hexDigit c).isSome = true) :
    castUuid (migratedText hex) = readHex 0 (lpad 12 '0' hex) := by
  rw [← uuidGroups_digits 3 0 (length_lpad _ _ _) h]
  rfl

/-- `_uuid` of migration 0007, for an integer column. -/
def migratedId (n : Nat) : Option UUID :=
  castUuid (migratedText (toHex n))

/-- `_uuid` of migration 0007, for a number of 64 bits with a sign, which is written in two's complement. -/
def migratedBigint (n : Int) : Option UUID :=
  castUuid (migratedText (toHex (n % 2 ^ 64).toNat))

/-- The cast to `uuid` never fails, whatever the number is. -/
theorem exists_castUuid (n : Nat) : ∃ id, castUuid (migratedText (toHex n)) = some id := by
  have hdigits : ∀ c ∈ lpad 12 '0' (toHex n), (hexDigit c).isSome = true := by
    intro c hc
    rcases List.mem_append.1 hc with hzero | hdigit
    · rw [List.eq_of_mem_replicate hzero]
      rfl
    · exact isSome_hexDigit_of_mem (List.mem_of_mem_take hdigit)
  rw [castUuid_migratedText hdigits]
  exact exists_readHex hdigits 0

/-- **What SQL computes is `UUID(int=n)`**, also as a text, for every number of up to 48 bits. -/
theorem migratedId_eq {n : Nat} (h : n < 2 ^ 48) :
    migratedId n = uuidOfInt n ∧ String.ofList (migratedText (toHex n)) = uuidString n := by
  have hlength : (toHex n).length ≤ 12 := length_toHex_le (by omega) (by omega)
  have hlpad : lpad 12 '0' (toHex n) = zfill 12 (toHex n) := lpad_of_le hlength
  constructor
  · rw [migratedId, castUuid_migratedText, hlpad, readHex_zfill, uuidOfInt, if_pos (by omega)]
    rw [hlpad]
    exact fun c hc => isSome_hexDigit_zfill hc
  · have hzfill : zfill 32 (toHex n) = List.replicate 20 '0' ++ zfill 12 (toHex n) := by
      rw [zfill, zfill, ← List.append_assoc, List.replicate_append_replicate]
      congr 2
      omega
    rw [uuidString, hzfill, migratedText, hlpad]
    rfl

end Rubrica
