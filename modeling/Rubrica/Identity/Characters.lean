import Mathlib.Data.List.Basic

set_option autoImplicit false

/-! # Texts and the classes of their characters

The methods of a text that ask what its characters are. The tables of Unicode are a parameter: `CharacterData`
says of them what the methods rely on. -/

namespace Texts

/-- Text in the first block of Unicode. -/
def isAscii (c : Char) : Bool :=
  c.toNat < 128

/-- The tables of Unicode. -/
structure CharacterData where
  isAlpha : Char → Bool
  isDigit : Char → Bool
  isNumeric : Char → Bool
  isSpace : Char → Bool
  /-- The value of a decimal digit. -/
  decimal : Char → Option Nat
  /-- A character can have several capitals: `ß` has two. -/
  upper : Char → List Char
  /-- Of a whole text: the small letter of a final sigma is another one. -/
  lower : List Char → List Char
  digit_upper : ∀ c, isDigit c = true → upper c = [c]
  upper_digit : ∀ c, isDigit c = false → ∀ d ∈ upper c, isDigit d = false
  space : ∀ c, isSpace c = true →
    (isAlpha c || (decimal c).isSome || isDigit c || isNumeric c) = false
  ascii_space : ∀ c, isAscii c = true → isSpace c = true → c.toNat ≤ 32
  ascii_lower : ∀ s, s.all isAscii = true → lower s = s.map Char.toLower

namespace CharacterData

variable (t : CharacterData)

/-- `isalnum`. -/
def isAlnum (c : Char) : Bool :=
  t.isAlpha c || (t.decimal c).isSome || t.isDigit c || t.isNumeric c

/-- `upper`. -/
def upperText (s : List Char) : List Char :=
  s.flatMap t.upper

/-- `strip`. -/
def strip (s : List Char) : List Char :=
  ((s.dropWhile t.isSpace).reverse.dropWhile t.isSpace).reverse

variable {t}

theorem isAlnum_of_isDigit {c : Char} (h : t.isDigit c = true) : t.isAlnum c = true := by
  simp [isAlnum, h]

/-- What no white space is keeps out of `strip`'s way. -/
theorem filter_dropWhile {p : Char → Bool} (h : ∀ c, t.isSpace c = true → p c = false) (s : List Char) :
    (s.dropWhile t.isSpace).filter p = s.filter p := by
  induction s with
  | nil => rfl
  | cons c s ih =>
      rw [List.dropWhile_cons]
      split
      · next hc => rw [ih, List.filter_cons_of_neg (by simp [h c hc])]
      · rfl

theorem filter_strip {p : Char → Bool} (h : ∀ c, t.isSpace c = true → p c = false) (s : List Char) :
    (t.strip s).filter p = s.filter p := by
  rw [strip, List.filter_reverse, filter_dropWhile h, List.filter_reverse, List.reverse_reverse,
    filter_dropWhile h]

/-- Capitals are no digits, and digits have no others. -/
theorem digits_upperText (s : List Char) : (t.upperText s).filter t.isDigit = s.filter t.isDigit := by
  induction s with
  | nil => rfl
  | cons c s ih =>
      simp only [upperText, List.flatMap_cons, List.filter_append] at ih ⊢
      rw [ih]
      cases hc : t.isDigit c with
      | true => simp [t.digit_upper c hc, hc]
      | false =>
          have hnone : (t.upper c).filter t.isDigit = [] :=
            List.filter_eq_nil_iff.2 fun d hd => by simp [t.upper_digit c hc d hd]
          simp [hnone, hc]

/-- The digits among the letters and digits are the digits. -/
theorem digits_alnums (s : List Char) :
    (s.filter t.isAlnum).filter t.isDigit = s.filter t.isDigit := by
  rw [List.filter_filter]
  refine List.filter_congr fun c _ => ?_
  cases hc : t.isDigit c <;> simp [isAlnum_of_isDigit, hc]

/-- A text of ASCII that begins and ends with a visible character. -/
theorem strip_ascii {s : List Char} (hs : s.all isAscii = true) (hvisible : s.all (fun c => 32 < c.toNat) = true) :
    t.strip s = s := by
  have hspace : ∀ c ∈ s, t.isSpace c = false := by
    intro c hc
    by_contra h
    have hle := t.ascii_space c (List.all_eq_true.1 hs c hc) (by simpa using h)
    have hlt := List.all_eq_true.1 hvisible c hc
    simp only [decide_eq_true_eq] at hlt
    omega
  have hdrop : ∀ l : List Char, (∀ c ∈ l, t.isSpace c = false) → l.dropWhile t.isSpace = l := by
    intro l hl
    cases l with
    | nil => rfl
    | cons c l => rw [List.dropWhile_cons_of_neg (by simp [hl c (by simp)])]
  rw [strip, hdrop s hspace, hdrop _ fun c hc => hspace c (List.mem_reverse.1 hc), List.reverse_reverse]

end CharacterData

/-! ## The table of ASCII -/

/-- White space in ASCII. -/
def isAsciiSpace (c : Char) : Bool :=
  (9 ≤ c.toNat && c.toNat ≤ 13) || (28 ≤ c.toNat && c.toNat ≤ 32)

/-- The capital of a small letter of ASCII. -/
def asciiUpper (c : Char) : Char :=
  if 97 ≤ c.toNat ∧ c.toNat ≤ 122 then Char.ofNat (c.toNat - 32) else c

theorem isDigit_iff {c : Char} : c.isDigit = true ↔ 48 ≤ c.toNat ∧ c.toNat ≤ 57 := by
  simp only [Char.isDigit, Char.toNat, Bool.and_eq_true, decide_eq_true_eq, ge_iff_le, UInt32.le_iff_toNat_le]
  exact Iff.rfl

theorem asciiUpper_of_isDigit {c : Char} (h : c.isDigit = true) : asciiUpper c = c := by
  have hdigit := isDigit_iff.1 h
  rw [asciiUpper, if_neg (by omega)]

theorem isDigit_asciiUpper {c : Char} (h : c.isDigit = false) : (asciiUpper c).isDigit = false := by
  rw [asciiUpper]
  split
  · next hsmall =>
    have hvalid : (c.toNat - 32).isValidChar := Or.inl (by omega)
    have hchar : Char.ofNat (c.toNat - 32) = Char.ofNatAux (c.toNat - 32) hvalid := dif_pos hvalid
    have hnat : (Char.ofNat (c.toNat - 32)).toNat = c.toNat - 32 := by
      rw [hchar]
      rfl
    rw [Bool.eq_false_iff]
    intro hdigit
    have hle := (isDigit_iff.1 hdigit).2
    omega
  · exact h

/-- The value of a digit of ASCII. -/
def asciiDecimal (c : Char) : Option Nat :=
  if c.isDigit then some (c.toNat - 48) else none

theorem toNat_of_isAsciiSpace {c : Char} (h : isAsciiSpace c = true) : c.toNat ≤ 32 := by
  simp only [isAsciiSpace, Bool.or_eq_true, Bool.and_eq_true, decide_eq_true_eq] at h
  omega

/-- White space is neither letter nor digit. -/
theorem not_alnum_of_isAsciiSpace {c : Char} (h : isAsciiSpace c = true) :
    (c.isAlpha || (asciiDecimal c).isSome || c.isDigit || c.isDigit) = false := by
  have hle : c.val.toNat ≤ 32 := toNat_of_isAsciiSpace h
  have hvisible : ∀ n : UInt32, 32 < n.toNat → decide (n ≤ c.val) = false := by
    intro n hn
    rw [decide_eq_false_iff_not, UInt32.le_iff_toNat_le]
    omega
  have hdigit : c.isDigit = false := Bool.and_eq_false_iff.2 (Or.inl (hvisible '0'.val (by decide)))
  have hupper : c.isUpper = false := by
    have hnot : ¬ 'A'.val ≤ c.val := of_decide_eq_false (hvisible 'A'.val (by decide))
    exact decide_eq_false fun hboth => hnot hboth.1
  have hlower : c.isLower = false := Bool.and_eq_false_iff.2 (Or.inl (hvisible 'a'.val (by decide)))
  have halpha : c.isAlpha = false := Bool.or_eq_false_iff.2 ⟨hupper, hlower⟩
  rw [halpha, hdigit, asciiDecimal, hdigit]
  rfl

theorem isDigit_of_mem_upper {c d : Char} (h : c.isDigit = false) (hd : d ∈ [asciiUpper c]) :
    d.isDigit = false := by
  rw [List.mem_singleton.1 hd]
  exact isDigit_asciiUpper h

/-- What the tables say of ASCII; all other characters are of no class. -/
def asciiData : CharacterData where
  isAlpha := Char.isAlpha
  isDigit := Char.isDigit
  isNumeric := Char.isDigit
  isSpace := isAsciiSpace
  decimal := asciiDecimal
  upper c := [asciiUpper c]
  lower s := s.map Char.toLower
  digit_upper _ h := congrArg (fun d => [d]) (asciiUpper_of_isDigit h)
  upper_digit _ h _ := isDigit_of_mem_upper h
  space _ := not_alnum_of_isAsciiSpace
  ascii_space _ _ := toNat_of_isAsciiSpace
  ascii_lower _ _ := rfl

end Texts
