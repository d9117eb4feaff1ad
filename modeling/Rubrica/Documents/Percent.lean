import Rubrica.Identity.Hexadecimal

set_option autoImplicit false

/-! # Percent-encoding, and the parameters of a header

Bytes written as text with `%` and two digits for each that is not written as itself, and read back; and where
a header value is cut into parameters: at the semicolons outside quotes. -/

namespace Texts

/-! ## Bytes as text -/

/-- A byte that is a character of the text it is written in. -/
def charOfByte (b : UInt8) : Char :=
  Char.ofUInt8 b

/-- `_ALWAYS_SAFE`: letters, digits and `_.-~` are written as they are. -/
def isAlwaysSafe (b : UInt8) : Bool :=
  (charOfByte b).isAlphanum || charOfByte b = '_' || charOfByte b = '.' || charOfByte b = '-' || charOfByte b = '~'

/-- A digit of `%X`. -/
def capitalDigit (d : Nat) : Char :=
  if d < 10 then Char.ofNat (48 + d) else Char.ofNat (55 + d)

/-- `'%{:02X}'`, or the byte as it is. -/
def quoteByte (b : UInt8) : List Char :=
  if isAlwaysSafe b then [charOfByte b] else ['%', capitalDigit (b.toNat / 16), capitalDigit (b.toNat % 16)]

/-- `quote_from_bytes`, with nothing else that is safe. -/
def quoteBytes (bytes : List UInt8) : List Char :=
  bytes.flatMap quoteByte

/-- The bytes that a text is the percent-encoding of. -/
def unquoteBytes : List Char → Option (List UInt8)
  | [] => some []
  | c :: s =>
      if c = '%' then
        match s with
        | high :: low :: rest => (hexDigit high).bind fun x => (hexDigit low).bind fun y =>
            (unquoteBytes rest).map fun bytes => UInt8.ofNat (16 * x + y) :: bytes
        | _ => none
      else if c.toNat < 128 then (unquoteBytes s).map fun bytes => UInt8.ofNat c.toNat :: bytes
      else none

theorem hexDigit_capitalDigit {d : Nat} (h : d < 16) : hexDigit (capitalDigit d) = some d := by
  interval_cases d <;> rfl

theorem toNat_charOfByte (b : UInt8) : (charOfByte b).toNat = b.toNat := by
  show (Char.ofUInt8 b).val.toNat = b.toNat
  exact UInt8.toNat_toUInt32 b

/-- What can stand in a header value outside quotes: no blank, no control character, nothing that ends a
    parameter or begins a quoted one. -/
def isValueChar (c : Char) : Bool :=
  33 ≤ c.toNat && c.toNat ≤ 126 && c ≠ '"' && c ≠ '\\' && c ≠ ';'

theorem range_of_isAlphanum {c : Char} (h : c.isAlphanum = true) :
    48 ≤ c.toNat ∧ c.toNat ≤ 57 ∨ 65 ≤ c.toNat ∧ c.toNat ≤ 90 ∨ 97 ≤ c.toNat ∧ c.toNat ≤ 122 := by
  have hcode : c.val.toNat = c.toNat := rfl
  have halnum : c.isAlphanum = ((decide (c.val ≥ 'A'.val ∧ c.val ≤ 'Z'.val) ||
      decide (c.val ≥ 'a'.val) && decide (c.val ≤ 'z'.val)) || decide (c.val ≥ '0'.val) && decide (c.val ≤ '9'.val)) :=
    rfl
  simp only [halnum, Bool.or_eq_true, Bool.and_eq_true, decide_eq_true_eq, ge_iff_le, UInt32.le_iff_toNat_le, hcode,
    Char.reduceVal, UInt32.reduceToNat] at h
  omega

theorem isAlphanum_capitalDigit {d : Nat} (h : d < 16) : (capitalDigit d).isAlphanum = true := by
  interval_cases d <;> rfl

/-- What a byte is written with. -/
theorem mem_quoteByte {b : UInt8} {c : Char} (h : c ∈ quoteByte b) :
    c.isAlphanum = true ∨ c ∈ ['_', '.', '-', '~', '%'] := by
  have hlt : b.toNat < 256 := UInt8.toNat_lt_size b
  unfold quoteByte at h
  split at h
  · next hsafe =>
    rw [List.mem_singleton.1 h]
    simp only [isAlwaysSafe, Bool.or_eq_true, decide_eq_true_eq] at hsafe
    simp only [List.mem_cons]
    tauto
  · rcases List.mem_cons.1 h with rfl | h
    · right
      simp
    · left
      rcases List.mem_cons.1 h with rfl | h
      · exact isAlphanum_capitalDigit (by omega)
      · rw [List.mem_singleton.1 h]
        exact isAlphanum_capitalDigit (by omega)

theorem isValueChar_of_mem_quoteByte {b : UInt8} {c : Char} (h : c ∈ quoteByte b) : isValueChar c = true := by
  rcases mem_quoteByte h with halphanum | hmark
  · have hrange := range_of_isAlphanum halphanum
    have hne : ∀ d : Char, d.isAlphanum = false → c ≠ d := by
      intro d hd heq
      rw [heq, hd] at halphanum
      exact absurd halphanum (by simp)
    simp only [isValueChar, Bool.and_eq_true, decide_eq_true_eq]
    exact ⟨⟨⟨⟨by omega, by omega⟩, hne _ rfl⟩, hne _ rfl⟩, hne _ rfl⟩
  · have hmarks : ['_', '.', '-', '~', '%'].all isValueChar = true := by decide
    exact List.all_eq_true.1 hmarks c hmark

theorem ascii_of_isAlwaysSafe {b : UInt8} (h : isAlwaysSafe b = true) : charOfByte b ≠ '%' ∧ b.toNat < 128 := by
  simp only [isAlwaysSafe, Bool.or_eq_true, decide_eq_true_eq] at h
  rw [← toNat_charOfByte]
  rcases h with (((halphanum | h) | h) | h) | h
  · have hrange := range_of_isAlphanum halphanum
    refine ⟨fun heq => ?_, by omega⟩
    rw [heq] at halphanum
    exact absurd halphanum (by decide)
  all_goals
    rw [h]
    decide

theorem isValueChar_of_mem_quoteBytes {bytes : List UInt8} {c : Char} (h : c ∈ quoteBytes bytes) :
    isValueChar c = true := by
  obtain ⟨b, -, hc⟩ := List.mem_flatMap.1 h
  exact isValueChar_of_mem_quoteByte hc

theorem unquoteBytes_cons {c : Char} (h : c ≠ '%') (s : List Char) : unquoteBytes (c :: s) =
    if c.toNat < 128 then (unquoteBytes s).map fun bytes => UInt8.ofNat c.toNat :: bytes else none := by
  conv_lhs => unfold unquoteBytes
  exact if_neg h

theorem unquoteBytes_quoteByte (b : UInt8) (s : List Char) :
    unquoteBytes (quoteByte b ++ s) = (unquoteBytes s).map fun bytes => b :: bytes := by
  have hlt : b.toNat < 256 := UInt8.toNat_lt_size b
  unfold quoteByte
  split
  · next hsafe =>
    obtain ⟨hne, hascii⟩ := ascii_of_isAlwaysSafe hsafe
    rw [List.cons_append, List.nil_append, unquoteBytes_cons hne, toNat_charOfByte, if_pos hascii,
      UInt8.ofNat_toNat]
  · have hhigh : hexDigit (capitalDigit (b.toNat / 16)) = some (b.toNat / 16) := hexDigit_capitalDigit (by omega)
    have hlow : hexDigit (capitalDigit (b.toNat % 16)) = some (b.toNat % 16) := hexDigit_capitalDigit (by omega)
    have hbyte : 16 * (b.toNat / 16) + b.toNat % 16 = b.toNat := Nat.div_add_mod _ _
    simp only [List.cons_append, List.nil_append, unquoteBytes, if_true, hhigh, hlow, Option.bind_some, hbyte,
      UInt8.ofNat_toNat]

/-- **What is percent-encoded can be read back.** -/
theorem unquoteBytes_quoteBytes (bytes : List UInt8) : unquoteBytes (quoteBytes bytes) = some bytes := by
  induction bytes with
  | nil => rfl
  | cons b bytes ih =>
      rw [quoteBytes, List.flatMap_cons, unquoteBytes_quoteByte]
      rw [quoteBytes] at ih
      rw [ih, Option.map_some]

/-! ## Texts -/

/-- `quote` with nothing else that is safe: the text is encoded as UTF-8. -/
def quote (text : String) : List Char :=
  quoteBytes text.toByteArray.data.toList

/-- The text that a percent-encoding of UTF-8 stands for. -/
def unquote (s : List Char) : Option String :=
  (unquoteBytes s).bind fun bytes => String.fromUTF8? ⟨bytes.toArray⟩

theorem unquote_quote (text : String) : unquote (quote text) = some text := by
  rw [unquote, quote, unquoteBytes_quoteBytes, Option.bind_some, Array.toArray_toList]
  exact dif_pos text.isValidUTF8

/-! ## Parameters -/

/-- Where a reader of a header value is: outside quotes, in quotes, or after a backslash in quotes. -/
inductive Reading where
  | plain
  | quoted
  | escaped
  deriving DecidableEq, Repr

def Reading.next : Reading → Char → Reading
  | .plain, c => if c = '"' then .quoted else .plain
  | .quoted, c => if c = '"' then .plain else if c = '\\' then .escaped else .quoted
  | .escaped, _ => .quoted

/-- A header value, cut at the semicolons outside quotes. -/
def parameters : Reading → List Char → List (List Char)
  | _, [] => [[]]
  | r, c :: s =>
      if r = .plain ∧ c = ';' then [] :: parameters r s
      else (parameters (r.next c) s).modifyHead (c :: ·)

theorem parameters_semicolon (s : List Char) : parameters .plain (';' :: s) = [] :: parameters .plain s := rfl

theorem parameters_quote (s : List Char) :
    parameters .plain ('"' :: s) = (parameters .quoted s).modifyHead ('"' :: ·) := rfl

theorem modifyHead_cons_append (c : Char) (s : List Char) (l : List (List Char)) :
    (l.modifyHead (s ++ ·)).modifyHead (c :: ·) = l.modifyHead (c :: s ++ ·) := by
  rw [List.modifyHead_modifyHead]
  rfl

/-- Outside quotes, what neither ends a parameter nor begins a quoted string belongs to the parameter. -/
theorem parameters_plain {s : List Char} (h : ∀ c ∈ s, c ≠ ';' ∧ c ≠ '"') (t : List Char) :
    parameters .plain (s ++ t) = (parameters .plain t).modifyHead (s ++ ·) := by
  induction s with
  | nil => exact (congrFun List.modifyHead_id _).symm
  | cons c s ih =>
      obtain ⟨⟨hsemicolon, hquote⟩, hs⟩ := List.forall_mem_cons.1 h
      rw [List.cons_append, parameters, if_neg (fun hc => hsemicolon hc.2), Reading.next, if_neg hquote, ih hs,
        modifyHead_cons_append]

/-- In quotes everything does, up to the next quote that is not escaped. -/
theorem parameters_quoted {s : List Char} (h : ∀ c ∈ s, c ≠ '"' ∧ c ≠ '\\') (t : List Char) :
    parameters .quoted (s ++ '"' :: t) = (parameters .plain t).modifyHead (s ++ '"' :: ·) := by
  induction s with
  | nil => rfl
  | cons c s ih =>
      obtain ⟨⟨hquote, hbackslash⟩, hs⟩ := List.forall_mem_cons.1 h
      have hnext : Reading.quoted.next c = .quoted := by
        rw [Reading.next, if_neg hquote, if_neg hbackslash]
      rw [List.cons_append, parameters, if_neg (fun hc => nomatch hc.1), hnext, ih hs, List.modifyHead_modifyHead]
      rfl

end Texts
