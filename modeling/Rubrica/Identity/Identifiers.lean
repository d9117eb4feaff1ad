import Rubrica.Identity.Characters
import Rubrica.Platform

set_option autoImplicit false

/-! # Identifiers of persons and companies

`normalize_cnpj` of the core service and `validate_identifier` of the authentication service, each with its own
filter for the characters of a value. -/

namespace Rubrica

open Texts

/-! ## Check digits -/

section Digits

variable (t : CharacterData)

/-- `int`, of one character. -/
def int (c : Char) : Except Failure Nat :=
  match t.decimal c with
  | some n => .ok n
  | none => .error (.other "ValueError")

/-- `sum(int(digit) * weight ..)`. -/
def weightedSum : List Char → List Nat → Except Failure Nat
  | [], [] => .ok 0
  | c :: digits, weight :: weights => do
    let n ← int t c
    let rest ← weightedSum digits weights
    pure (n * weight + rest)
  | _, _ => .error (.other "ValueError")

/-- The loop over the check digits: each stands at an index, after the digits it is computed from. -/
def checkDigits (expected : Nat → Nat) (error : Failure) (normalized : List Char) :
    List (List Nat × Nat) → Except Failure Unit
  | [] => .ok ()
  | (weights, index) :: rest => do
    let total ← weightedSum t (normalized.take index) weights
    match normalized[index]? with
    | none => .error (.other "IndexError")
    | some c => do
      let digit ← int t c
      if expected total ≠ digit then .error error
      else checkDigits expected error normalized rest

/-- `normalized == normalized[0] * n`, of a text that is not empty. -/
def isRepeated (normalized : List Char) : Bool :=
  normalized.all fun c => some c = normalized.head?

def cnpjWeights : List (List Nat) :=
  [[5, 4, 3, 2, 9, 8, 7, 6, 5, 4, 3, 2], [6, 5, 4, 3, 2, 9, 8, 7, 6, 5, 4, 3, 2]]

/-- The check digit of a CNPJ. -/
def cnpjExpected (total : Nat) : Nat :=
  if total % 11 < 2 then 0 else 11 - total % 11

/-- The check digit of a CPF. -/
def cpfExpected (total : Nat) : Nat :=
  (total * 10 % 11) % 10

end Digits

/-! ## The core service -/

def invalidCnpj : Failure :=
  .other "InvalidBusinessIdentifierError"

/-- `normalize_cnpj`. -/
def normalizeCnpj (t : CharacterData) (value : String) : Except Failure String :=
  let normalized := value.toList.filter t.isDigit
  if normalized.length ≠ 14 ∨ isRepeated normalized then .error invalidCnpj
  else do
    checkDigits t cnpjExpected invalidCnpj normalized (cnpjWeights.zipIdx 12)
    pure (String.ofList normalized)

/-- `protect_cnpj`, with Fernet and HMAC under the keys of the settings. -/
def protectCnpj (t : CharacterData) (encrypt hmac : String → String) (value : String) :
    Except Failure ProtectedCnpj := do
  let normalized ← normalizeCnpj t value
  pure ⟨encrypt normalized, hmac normalized,
    "••.•••.•••/••••-" ++ String.ofList (normalized.toList.drop (normalized.length - 2))⟩

/-! ## The authentication service -/

def ALIASES : List (String × String) :=
  [("passport", "PASSPORT"), ("national_id", "NATIONAL_ID"), ("residence_card", "RESIDENCE_CARD"),
    ("driver_license", "DRIVER_LICENSE"), ("tax_id", "TAX_ID"), ("other", "OTHER"), ("br_cpf", "BR_CPF"),
    ("br_cnpj", "BR_CNPJ"), ("pt_nif", "PT_NIF"), ("jp_my_number", "JP_MY_NUMBER")]

def invalidIdentifier : Failure :=
  .other "InvalidIdentifierError"

section Identifiers

variable (t : CharacterData)

/-- `normalize_identifier_type`. -/
def normalizeIdentifierType (value : String) : String :=
  let normalized := String.ofList (t.lower (t.strip value.toList))
  (ALIASES.lookup normalized).getD (String.ofList (t.upperText (t.strip value.toList)))

/-- `normalize_identifier`. -/
def normalizeIdentifier (value : String) : List Char :=
  (t.strip (t.upperText value.toList)).filter t.isAlnum

/-- `validate_identifier`. -/
def validateIdentifier (jpMyNumberEnabled : Bool) (identifierType value : String) : Except Failure String := do
  let normalizedType := normalizeIdentifierType t identifierType
  let normalized := normalizeIdentifier t value
  if normalizedType = "JP_MY_NUMBER" ∧ ¬jpMyNumberEnabled then .error invalidIdentifier
  else if normalizedType = "BR_CPF" then
    if normalized.length ≠ 11 ∨ ¬normalized.all t.isDigit ∨ isRepeated normalized then .error invalidIdentifier
    else do
      checkDigits t cpfExpected invalidIdentifier normalized
        ([9, 10].map fun size => ((List.range size).map fun n => size + 1 - n, size))
      pure (String.ofList normalized)
  else if normalizedType = "BR_CNPJ" then
    if normalized.length ≠ 14 ∨ ¬normalized.all t.isDigit ∨ isRepeated normalized then .error invalidIdentifier
    else do
      checkDigits t cnpjExpected invalidIdentifier normalized (cnpjWeights.zipIdx 12)
      pure (String.ofList normalized)
  else if normalizedType = "PT_NIF" then
    if normalized.length ≠ 9 ∨ ¬normalized.all t.isDigit then .error invalidIdentifier
    else pure (String.ofList normalized)
  else if ¬(4 ≤ normalized.length ∧ normalized.length ≤ 80) then .error invalidIdentifier
  else pure (String.ofList normalized)

end Identifiers

/-! ## What a CNPJ is -/

section Cnpj

variable (t : CharacterData)

/-- The check digit of digits with weights. -/
def checkDigitOf (digits weights : List Nat) : Nat :=
  cnpjExpected ((List.zipWith (· * ·) digits weights).foldr (· + ·) 0)

/-- Fourteen decimal digits, not all the same, of which the last two check the others. -/
structure IsCnpj (digits : List Char) : Prop where
  length : digits.length = 14
  varied : ∃ c ∈ digits, some c ≠ digits.head?
  checked : ∃ values : List Nat, digits.map t.decimal = values.map some ∧
    values[12]? = some (checkDigitOf (values.take 12) [5, 4, 3, 2, 9, 8, 7, 6, 5, 4, 3, 2]) ∧
    values[13]? = some (checkDigitOf (values.take 13) [6, 5, 4, 3, 2, 9, 8, 7, 6, 5, 4, 3, 2])

variable {t} {error : Failure} {normalized : List Char}

theorem int_eq_ok {c : Char} {n : Nat} : int t c = .ok n ↔ t.decimal c = some n := by
  unfold int
  split
  · next m h => simp [h]
  · next h => simp [h]

/-- The sum of decimal digits, each with a weight. -/
theorem weightedSum_eq_ok {digits : List Char} {weights : List Nat} {total : Nat} :
    weightedSum t digits weights = .ok total ↔ digits.length = weights.length ∧ ∃ values : List Nat,
      digits.map t.decimal = values.map some ∧ total = (List.zipWith (· * ·) values weights).foldr (· + ·) 0 := by
  induction digits generalizing weights total with
  | nil =>
      cases weights with
      | nil =>
          simp only [weightedSum, Except.ok.injEq, List.length_nil, true_and, List.map_nil]
          refine ⟨fun h => ⟨[], rfl, h.symm⟩, ?_⟩
          rintro ⟨values, hvalues, rfl⟩
          cases values with
          | nil => rfl
          | cons v values => exact absurd hvalues (by simp)
      | cons weight weights => simp [weightedSum]
  | cons c digits ih =>
      cases weights with
      | nil => simp [weightedSum]
      | cons weight weights =>
          have hstep : weightedSum t (c :: digits) (weight :: weights) = .ok total ↔
              ∃ n rest, t.decimal c = some n ∧ weightedSum t digits weights = .ok rest ∧
                n * weight + rest = total := by
            simp only [weightedSum]
            constructor
            · intro h
              obtain ⟨n, hn, h⟩ := bind_eq_ok.1 h
              obtain ⟨rest, hrest, h⟩ := bind_eq_ok.1 h
              exact ⟨n, rest, int_eq_ok.1 hn, hrest, Except.ok.inj h⟩
            · rintro ⟨n, rest, hn, hrest, rfl⟩
              rw [int_eq_ok.2 hn, hrest]
              rfl
          rw [hstep]
          constructor
          · rintro ⟨n, rest, hn, hrest, rfl⟩
            obtain ⟨hlen, values, hvalues, rfl⟩ := ih.1 hrest
            exact ⟨by simp [hlen], n :: values, by simp [hn, hvalues], by simp⟩
          · rintro ⟨hlen, values, hvalues, rfl⟩
            cases values with
            | nil => exact absurd hvalues (by simp)
            | cons n values =>
                simp only [List.map_cons, List.cons.injEq] at hvalues
                exact ⟨n, _, hvalues.1, ih.2 ⟨by simpa using hlen, values, hvalues.2, rfl⟩, by simp⟩

/-- One turn of the loop over the check digits. -/
theorem checkDigits_cons {expected : Nat → Nat} {weights : List Nat} {index : Nat}
    {rest : List (List Nat × Nat)} :
    checkDigits t expected error normalized ((weights, index) :: rest) = .ok () ↔
      (∃ total c, weightedSum t (normalized.take index) weights = .ok total ∧ normalized[index]? = some c ∧
        t.decimal c = some (expected total)) ∧ checkDigits t expected error normalized rest = .ok () := by
  simp only [checkDigits]
  constructor
  · intro h
    obtain ⟨total, htotal, h⟩ := bind_eq_ok.1 h
    cases hc : normalized[index]? with
    | none =>
        rw [hc] at h
        exact absurd h (by simp)
    | some c =>
        rw [hc] at h
        obtain ⟨digit, hdigit, h⟩ := bind_eq_ok.1 h
        split at h
        · exact absurd h (by simp)
        · next heq => exact ⟨⟨total, c, htotal, rfl, by rw [not_not.1 heq, int_eq_ok.1 hdigit]⟩, h⟩
  · rintro ⟨⟨total, c, htotal, hc, hdigit⟩, h⟩
    refine bind_eq_ok.2 ⟨total, htotal, ?_⟩
    rw [hc]
    refine bind_eq_ok.2 ⟨expected total, int_eq_ok.2 hdigit, ?_⟩
    rw [if_neg (not_not.2 rfl)]
    exact h

/-- What the loops of both services accept. -/
theorem checkDigits_cnpj (hlen : normalized.length = 14) :
    checkDigits t cnpjExpected error normalized (cnpjWeights.zipIdx 12) = .ok () ↔
      ∃ values : List Nat, normalized.map t.decimal = values.map some ∧
        values[12]? = some (checkDigitOf (values.take 12) [5, 4, 3, 2, 9, 8, 7, 6, 5, 4, 3, 2]) ∧
        values[13]? = some (checkDigitOf (values.take 13) [6, 5, 4, 3, 2, 9, 8, 7, 6, 5, 4, 3, 2]) := by
  -- The digits before an index, of a text whose values are known.
  have before : ∀ {values v : List Nat} {n : Nat}, normalized.map t.decimal = values.map some →
      (normalized.take n).map t.decimal = v.map some → values.take n = v := by
    intro values v n hvalues hv
    rw [List.map_take, hvalues, ← List.map_take] at hv
    exact List.map_injective_iff.2 (Option.some_injective Nat) hv
  have standing : ∀ {values : List Nat} {n : Nat} {c : Char}, normalized.map t.decimal = values.map some →
      normalized[n]? = some c → t.decimal c = values[n]? := by
    intro values n c hvalues hc
    have h := congrArg (fun l => l[n]?) hvalues
    simp only [List.getElem?_map, hc, Option.map_some] at h
    cases hv : values[n]? with
    | none => simp [hv] at h
    | some d => simpa [hv] using h
  simp only [cnpjWeights, List.zipIdx_cons, List.zipIdx_nil, checkDigits_cons]
  constructor
  · rintro ⟨⟨first, c, hfirst, hc, hcheck⟩, ⟨second, d, hsecond, hd, hcheck'⟩, -⟩
    obtain ⟨-, v, hv, rfl⟩ := weightedSum_eq_ok.1 hfirst
    obtain ⟨-, w, hw, rfl⟩ := weightedSum_eq_ok.1 hsecond
    have hsplit : normalized = normalized.take 13 ++ [d] := by
      have hdrop : normalized.drop 13 = [d] := by
        rw [List.drop_eq_getElem_cons (by omega), List.drop_eq_nil_of_le (by omega)]
        rw [List.getElem?_eq_getElem (by omega), Option.some.injEq] at hd
        rw [hd]
      rw [← hdrop, List.take_append_drop]
    obtain ⟨last, hlast⟩ : ∃ n, t.decimal d = some n := ⟨_, hcheck'⟩
    have hvalues : normalized.map t.decimal = (w ++ [last]).map some := by
      rw [hsplit, List.map_append, hw, List.map_append, List.map_singleton, hlast]
      rfl
    refine ⟨_, hvalues, ?_, ?_⟩
    · rw [← standing hvalues hc, hcheck, before hvalues hv]
      rfl
    · rw [← standing hvalues hd, hcheck', before hvalues hw]
      rfl
  · rintro ⟨values, hvalues, hfirst, hsecond⟩
    -- One turn: the digits before the index, and the digit at it.
    have turn : ∀ {n : Nat} {weights : List Nat}, n < 14 → weights.length = n →
        values[n]? = some (checkDigitOf (values.take n) weights) →
        ∃ total c, weightedSum t (normalized.take n) weights = .ok total ∧ normalized[n]? = some c ∧
          t.decimal c = some (cnpjExpected total) := by
      intro n weights hn hweights hcheck
      refine ⟨_, normalized[n], weightedSum_eq_ok.2 ⟨?_, values.take n, ?_, rfl⟩,
        List.getElem?_eq_getElem (by omega), ?_⟩
      · rw [List.length_take, hweights]
        omega
      · rw [List.map_take, hvalues, List.map_take]
      · rw [standing hvalues (List.getElem?_eq_getElem (by omega)), hcheck]
        rfl
    exact ⟨turn (by omega) rfl hfirst, turn (by omega) rfl hsecond, rfl⟩

/-- What both services accept, once they have filtered the characters. -/
theorem isCnpj_iff (error : Failure) : IsCnpj t normalized ↔ normalized.length = 14 ∧ isRepeated normalized = false ∧
    checkDigits t cnpjExpected error normalized (cnpjWeights.zipIdx 12) = .ok () := by
  have hvaried : isRepeated normalized = false ↔ ∃ c ∈ normalized, some c ≠ normalized.head? := by
    simp [isRepeated, List.all_eq_false]
  rw [hvaried]
  exact ⟨fun h => ⟨h.length, h.varied, (checkDigits_cnpj h.length).2 h.checked⟩,
    fun ⟨hlen, hvaried, hchecked⟩ => ⟨hlen, hvaried, (checkDigits_cnpj hlen).1 hchecked⟩⟩

variable {value v : String}

theorem checked_eq_ok : (do
      checkDigits t cnpjExpected error normalized (cnpjWeights.zipIdx 12)
      pure (String.ofList normalized)) = .ok v ↔
    checkDigits t cnpjExpected error normalized (cnpjWeights.zipIdx 12) = .ok () ∧
      v = String.ofList normalized := by
  rw [bind_eq_ok]
  constructor
  · rintro ⟨_, hcheck, h⟩
    exact ⟨hcheck, (Except.ok.inj h).symm⟩
  · rintro ⟨hcheck, rfl⟩
    exact ⟨(), hcheck, rfl⟩

/-- The core service accepts a value whose digits are a CNPJ, and returns these. -/
theorem normalizeCnpj_eq_ok : normalizeCnpj t value = .ok v ↔
    IsCnpj t (value.toList.filter t.isDigit) ∧ v = String.ofList (value.toList.filter t.isDigit) := by
  have hiff : IsCnpj t (value.toList.filter t.isDigit) ↔ _ := isCnpj_iff invalidCnpj
  rw [hiff]
  unfold normalizeCnpj
  simp only
  split
  · next h =>
    refine ⟨fun h => absurd h (by simp), fun hok => ?_⟩
    exact absurd h (by simp [hok.1.1, hok.1.2.1])
  · next h =>
    simp only [not_or, not_not, Bool.not_eq_true] at h
    rw [checked_eq_ok]
    simp [h.1, h.2]

/-- The authentication service accepts a value whose letters and digits are a CNPJ, and returns these. -/
theorem validateIdentifier_cnpj {jpMyNumberEnabled : Bool} :
    validateIdentifier t jpMyNumberEnabled "BR_CNPJ" value = .ok v ↔
      (normalizeIdentifier t value).all t.isDigit = true ∧ IsCnpj t (normalizeIdentifier t value) ∧
        v = String.ofList (normalizeIdentifier t value) := by
  have htype : normalizeIdentifierType t "BR_CNPJ" = "BR_CNPJ" := by
    unfold normalizeIdentifierType
    rw [CharacterData.strip_ascii (by decide) (by decide), t.ascii_lower _ (by decide)]
    rfl
  have hiff : IsCnpj t (normalizeIdentifier t value) ↔ _ := isCnpj_iff invalidIdentifier
  rw [hiff]
  unfold validateIdentifier
  simp only [htype]
  rw [if_neg (fun h => absurd h.1 (by decide)), if_neg (by decide), if_pos trivial]
  split
  · next h =>
    refine ⟨fun h => absurd h (by simp), fun hok => ?_⟩
    exact absurd h (by simp [hok.1, hok.2.1.1, hok.2.1.2.1])
  · next h =>
    simp only [not_or, not_not, Bool.not_eq_true] at h
    rw [checked_eq_ok]
    simp [h.1, h.2.1, h.2.2]

/-! ## Agreement -/

/-- The services accept the same value, and return the same for it. -/
structure CnpjAgrees (t : CharacterData) (jpMyNumberEnabled : Bool) (value : String) : Prop where
  accept : (∃ v, normalizeCnpj t value = .ok v) ↔
    ∃ v, validateIdentifier t jpMyNumberEnabled "BR_CNPJ" value = .ok v
  same : ∀ v w, normalizeCnpj t value = .ok v →
    validateIdentifier t jpMyNumberEnabled "BR_CNPJ" value = .ok w → v = w

/-- The digits among the letters and digits of a value. -/
theorem digits_normalizeIdentifier :
    (normalizeIdentifier t value).filter t.isDigit = value.toList.filter t.isDigit := by
  have hspace : ∀ c, t.isSpace c = true → t.isAlnum c = false := fun c hc => t.space c hc
  rw [normalizeIdentifier, CharacterData.filter_strip hspace, CharacterData.digits_alnums,
    CharacterData.digits_upperText]

/-- **Two validators of a CNPJ.** They agree on a value exactly where its letters and digits are digits, or its
    digits are not those of a CNPJ. -/
theorem cnpj_agrees_iff {jpMyNumberEnabled : Bool} :
    CnpjAgrees t jpMyNumberEnabled value ↔
      (∀ c ∈ t.upperText value.toList, t.isAlnum c = true → t.isDigit c = true) ∨
        ¬IsCnpj t (value.toList.filter t.isDigit) := by
  have hspace : ∀ c, t.isSpace c = true → t.isAlnum c = false := fun c hc => t.space c hc
  have hall : (normalizeIdentifier t value).all t.isDigit = true ↔
      ∀ c ∈ t.upperText value.toList, t.isAlnum c = true → t.isDigit c = true := by
    rw [normalizeIdentifier, CharacterData.filter_strip hspace, List.all_eq_true]
    simp only [List.mem_filter, and_imp]
  have hsame : (normalizeIdentifier t value).all t.isDigit = true →
      normalizeIdentifier t value = value.toList.filter t.isDigit := by
    intro h
    rw [← digits_normalizeIdentifier, List.filter_eq_self.2 (List.all_eq_true.1 h)]
  rw [← hall]
  constructor
  · intro h
    by_contra hnot
    obtain ⟨hletters, hcnpj⟩ := not_or.1 hnot
    obtain ⟨v, hv⟩ := h.accept.1 ⟨_, normalizeCnpj_eq_ok.2 ⟨not_not.1 hcnpj, rfl⟩⟩
    exact hletters (validateIdentifier_cnpj.1 hv).1
  · rintro (h | h)
    · have hok : ∀ v, validateIdentifier t jpMyNumberEnabled "BR_CNPJ" value = .ok v ↔
          normalizeCnpj t value = .ok v := by
        intro v
        rw [validateIdentifier_cnpj, normalizeCnpj_eq_ok, hsame h]
        refine ⟨fun hv => hv.2, fun hv => ⟨?_, hv⟩⟩
        simp
      refine ⟨exists_congr fun v => (hok v).symm, fun v w hv hw => ?_⟩
      exact Except.ok.inj (hv.symm.trans ((hok w).1 hw))
    · have hcore : ∀ v, normalizeCnpj t value ≠ .ok v := fun v hv => h (normalizeCnpj_eq_ok.1 hv).1
      refine ⟨⟨fun ⟨v, hv⟩ => absurd hv (hcore v), fun ⟨v, hv⟩ => ?_⟩, fun v w hv => absurd hv (hcore v)⟩
      obtain ⟨hdigits, hcnpj, -⟩ := validateIdentifier_cnpj.1 hv
      exact absurd (hsame hdigits ▸ hcnpj) h

/-- The core service drops the letters that the authentication service rejects. -/
theorem not_cnpj_agrees :
    ¬∀ (t : CharacterData) (jpMyNumberEnabled : Bool) (value : String), CnpjAgrees t jpMyNumberEnabled value := by
  intro h
  have hagrees := h asciiData false "11.222.333/0001-81 Ltda"
  have hcore : normalizeCnpj asciiData "11.222.333/0001-81 Ltda" = .ok "11222333000181" := by decide
  obtain ⟨v, hv⟩ := hagrees.accept.1 ⟨_, hcore⟩
  have hauth : validateIdentifier asciiData false "BR_CNPJ" "11.222.333/0001-81 Ltda" =
      .error invalidIdentifier := by
    decide +kernel
  rw [hauth] at hv
  exact absurd hv (by simp)

end Cnpj

end Rubrica
