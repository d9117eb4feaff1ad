import Mathlib.Data.Set.Basic
import Rubrica.Identity.Identifiers

set_option autoImplicit false

/-! # What is stored of an identifier

The normalized form of a value, under which it is unique, and the mask that is shown in its place. -/

namespace Rubrica

open Texts

/-! ## `add_identifier` -/

/-- What the authentication service computes with its keys: the ciphertext of a value, and its HMAC. -/
structure IdentityKeys where
  encrypt : String → String
  lookup : String → String

/-- `protect_identifier`. -/
def protectIdentifier (keys : IdentityKeys) (value : String) : String × String :=
  (keys.encrypt value, keys.lookup value)

/-- `masked_identifier`. -/
def maskedIdentifier (value : String) : String :=
  let visible := value.toList.drop (value.toList.length - 4)
  String.ofList (List.replicate (max (value.toList.length - 4) 4) '•' ++ visible)

/-- A row of `user_identifiers`. -/
structure IdentifierRow where
  userId : UUID
  issuingCountry : String
  identifierType : String
  normalizedValueEncrypted : String
  lookupHmac : String
  maskedDisplay : String
  verificationStatus : String
  keyVersion : Nat
  deriving DecidableEq, Repr

/-- `add_identifier`: the row that it adds. -/
def addIdentifier (t : CharacterData) (keys : IdentityKeys) (jpMyNumberEnabled : Bool) (userId : UUID)
    (issuingCountry identifierType value : String) : Except Failure IdentifierRow :=
  let normalizedCountry := t.upperText (t.strip issuingCountry.toList)
  if normalizedCountry.length ≠ 2 ∨ ¬normalizedCountry.all isAscii ∨ ¬normalizedCountry.all t.isAlpha then
    .error invalidIdentifier
  else do
    let normalizedType := normalizeIdentifierType t identifierType
    let normalized ← validateIdentifier t jpMyNumberEnabled normalizedType value
    let (encrypted, lookup) := protectIdentifier keys normalized
    pure {
      userId := userId
      issuingCountry := String.ofList normalizedCountry
      identifierType := normalizedType
      normalizedValueEncrypted := encrypted
      lookupHmac := lookup
      maskedDisplay := maskedIdentifier normalized
      verificationStatus := "format_valid"
      keyVersion := 1 }

/-! ## Masks -/

section Masks

variable {t : CharacterData} {jpMyNumberEnabled : Bool} {identifierType value v : String}

/-- What is accepted is the letters and digits of the value, and at least four of them. -/
theorem validateIdentifier_eq_ok (h : validateIdentifier t jpMyNumberEnabled identifierType value = .ok v) :
    v = String.ofList (normalizeIdentifier t value) ∧ 4 ≤ (normalizeIdentifier t value).length := by
  have checked : ∀ {n : Nat} {expected : Nat → Nat} {loops : List (List Nat × Nat)}, 4 ≤ n →
      (normalizeIdentifier t value).length = n → (do
        checkDigits t expected invalidIdentifier (normalizeIdentifier t value) loops
        pure (String.ofList (normalizeIdentifier t value))) = .ok v →
      v = String.ofList (normalizeIdentifier t value) ∧ 4 ≤ (normalizeIdentifier t value).length := by
    intro n expected loops hn hlength hok
    obtain ⟨_, -, hv⟩ := bind_eq_ok.1 hok
    exact ⟨(Except.ok.inj hv).symm, hlength ▸ hn⟩
  simp only [validateIdentifier] at h
  split at h
  · exact absurd h (by simp)
  · split at h
    · -- BR_CPF
      split at h
      · exact absurd h (by simp)
      · next hsome => exact checked (by omega) (not_not.1 (not_or.1 hsome).1) h
    · split at h
      · -- BR_CNPJ
        split at h
        · exact absurd h (by simp)
        · next hsome => exact checked (by omega) (not_not.1 (not_or.1 hsome).1) h
      · split at h
        · -- PT_NIF
          split at h
          · exact absurd h (by simp)
          · next hsome =>
            have hlength := not_not.1 (not_or.1 hsome).1
            exact ⟨(Except.ok.inj h).symm, by omega⟩
        · split at h
          · exact absurd h (by simp)
          · next hlength => exact ⟨(Except.ok.inj h).symm, (not_not.1 hlength).1⟩

theorem isAlnum_of_mem_normalizeIdentifier {c : Char} (h : c ∈ normalizeIdentifier t value) :
    t.isAlnum c = true :=
  (List.mem_filter.1 h).2

theorem addIdentifier_eq_ok {keys : IdentityKeys} {userId : UUID} {issuingCountry : String}
    {item : IdentifierRow}
    (h : addIdentifier t keys jpMyNumberEnabled userId issuingCountry identifierType value = .ok item) :
    4 ≤ (normalizeIdentifier t value).length ∧
      item.maskedDisplay = maskedIdentifier (String.ofList (normalizeIdentifier t value)) := by
  simp only [addIdentifier] at h
  split at h
  · exact absurd h (by simp)
  · obtain ⟨normalized, hnormalized, hitem⟩ := bind_eq_ok.1 h
    obtain ⟨rfl, hlength⟩ := validateIdentifier_eq_ok hnormalized
    obtain rfl := Except.ok.inj hitem
    exact ⟨hlength, rfl⟩

/-- The mask does not contain the value, and shows fewer characters than it has. -/
structure Masks (mask value : List Char) : Prop where
  notContained : ¬value <:+: mask
  hides : (mask.filter fun c => c ≠ '•').length < value.length

/-- The mask of a text without bullets shows the last four characters. -/
theorem filter_maskedIdentifier {s : List Char} (h : '•' ∉ s) :
    (maskedIdentifier (String.ofList s)).toList.filter (fun c => c ≠ '•') = s.drop (s.length - 4) := by
  have hbullets : ∀ n : Nat, (List.replicate n '•').filter (fun c => c ≠ '•') = [] := by
    intro n
    refine List.filter_eq_nil_iff.2 fun c hc => ?_
    simp [List.eq_of_mem_replicate hc]
  have hvisible : (s.drop (s.length - 4)).filter (fun c => c ≠ '•') = s.drop (s.length - 4) := by
    refine List.filter_eq_self.2 fun c hc => decide_eq_true ?_
    rintro rfl
    exact h (List.mem_of_mem_drop hc)
  simp only [maskedIdentifier, String.toList_ofList, List.filter_append, hbullets, hvisible, List.nil_append]

theorem masks_iff {s : List Char} (h : '•' ∉ s) (hlength : 4 ≤ s.length) :
    Masks (maskedIdentifier (String.ofList s)).toList s ↔ s.length ≠ 4 := by
  have hshown := filter_maskedIdentifier h
  constructor
  · intro hmasks hfour
    -- All four characters are shown.
    have hhides := hmasks.hides
    rw [hshown, List.length_drop] at hhides
    omega
  · intro hfour
    have hhides : (s.drop (s.length - 4)).length < s.length := by
      rw [List.length_drop]
      omega
    refine ⟨fun hcontained => ?_, hshown ▸ hhides⟩
    have hall : s.filter (fun c => c ≠ '•') = s := by
      refine List.filter_eq_self.2 fun c hc => decide_eq_true ?_
      rintro rfl
      exact h hc
    have hle := (hcontained.sublist.filter fun c => c ≠ '•').length_le
    rw [hall, hshown] at hle
    omega

/-- **What a mask discloses.** The mask that is stored hides the value exactly where the value has not just four
    letters and digits. -/
theorem identifier_masked_iff (hbullet : t.isAlnum '•' = false) {keys : IdentityKeys} {userId : UUID}
    {issuingCountry : String} {item : IdentifierRow}
    (h : addIdentifier t keys jpMyNumberEnabled userId issuingCountry identifierType value = .ok item) :
    Masks item.maskedDisplay.toList (normalizeIdentifier t value) ↔ (normalizeIdentifier t value).length ≠ 4 := by
  obtain ⟨hlength, hmask⟩ := addIdentifier_eq_ok h
  have hno : '•' ∉ normalizeIdentifier t value := by
    intro hmem
    rw [isAlnum_of_mem_normalizeIdentifier hmem] at hbullet
    exact absurd hbullet (by simp)
  rw [hmask]
  exact masks_iff hno hlength

end Masks

def sampleKeys : IdentityKeys :=
  ⟨fun value => "encrypted:" ++ value, fun value => "lookup:" ++ value⟩

def samplePassport : IdentifierRow where
  userId := 1
  issuingCountry := "BR"
  identifierType := "PASSPORT"
  normalizedValueEncrypted := "encrypted:AB123456"
  lookupHmac := "lookup:AB123456"
  maskedDisplay := "••••3456"
  verificationStatus := "format_valid"
  keyVersion := 1

theorem identifier_masked_passport :
    Masks samplePassport.maskedDisplay.toList (normalizeIdentifier asciiData "AB 123456") ↔
      (normalizeIdentifier asciiData "AB 123456").length ≠ 4 :=
  identifier_masked_iff (t := asciiData) (by decide +kernel)
    (show addIdentifier asciiData sampleKeys false 1 "br" "passport" "AB 123456" = .ok samplePassport by
      decide +kernel)

/-- A document of four characters is shown as a whole. -/
theorem not_identifier_masked :
    ¬∀ (t : CharacterData) (keys : IdentityKeys) (jpMyNumberEnabled : Bool) (userId : UUID)
      (issuingCountry identifierType value : String) (item : IdentifierRow),
      addIdentifier t keys jpMyNumberEnabled userId issuingCountry identifierType value = .ok item →
        Masks item.maskedDisplay.toList (normalizeIdentifier t value) := by
  intro h
  have hmasks := h asciiData sampleKeys false 1 "BR" "PASSPORT" "AB-12"
    ⟨1, "BR", "PASSPORT", "encrypted:AB12", "lookup:AB12", "••••AB12", "format_valid", 1⟩ (by decide +kernel)
  have hcontained : normalizeIdentifier asciiData "AB-12" <:+: "••••AB12".toList := by decide +kernel
  exact hmasks.notContained hcontained

/-! ## Normalized forms -/

section Forms

variable {t : CharacterData} {expected : Nat → Nat} {error : Failure} {digits : List Char}

/-- The texts that a service accepts have one normalized form for one sequence of digit values, in the digits of
    ASCII, and other texts are refused with `error` alone. `kept` is what the service keeps of a text. -/
structure CanonicalOver (t : CharacterData) (accept : String → Except Failure String) (kept : String → List Char)
    (error : Failure) (lookup : String → String) (S : Set String) : Prop where
  same : ∀ a ∈ S, ∀ b ∈ S, ∀ v w, accept a = .ok v → accept b = .ok w →
    (kept a).map t.decimal = (kept b).map t.decimal →
      v = w ∧ v.toList.all Char.isDigit = true ∧ lookup v = lookup w
  refused : ∀ a ∈ S, ∀ e, accept a = .error e → e = error

/-- The sum that a check digit is computed from. -/
def weighted (values weights : List Nat) : Nat :=
  (List.zipWith (· * ·) values weights).foldr (· + ·) 0

/-- What `int` reads are decimal digits, and a text that passes both checks is in ASCII. The first check reads the
    digits up to its own; where it fails, nothing else is read. -/
def Readable (t : CharacterData) (expected : Nat → Nat) (first second : List Nat) (digits : List Char) : Prop :=
  ∃ values d, (digits.take first.length).map t.decimal = values.map some ∧
    digits[first.length]?.bind t.decimal = some d ∧ (expected (weighted values first) ≠ d ∨
      ∃ d', digits[second.length]?.bind t.decimal = some d' ∧
        (expected (weighted (values ++ [d]) second) ≠ d' ∨ digits.all Char.isDigit = true))

/-- The last part of both services: so many digits, not all the same, with two check digits. -/
def acceptDigits (t : CharacterData) (expected : Nat → Nat) (error : Failure) (first second : List Nat)
    (digits : List Char) : Except Failure String :=
  if digits.length ≠ second.length + 1 ∨ ¬digits.all t.isDigit ∨ isRepeated digits then .error error
  else do
    checkDigits t expected error digits [(first, first.length), (second, second.length)]
    pure (String.ofList digits)

theorem int_eq_error {c : Char} (h : t.decimal c = none) : int t c = .error (.other "ValueError") := by
  simp only [int, h]

/-- Of digits, each with a weight, only one that is not decimal makes the sum fail. -/
theorem weightedSum_cases {weights : List Nat} (hlength : digits.length = weights.length) :
    (∃ values, digits.map t.decimal = values.map some ∧
      weightedSum t digits weights = .ok (weighted values weights)) ∨
    (∀ values : List Nat, digits.map t.decimal ≠ values.map some) ∧
      weightedSum t digits weights = .error (.other "ValueError") := by
  cases hsum : weightedSum t digits weights with
  | ok total =>
      obtain ⟨-, values, hvalues, rfl⟩ := weightedSum_eq_ok.1 hsum
      exact Or.inl ⟨values, hvalues, rfl⟩
  | error e =>
      have hvalue : e = .other "ValueError" := by
        clear hlength
        induction digits generalizing weights with
        | nil =>
            cases weights with
            | nil => exact absurd hsum (by simp [weightedSum])
            | cons => exact (Except.error.inj hsum).symm
        | cons c digits ih =>
            cases weights with
            | nil => exact (Except.error.inj hsum).symm
            | cons weight weights =>
                simp only [weightedSum] at hsum
                cases hc : t.decimal c with
                | none =>
                    rw [int_eq_error hc] at hsum
                    exact (Except.error.inj hsum).symm
                | some n =>
                    rw [int_eq_ok.2 hc] at hsum
                    cases hrest : weightedSum t digits weights with
                    | ok rest =>
                        rw [hrest] at hsum
                        exact absurd hsum (by simp [bind, Except.bind, pure, Except.pure])
                    | error e' =>
                        rw [hrest] at hsum
                        obtain rfl := Except.error.inj hsum
                        exact ih hrest
      refine Or.inr ⟨fun values hvalues => ?_, by rw [hvalue]⟩
      rw [weightedSum_eq_ok.2 ⟨hlength, values, hvalues, rfl⟩] at hsum
      exact absurd hsum (by simp)

variable (expected error) in
/-- One turn of the loop, by the digits that it reads: the ones before the check digit, and this one. -/
theorem checkDigits_turn {weights : List Nat} (rest : List (List Nat × Nat)) {c : Char}
    (hc : digits[weights.length]? = some c) :
    (∃ values d, (digits.take weights.length).map t.decimal = values.map some ∧ t.decimal c = some d ∧
      checkDigits t expected error digits ((weights, weights.length) :: rest) =
        if expected (weighted values weights) ≠ d then .error error
        else checkDigits t expected error digits rest) ∨
    ((∀ (values : List Nat) (d : Nat), (digits.take weights.length).map t.decimal = values.map some →
        t.decimal c ≠ some d) ∧
      checkDigits t expected error digits ((weights, weights.length) :: rest) = .error (.other "ValueError")) := by
  have hlt : weights.length < digits.length := (List.getElem?_eq_some_iff.1 hc).1
  have hlength : (digits.take weights.length).length = weights.length := by
    rw [List.length_take]
    omega
  rcases weightedSum_cases hlength with ⟨values, hvalues, hsum⟩ | ⟨hnone, hsum⟩
  · cases hd : t.decimal c with
    | some d =>
        refine Or.inl ⟨values, d, hvalues, rfl, ?_⟩
        simp only [checkDigits, hsum, hc, int_eq_ok.2 hd]
        rfl
    | none =>
        refine Or.inr ⟨fun values' d _ => by simp, ?_⟩
        simp only [checkDigits, hsum, hc, int_eq_error hd]
        rfl
  · refine Or.inr ⟨fun values d hvalues _ => hnone values hvalues, ?_⟩
    simp only [checkDigits, hsum]
    rfl

theorem map_some_inj {l l' : List Nat} (h : l.map some = l'.map some) : l = l' :=
  List.map_injective_iff.2 (Option.some_injective Nat) h

/-- The two checks refuse a text with `error`, or accept one in ASCII, exactly where the text is readable. -/
theorem checkDigits_iff {first second : List Nat} (herror : error ≠ .other "ValueError")
    (hweights : second.length = first.length + 1) (hlength : digits.length = second.length + 1) :
    ((∀ e, checkDigits t expected error digits [(first, first.length), (second, second.length)] = .error e →
        e = error) ∧
      (checkDigits t expected error digits [(first, first.length), (second, second.length)] = .ok () →
        digits.all Char.isDigit = true)) ↔ Readable t expected first second digits := by
  obtain ⟨c, hc⟩ : ∃ c, digits[first.length]? = some c := ⟨_, List.getElem?_eq_getElem (by omega)⟩
  obtain ⟨c', hc'⟩ : ∃ c, digits[second.length]? = some c := ⟨_, List.getElem?_eq_getElem (by omega)⟩
  have hnot : ∀ {x : Except Failure Unit}, x = .error (.other "ValueError") →
      ¬((∀ e, x = .error e → e = error) ∧ (x = .ok () → digits.all Char.isDigit = true)) :=
    fun hx h => herror (h.1 _ hx).symm
  rcases checkDigits_turn expected error [(second, second.length)] hc with
    ⟨values, d, hvalues, hd, hresult⟩ | ⟨hnone, hresult⟩
  · -- The digits that the second check reads are the ones that the first has read.
    have hread : (digits.take second.length).map t.decimal = (values ++ [d]).map some := by
      rw [hweights, List.take_add_one, hc, List.map_append, hvalues, List.map_append]
      simp [hd]
    have hunique : ∀ values' d', (digits.take first.length).map t.decimal = values'.map some →
        digits[first.length]?.bind t.decimal = some d' → values' = values ∧ d' = d := by
      intro values' d' hvalues' hd'
      rw [hc, Option.bind_some, hd] at hd'
      exact ⟨map_some_inj (hvalues'.symm.trans hvalues), (Option.some.inj hd').symm⟩
    by_cases hcheck : expected (weighted values first) ≠ d
    · rw [if_pos hcheck] at hresult
      refine iff_of_true ⟨fun e he => ?_, fun hok => ?_⟩ ⟨values, d, hvalues, by rw [hc]; exact hd, Or.inl hcheck⟩
      · exact Except.error.inj (he.symm.trans hresult)
      · exact absurd (hok.symm.trans hresult) (by simp)
    · rw [if_neg hcheck] at hresult
      rw [hresult]
      rcases checkDigits_turn expected error [] hc' with
        ⟨values', d', hvalues', hd', hresult'⟩ | ⟨hnone, hresult'⟩
      · obtain rfl := map_some_inj (hvalues'.symm.trans hread)
        rw [hresult']
        constructor
        · rintro ⟨-, haccepted⟩
          refine ⟨values, d, hvalues, by rw [hc]; exact hd, Or.inr ⟨d', by rw [hc']; exact hd', ?_⟩⟩
          by_cases hcheck' : expected (weighted (values ++ [d]) second) ≠ d'
          · exact Or.inl hcheck'
          · rw [if_neg hcheck'] at haccepted
            exact Or.inr (haccepted rfl)
        · rintro ⟨v, x, hv, hx, hpassed⟩
          obtain ⟨rfl, rfl⟩ := hunique v x hv hx
          obtain ⟨x', hx', hrest⟩ := hpassed.resolve_left hcheck
          rw [hc', Option.bind_some, hd'] at hx'
          obtain rfl := Option.some.inj hx'
          split
          · exact ⟨fun e he => (Except.error.inj he).symm, fun hok => absurd hok (by simp)⟩
          · next hcheck' => exact ⟨fun e he => absurd he (by simp [checkDigits]),
              fun _ => hrest.resolve_left hcheck'⟩
      · refine iff_of_false (hnot hresult') ?_
        rintro ⟨v, x, hv, hx, hpassed⟩
        obtain ⟨rfl, rfl⟩ := hunique v x hv hx
        obtain ⟨x', hx', -⟩ := hpassed.resolve_left hcheck
        rw [hc', Option.bind_some] at hx'
        exact hnone _ x' hread hx'
  · refine iff_of_false (hnot hresult) ?_
    rintro ⟨v, x, hv, hx, -⟩
    rw [hc, Option.bind_some] at hx
    exact hnone v x hv hx

/-- Readable, or refused before a digit is read. -/
def Orderly (t : CharacterData) (expected : Nat → Nat) (first second : List Nat) (digits : List Char) : Prop :=
  digits.length ≠ second.length + 1 ∨ ¬digits.all t.isDigit ∨ isRepeated digits ∨
    Readable t expected first second digits

theorem acceptDigits_iff {first second : List Nat} (herror : error ≠ .other "ValueError")
    (hweights : second.length = first.length + 1) :
    ((∀ e, acceptDigits t expected error first second digits = .error e → e = error) ∧
      (∀ v, acceptDigits t expected error first second digits = .ok v → digits.all Char.isDigit = true)) ↔
      Orderly t expected first second digits := by
  unfold acceptDigits Orderly
  split
  · next hrefused =>
    refine iff_of_true ⟨fun e he => (Except.error.inj he).symm, fun v hv => absurd hv (by simp)⟩ ?_
    rcases hrefused with hlength | hdigits | hsame
    · exact Or.inl hlength
    · exact Or.inr (Or.inl hdigits)
    · exact Or.inr (Or.inr (Or.inl hsame))
  · next hread =>
    obtain ⟨hlength, hdigits, hvaried⟩ := not_or.1 hread |>.imp_right not_or.1
    rw [or_iff_right hlength, or_iff_right hdigits, or_iff_right hvaried,
      ← checkDigits_iff herror hweights (not_not.1 hlength)]
    cases checkDigits t expected error digits [(first, first.length), (second, second.length)] with
    | error e => simp [bind, Except.bind]
    | ok u => simp [bind, Except.bind, pure, Except.pure]

theorem acceptDigits_eq_ok {first second : List Nat} {v : String}
    (h : acceptDigits t expected error first second digits = .ok v) : v = String.ofList digits := by
  unfold acceptDigits at h
  split at h
  · exact absurd h (by simp)
  · obtain ⟨_, -, hv⟩ := bind_eq_ok.1 h
    exact (Except.ok.inj hv).symm

/-- The digits of ASCII are told apart by their values. -/
theorem eq_of_decimal (hascii : ∀ c, c.isDigit = true → t.decimal c = asciiDecimal c) {a b : List Char}
    (ha : a.all Char.isDigit = true) (hb : b.all Char.isDigit = true) (h : a.map t.decimal = b.map t.decimal) :
    a = b := by
  have hvalue : ∀ c : Char, c.isDigit = true → t.decimal c = some (c.toNat - 48) := by
    intro c hc
    rw [hascii c hc, asciiDecimal, if_pos hc]
  induction a generalizing b with
  | nil => exact (List.map_eq_nil_iff.1 h.symm).symm
  | cons c a ih =>
      cases b with
      | nil => exact absurd h (by simp)
      | cons c' b =>
          simp only [List.all_cons, Bool.and_eq_true] at ha hb
          obtain ⟨hhead, htail⟩ := List.cons.inj h
          rw [hvalue c ha.1, hvalue c' hb.1] at hhead
          have hc := isDigit_iff.1 ha.1
          have hc' := isDigit_iff.1 hb.1
          have hsame : c.toNat = c'.toNat := by
            have := Option.some.inj hhead
            omega
          rw [Char.toNat_inj.1 hsame, ih ha.2 hb.2 htail]

/-- A service that ends in `acceptDigits` has canonical forms over exactly the sets of orderly texts. -/
theorem canonicalOver_iff (hascii : ∀ c, c.isDigit = true → t.decimal c = asciiDecimal c)
    {accept : String → Except Failure String} {kept : String → List Char} {first second : List Nat}
    (haccept : ∀ a, accept a = acceptDigits t expected error first second (kept a))
    (herror : error ≠ .other "ValueError") (hweights : second.length = first.length + 1)
    (lookup : String → String) (S : Set String) :
    CanonicalOver t accept kept error lookup S ↔ ∀ a ∈ S, Orderly t expected first second (kept a) := by
  constructor
  · intro h a ha
    refine (acceptDigits_iff herror hweights).1 ⟨fun e he => ?_, fun v hv => ?_⟩
    · exact h.refused a ha e ((haccept a).trans he)
    · have hok := (haccept a).trans hv
      have hall := (h.same a ha a ha v v hok hok rfl).2.1
      rwa [acceptDigits_eq_ok hv, String.toList_ofList] at hall
  · intro h
    have hsound : ∀ a ∈ S, _ := fun a ha => (acceptDigits_iff herror hweights).2 (h a ha)
    refine ⟨fun a ha b hb v w hv hw hsame => ?_, fun a ha e he => (hsound a ha).1 e ((haccept a).symm.trans he)⟩
    rw [haccept] at hv hw
    have hall := (hsound a ha).2 v hv
    have hdigits := eq_of_decimal hascii hall ((hsound b hb).2 w hw) hsame
    obtain rfl := acceptDigits_eq_ok hv
    obtain rfl := acceptDigits_eq_ok hw
    rw [String.toList_ofList, hdigits]
    exact ⟨rfl, hdigits ▸ hall, rfl⟩

end Forms

/-! ## The services -/

section Services

variable {t : CharacterData} {jpMyNumberEnabled : Bool}

def cpfFirst : List Nat :=
  [10, 9, 8, 7, 6, 5, 4, 3, 2]

def cpfSecond : List Nat :=
  [11, 10, 9, 8, 7, 6, 5, 4, 3, 2]

def cnpjFirst : List Nat :=
  [5, 4, 3, 2, 9, 8, 7, 6, 5, 4, 3, 2]

def cnpjSecond : List Nat :=
  [6, 5, 4, 3, 2, 9, 8, 7, 6, 5, 4, 3, 2]

variable (jpMyNumberEnabled) in
theorem validateIdentifier_ofCpf {identifierType : String} (h : normalizeIdentifierType t identifierType = "BR_CPF")
    (value : String) : validateIdentifier t jpMyNumberEnabled identifierType value =
      acceptDigits t cpfExpected invalidIdentifier cpfFirst cpfSecond (normalizeIdentifier t value) := by
  simp only [validateIdentifier, h]
  rw [if_neg (fun hjp => absurd hjp.1 (by decide)), if_pos trivial]
  rfl

variable (jpMyNumberEnabled) in
theorem validateIdentifier_ofCnpj {identifierType : String}
    (h : normalizeIdentifierType t identifierType = "BR_CNPJ") (value : String) :
    validateIdentifier t jpMyNumberEnabled identifierType value =
      acceptDigits t cnpjExpected invalidIdentifier cnpjFirst cnpjSecond (normalizeIdentifier t value) := by
  simp only [validateIdentifier, h]
  rw [if_neg (fun hjp => absurd hjp.1 (by decide)), if_neg (by decide), if_pos trivial]
  rfl

/-- The characters that the core service keeps are digits. -/
theorem normalizeCnpj_eq (value : String) : normalizeCnpj t value =
    acceptDigits t cnpjExpected invalidCnpj cnpjFirst cnpjSecond (value.toList.filter t.isDigit) := by
  have hdigits : (value.toList.filter t.isDigit).all t.isDigit = true :=
    List.all_eq_true.2 fun c hc => (List.mem_filter.1 hc).2
  simp only [normalizeCnpj, acceptDigits, hdigits, not_true_eq_false, false_or]
  rfl

/-- An identifier type that is written in ASCII capitals is normalized already. -/
theorem normalizeIdentifierType_cpf : normalizeIdentifierType t "BR_CPF" = "BR_CPF" := by
  unfold normalizeIdentifierType
  rw [CharacterData.strip_ascii (by decide) (by decide), t.ascii_lower _ (by decide)]
  rfl

theorem normalizeIdentifierType_cnpj : normalizeIdentifierType t "BR_CNPJ" = "BR_CNPJ" := by
  unfold normalizeIdentifierType
  rw [CharacterData.strip_ascii (by decide) (by decide), t.ascii_lower _ (by decide)]
  rfl

/-- Both services have canonical forms over a set of texts. -/
structure IdentifiersCanonical (t : CharacterData) (jpMyNumberEnabled : Bool) (keys : IdentityKeys)
    (businessLookup : String → String) (S : Set String) : Prop where
  cpf : ∀ identifierType, normalizeIdentifierType t identifierType = "BR_CPF" →
    CanonicalOver t (validateIdentifier t jpMyNumberEnabled identifierType) (normalizeIdentifier t)
      invalidIdentifier (fun v => (protectIdentifier keys v).2) S
  cnpj : ∀ identifierType, normalizeIdentifierType t identifierType = "BR_CNPJ" →
    CanonicalOver t (validateIdentifier t jpMyNumberEnabled identifierType) (normalizeIdentifier t)
      invalidIdentifier (fun v => (protectIdentifier keys v).2) S
  business : CanonicalOver t (normalizeCnpj t) (fun value => value.toList.filter t.isDigit) invalidCnpj
    businessLookup S

/-- **One form for one identifier.** The services have it over exactly the sets of texts whose digits are orderly. -/
theorem identifiers_canonical_iff (hascii : ∀ c, c.isDigit = true → t.decimal c = asciiDecimal c)
    {keys : IdentityKeys} {businessLookup : String → String} {S : Set String} :
    IdentifiersCanonical t jpMyNumberEnabled keys businessLookup S ↔ ∀ value ∈ S,
      Orderly t cpfExpected cpfFirst cpfSecond (normalizeIdentifier t value) ∧
        Orderly t cnpjExpected cnpjFirst cnpjSecond (normalizeIdentifier t value) ∧
          Orderly t cnpjExpected cnpjFirst cnpjSecond (value.toList.filter t.isDigit) := by
  have hcpf : ∀ type, normalizeIdentifierType t type = "BR_CPF" → _ := fun type htype =>
    canonicalOver_iff hascii (validateIdentifier_ofCpf jpMyNumberEnabled htype)
      (by decide) rfl (fun v => (protectIdentifier keys v).2) S
  have hcnpj : ∀ type, normalizeIdentifierType t type = "BR_CNPJ" → _ := fun type htype =>
    canonicalOver_iff hascii (validateIdentifier_ofCnpj jpMyNumberEnabled htype)
      (by decide) rfl (fun v => (protectIdentifier keys v).2) S
  have hbusiness := canonicalOver_iff hascii (normalizeCnpj_eq (t := t)) (by decide) rfl businessLookup S
  constructor
  · intro h value hvalue
    exact ⟨(hcpf _ normalizeIdentifierType_cpf).1 (h.cpf _ normalizeIdentifierType_cpf) value hvalue,
      (hcnpj _ normalizeIdentifierType_cnpj).1 (h.cnpj _ normalizeIdentifierType_cnpj) value hvalue,
      hbusiness.1 h.business value hvalue⟩
  · intro h
    exact ⟨fun type htype => (hcpf type htype).2 fun value hvalue => (h value hvalue).1,
      fun type htype => (hcnpj type htype).2 fun value hvalue => (h value hvalue).2.1,
      hbusiness.2 fun value hvalue => (h value hvalue).2.2⟩

end Services

/-! ## Digits of another script -/

/-- An Arabic-Indic digit. -/
def isIndicDigit (c : Char) : Bool :=
  0x660 ≤ c.toNat && c.toNat ≤ 0x669

theorem isIndicDigit_iff {c : Char} : isIndicDigit c = true ↔ 0x660 ≤ c.toNat ∧ c.toNat ≤ 0x669 := by
  simp [isIndicDigit]

theorem not_isIndicDigit_asciiUpper {c : Char} (h : isIndicDigit c = false) :
    isIndicDigit (asciiUpper c) = false := by
  rw [asciiUpper]
  split
  · next hsmall =>
    have hvalid : (c.toNat - 32).isValidChar := Or.inl (by omega)
    have hchar : Char.ofNat (c.toNat - 32) = Char.ofNatAux (c.toNat - 32) hvalid := dif_pos hvalid
    have hnat : (Char.ofNat (c.toNat - 32)).toNat = c.toNat - 32 := by
      rw [hchar]
      rfl
    rw [Bool.eq_false_iff]
    intro hdigit
    have hle := (isIndicDigit_iff.1 hdigit).1
    omega
  · exact h

theorem not_isIndicDigit_of_space {c : Char} (h : isAsciiSpace c = true) : isIndicDigit c = false := by
  have hle := toNat_of_isAsciiSpace h
  rw [Bool.eq_false_iff]
  intro hdigit
  have hge := (isIndicDigit_iff.1 hdigit).1
  omega

theorem asciiUpper_of_indic (c : Char) (h : (c.isDigit || isIndicDigit c) = true) : [asciiUpper c] = [c] := by
  rcases Bool.or_eq_true_iff.1 h with h | h
  · exact congrArg (fun d => [d]) (asciiUpper_of_isDigit h)
  · have hdigit := isIndicDigit_iff.1 h
    rw [asciiUpper, if_neg (by omega)]

theorem not_indic_of_mem_upper (c : Char) (h : (c.isDigit || isIndicDigit c) = false) (d : Char)
    (hd : d ∈ [asciiUpper c]) : (d.isDigit || isIndicDigit d) = false := by
  obtain ⟨hdigit, hindic⟩ := Bool.or_eq_false_iff.1 h
  rw [List.mem_singleton.1 hd, isDigit_asciiUpper hdigit, not_isIndicDigit_asciiUpper hindic]
  rfl

/-- The value of a digit of either script. -/
def indicDecimal (c : Char) : Option Nat :=
  if isIndicDigit c then some (c.toNat - 0x660) else asciiDecimal c

theorem not_indic_alnum_of_space (c : Char) (h : isAsciiSpace c = true) :
    (c.isAlpha || (indicDecimal c).isSome || (c.isDigit || isIndicDigit c) || c.isDigit) = false := by
  have hno := not_alnum_of_isAsciiSpace h
  rw [indicDecimal, not_isIndicDigit_of_space h, Bool.or_false]
  exact hno

/-- The tables of ASCII and the Arabic-Indic digits. -/
def indicData : CharacterData :=
  { asciiData with
    isDigit := fun c => c.isDigit || isIndicDigit c
    decimal := indicDecimal
    digit_upper := asciiUpper_of_indic
    upper_digit := not_indic_of_mem_upper
    space := not_indic_alnum_of_space }

theorem indicData_ascii (c : Char) (h : c.isDigit = true) : indicData.decimal c = asciiDecimal c := by
  have hle := (isDigit_iff.1 h).2
  have hindic : isIndicDigit c = false := by
    rw [Bool.eq_false_iff]
    intro hdigit
    have hge := (isIndicDigit_iff.1 hdigit).1
    omega
  show indicDecimal c = asciiDecimal c
  rw [indicDecimal, hindic]
  rfl

/-- A CPF in the digits of ASCII, however it is spelled. -/
theorem orderly_spelling {value : String} (h : value = "529.982.247-25" ∨ value = "529 982 247 25") :
    Orderly indicData cpfExpected cpfFirst cpfSecond (normalizeIdentifier indicData value) := by
  have hkept : normalizeIdentifier indicData value = "52998224725".toList := by
    rcases h with rfl | rfl <;> decide +kernel
  rw [hkept]
  exact Or.inr (Or.inr (Or.inr ⟨[5, 2, 9, 9, 8, 2, 2, 4, 7], 2, by decide +kernel, by decide +kernel,
    Or.inr ⟨5, by decide +kernel, Or.inr (by decide +kernel)⟩⟩))

/-- Two spellings of one CPF have one form, and two scripts have not. -/
theorem identifiers_canonical_spellings :
    IdentifiersCanonical indicData false sampleKeys id {"529.982.247-25", "529 982 247 25"} ∧
      ¬IdentifiersCanonical indicData false sampleKeys id {"529.982.247-25", "٥٢٩.٩٨٢.٢٤٧-٢٥"} := by
  refine ⟨(identifiers_canonical_iff indicData_ascii).2 fun value hvalue => ⟨orderly_spelling hvalue, ?_, ?_⟩,
    fun hcanonical => ?_⟩
  · rcases hvalue with rfl | rfl <;> exact Or.inl (by decide +kernel)
  · rcases hvalue with rfl | rfl <;> exact Or.inl (by decide +kernel)
  · have horderly := ((identifiers_canonical_iff indicData_ascii).1 hcanonical "٥٢٩.٩٨٢.٢٤٧-٢٥" (Or.inr rfl)).1
    have herror : invalidIdentifier ≠ .other "ValueError" := by decide
    have hascii := ((acceptDigits_iff herror rfl).2 horderly).2 "٥٢٩٩٨٢٢٤٧٢٥" (by decide +kernel)
    exact absurd hascii (by decide +kernel)

/-- One CPF, in two scripts, has two normalized forms. -/
theorem not_identifiers_canonical :
    ¬∀ (t : CharacterData) (jpMyNumberEnabled : Bool) (keys : IdentityKeys) (businessLookup : String → String)
      (S : Set String), (∀ c, c.isDigit = true → t.decimal c = asciiDecimal c) →
        IdentifiersCanonical t jpMyNumberEnabled keys businessLookup S := by
  intro h
  have hcanonical := h indicData false sampleKeys id Set.univ indicData_ascii
  have hsame := ((hcanonical.cpf _ normalizeIdentifierType_cpf).same "529.982.247-25" trivial
    "٥٢٩.٩٨٢.٢٤٧-٢٥" trivial "52998224725" "٥٢٩٩٨٢٢٤٧٢٥" (by decide +kernel) (by decide +kernel) (by decide +kernel)).1
  exact absurd hsame (by decide +kernel)

end Rubrica
