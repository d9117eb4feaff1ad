import Mathlib.Data.List.DropRight
import Rubrica.Identity.Uuids

set_option autoImplicit false

/-! # Storage keys

What `validate_storage_key` accepts, the scope of an account's files, and the key under which the
reorganization files an object. -/

namespace Rubrica

open Texts

/-! ## Keys -/

/-- `[A-Za-z0-9_-]`. -/
def isKeyChar (c : Char) : Bool :=
  c.isAlphanum || c = '_' || c = '-'

/-- `_STORAGE_KEY`: parts of such characters, with `/` between them. -/
def isStorageKey (key : List Char) : Bool :=
  (key.splitOn '/').all fun part => !part.isEmpty && part.all isKeyChar

/-- Does `validate_storage_key` let the key through? -/
def validStorageKey (key : String) : Bool :=
  key.length ≤ 240 && isStorageKey key.toList

/-- `document_storage_scope`. -/
def documentStorageScope (tenant account : UUID) : String :=
  "tenants/" ++ uuidString tenant ++ "/accounts/" ++ uuidString account ++ "/files"

/-! ## The key of a file in its scope -/

/-- `key.rsplit("/", 1)[-1]`. -/
def baseName (key : String) : String :=
  String.ofList (key.toList.rtakeWhile fun c => c ≠ '/')

/-- `key.startswith("tenants/")`. -/
def isScoped (key : String) : Bool :=
  "tenants/".toList.isPrefixOf key.toList

/-- `_target_key`. -/
def targetKey (oldKey : String) (tenant account : UUID) : String :=
  if isScoped oldKey then oldKey else documentStorageScope tenant account ++ "/" ++ baseName oldKey

theorem slash_not_mem_baseName (key : String) : '/' ∉ (baseName key).toList := by
  intro h
  rw [baseName, String.toList_ofList] at h
  exact absurd (List.mem_rtakeWhile_imp h) (by decide)

theorem ne_slash_of_mem {s : List Char} (h : '/' ∉ s) : ∀ c ∈ s, decide (c ≠ '/') = true :=
  fun _ hc => decide_eq_true fun hslash => h (hslash ▸ hc)

theorem baseName_append (s : String) {name : String} (h : '/' ∉ name.toList) :
    baseName (s ++ "/" ++ name) = name := by
  have hlist : (s ++ "/" ++ name).toList.reverse = name.toList.reverse ++ '/' :: s.toList.reverse := by
    simp
  have hname := ne_slash_of_mem fun hslash => h (List.mem_reverse.1 hslash)
  rw [baseName, List.rtakeWhile, hlist, List.takeWhile_append_of_pos hname, List.takeWhile_cons_of_neg (by simp),
    List.append_nil, List.reverse_reverse, String.ofList_toList]

theorem slash_mem_of_isScoped {key : String} (h : isScoped key = true) : '/' ∈ key.toList :=
  (List.isPrefixOf_iff_prefix.1 h).subset (by decide)

/-- No scope is left of a key in its last segment. -/
theorem isScoped_baseName (key : String) : isScoped (baseName key) = false := by
  rw [Bool.eq_false_iff]
  intro h
  exact slash_not_mem_baseName key (slash_mem_of_isScoped h)

theorem isScoped_documentStorageScope (tenant account : UUID) (name : String) :
    isScoped (documentStorageScope tenant account ++ "/" ++ name) = true := by
  rw [isScoped, List.isPrefixOf_iff_prefix]
  simp only [documentStorageScope, String.toList_append, List.append_assoc]
  exact List.prefix_append _ _

theorem targetKey_of_isScoped {key : String} (h : isScoped key = true) (tenant account : UUID) :
    targetKey key tenant account = key := by
  rw [targetKey, if_pos h]

theorem isScoped_targetKey (key : String) (tenant account : UUID) :
    isScoped (targetKey key tenant account) = true := by
  unfold targetKey
  split
  · next h => exact h
  · exact isScoped_documentStorageScope tenant account _

/-- A file keeps its name. -/
theorem baseName_targetKey (key : String) (tenant account : UUID) :
    baseName (targetKey key tenant account) = baseName key := by
  unfold targetKey
  split
  · rfl
  · exact baseName_append _ (slash_not_mem_baseName key)

/-! ## The keys that `put` has produced -/

/-- `uuid4().hex`. -/
def IsHexName (name : String) : Prop :=
  name.length = 32 ∧ ∀ c ∈ name.toList, (hexDigit c).isSome = true

/-- `tenants/<tenant>/accounts/<account>/files/<name>`. -/
def IsFiledKey (key : String) : Prop :=
  ∃ tenant account name, tenant < 2 ^ 128 ∧ account < 2 ^ 128 ∧ IsHexName name ∧
    key = documentStorageScope tenant account ++ "/" ++ name

theorem isKeyChar_of_hexDigit {c : Char} (h : (hexDigit c).isSome = true) : isKeyChar c = true := by
  have hrange : (48 ≤ c.toNat ∧ c.toNat ≤ 57) ∨ (97 ≤ c.toNat ∧ c.toNat ≤ 102) ∨ (65 ≤ c.toNat ∧ c.toNat ≤ 70) := by
    unfold hexDigit at h
    split at h
    · next hdigit => exact Or.inl hdigit
    · split at h
      · next hlower => exact Or.inr (Or.inl hlower)
      · split at h
        · next hupper => exact Or.inr (Or.inr hupper)
        · exact nomatch h
  have hcode : c.val.toNat = c.toNat := rfl
  have hkey : isKeyChar c = ((decide (c.val ≥ 'A'.val ∧ c.val ≤ 'Z'.val) ||
      decide (c.val ≥ 'a'.val) && decide (c.val ≤ 'z'.val)) || decide (c.val ≥ '0'.val) && decide (c.val ≤ '9'.val) ||
        decide (c = '_') || decide (c = '-')) := rfl
  simp only [hkey, Bool.or_eq_true, Bool.and_eq_true, decide_eq_true_eq, ge_iff_le, UInt32.le_iff_toNat_le, hcode,
    Char.reduceVal, UInt32.reduceToNat]
  omega

theorem isStorageKey_append (s t : List Char) :
    isStorageKey (s ++ '/' :: t) = (isStorageKey s && isStorageKey t) := by
  rw [isStorageKey, List.splitOn_append_cons_self, List.all_append]
  rfl

theorem isStorageKey_part {part : List Char} (hne : part ≠ []) (h : ∀ c ∈ part, isKeyChar c = true) :
    isStorageKey part = true := by
  have hslash : '/' ∉ part := fun hmem => absurd (h '/' hmem) (by decide)
  rw [isStorageKey, List.splitOn_eq_singleton hslash]
  simpa [hne] using h

theorem length_uuidString {n : UUID} (h : n < 2 ^ 128) : (uuidString n).toList.length = 36 := by
  have hdigits : (toHex n).length ≤ 32 := length_toHex_le (by omega) (by omega)
  have hlength : (zfill 32 (toHex n)).length = 32 := by
    rw [zfill, List.length_append, List.length_replicate]
    omega
  rw [uuidString, String.toList_ofList, grouped]
  simp only [List.length_append, List.length_cons, List.length_take, List.length_drop, hlength]
  omega

theorem isStorageKey_uuidString (n : UUID) : isStorageKey (uuidString n).toList = true := by
  refine isStorageKey_part (List.ne_nil_of_mem (hyphen_mem_uuidString n)) fun c hc => ?_
  rcases hexDigit_of_mem_uuidString hc with rfl | hdigit
  · rfl
  · exact isKeyChar_of_hexDigit hdigit

theorem IsHexName.isStorageKey {name : String} (h : IsHexName name) : isStorageKey name.toList = true := by
  refine isStorageKey_part ?_ fun c hc => isKeyChar_of_hexDigit (h.2 c hc)
  intro hnil
  have hlength := h.1
  rw [← String.length_toList, hnil] at hlength
  exact absurd hlength (by simp)

theorem IsHexName.valid {name : String} (h : IsHexName name) : validStorageKey name = true := by
  rw [validStorageKey, h.1, h.isStorageKey]
  rfl

theorem IsHexName.slash_not_mem {name : String} (h : IsHexName name) : '/' ∉ name.toList :=
  fun hmem => absurd (h.2 '/' hmem) (by decide)

theorem toList_filedKey (tenant account : UUID) (name : String) :
    (documentStorageScope tenant account ++ "/" ++ name).toList = "tenants".toList ++ '/' ::
      ((uuidString tenant).toList ++ '/' :: ("accounts".toList ++ '/' :: ((uuidString account).toList ++ '/' ::
        ("files".toList ++ '/' :: name.toList)))) := by
  have htenants : "tenants/".toList = "tenants".toList ++ ['/'] := by simp
  have haccounts : "/accounts/".toList = '/' :: ("accounts".toList ++ ['/']) := by simp
  have hfiles : "/files".toList = '/' :: "files".toList := by simp
  have hslash : "/".toList = ['/'] := by simp
  simp only [documentStorageScope, String.toList_append, htenants, haccounts, hfiles, hslash, List.append_assoc,
    List.cons_append, List.nil_append]

theorem slash_not_mem_uuidString (n : UUID) : '/' ∉ (uuidString n).toList := by
  intro hmem
  rcases hexDigit_of_mem_uuidString hmem with h | h <;> exact absurd h (by decide)

/-- The components of what is filed under a scope. -/
theorem splitOn_filedKey {name : String} (h : IsHexName name) (tenant account : UUID) :
    (documentStorageScope tenant account ++ "/" ++ name).toList.splitOn '/' =
      ["tenants".toList, (uuidString tenant).toList, "accounts".toList, (uuidString account).toList,
        "files".toList, name.toList] := by
  rw [toList_filedKey]
  simp only [List.splitOn_append_cons_self, List.splitOn_eq_singleton (slash_not_mem_uuidString _),
    List.splitOn_eq_singleton h.slash_not_mem, List.cons_append, List.nil_append]
  rfl

/-- What is filed under a scope can be read there. -/
theorem IsFiledKey.valid {key : String} (h : IsFiledKey key) : validStorageKey key = true := by
  obtain ⟨tenant, account, name, htenant, haccount, hname, rfl⟩ := h
  have hkey : isStorageKey (documentStorageScope tenant account ++ "/" ++ name).toList = true := by
    rw [toList_filedKey]
    simp only [isStorageKey_append, isStorageKey_uuidString, hname.isStorageKey, Bool.and_true]
    decide
  have hlength : (documentStorageScope tenant account ++ "/" ++ name).length ≤ 240 := by
    rw [← String.length_toList, toList_filedKey]
    simp only [List.length_append, List.length_cons, length_uuidString htenant, length_uuidString haccount,
      String.length_toList, hname.1]
    decide
  rw [validStorageKey, hkey, Bool.and_true]
  exact decide_eq_true hlength

theorem IsFiledKey.isScoped {key : String} (h : IsFiledKey key) : isScoped key = true := by
  obtain ⟨tenant, account, name, -, -, -, rfl⟩ := h
  exact isScoped_documentStorageScope tenant account name

theorem IsFiledKey.isHexName_baseName {key : String} (h : IsFiledKey key) : IsHexName (baseName key) := by
  obtain ⟨tenant, account, name, -, -, hname, rfl⟩ := h
  rw [baseName_append _ hname.slash_not_mem]
  exact hname

end Rubrica
