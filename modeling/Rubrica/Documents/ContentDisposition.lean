import Rubrica.Documents.Percent

set_option autoImplicit false

/-! # The header of a download

What `pdf_content_disposition` builds from a file name that somebody else has chosen: whatever it is, a reader
finds the two parameters that are meant, and no others. -/

namespace Rubrica

open Texts

/-! ## The header -/

/-- A character of a fallback name: `32 <= ord(char) < 127 and char not in '\\"'`. -/
def isFallbackChar (c : Char) : Bool :=
  32 ≤ c.toNat && c.toNat < 127 && c ≠ '\\' && c ≠ '"'

/-- The name for clients that know no other one. -/
def fallbackName (filename : String) : String :=
  if filename.toList.all (fun c => c.toNat < 128) && filename.toList.all isFallbackChar then filename
  else "documento.pdf"

def dispositionType (attachment : Bool) : String :=
  if attachment then "attachment" else "inline"

/-- `pdf_content_disposition`. -/
def pdfContentDisposition (filename : String) (attachment : Bool) : String :=
  dispositionType attachment ++ "; filename=\"" ++ fallbackName filename ++ "\"; filename*=UTF-8''" ++
    String.ofList (quote filename)

/-! ## What a reader finds -/

/-- The name in an extended parameter: `filename*=UTF-8''` and the encoded name. -/
def extendedName (parameter : List Char) : Option String :=
  (parameter.dropPrefix? " filename*=UTF-8''".toList).bind unquote

/-- Printable ASCII. -/
def isPrintable (c : Char) : Bool :=
  32 ≤ c.toNat && c.toNat ≤ 126

theorem isFallbackChar_of_mem {filename : String} {c : Char} (h : c ∈ (fallbackName filename).toList) :
    isFallbackChar c = true := by
  unfold fallbackName at h
  split at h
  · next hall => exact List.all_eq_true.1 (Bool.and_eq_true_iff.1 hall).2 c h
  · have hdefault : "documento.pdf".toList.all isFallbackChar = true := by decide
    exact List.all_eq_true.1 hdefault c h

theorem toList_pdfContentDisposition (filename : String) (attachment : Bool) :
    (pdfContentDisposition filename attachment).toList = (dispositionType attachment).toList ++ ';' ::
      (" filename=".toList ++ '"' :: ((fallbackName filename).toList ++ '"' :: ([] ++ ';' ::
        (" filename*=UTF-8''".toList ++ (quote filename ++ []))))) := by
  have hname : "; filename=\"".toList = ';' :: (" filename=".toList ++ ['"']) := by simp
  have hextended : "\"; filename*=UTF-8''".toList = '"' :: ';' :: " filename*=UTF-8''".toList := by simp
  simp only [pdfContentDisposition, String.toList_append, hname, hextended, String.toList_ofList, List.append_assoc,
    List.cons_append, List.nil_append, List.append_nil]

/-- The names of the parameters, and the types, are printable, and end no parameter. -/
theorem fixed_chars (attachment : Bool) :
    ((dispositionType attachment).toList ++ " filename=".toList ++ " filename*=UTF-8''".toList).all
      (fun c => isPrintable c && c ≠ ';' && c ≠ '"') = true := by
  cases attachment <;> decide

/-- **The header of a download is safe and loses nothing.** It is printable, has exactly the two parameters, the
    quoted one without a quote or a backslash inside, and the extended one gives the name back. -/
theorem download_header_safe (filename : String) (attachment : Bool) :
    (∀ c ∈ (pdfContentDisposition filename attachment).toList, isPrintable c = true) ∧
      ∃ extended : List Char,
        parameters .plain (pdfContentDisposition filename attachment).toList =
          [(dispositionType attachment).toList,
            " filename=".toList ++ '"' :: ((fallbackName filename).toList ++ ['"']), extended] ∧
        (∀ c ∈ (fallbackName filename).toList, c ≠ '"' ∧ c ≠ '\\') ∧ extendedName extended = some filename := by
  have hfixed : ∀ c ∈ (dispositionType attachment).toList ++ " filename=".toList ++ " filename*=UTF-8''".toList,
      isPrintable c = true ∧ c ≠ ';' ∧ c ≠ '"' := by
    intro c hc
    simpa [and_assoc] using List.all_eq_true.1 (fixed_chars attachment) c hc
  have hfallback : ∀ c ∈ (fallbackName filename).toList, isPrintable c = true ∧ c ≠ '"' ∧ c ≠ '\\' := by
    intro c hc
    have h := isFallbackChar_of_mem hc
    simp only [isFallbackChar, Bool.and_eq_true, decide_eq_true_eq] at h
    have hprintable : isPrintable c = true := by
      simp only [isPrintable, Bool.and_eq_true, decide_eq_true_eq]
      omega
    exact ⟨hprintable, h.2, h.1.2⟩
  have hquoted : ∀ c ∈ quote filename, isPrintable c = true ∧ c ≠ ';' ∧ c ≠ '"' := by
    intro c hc
    have h : isValueChar c = true := isValueChar_of_mem_quoteBytes hc
    simp only [isValueChar, Bool.and_eq_true, decide_eq_true_eq] at h
    have hprintable : isPrintable c = true := by
      simp only [isPrintable, Bool.and_eq_true, decide_eq_true_eq]
      omega
    exact ⟨hprintable, h.2, h.1.1.2⟩
  rw [toList_pdfContentDisposition]
  simp only [List.mem_append] at hfixed
  refine ⟨fun c hc => ?_, " filename*=UTF-8''".toList ++ quote filename, ?_, fun c hc => (hfallback c hc).2, ?_⟩
  · simp only [List.mem_append, List.mem_cons, List.nil_append, List.append_nil] at hc
    rcases hc with hc | rfl | hc | rfl | hc | rfl | rfl | hc | hc
    · exact (hfixed c (Or.inl (Or.inl hc))).1
    · rfl
    · exact (hfixed c (Or.inl (Or.inr hc))).1
    · rfl
    · exact (hfallback c hc).1
    · rfl
    · rfl
    · exact (hfixed c (Or.inr hc)).1
    · exact (hquoted c hc).1
  · -- One stretch after the other: the type, the quoted name, and the extended one.
    rw [parameters_plain fun c hc => (hfixed c (Or.inl (Or.inl hc))).2, parameters_semicolon,
      parameters_plain fun c hc => (hfixed c (Or.inl (Or.inr hc))).2, parameters_quote,
      parameters_quoted fun c hc => (hfallback c hc).2, List.nil_append, parameters_semicolon,
      parameters_plain fun c hc => (hfixed c (Or.inr hc)).2, parameters_plain fun c hc => (hquoted c hc).2]
    simp [parameters]
  · rw [extendedName, List.dropPrefix?_append_of_beq _ (beq_self_eq_true _), Option.bind_some]
    exact unquote_quote filename

/-- A name with a quote in it is kept out of the quotes. -/
example : pdfContentDisposition "a\"b.pdf" true =
    "attachment; filename=\"documento.pdf\"; filename*=UTF-8''a%22b.pdf" := by decide +kernel

end Rubrica
