import Rubrica.Documents.Percent
import Rubrica.Signatures.CanonicalJson
import Rubrica.Signatures.Storing

set_option autoImplicit false

/-! # Evidence that verifies

`verify_signed_pdf` recomputes the hash of each record of evidence in a signed PDF and the hash over them all.
What `sign` embeds passes, however many have signed before and whatever their records say, and no other list of
records passes under the same manifest hash. -/

namespace Rubrica

open Transactions Texts

variable {B Page : Type}

/-! ## `verify_signed_pdf` -/

def entryOf (entries : List (String × String)) (key : String) : Option String :=
  (entries.find? fun x => x.1 = key).map Prod.snd

/-- `metadata.get(key)`. -/
def Pdf.entry (pdf : Pdf Page) (key : String) : Option String :=
  entryOf pdf.metadata key

/-- How the tool ends where it does not verify: by `SystemExit`, or by another exception. -/
inductive ToolError where
  | exit (message : String)
  | raised (type : String)
  deriving DecidableEq, Repr

/-- What it prints. -/
structure Verification where
  pdfSha256 : String
  artifactId : Option String
  requestId : Option String
  documentId : Option String
  documentVersion : Option String
  originalSha256 : Option String
  evidenceManifestSha256 : String
  signatures : List Json

/-- The entries that are hashed: all but the hash. -/
def withoutHash (item : Dict) : Dict :=
  item.filter fun x => x.1 ≠ "evidence_sha256"

section Tool

variable (host : Host B Page) (loads : String → Option Json) (str : Json → String)

/-- `str(value)`; `str` is what it gives of a value that is not a text. -/
def shown : Json → String
  | .text s => s
  | v => str v

/-- `str(item.get("evidence_sha256", ""))`. -/
def storedHash (item : Dict) : String :=
  (Dict.get? item "evidence_sha256").elim "" (shown str)

/-- The hash of an item, where it is the one that is stored with it. -/
def verifiedHash : Json → Except ToolError String
  | .dict item =>
      if storedHash str item = host.evidenceSha256 (withoutHash item) then .ok (storedHash str item)
      else .error (.exit ("Invalid evidence hash for signer " ++
        shown str ((Dict.get? item "signer_id").getD (.text "unknown")) ++ "."))
  | _ => .error (.raised "AttributeError")

/-- `verified_hashes`. -/
def verifiedHashes : List Json → Except ToolError (List String)
  | [] => .ok []
  | item :: rest => do
      let hash ← verifiedHash host str item
      let hashes ← verifiedHashes rest
      pure (hash :: hashes)

/-- What `for item in evidence` runs over. -/
def iterated : Json → Except ToolError (List Json)
  | .list items => .ok items
  | .dict items => .ok (items.map fun x => .text x.1)
  | .text s => .ok (s.toList.map fun c => .text c.toString)
  | _ => .error (.raised "TypeError")

def orExit {α : Type} (o : Option α) (e : ToolError) : Except ToolError α :=
  o.elim (.error e) .ok

/-- `calculated_manifest`. -/
def calculatedManifest (hashes : List String) : String :=
  host.sha256 (host.encode ("|".intercalate hashes))

/-- `stored_manifest`. -/
def storedManifest (pdf : Pdf Page) : String :=
  (pdf.entry "/RubricaEvidenceManifestSHA256").getD ""

def verificationOf (content : B) (pdf : Pdf Page) (items : List Json) : Verification where
  pdfSha256 := host.sha256 content
  artifactId := pdf.entry "/RubricaArtifactId"
  requestId := pdf.entry "/RubricaRequestId"
  documentId := pdf.entry "/RubricaDocumentId"
  documentVersion := pdf.entry "/RubricaDocumentVersion"
  originalSha256 := pdf.entry "/RubricaOriginalSHA256"
  evidenceManifestSha256 := storedManifest pdf
  signatures := items

/-- `main`, for the content of the file. -/
def verifySignedPdf (content : B) : Except ToolError Verification := do
  let pdf ← orExit (host.readPdf content) (.raised "PdfReadError")
  let encoded ← orExit (present (pdf.entry "/RubricaEvidenceJSON"))
    (.exit "This PDF does not contain the full Rubrica evidence package.")
  let evidence ← orExit (loads encoded) (.raised "JSONDecodeError")
  let items ← iterated evidence
  let hashes ← verifiedHashes host str items
  if calculatedManifest host hashes = storedManifest pdf then pure (verificationOf host content pdf items)
  else .error (.exit "Invalid Rubrica evidence manifest hash.")

end Tool

/-! ## What it relies on -/

/-- The entries that carry the evidence. -/
def evidenceEntries : List String :=
  ["/RubricaEvidenceJSON", "/RubricaEvidenceManifestSHA256"]

/-- The PDF packages hand out the entries that they were given, also after a certificate or a timestamp. -/
structure KeepsEntries (host : Host B Page) (services : SigningServices B) : Prop where
  reads : ∀ pdf, ∃ pdf', host.readPdf (host.writePdf pdf) = some pdf' ∧
    ∀ key ∈ evidenceEntries, pdf'.entry key = pdf.entry key
  certifies : ∀ accessToken b b', services.signPdf accessToken b = .ok b' → ∀ pdf, host.readPdf b = some pdf →
    ∃ pdf', host.readPdf b' = some pdf' ∧ ∀ key ∈ evidenceEntries, pdf'.entry key = pdf.entry key
  timestamps : ∀ b x, services.timestamp b = .ok x → ∀ pdf, host.readPdf b = some pdf →
    ∃ pdf', host.readPdf x.1 = some pdf' ∧ ∀ key ∈ evidenceEntries, pdf'.entry key = pdf.entry key

/-- SHA-256 of texts has no collisions, and a digest is not empty and has no bar in it. -/
structure HashesTexts (host : Host B Page) : Prop where
  injective : Function.Injective fun s => host.sha256 (host.encode s)
  digest : ∀ s, host.sha256 (host.encode s) ≠ "" ∧ '|' ∉ (host.sha256 (host.encode s)).toList

/-- `json.loads` gives back what canonical JSON was made of. -/
def RoundTrips (host : Host B Page) (loads : String → Option Json) : Prop :=
  ∀ v, loads (host.canonicalJson v) = some v.sorted

/-! ## Entries -/

/-- One entry of an update. -/
def putEntry (entries : List (String × String)) (x : String × String) : List (String × String) :=
  if entries.any fun y => y.1 = x.1 then entries.map fun y => if y.1 = x.1 then x else y
  else entries ++ [x]

theorem entryOf_putEntry (entries : List (String × String)) (x : String × String) (key : String) :
    entryOf (putEntry entries x) key = if key = x.1 then some x.2 else entryOf entries key := by
  unfold putEntry entryOf
  split
  case isTrue hany =>
    have hsame : ∀ y : String × String, decide ((if y.1 = x.1 then x else y).1 = key) = decide (y.1 = key) := by
      intro y
      split
      · next hy => rw [hy]
      · rfl
    rw [List.find?_map]
    simp only [Function.comp_def, hsame]
    split
    case isTrue hkey =>
      subst hkey
      obtain ⟨y, hy, hyx⟩ := List.any_eq_true.1 hany
      cases hfind : entries.find? fun y => decide (y.1 = x.1) with
      | none => exact absurd hyx (by simpa using List.find?_eq_none.1 hfind y hy)
      | some z =>
          have hz : z.1 = x.1 := by simpa using List.find?_some hfind
          simp [hz]
    case isFalse hkey =>
      cases hfind : entries.find? fun y => decide (y.1 = key) with
      | none => rfl
      | some z =>
          have hz : z.1 = key := by simpa using List.find?_some hfind
          have hne : z.1 ≠ x.1 := by
            rw [hz]
            exact hkey
          simp [hne]
  case isFalse hany =>
    rw [List.find?_append]
    split
    case isTrue hkey =>
      subst hkey
      have hnone : (entries.find? fun y => decide (y.1 = x.1)) = none := by
        refine List.find?_eq_none.2 fun y hy hyx => hany (List.any_eq_true.2 ⟨y, hy, hyx⟩)
      rw [hnone]
      simp
    case isFalse hkey =>
      have hlast : ([x].find? fun y => decide (y.1 = key)) = none := by
        simp [Ne.symm hkey]
      rw [hlast, Option.or_none]

theorem entryOf_updated_of_notMem {entries news : List (String × String)} {key : String}
    (h : ∀ x ∈ news, key ≠ x.1) : entryOf (updated entries news) key = entryOf entries key := by
  induction news generalizing entries with
  | nil => rfl
  | cons x news ih =>
      obtain ⟨hx, hnews⟩ := List.forall_mem_cons.1 h
      have hrest : entryOf (updated (putEntry entries x) news) key = entryOf (putEntry entries x) key := ih hnews
      rw [entryOf_putEntry, if_neg hx] at hrest
      exact hrest

/-- Where no key is given twice, every entry of an update is there. -/
theorem entryOf_updated {entries news : List (String × String)} {key value : String}
    (hnodup : (news.map Prod.fst).Nodup) (hmem : (key, value) ∈ news) :
    entryOf (updated entries news) key = some value := by
  induction news generalizing entries with
  | nil => exact absurd hmem List.not_mem_nil
  | cons x news ih =>
      rw [List.map_cons, List.nodup_cons] at hnodup
      obtain ⟨hnotMem, hnodup⟩ := hnodup
      rcases List.mem_cons.1 hmem with rfl | hmem
      · have hlater : ∀ y ∈ news, key ≠ y.1 := by
          rintro y hy rfl
          exact hnotMem (List.mem_map.2 ⟨y, hy, rfl⟩)
        have hrest : entryOf (updated (putEntry entries (key, value)) news) key =
            entryOf (putEntry entries (key, value)) key := entryOf_updated_of_notMem hlater
        rw [entryOf_putEntry, if_pos rfl] at hrest
        exact hrest
      · have hrest : entryOf (updated (putEntry entries x) news) key = some value := ih hnodup hmem
        exact hrest

/-! ## Records -/

/-- Evidence with its hash. -/
def Evidenced (host : Host B Page) (record : Dict) : Prop :=
  ∃ evidence : Dict, (∀ x ∈ evidence, x.1 ≠ "evidence_sha256") ∧
    record = evidence ++ [("evidence_sha256", .text (host.evidenceSha256 evidence))]

section Records

variable {host : Host B Page} {loads : String → Option Json} {str : Json → String} {record : Dict}

theorem get?_append_of_notMem {d d' : Dict} {key : String} (h : ∀ x ∈ d, x.1 ≠ key) :
    Dict.get? (d ++ d') key = Dict.get? d' key := by
  have hnone : (d.find? fun x => x.1 = key) = none :=
    List.find?_eq_none.2 fun x hx hxk => h x hx (of_decide_eq_true hxk)
  rw [Dict.get?, List.find?_append, hnone, Option.none_or]
  rfl

theorem withoutHash_append {evidence : Dict} {hash : Json} (h : ∀ x ∈ evidence, x.1 ≠ "evidence_sha256") :
    withoutHash (evidence ++ [("evidence_sha256", hash)]) = evidence := by
  have hall : evidence.filter (fun x => x.1 ≠ "evidence_sha256") = evidence :=
    List.filter_eq_self.2 fun x hx => decide_eq_true (h x hx)
  rw [withoutHash, List.filter_append, hall]
  simp

/-- In the canonical text the same entry stands under a key. -/
theorem get?_inOrder (d : Dict) (key : String) {v : Json} (h : d.filter (fun x => x.1 = key) = [(key, v)]) :
    Dict.get? ((Json.inOrder d).map fun x => (x.1, x.2.sorted)) key = some v.sorted := by
  have hfind : (Json.inOrder d).find? (fun x => x.1 = key) = some (key, v) := by
    rw [← List.head?_filter, Json.filter_inOrder, h]
    rfl
  rw [Dict.get?, List.find?_map]
  simp only [Function.comp_def]
  rw [hfind]
  rfl

theorem evidenceSha256_sorted (d : Dict) :
    host.evidenceSha256 ((Json.inOrder d).map fun x => (x.1, x.2.sorted)) = host.evidenceSha256 d := by
  rw [Host.evidenceSha256, Host.canonicalJson, ← Json.sorted_dict, Json.dumps_sorted]
  rfl

/-- A record that comes out of the canonical text verifies. -/
theorem Evidenced.verifiedHash (h : Evidenced host record) :
    verifiedHash host str (Json.dict record).sorted = .ok (record.text "evidence_sha256") := by
  obtain ⟨evidence, hkeys, rfl⟩ := h
  have hfilter : (evidence ++ [("evidence_sha256", Json.text (host.evidenceSha256 evidence))]).filter
      (fun x => x.1 = "evidence_sha256") = [("evidence_sha256", .text (host.evidenceSha256 evidence))] := by
    have hnone : evidence.filter (fun x => x.1 = "evidence_sha256") = [] :=
      List.filter_eq_nil_iff.2 fun x hx hxk => hkeys x hx (of_decide_eq_true hxk)
    rw [List.filter_append, hnone]
    simp
  have hstored := get?_inOrder _ _ hfilter
  have hpayload : withoutHash ((Json.inOrder (evidence ++
      [("evidence_sha256", .text (host.evidenceSha256 evidence))])).map fun x => (x.1, x.2.sorted)) =
      (Json.inOrder evidence).map fun x => (x.1, x.2.sorted) := by
    rw [withoutHash, List.filter_map]
    simp only [Function.comp_def]
    rw [Json.filter_inOrder]
    exact congrArg (fun l => (Json.inOrder l).map fun x => (x.1, x.2.sorted)) (withoutHash_append hkeys)
  have htext : Dict.text (evidence ++ [("evidence_sha256", .text (host.evidenceSha256 evidence))])
      "evidence_sha256" = host.evidenceSha256 evidence := by
    rw [Dict.text, get?_append_of_notMem hkeys]
    rfl
  rw [Json.sorted_dict, Rubrica.verifiedHash, storedHash, hstored, hpayload, evidenceSha256_sorted, htext]
  exact if_pos rfl

theorem tool_bind_eq_ok {α β : Type} {x : Except ToolError α} {f : α → Except ToolError β} {b : β} :
    (x >>= f) = .ok b ↔ ∃ a, x = .ok a ∧ f a = .ok b := by
  cases x with
  | ok a => simp [bind, Except.bind]
  | error e => simp [bind, Except.bind]

theorem orExit_eq_ok {α : Type} {o : Option α} {e : ToolError} {a : α} : orExit o e = .ok a ↔ o = some a := by
  cases o with
  | none => simp [orExit]
  | some b => simp [orExit]

theorem verifiedHashes_eq_ok {items : List Json} {hashes : List String} :
    verifiedHashes host str items = .ok hashes ↔
      List.Forall₂ (fun item hash => verifiedHash host str item = .ok hash) items hashes := by
  induction items generalizing hashes with
  | nil =>
      rw [verifiedHashes, List.forall₂_nil_left_iff]
      exact ⟨fun h => (Except.ok.inj h).symm, fun h => congrArg _ h.symm⟩
  | cons item rest ih =>
      rw [verifiedHashes, List.forall₂_cons_left_iff, tool_bind_eq_ok]
      constructor
      · rintro ⟨hash, hhash, h⟩
        obtain ⟨hashes', hrest, h⟩ := tool_bind_eq_ok.1 h
        exact ⟨hash, hashes', hhash, ih.1 hrest, (Except.ok.inj h).symm⟩
      · rintro ⟨hash, hashes', hhash, hall, rfl⟩
        exact ⟨hash, hhash, tool_bind_eq_ok.2 ⟨hashes', ih.2 hall, rfl⟩⟩

/-- The manifest hash in the document information of a PDF. -/
def manifestIn (host : Host B Page) (content : B) : Option String :=
  (host.readPdf content).bind fun pdf => pdf.entry "/RubricaEvidenceManifestSHA256"

/-- The tool verifies a PDF where every item has its hash and the manifest hash is that of them all. -/
theorem verifySignedPdf_eq_ok {content : B} {v : Verification} (h : verifySignedPdf host loads str content = .ok v) :
    ∃ hashes, verifiedHashes host str v.signatures = .ok hashes ∧
      calculatedManifest host hashes = (manifestIn host content).getD "" := by
  unfold verifySignedPdf at h
  obtain ⟨pdf, hpdf, h⟩ := tool_bind_eq_ok.1 h
  obtain ⟨encoded, -, h⟩ := tool_bind_eq_ok.1 h
  obtain ⟨evidence, -, h⟩ := tool_bind_eq_ok.1 h
  obtain ⟨items, -, h⟩ := tool_bind_eq_ok.1 h
  obtain ⟨hashes, hhashes, h⟩ := tool_bind_eq_ok.1 h
  split at h
  · next hmanifest =>
      obtain rfl := Except.ok.inj h
      refine ⟨hashes, hhashes, ?_⟩
      rw [manifestIn, orExit_eq_ok.1 hpdf, Option.bind_some]
      exact hmanifest
  · exact absurd h (by simp)

theorem verifySignedPdf_of_entries {content : B} {pdf : Pdf Page} {stamps : List Dict} (hloads : RoundTrips host loads)
    (hpdf : host.readPdf content = some pdf)
    (hevidence : pdf.entry "/RubricaEvidenceJSON" = some (host.canonicalJson (.list (stamps.map .dict))))
    (hmanifest : pdf.entry "/RubricaEvidenceManifestSHA256" = some (manifestHash host stamps))
    (hstamps : ∀ record ∈ stamps, Evidenced host record) :
    ∃ v, verifySignedPdf host loads str content = .ok v ∧
      v.signatures = stamps.map fun record => (Json.dict record).sorted := by
  have hne : host.canonicalJson (.list (stamps.map .dict)) ≠ "" := by
    intro hempty
    have hlist := congrArg String.toList hempty
    rw [Host.canonicalJson, Json.dumps_list_toList] at hlist
    exact absurd hlist (by simp)
  have hpresent : present (pdf.entry "/RubricaEvidenceJSON") =
      some (host.canonicalJson (.list (stamps.map .dict))) := by
    rw [hevidence, present, Option.filter_some, if_pos (decide_eq_true hne)]
  have hsorted : (Json.list (stamps.map .dict)).sorted = .list (stamps.map fun record => (Json.dict record).sorted) := by
    rw [Json.sorted, Json.sortedList_eq, List.map_map]
    rfl
  have hhashes : verifiedHashes host str (stamps.map fun record => (Json.dict record).sorted) =
      .ok (stamps.map fun record => record.text "evidence_sha256") := by
    refine verifiedHashes_eq_ok.2 ?_
    rw [List.forall₂_map_left_iff, List.forall₂_map_right_iff]
    exact List.forall₂_same.2 fun record hrecord => (hstamps record hrecord).verifiedHash
  refine ⟨verificationOf host content pdf _, ?_, rfl⟩
  unfold verifySignedPdf
  refine tool_bind_eq_ok.2 ⟨pdf, orExit_eq_ok.2 hpdf, ?_⟩
  refine tool_bind_eq_ok.2 ⟨_, orExit_eq_ok.2 hpresent, ?_⟩
  refine tool_bind_eq_ok.2 ⟨_, orExit_eq_ok.2 (hloads _), ?_⟩
  rw [hsorted]
  refine tool_bind_eq_ok.2 ⟨_, rfl, tool_bind_eq_ok.2 ⟨_, hhashes, if_pos ?_⟩⟩
  rw [storedManifest, hmanifest]
  rfl

/-! ## No other evidence -/

/-- Hashes between bars are told apart. -/
theorem intercalate_bar_inj {hashes hashes' : List String} (h : ∀ s ∈ hashes, s ≠ "" ∧ '|' ∉ s.toList)
    (h' : ∀ s ∈ hashes', s ≠ "" ∧ '|' ∉ s.toList) (heq : "|".intercalate hashes = "|".intercalate hashes') :
    hashes = hashes' := by
  have hbar : "|".toList = ['|'] := by simp
  have hlist := congrArg String.toList heq
  rw [String.toList_intercalate, String.toList_intercalate, hbar] at hlist
  have hsplit : ∀ l : List String, (∀ s ∈ l, s ≠ "" ∧ '|' ∉ s.toList) → l ≠ [] →
      (['|'].intercalate (l.map String.toList)).splitOn '|' = l.map String.toList := by
    intro l hl hne
    refine List.splitOn_intercalate '|' (fun s hs => ?_) (by simpa using hne)
    obtain ⟨t, ht, rfl⟩ := List.mem_map.1 hs
    exact (hl t ht).2
  have hnil : ∀ l : List String, (∀ s ∈ l, s ≠ "" ∧ '|' ∉ s.toList) →
      ['|'].intercalate (l.map String.toList) = [] → l = [] := by
    intro l hl hempty
    cases l with
    | nil => rfl
    | cons s l =>
        have hs := hsplit (s :: l) hl (by simp)
        rw [hempty] at hs
        have hfirst : s.toList = [] := (List.cons.inj hs).1.symm
        exact absurd (String.toList_eq_nil_iff.1 hfirst) (hl s List.mem_cons_self).1
  by_cases hempty : hashes = []
  · subst hempty
    exact (hnil hashes' h' hlist.symm).symm
  · by_cases hempty' : hashes' = []
    · subst hempty'
      exact hnil hashes h hlist
    · have hmap := congrArg (List.splitOn '|') hlist
      rw [hsplit _ h hempty, hsplit _ h' hempty'] at hmap
      exact List.map_injective_iff.2 (fun s t hst => String.toList_inj.1 hst) hmap

theorem exists_of_forall₂ {α β : Type} {R : α → β → Prop} {l : List α} {l' : List β} (h : List.Forall₂ R l l') {b : β}
    (hb : b ∈ l') : ∃ a, R a b := by
  induction h with
  | nil => exact absurd hb List.not_mem_nil
  | @cons a b' l l' hab _ ih =>
      rcases List.mem_cons.1 hb with rfl | hb
      · exact ⟨a, hab⟩
      · exact ih hb

/-- The item is the record, but for the order of its keys and for its hash. -/
def SameRecord (item : Json) (record : Dict) : Prop :=
  ∃ d, item = .dict d ∧ (Json.dict (withoutHash d)).sorted = (Json.dict (withoutHash record)).sorted

theorem Evidenced.text (h : Evidenced host record) :
    record.text "evidence_sha256" = host.evidenceSha256 (withoutHash record) := by
  obtain ⟨evidence, hkeys, rfl⟩ := h
  rw [withoutHash_append hkeys, Dict.text, get?_append_of_notMem hkeys]
  rfl

/-- Whatever verifies under the manifest hash of the records is the records. -/
theorem sameRecords_of_verified (hhash : HashesTexts host) (hfloat : Json.FloatTexts host.floatRepr) {content : B}
    {v : Verification} {stamps : List Dict} (hstamps : ∀ record ∈ stamps, Evidenced host record)
    (hmanifest : manifestIn host content = some (manifestHash host stamps))
    (hv : verifySignedPdf host loads str content = .ok v) : List.Forall₂ SameRecord v.signatures stamps := by
  obtain ⟨hashes, hhashes, hcalculated⟩ := verifySignedPdf_eq_ok hv
  have hall := verifiedHashes_eq_ok.1 hhashes
  have hitem : ∀ item hash, verifiedHash host str item = .ok hash →
      ∃ d, item = .dict d ∧ hash = host.evidenceSha256 (withoutHash d) := by
    intro item hash h
    cases item with
    | dict d =>
        rw [verifiedHash] at h
        split at h
        · next hstored => exact ⟨d, rfl, (Except.ok.inj h).symm.trans hstored⟩
        · exact absurd h (by simp)
    | _ => exact absurd h (by simp [verifiedHash])
  have hdigests : ∀ s ∈ hashes, s ≠ "" ∧ '|' ∉ s.toList := by
    intro s hs
    obtain ⟨item, h⟩ := exists_of_forall₂ hall hs
    obtain ⟨d, -, rfl⟩ := hitem item s h
    exact hhash.digest _
  have hdigests' : ∀ s ∈ stamps.map fun record => record.text "evidence_sha256", s ≠ "" ∧ '|' ∉ s.toList := by
    intro s hs
    obtain ⟨record, hrecord, rfl⟩ := List.mem_map.1 hs
    rw [(hstamps record hrecord).text]
    exact hhash.digest _
  rw [hmanifest, Option.getD_some] at hcalculated
  have hjoined : hashes = stamps.map fun record => record.text "evidence_sha256" :=
    intercalate_bar_inj hdigests hdigests' (hhash.injective hcalculated)
  rw [hjoined, List.forall₂_map_right_iff] at hall
  obtain ⟨hlength, hall⟩ := List.forall₂_iff_zip.1 hall
  refine List.forall₂_iff_zip.2 ⟨hlength, fun {item record} hmem => ?_⟩
  have hrecord := (List.of_mem_zip hmem).2
  obtain ⟨d, rfl, hsame⟩ := hitem item _ (hall hmem)
  rw [(hstamps record hrecord).text] at hsame
  exact ⟨d, rfl, (Json.sorted_eq_of_dumps hfloat (hhash.injective hsame)).symm⟩

end Records

/-! ## What a signing embeds -/

section Signings

variable {host : Host B Page} {cfg : Settings} {services : SigningServices B} {x : Signing B} {r : SignatureRequest}
  {s : Signer} {existing : List (UUID × Signature)}

/-- A certificate and a timestamp leave the entries. -/
theorem finishPdf_entries (h : KeepsEntries host services) {mode : SignatureMode} {certificate : Option CertificateGrant}
    {generated : B} {finished : B × Option Dict} (hfinish : finishPdf cfg services mode certificate generated = .ok finished)
    {pdf : Pdf Page} (hpdf : host.readPdf generated = some pdf) :
    ∃ pdf', host.readPdf finished.1 = some pdf' ∧ ∀ key ∈ evidenceEntries, pdf'.entry key = pdf.entry key := by
  have htimestamp : ∀ (signed : B) (pdf : Pdf Page), host.readPdf signed = some pdf →
      (if mode = .serproTimestamp ∧ cfg.timestampEnabled = true then do
        let x ← services.timestamp signed
        pure (x.1, some x.2)
      else pure (signed, none) : Except Failure (B × Option Dict)) = .ok finished →
        ∃ pdf', host.readPdf finished.1 = some pdf' ∧ ∀ key ∈ evidenceEntries, pdf'.entry key = pdf.entry key := by
    intro signed pdf hread hsigned
    split at hsigned
    · obtain ⟨x, hx, hsigned⟩ := bind_eq_ok.1 hsigned
      obtain rfl := Except.ok.inj hsigned
      exact h.timestamps _ _ hx pdf hread
    · obtain rfl := Except.ok.inj hsigned
      exact ⟨pdf, hread, fun _ _ => rfl⟩
  cases certificate with
  | none => exact htimestamp generated pdf hpdf hfinish
  | some grant =>
      obtain ⟨signed, hsigned, hfinish⟩ := bind_eq_ok.1 hfinish
      obtain ⟨pdf', hread, hsame⟩ := h.certifies _ _ _ hsigned pdf hpdf
      obtain ⟨pdf'', hread', hsame'⟩ := htimestamp signed pdf' hread hfinish
      exact ⟨pdf'', hread', fun key hkey => (hsame' key hkey).trans (hsame key hkey)⟩

/-- The keys that `sign` adds to the document information. -/
def signedKeys : List String :=
  ["RubricaArtifactId", "RubricaRequestId", "RubricaDocumentId", "RubricaDocumentVersion", "RubricaOriginalSHA256",
    "RubricaEvidenceManifestSHA256", "RubricaSignerManifest", "RubricaIdentityBindingHMACSHA256",
    "RubricaLastSignedAt", "RubricaEvidenceJSON"]

theorem signedKeys_nodup : (signedKeys.map fun key => "/" ++ key).Nodup := by
  simp [signedKeys]

/-- The artifact carries the records and the hash over them. -/
theorem Signing.Composed.entries (h : KeepsEntries host services)
    (hx : x.Composed host cfg services r s existing) :
    ∃ pdf, host.readPdf x.artifact = some pdf ∧
      pdf.entry "/RubricaEvidenceJSON" = some (host.canonicalJson (.list (x.stamps.map .dict))) ∧
      pdf.entry "/RubricaEvidenceManifestSHA256" = some (manifestHash host x.stamps) := by
  obtain ⟨artifact, hmetadata⟩ := hx.metadata
  have hgenerated := hx.generated
  rw [generateSignedPdf] at hgenerated
  cases horiginal : host.readPdf x.original with
  | none => simp [horiginal] at hgenerated
  | some original =>
      simp only [horiginal] at hgenerated
      split at hgenerated
      · exact absurd hgenerated (by simp)
      · obtain ⟨written, hwritten, hentries⟩ := h.reads ⟨original.pages.zipIdx.map (stamped host x.stamps),
          updated original.metadata (x.metadata.map fun y => ("/" ++ y.1, y.2))⟩
        rw [Except.ok.inj hgenerated] at hwritten
        obtain ⟨pdf, hpdf, hsame⟩ := finishPdf_entries h hx.finished hwritten
        have hkeys : (x.metadata.map fun y => ("/" ++ y.1, y.2)).map Prod.fst = signedKeys.map fun key => "/" ++ key := by
          rw [hmetadata]
          rfl
        have hentry : ∀ key value, ("/" ++ key) ∈ evidenceEntries → (key, value) ∈ x.metadata →
            pdf.entry ("/" ++ key) = some value := by
          intro key value hkey hmem
          rw [hsame _ hkey, hentries _ hkey]
          refine entryOf_updated ?_ (List.mem_map.2 ⟨(key, value), hmem, rfl⟩)
          rw [hkeys]
          exact signedKeys_nodup
        have hevidence : "/RubricaEvidenceJSON" = "/" ++ "RubricaEvidenceJSON" := by simp
        have hmanifest : "/RubricaEvidenceManifestSHA256" = "/" ++ "RubricaEvidenceManifestSHA256" := by
          simp
        refine ⟨pdf, hpdf, ?_, ?_⟩
        · rw [hevidence]
          refine hentry _ _ (by rw [← hevidence]; simp [evidenceEntries]) ?_
          rw [hmetadata]
          simp [signedMetadata]
        · rw [hmanifest]
          refine hentry _ _ (by rw [← hmanifest]; simp [evidenceEntries]) ?_
          rw [hmetadata]
          simp [signedMetadata]

/-! ## Evidence on record -/

/-- The hash on record is that of the evidence, which has no entry for it. -/
def Signature.Hashed (host : Host B Page) (y : Signature) : Prop :=
  (∀ entry ∈ y.evidenceJson, entry.1 ≠ "evidence_sha256") ∧
    (present y.evidenceSha256).getD (host.evidenceSha256 y.evidenceJson) = host.evidenceSha256 y.evidenceJson

theorem mem_set {d : Dict} {key : String} {v : Json} {entry : String × Json} (h : entry ∈ d.set key v) :
    entry.1 = key ∨ ∃ y ∈ d, y.1 = entry.1 := by
  unfold Dict.set at h
  split at h
  · obtain ⟨y, hy, rfl⟩ := List.mem_map.1 h
    split
    · exact Or.inl rfl
    · exact Or.inr ⟨y, hy, rfl⟩
  · rcases List.mem_append.1 h with hd | hlast
    · exact Or.inr ⟨entry, hd, rfl⟩
    · obtain rfl := List.mem_singleton.1 hlast
      exact Or.inl rfl

theorem set_of_notMem {d : Dict} {key : String} {v : Json} (h : ∀ entry ∈ d, entry.1 ≠ key) :
    d.set key v = d ++ [(key, v)] := by
  refine if_neg fun hany => ?_
  obtain ⟨entry, hentry, hkey⟩ := List.any_eq_true.1 hany
  exact h entry hentry (of_decide_eq_true hkey)

/-- The keys of `_signature_evidence`. -/
def evidenceKeys : List String :=
  ["schema", "consent", "consent_version", "request_id", "signer_id", "document_id", "document_version",
    "original_sha256", "subject_hmac_sha256", "identity_binding_hmac_sha256", "signer_name", "identity_document_type",
    "identity_document_country", "identity_document_masked", "signer_email", "participant_role",
    "represented_tenant_id", "representation_snapshot", "issuer_snapshot", "signed_at", "stamp", "network", "client",
    "geolocation"]

/-- No entry of what is recorded is the hash. -/
theorem recordedEvidence_keys {request : UUID × SignatureRequest} {signer : UUID × Signer} {authUserId : String}
    {now : Int} {command : SignCommand} {country : Option String} {certificate : Option CertificateGrant}
    {entry : String × Json} (h : entry ∈ recordedEvidence host cfg services request signer authUserId now command
      country certificate) : entry.1 ≠ "evidence_sha256" := by
  have hmode : ∀ entry ∈ (signatureEvidence host cfg request signer authUserId now command
      (services.identitySummary authUserId) country).set "signature_mode" (.text request.2.signatureMode.text),
      entry.1 ≠ "evidence_sha256" := by
    intro entry hentry
    rcases mem_set hentry with hkey | ⟨y, hy, hkey⟩
    · rw [hkey]
      decide
    · rw [← hkey]
      intro heq
      have hmem : y.1 ∈ evidenceKeys := List.mem_map_of_mem (f := Prod.fst) hy
      rw [heq] at hmem
      exact absurd hmem (by simp [evidenceKeys])
  cases certificate with
  | none => exact hmode entry h
  | some grant =>
      rcases mem_set h with hkey | ⟨y, hy, hkey⟩
      · rw [hkey]
        decide
      · rw [← hkey]
        exact hmode y hy

theorem evidenced_stampRecord {evidence : Dict} {hash : Option String}
    (hkeys : ∀ entry ∈ evidence, entry.1 ≠ "evidence_sha256")
    (hhash : (present hash).getD (host.evidenceSha256 evidence) = host.evidenceSha256 evidence) :
    Evidenced host (stampRecord host evidence hash) := by
  refine ⟨evidence, hkeys, ?_⟩
  rw [stampRecord, hhash]
  exact set_of_notMem hkeys

theorem Signing.Composed.hashed (hx : x.Composed host cfg services r s existing) : x.signature.Hashed host := by
  obtain ⟨command, country, hevidence⟩ := hx.evidence
  refine ⟨fun entry hentry => ?_, ?_⟩
  · rw [hevidence] at hentry
    exact recordedEvidence_keys hentry
  · rw [hx.evidenceHash]
    unfold present
    rw [Option.filter_some]
    split <;> rfl

/-- Every signature on record has its hash. -/
def World.Hashed (host : Host B Page) (w : World B) : Prop :=
  ∀ id y, w.signatures.get? id = some y → y.Hashed host

end Signings

section Runs

variable {host : Host B Page} {cfg : Settings} {services : SigningServices B} {z : Circumstances B}
  {loads : String → Option Json} {str : Json → String} {w w' : World B} {x : Signing B}
  {Y Z : WorkflowSystem B} {steps : List (WorkflowStep B)}

theorem hashed_of_run (hrun : Run (workflowRuns host cfg services z) Y steps Z) (hidle : Y.sessions = [])
    (hmeets : ∀ x ∈ steps, (workflowProtocol host cfg services z).Meets x.1 x.2) (hstart : Y.shared.Hashed host) :
    Z.shared.Hashed host := by
  refine workflow_induct (motive := fun _ w => w.Hashed host) hrun hidle hmeets hstart (fun _ w w' ih hrests => ?_)
    fun _ w w' m ih hmoves => ?_
  · intro id y hy
    exact ih id y ((congrArg (fun a : Archive => a.signatures.get? id) hrests.archive).symm.trans hy)
  · intro id y hy
    have hnow : (m.onSignatures w.signatures).get? id = some y :=
      (congrArg (fun a : Archive => a.signatures.get? id) hmoves.archive).symm.trans hy
    cases m with
    | sign x =>
        rcases Table.get?_insert_eq_some hnow with hold | ⟨-, rfl⟩
        · exact ih id y hold
        · obtain ⟨H, hallowed, -⟩ := hmoves.allowed
          cases hallowed with
          | sign allowed => exact allowed.composed.hashed
    | _ => exact ih id y hnow

/-- The records of a signing where every signature on record has its hash. -/
theorem World.MovesTo.evidenced (h : w.MovesTo host cfg services z (.sign x) w') (hw : w.Hashed host) :
    ∀ record ∈ x.stamps, Evidenced host record := by
  obtain ⟨H, hallowed, -⟩ := h.allowed
  cases hallowed with
  | sign allowed =>
      intro record hrecord
      rw [allowed.composed.stamps, stampRecords] at hrecord
      rcases List.mem_append.1 hrecord with hold | hown
      · obtain ⟨⟨k, y⟩, hmem, rfl⟩ := List.mem_map.1 hold
        obtain ⟨hy, -⟩ := Table.mem_select_iff.1 ((List.mem_insertionSort _).1 hmem)
        obtain ⟨hkeys, hhash⟩ := hw k y hy
        exact evidenced_stampRecord hkeys hhash
      · obtain rfl := List.mem_singleton.1 hown
        obtain ⟨hkeys, -⟩ := allowed.composed.hashed
        refine evidenced_stampRecord hkeys ?_
        unfold present
        rw [Option.filter_some]
        split <;> rfl

/-- **Cumulative evidence verifies.** The artifact of every signing passes `verify_signed_pdf`, which prints its
    records, and no PDF with its manifest hash passes with other records. -/
theorem evidence_verifies (hkeeps : KeepsEntries host services) (hhash : HashesTexts host)
    (hfloat : Json.FloatTexts host.floatRepr) (hloads : RoundTrips host loads)
    (hrun : Run (workflowRuns host cfg services (anyCircumstances B)) Y steps Z) (hidle : Y.sessions = [])
    (hstart : Y.shared.Hashed host) {step : WorkflowStep B} (hstep : step ∈ steps) {X' : WorkflowSystem B}
    (htaken : step.1.step step.2 = some X') (hx : movedBy step = some (.sign x)) :
    (∃ v, verifySignedPdf host loads str x.artifact = .ok v ∧
        v.signatures = x.stamps.map fun record => (Json.dict record).sorted) ∧
      ∀ content, manifestIn host content = manifestIn host x.artifact → ∀ v,
        verifySignedPdf host loads str content = .ok v → List.Forall₂ SameRecord v.signatures x.stamps := by
  have hmeets : ∀ x ∈ steps, (workflowProtocol host cfg services (anyCircumstances B)).Meets x.1 x.2 :=
    fun _ _ _ _ _ => trivial
  obtain ⟨hnone, -⟩ | ⟨m, hm, hmoves⟩ := workflow_step hrun hidle hmeets hstep htaken
  · exact absurd (hx.symm.trans hnone) (by simp)
  obtain rfl := Option.some.inj (hx.symm.trans hm)
  have hhashed : step.1.shared.Hashed host := by
    obtain ⟨past, rest, rfl⟩ := List.append_of_mem hstep
    exact hashed_of_run hrun.split.1 hidle (fun _ _ _ _ _ => trivial) hstart
  have hstamps := hmoves.evidenced hhashed
  obtain ⟨H, hallowed, -⟩ := hmoves.allowed
  cases hallowed with
  | sign allowed =>
      obtain ⟨pdf, hpdf, hevidence, hmanifest⟩ := allowed.composed.entries hkeeps
      refine ⟨verifySignedPdf_of_entries hloads hpdf hevidence hmanifest hstamps, fun content hcontent v hv => ?_⟩
      refine sameRecords_of_verified hhash hfloat hstamps ?_ hv
      rw [hcontent, manifestIn, hpdf, Option.bind_some, hmanifest]

end Runs

/-! ## A host to verify with -/

/-- `json.loads`, for the texts that `json.dumps` writes. -/
noncomputable def loadsCanonical (host : Host B Page) (text : String) : Option Json := by
  classical
  exact if h : ∃ v, host.canonicalJson v = text then some h.choose.sorted else none

theorem roundTrips_loadsCanonical {host : Host B Page} (hfloat : Json.FloatTexts host.floatRepr) :
    RoundTrips host (loadsCanonical host) := by
  intro v
  have h : ∃ w, host.canonicalJson w = host.canonicalJson v := ⟨v, rfl⟩
  rw [loadsCanonical, dif_pos h]
  exact congrArg some (Json.sorted_eq_of_dumps hfloat h.choose_spec)

/-- The numerator, and the denominator where it is not one. -/
def fractionRepr (x : Rat) : String :=
  if x.den = 1 then toString x.num ++ ".0" else toString x.num ++ "e" ++ toString x.den

theorem toList_fractionRepr (x : Rat) : ∃ d rest, (fractionRepr x).toList = (toString x.num).toList ++ d :: rest ∧
    (d = '.' ∧ rest = ['0'] ∧ x.den = 1 ∨ d = 'e' ∧ rest = (toString x.den).toList) := by
  have hpoint : ".0".toList = ['.', '0'] := by simp
  have hexponent : "e".toList = ['e'] := by simp
  unfold fractionRepr
  split
  · next hden =>
      refine ⟨'.', ['0'], ?_, Or.inl ⟨rfl, rfl, hden⟩⟩
      rw [String.toList_append, hpoint]
  · refine ⟨'e', (toString x.den).toList, ?_, Or.inr ⟨rfl, rfl⟩⟩
    rw [String.toList_append, String.toList_append, hexponent, List.append_assoc]
    rfl

theorem floatTexts_fractionRepr : Json.FloatTexts fractionRepr where
  injective := by
    intro x y h
    obtain ⟨d, rest, hx, hd⟩ := toList_fractionRepr x
    obtain ⟨d', rest', hy, hd'⟩ := toList_fractionRepr y
    have hlist : (toString x.num).toList ++ d :: rest = (toString y.num).toList ++ d' :: rest' := by
      rw [← hx, ← hy, h]
    have hnot : ∀ c, c = '.' ∨ c = 'e' → ¬(c.isDigit = true ∨ c = '-') := by
      rintro c (rfl | rfl) <;> decide
    have hends : ∀ {d : Char} {rest : List Char}, d = '.' ∨ d = 'e' →
        ∀ c ∈ (d :: rest).head?, ¬(c.isDigit = true ∨ c = '-') := by
      intro d rest hd c hc
      obtain rfl := Option.some.inj hc
      exact hnot _ hd
    obtain ⟨hnum, hafter⟩ := Json.append_inj_of_all (fun c hc => isDigit_or_minus_of_mem_toString hc)
      (fun c hc => isDigit_or_minus_of_mem_toString hc) (hends (hd.imp And.left And.left))
      (hends (hd'.imp And.left And.left)) hlist
    have hnum : x.num = y.num := toString_int_injective (String.toList_inj.1 hnum)
    obtain ⟨hsame, hrest⟩ := List.cons.inj hafter
    have hden : x.den = y.den := by
      rcases hd with ⟨rfl, -, hone⟩ | ⟨rfl, hxden⟩
      · rcases hd' with ⟨-, -, hone'⟩ | ⟨hdot, -⟩
        · rw [hone, hone']
        · exact absurd (hsame.trans hdot) (by decide)
      · rcases hd' with ⟨hdot, -, -⟩ | ⟨-, hyden⟩
        · exact absurd (hsame.trans hdot) (by decide)
        · rw [hxden, hyden] at hrest
          exact toString_injective (String.toList_inj.1 hrest)
    exact Rat.ext hnum hden
  chars := by
    intro x c hc
    obtain ⟨d, rest, hx, hd⟩ := toList_fractionRepr x
    have hdigit : ∀ c : Char, c.isDigit = true → Json.isNumberChar c = true := by
      intro c hc
      simp [Json.isNumberChar, hc]
    rw [hx] at hc
    rcases List.mem_append.1 hc with hnum | hafter
    · rcases isDigit_or_minus_of_mem_toString hnum with h | rfl
      · exact hdigit c h
      · decide
    · rcases List.mem_cons.1 hafter with rfl | hrest
      · rcases hd with ⟨rfl, -⟩ | ⟨rfl, -⟩ <;> decide
      · rcases hd with ⟨-, rfl, -⟩ | ⟨-, rfl⟩
        · obtain rfl := List.mem_singleton.1 hrest
          decide
        · exact hdigit c (isDigit_of_mem_toString hrest)
  point := by
    intro x
    obtain ⟨d, rest, hx, hd⟩ := toList_fractionRepr x
    refine ⟨d, ?_, hd.imp And.left And.left⟩
    rw [hx]
    exact List.mem_append_right _ List.mem_cons_self

/-- A digest that gives away the text. -/
def openDigest : SampleBytes → String
  | .text s => "sha256:" ++ String.ofList (quote s)
  | .pdf p => (SampleBytes.pdf p).digest

def verifyingHost : Host SampleBytes String :=
  { sampleHost with
    sha256 := openDigest,
    floatRepr := fractionRepr }

theorem hashesTexts_verifyingHost : HashesTexts verifyingHost where
  injective := by
    intro s t h
    have hlist := congrArg String.toList h
    simp only [verifyingHost, sampleHost, openDigest, String.toList_append, String.toList_ofList] at hlist
    have hunquote := congrArg unquote (List.append_cancel_left hlist)
    rw [unquote_quote, unquote_quote] at hunquote
    exact Option.some.inj hunquote
  digest := by
    intro s
    have hopen : "sha256:".toList = ['s', 'h', 'a', '2', '5', '6', ':'] := by simp
    have hlist : (verifyingHost.sha256 (verifyingHost.encode s)).toList =
        ['s', 'h', 'a', '2', '5', '6', ':'] ++ quote s := by
      simp only [verifyingHost, sampleHost, openDigest, String.toList_append, String.toList_ofList, hopen]
    refine ⟨fun hempty => ?_, fun hbar => ?_⟩
    · rw [hempty] at hlist
      exact absurd hlist (by simp)
    · rw [hlist] at hbar
      rcases List.mem_append.1 hbar with hfirst | hquoted
      · exact absurd hfirst (by decide)
      · obtain ⟨b, -, hb⟩ := List.mem_flatMap.1 hquoted
        rcases mem_quoteByte hb with halphanum | hmark
        · exact absurd halphanum (by decide)
        · exact absurd hmark (by decide)

theorem keepsEntries_verifyingHost : KeepsEntries verifyingHost sampleServices where
  reads pdf := ⟨pdf, rfl, fun _ _ => rfl⟩
  certifies _ _ _ h pdf hpdf := ⟨pdf, Except.ok.inj h ▸ hpdf, fun _ _ => rfl⟩
  timestamps _ _ h pdf hpdf := ⟨pdf, Except.ok.inj h ▸ hpdf, fun _ _ => rfl⟩

/-- The step makes a signing. -/
def signs (x : WorkflowStep SampleBytes) : Bool :=
  ((movedBy x).bind Move.signing).isSome && (x.1.step x.2).isSome

/-- The signer of a lease signs, and the artifact verifies. -/
theorem evidence_verifies_openLease :
    ∃ steps Z, Run (workflowRuns verifyingHost sampleSettings sampleServices (anyCircumstances SampleBytes))
      openLease steps Z ∧ ∃ step ∈ steps, ∃ x, movedBy step = some (.sign x) ∧
        ∃ v, verifySignedPdf verifyingHost (loadsCanonical verifyingHost) (fun _ => "") x.artifact = .ok v := by
  obtain ⟨steps, Z, hrun, hp⟩ := exists_script verifyingHost sampleSettings sampleServices (Y := openLease)
    (anyCircumstances SampleBytes) (serial [(signOpenLease, 24)]) (p := fun steps _ => steps.any signs)
    (by decide +kernel)
  obtain ⟨step, hstep, hsigns⟩ := List.any_eq_true.1 hp
  obtain ⟨hmoved, htaken⟩ := Bool.and_eq_true_iff.1 hsigns
  obtain ⟨X', htaken⟩ := Option.isSome_iff_exists.1 htaken
  obtain ⟨x, hx⟩ := Option.isSome_iff_exists.1 hmoved
  obtain ⟨m, hm, hsigning⟩ := Option.bind_eq_some_iff.1 hx
  have hmove : movedBy step = some (.sign x) := by
    cases m with
    | sign y => rw [hm, Option.some.inj hsigning]
    | _ => exact absurd hsigning (by simp [Move.signing])
  have hnone : openLease.shared.Hashed verifyingHost := fun id y hy => absurd hy
    (by simp [openLease, sampleWorkspace, World.empty])
  have hverified : ∃ v, verifySignedPdf verifyingHost (loadsCanonical verifyingHost) (fun _ => "") x.artifact = .ok v ∧
      v.signatures = x.stamps.map fun record => (Json.dict record).sorted :=
    (evidence_verifies keepsEntries_verifyingHost hashesTexts_verifyingHost floatTexts_fractionRepr
      (roundTrips_loadsCanonical floatTexts_fractionRepr) hrun rfl hnone hstep htaken hmove).1
  obtain ⟨v, hv, -⟩ := hverified
  exact ⟨steps, Z, hrun, step, hstep, x, hmove, v, hv⟩

end Rubrica
