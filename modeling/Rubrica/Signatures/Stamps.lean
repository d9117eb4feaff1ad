import Mathlib.Algebra.Order.Ring.Rat
import Mathlib.Data.List.Forall2
import Mathlib.Tactic.Linarith
import Rubrica.Signatures.Lifecycle

set_option autoImplicit false

/-! # Visible stamps

`sign` makes its artifact of the original and of the records of all signatures so far: each record is drawn on
the page that its stamp names, in a box that is kept four points away from the upper and right edges. A stamp
whose page the PDF does not have is drawn nowhere, and a page smaller than the box and its margin cannot hold
the box. -/

namespace Rubrica

open Transactions

/-! ## The box of a stamp -/

/-- A rectangle of a page, in points from its lower left corner. -/
structure StampBox where
  left : Rat
  bottom : Rat
  width : Rat
  height : Rat

/-- The rectangle is within a page of that size. -/
def StampBox.Inside (box : StampBox) (width height : Rat) : Prop :=
  0 ≤ box.left ∧ box.left + box.width ≤ width ∧ 0 ≤ box.bottom ∧ box.bottom + box.height ≤ height

/-- `float(stamp[key])`; every stamp that is recorded has its coordinates. -/
def stampNumber (record : Dict) (key : String) : Rat :=
  match Dict.get? record "stamp" with
  | some (.dict stamp) =>
    match Dict.get? stamp key with
    | some (.real x) => x
    | some (.int n) => n
    | _ => 0
  | _ => 0

def companyRepresentation (record : Dict) : Bool :=
  record.text "participant_role" = "company_representative" &&
    match Dict.get? record "representation_snapshot" with
    | some (.dict _) => true
    | _ => false

/-- `box_height`. -/
def stampHeight (record : Dict) : Rat :=
  if companyRepresentation record then 96 else 72

/-- The box of `_stamp_overlay` on a page of that size. -/
def stampBox (width height : Rat) (record : Dict) : StampBox :=
  let boxWidth := min 255 (width * (12 / 25))
  let boxHeight := stampHeight record
  let centerX := stampNumber record "x" * width
  let centerY := (1 - stampNumber record "y") * height
  { left := min (max 4 (centerX - boxWidth / 2)) (width - boxWidth - 4),
    bottom := min (max 4 (centerY - boxHeight / 2)) (height - boxHeight - 4),
    width := boxWidth,
    height := boxHeight }

/-- The upper bound is applied last: it decides on a small page. -/
theorem clamped_inside_iff (a size extent : Rat) :
    0 ≤ min (max 4 a) (extent - size - 4) ∧ min (max 4 a) (extent - size - 4) + size ≤ extent ↔
      size + 4 ≤ extent := by
  constructor
  · rintro ⟨hlow, -⟩
    have hbound := le_trans hlow (min_le_right _ _)
    linarith
  · intro h
    constructor
    · have hfour : (4 : Rat) ≤ max 4 a := le_max_left _ _
      exact le_min (by linarith) (by linarith)
    · have hbound := min_le_right (max 4 a) (extent - size - 4)
      linarith

/-- Where the box is does not depend on the position that was asked for, only on the size of the page. -/
theorem stampBox_inside_iff (width height : Rat) (record : Dict) :
    (stampBox width height record).Inside width height ↔
      100 ≤ 13 * width ∧ stampHeight record + 4 ≤ height := by
  have hx := clamped_inside_iff (stampNumber record "x" * width - min 255 (width * (12 / 25)) / 2)
    (min 255 (width * (12 / 25))) width
  have hy := clamped_inside_iff ((1 - stampNumber record "y") * height - stampHeight record / 2)
    (stampHeight record) height
  have hwidth : min 255 (width * (12 / 25)) + 4 ≤ width ↔ 100 ≤ 13 * width := by
    rcases le_total 255 (width * (12 / 25)) with hle | hle
    · rw [min_eq_left hle]
      constructor <;> intro _ <;> linarith
    · rw [min_eq_right hle]
      constructor <;> intro _ <;> linarith
  rw [StampBox.Inside, ← and_assoc]
  exact and_congr (hx.trans hwidth) hy

/-! ## Pages -/

variable {B C : Type}

/-- A page: its size, what is on it, and what was drawn over it, in order. -/
structure PdfPage (C : Type) where
  width : Rat
  height : Rat
  content : C
  overlays : List (StampBox × Dict)

/-- `merge_page` of the overlay of a record, at the origin of the page. -/
def PdfPage.merge (page : PdfPage C) (record : Dict) : PdfPage C :=
  { page with overlays := page.overlays ++ [(stampBox page.width page.height record, record)] }

/-- What signing relies on of the PDF packages: an overlay is drawn over its page, what is written can be
    read, and neither a certificate nor a timestamp touches the pages. -/
structure DrawsPages (host : Host B (PdfPage C)) (services : SigningServices B) : Prop where
  merges : ∀ page record, host.stampPage page record = page.merge record
  reads : ∀ pdf, ∃ pdf', host.readPdf (host.writePdf pdf) = some pdf' ∧ pdf'.pages = pdf.pages
  certifies : ∀ accessToken b b', services.signPdf accessToken b = .ok b' →
    (host.readPdf b').map Pdf.pages = (host.readPdf b).map Pdf.pages
  timestamps : ∀ b x, services.timestamp b = .ok x →
    (host.readPdf x.1).map Pdf.pages = (host.readPdf b).map Pdf.pages

/-- The pages of an original, with nothing changed but what was drawn over them. -/
def SamePages (original artifact : List (PdfPage C)) : Prop :=
  List.Forall₂ (fun p q => q.width = p.width ∧ q.height = p.height ∧ q.content = p.content ∧
    p.overlays <+: q.overlays) original artifact

/-- What an artifact draws on the page at an index, above what the original has there. -/
def drawn (original artifact : List (PdfPage C)) (n : Nat) : List (StampBox × Dict) :=
  (artifact[n]?.elim [] PdfPage.overlays).drop (original[n]?.elim [] PdfPage.overlays).length

/-- A record is drawn on exactly one page, and its box is within that page. -/
def Shown (original artifact : List (PdfPage C)) (record : Dict) : Prop :=
  ∃ (n : Nat) (page : PdfPage C), artifact[n]? = some page ∧
    (∀ k, (∃ box, (box, record) ∈ drawn original artifact k) ↔ k = n) ∧
    ∀ box, (box, record) ∈ drawn original artifact n → box.Inside page.width page.height

/-- The page that the stamp of a record names is there, and it is large enough. -/
def Fits (original : List (PdfPage C)) (record : Dict) : Prop :=
  ∃ (n : Nat) (page : PdfPage C), original[n]? = some page ∧ stampPageNumber record = some ((n : Int) + 1) ∧
    100 ≤ 13 * page.width ∧ stampHeight record + 4 ≤ page.height

section Pages

variable {host : Host B (PdfPage C)} {services : SigningServices B} {pages : List (PdfPage C)}
  {stamps : List Dict} {record : Dict}

theorem foldl_merge (page : PdfPage C) (stamps : List Dict) :
    stamps.foldl PdfPage.merge page =
      { page with overlays := page.overlays ++ stamps.map fun record =>
          (stampBox page.width page.height record, record) } := by
  induction stamps generalizing page with
  | nil => simp
  | cons record stamps ih => simp [ih, PdfPage.merge]

theorem stamped_eq (h : DrawsPages host services) (stamps : List Dict) (page : PdfPage C) (n : Nat) :
    stamped host stamps (page, n) =
      { page with overlays := page.overlays ++
          (stamps.filter fun record => stampPageNumber record = some ((n : Int) + 1)).map fun record =>
            (stampBox page.width page.height record, record) } := by
  have hmerge : host.stampPage = PdfPage.merge := funext fun page => funext fun record => h.merges page record
  rw [stamped, hmerge, foldl_merge]

theorem getElem?_stamped (host : Host B (PdfPage C)) (n : Nat) :
    (pages.zipIdx.map (stamped host stamps))[n]? = pages[n]?.map fun page => stamped host stamps (page, n) := by
  simp [List.getElem?_map, List.getElem?_zipIdx, Option.map_map, Function.comp_def]

/-- What is drawn on a page: the records whose stamps name it. -/
theorem mem_drawn_stamped (h : DrawsPages host services) {n : Nat} {box : StampBox} :
    (box, record) ∈ drawn pages (pages.zipIdx.map (stamped host stamps)) n ↔
      ∃ page, pages[n]? = some page ∧ record ∈ stamps ∧ stampPageNumber record = some ((n : Int) + 1) ∧
        box = stampBox page.width page.height record := by
  rw [drawn, getElem?_stamped]
  cases hpage : pages[n]? with
  | none => simp
  | some page =>
      rw [Option.map_some, Option.elim_some, Option.elim_some, stamped_eq h, List.drop_left]
      simp only [List.mem_map, List.mem_filter, decide_eq_true_eq, Prod.mk.injEq, Option.some.injEq,
        exists_eq_left']
      constructor
      · rintro ⟨record, ⟨hmem, hnumber⟩, rfl, rfl⟩
        exact ⟨hmem, hnumber, rfl⟩
      · rintro ⟨hmem, hnumber, rfl⟩
        exact ⟨record, ⟨hmem, hnumber⟩, rfl, rfl⟩

theorem samePages_stamped (h : DrawsPages host services) (pages : List (PdfPage C)) (stamps : List Dict) :
    SamePages pages (pages.zipIdx.map (stamped host stamps)) := by
  refine List.forall₂_iff_get.2 ⟨by simp, fun n hn hn' => ?_⟩
  simp [stamped_eq h]

/-- **A record is shown where its page is there and large enough, and only there.** -/
theorem shown_stamped_iff (h : DrawsPages host services) (hmem : record ∈ stamps) :
    Shown pages (pages.zipIdx.map (stamped host stamps)) record ↔ Fits pages record := by
  constructor
  · rintro ⟨n, page', hpage', hiff, hinside⟩
    obtain ⟨box, hbox⟩ := (hiff n).2 rfl
    obtain ⟨page, hpage, -, hnumber, rfl⟩ := (mem_drawn_stamped h).1 hbox
    rw [getElem?_stamped, hpage, Option.map_some, stamped_eq h] at hpage'
    obtain rfl := Option.some.inj hpage'
    exact ⟨n, page, hpage, hnumber, (stampBox_inside_iff _ _ _).1 (hinside _ hbox)⟩
  · rintro ⟨n, page, hpage, hnumber, hsize⟩
    refine ⟨n, stamped host stamps (page, n), ?_, fun k => ⟨?_, ?_⟩, fun box hbox => ?_⟩
    · rw [getElem?_stamped, hpage, Option.map_some]
    · rintro ⟨box, hbox⟩
      obtain ⟨-, -, -, hk, -⟩ := (mem_drawn_stamped h).1 hbox
      have hint := Option.some.inj (hk.symm.trans hnumber)
      omega
    · rintro rfl
      exact ⟨_, (mem_drawn_stamped h).2 ⟨page, hpage, hmem, hnumber, rfl⟩⟩
    · obtain ⟨page', hpage', -, -, rfl⟩ := (mem_drawn_stamped h).1 hbox
      obtain rfl := Option.some.inj (hpage'.symm.trans hpage)
      rw [stamped_eq h]
      exact (stampBox_inside_iff _ _ _).2 hsize

end Pages

/-! ## Every signature so far -/

/-- What the artifacts draw of a signature. -/
def Signature.stamp (host : Host B C) (y : Signature) : Dict :=
  stampRecord host y.evidenceJson y.evidenceSha256

/-- The artifact has the pages of the original, and shows every signature of the request. -/
def World.Shows (host : Host B (PdfPage C)) (w : World B) (request : UUID) (original artifact : List (PdfPage C)) :
    Prop :=
  SamePages original artifact ∧ ∀ k y, w.signatures.get? k = some y → y.signatureRequestId = request →
    Shown original artifact (y.stamp host)

/-- The stamps of all signatures of the request fit. -/
def World.AllFit (host : Host B (PdfPage C)) (w : World B) (request : UUID) (original : List (PdfPage C)) : Prop :=
  ∀ k y, w.signatures.get? k = some y → y.signatureRequestId = request → Fits original (y.stamp host)

section Runs

variable {host : Host B (PdfPage C)} {cfg : Settings} {services : SigningServices B} {z : Circumstances B}
  {w w' : World B} {s : Signing B} {Y Z : WorkflowSystem B} {steps : List (WorkflowStep B)}

/-- The pages of the PDF that was generated are those of the finished one. -/
theorem finishPdf_pages (h : DrawsPages host services) {mode : SignatureMode} {certificate : Option CertificateGrant}
    {generated : B} {finished : B × Option Dict}
    (hfinish : finishPdf cfg services mode certificate generated = .ok finished) :
    (host.readPdf finished.1).map Pdf.pages = (host.readPdf generated).map Pdf.pages := by
  have htimestamp : ∀ signed, (if mode = .serproTimestamp ∧ cfg.timestampEnabled = true then do
        let x ← services.timestamp signed
        pure (x.1, some x.2)
      else pure (signed, none) : Except Failure (B × Option Dict)) = .ok finished →
        (host.readPdf finished.1).map Pdf.pages = (host.readPdf signed).map Pdf.pages := by
    intro signed hsigned
    split at hsigned
    · obtain ⟨x, hx, hsigned⟩ := bind_eq_ok.1 hsigned
      obtain rfl := Except.ok.inj hsigned
      exact h.timestamps _ _ hx
    · obtain rfl := Except.ok.inj hsigned
      rfl
  cases certificate with
  | none => exact htimestamp generated hfinish
  | some grant =>
      obtain ⟨signed, hsigned, hfinish⟩ := bind_eq_ok.1 hfinish
      exact (htimestamp signed hfinish).trans (h.certifies _ _ _ hsigned)

/-- The original and the artifact of a signing. -/
theorem Signing.Composed.pages (h : DrawsPages host services) {r : SignatureRequest} {signer : Signer}
    {existing : List (UUID × Signature)} (hs : s.Composed host cfg services r signer existing) :
    ∃ original artifact, host.readPdf s.original = some original ∧ host.readPdf s.artifact = some artifact ∧
      artifact.pages = original.pages.zipIdx.map (stamped host s.stamps) := by
  have hgenerated := hs.generated
  rw [generateSignedPdf] at hgenerated
  cases horiginal : host.readPdf s.original with
  | none => simp [horiginal] at hgenerated
  | some original =>
      simp only [horiginal] at hgenerated
      split at hgenerated
      · exact absurd hgenerated (by simp)
      · have hfinished := finishPdf_pages h hs.finished
        rw [← Except.ok.inj hgenerated] at hfinished
        obtain ⟨written, hread, hwritten⟩ := h.reads ⟨original.pages.zipIdx.map (stamped host s.stamps), _⟩
        rw [hread, Option.map_some, hwritten] at hfinished
        obtain ⟨artifact, hartifact, hpages⟩ := Option.map_eq_some_iff.1 hfinished
        exact ⟨original, artifact, rfl, hartifact, hpages⟩

/-- The stamps of a signing are those of the signatures of the request, its own included. -/
theorem World.MovesTo.mem_stamps (h : w.MovesTo host cfg services z (.sign s) w') {record : Dict} :
    record ∈ s.stamps ↔
      ∃ k y, w'.signatures.get? k = some y ∧ y.signatureRequestId = s.request ∧ record = y.stamp host := by
  obtain ⟨H, hallowed, -⟩ := h.allowed
  cases hallowed with
  | sign allowed =>
      have hrows : w'.signatures = w.signatures.insert s.id s.signature := congrArg Archive.signatures h.archive
      have hown : s.signature.stamp host =
          stampRecord host s.signature.evidenceJson (some (host.evidenceSha256 s.signature.evidenceJson)) := by
        rw [Signature.stamp, allowed.composed.evidenceHash]
      rw [allowed.composed.stamps, stampRecords, ← hown, hrows, List.mem_append, List.mem_singleton, List.mem_map]
      constructor
      · rintro (⟨⟨k, y⟩, hmem, rfl⟩ | rfl)
        · obtain ⟨hy, hof⟩ := Table.mem_select_iff.1 ((List.mem_insertionSort _).1 hmem)
          exact ⟨k, y, Table.get?_insert_of_some hy, of_decide_eq_true hof, rfl⟩
        · exact ⟨s.id, s.signature, Table.get?_insert_self allowed.fresh _, allowed.composed.signatureOf, rfl⟩
      · rintro ⟨k, y, hy, hof, rfl⟩
        rcases Table.get?_insert_eq_some hy with hold | ⟨-, rfl⟩
        · exact Or.inl ⟨(k, y), (List.mem_insertionSort _).2 (Table.mem_select_iff.2 ⟨hold, decide_eq_true hof⟩), rfl⟩
        · exact Or.inr rfl

/-- One signing. -/
theorem World.MovesTo.signatures_shown_iff (hmoves : w.MovesTo host cfg services z (.sign s) w')
    (h : DrawsPages host services) :
    (∃ r, w.requests.get? s.request = some r ∧ host.sha256 s.original = r.documentSha256) ∧
      w'.signatures.get? s.id = some s.signature ∧ s.signature.artifactSha256 = some (host.sha256 s.artifact) ∧
      ∃ original artifact, host.readPdf s.original = some original ∧ host.readPdf s.artifact = some artifact ∧
      (w'.Shows host s.request original.pages artifact.pages ↔ w'.AllFit host s.request original.pages) := by
  obtain ⟨H, hallowed, -⟩ := hmoves.allowed
  cases hallowed with
  | sign allowed =>
      obtain ⟨original, artifact, horiginal, hartifact, hpages⟩ := allowed.composed.pages h
      refine ⟨⟨_, allowed.request, allowed.composed.original⟩, ?_, allowed.composed.artifact, original, artifact,
        horiginal, hartifact, ?_⟩
      · rw [congrArg Archive.signatures hmoves.archive]
        exact Table.get?_insert_self allowed.fresh _
      have hshown : ∀ k y, w'.signatures.get? k = some y → y.signatureRequestId = s.request →
          (Shown original.pages artifact.pages (y.stamp host) ↔ Fits original.pages (y.stamp host)) := by
        intro k y hy hof
        rw [hpages]
        exact shown_stamped_iff h (hmoves.mem_stamps.2 ⟨k, y, hy, hof, rfl⟩)
      constructor
      · rintro ⟨-, hall⟩ k y hy hof
        exact (hshown k y hy hof).1 (hall k y hy hof)
      · intro hall
        refine ⟨?_, fun k y hy hof => (hshown k y hy hof).2 (hall k y hy hof)⟩
        rw [hpages]
        exact samePages_stamped h _ _

/-- **Every signature is visible, where it can be.** Whatever happened before, the artifact of a signing has the
    pages of the original and shows every signature so far on exactly one of them, within the page, if and only
    if the page of every stamp so far is there and is large enough. -/
theorem signatures_shown (h : DrawsPages host services)
    (hrun : Run (workflowRuns host cfg services (anyCircumstances B)) Y steps Z) (hstart : Y.sessions = [])
    {x : WorkflowStep B} (hx : x ∈ steps) {X' : WorkflowSystem B} (hstep : x.1.step x.2 = some X')
    (hs : movedBy x = some (.sign s)) :
    (∃ r, x.1.shared.requests.get? s.request = some r ∧ host.sha256 s.original = r.documentSha256) ∧
      X'.shared.signatures.get? s.id = some s.signature ∧
      s.signature.artifactSha256 = some (host.sha256 s.artifact) ∧
      ∃ original artifact, host.readPdf s.original = some original ∧ host.readPdf s.artifact = some artifact ∧
      (X'.shared.Shows host s.request original.pages artifact.pages ↔
        X'.shared.AllFit host s.request original.pages) := by
  obtain ⟨hnone, -⟩ | ⟨m, hm, hmoves⟩ := workflow_step hrun hstart (fun _ _ _ _ _ => trivial) hx hstep
  · exact absurd (hs.symm.trans hnone) (by simp)
  · obtain rfl := Option.some.inj (hs.symm.trans hm)
    exact hmoves.signatures_shown_iff h

end Runs

/-! ## A sheet to compute with -/

/-- Bytes whose PDFs have pages with a size. -/
inductive SheetBytes where
  | text (s : String)
  | pdf (p : Pdf (PdfPage Unit))

def SheetBytes.plain : SheetBytes → SampleBytes
  | text s => .text s
  | pdf p => .pdf ⟨p.pages.map fun _ => "page", p.metadata⟩

def sheetHost : Host SheetBytes (PdfPage Unit) :=
  { sampleHost with
    encode := .text
    sha256 := fun b => sampleHost.sha256 b.plain
    hmac := fun key b => sampleHost.hmac key b.plain
    size := fun b => sampleHost.size b.plain
    validatePdf := fun b filename => sampleHost.validatePdf b.plain filename
    readPdf := fun b => match b with
      | .text _ => none
      | .pdf p => some p
    writePdf := .pdf
    stampPage := PdfPage.merge
    hasCertificateSignatures := fun b => sampleHost.hasCertificateSignatures b.plain }

def sheetServices : SigningServices SheetBytes where
  identitySummary _ := ⟨none, none, none⟩
  signPdf _ pdf := .ok pdf
  timestamp pdf := .ok (pdf, [])
  acceptEmail _ := true

theorem sheet_drawsPages : DrawsPages sheetHost sheetServices where
  merges _ _ := rfl
  reads pdf := ⟨pdf, rfl, rfl⟩
  certifies _ _ _ h := by rw [Except.ok.inj h]
  timestamps _ _ h := by rw [← Except.ok.inj h]

/-- An open request for a PDF of one page. -/
def openSheet : WorkflowSystem SheetBytes :=
  ⟨{ sampleWorkspace (sampleRequest .open) (sampleSigner "signer@x" .pending) with
    objects := fun key => if key = sampleKey then some (.pdf ⟨[⟨595, 842, (), []⟩], []⟩) else none }, []⟩

/-- The same with two signers. -/
def sheetOfTwo : WorkflowSystem SheetBytes :=
  ⟨{ openSheet.shared with signers := openSheet.shared.signers.insert 31 (sampleSigner "second@x" .pending) }, []⟩

/-- The signer signs, with the stamp on a page. -/
def signSheet (page : {n : Nat // 1 ≤ n}) : WorkflowCall SheetBytes :=
  .sign none ⟨"token", "signer@x", { sampleCommand with stamp := { sampleCommand.stamp with page := page } }, none⟩
    ⟨40, 41, 42⟩

/-- The other signer signs, with the stamp in the middle of the first page. -/
def signSheetToo : WorkflowCall SheetBytes :=
  .sign none ⟨"token", "second@x", { sampleCommand with stamp := { sampleCommand.stamp with x := 1 / 2, y := 1 / 2 } },
    none⟩ ⟨50, 51, 52⟩

instance (original : List (PdfPage C)) (record : Dict) : Decidable (Fits original record) :=
  decidable_of_iff (∃ x ∈ original.zipIdx, stampPageNumber record = some ((x.2 : Int) + 1) ∧
    100 ≤ 13 * x.1.width ∧ stampHeight record + 4 ≤ x.1.height) (by
      constructor
      · rintro ⟨⟨page, n⟩, hmem, hfits⟩
        exact ⟨n, page, List.mem_zipIdx_iff_getElem?.1 hmem, hfits⟩
      · rintro ⟨n, page, hpage, hfits⟩
        exact ⟨(page, n), List.mem_zipIdx_iff_getElem?.2 hpage, hfits⟩)

instance (w : World SheetBytes) (request : UUID) (original : List (PdfPage Unit)) :
    Decidable (w.AllFit sheetHost request original) :=
  decidable_of_iff (∀ row ∈ w.signatures.rows, row.2.signatureRequestId = request →
    Fits original (row.2.stamp sheetHost)) (by
      constructor
      · exact fun h k y hy => h (k, y) (Table.mem_rows_iff.2 hy)
      · exact fun h row hrow => h row.1 row.2 (Table.mem_rows_iff.1 hrow))

/-- A step that signs: how many signatures there are then, and whether the stamps of all of them fit. -/
def fitting (x : WorkflowStep SheetBytes) : Option (Nat × Bool) :=
  match movedBy x, x.1.step x.2 with
  | some (.sign s), some X' => (sheetHost.readPdf s.original).map fun original =>
      (X'.shared.signatures.rows.length, decide (X'.shared.AllFit sheetHost s.request original.pages))
  | _, _ => none

theorem fitting_eq_some {x : WorkflowStep SheetBytes} {n : Nat} {b : Bool} (h : fitting x = some (n, b)) :
    ∃ s X' original, movedBy x = some (.sign s) ∧ x.1.step x.2 = some X' ∧
      sheetHost.readPdf s.original = some original ∧ X'.shared.signatures.rows.length = n ∧
      (X'.shared.AllFit sheetHost s.request original.pages ↔ b = true) := by
  rw [fitting] at h
  split at h
  · next s X' hs hX' =>
      obtain ⟨original, horiginal, heq⟩ := Option.map_eq_some_iff.1 h
      obtain ⟨rfl, rfl⟩ := Prod.mk.inj heq
      exact ⟨s, X', original, hs, hX', horiginal, rfl, decide_eq_true_iff.symm⟩
  · exact absurd h (by simp)

/-- A run of calls in which somebody signs. -/
theorem exists_signSheet (Y : WorkflowSystem SheetBytes) (calls : List (WorkflowCall SheetBytes × Nat)) (n : Nat)
    (b : Bool)
    (h : ((Y.replay ((serial calls).map (labelOf sheetHost sampleSettings sheetServices))).any fun r =>
      drawsFresh (serial calls) r.1 && r.1.any fun x => decide (fitting x = some (n, b))) = true) :
    ∃ steps Z, Run (workflowRuns sheetHost sampleSettings sheetServices (anyCircumstances SheetBytes)) Y
      steps Z ∧ ∃ x ∈ steps, fitting x = some (n, b) := by
  obtain ⟨steps, Z, hrun, hp⟩ := exists_script sheetHost sampleSettings sheetServices (Y := Y)
    (anyCircumstances SheetBytes) (serial calls)
    (p := fun steps _ => steps.any fun x => decide (fitting x = some (n, b))) h
  obtain ⟨x, hx, hfitting⟩ := List.any_eq_true.1 hp
  exact ⟨steps, Z, hrun, x, hx, of_decide_eq_true hfitting⟩

/-- Two signers sign, each with a stamp on the page that there is: the second artifact shows both. -/
theorem signatures_shown_both :
    ∃ steps Z, Run (workflowRuns sheetHost sampleSettings sheetServices (anyCircumstances SheetBytes)) sheetOfTwo
      steps Z ∧ ∃ x ∈ steps, ∃ X' s original artifact, x.1.step x.2 = some X' ∧ movedBy x = some (.sign s) ∧
        sheetHost.readPdf s.original = some original ∧ sheetHost.readPdf s.artifact = some artifact ∧
        X'.shared.signatures.rows.length = 2 ∧
        X'.shared.Shows sheetHost s.request original.pages artifact.pages := by
  obtain ⟨steps, Z, hrun, x, hx, hfitting⟩ := exists_signSheet sheetOfTwo
    [(signSheet ⟨1, by decide⟩, 21), (signSheetToo, 24)] 2 true (by decide +kernel)
  obtain ⟨s, X', original, hs, hstep, horiginal, hcount, hfit⟩ := fitting_eq_some hfitting
  obtain ⟨-, -, -, original', artifact, horiginal', hartifact, hiff⟩ :=
    signatures_shown sheet_drawsPages hrun rfl hx hstep hs
  obtain rfl := Option.some.inj (horiginal.symm.trans horiginal')
  exact ⟨steps, Z, hrun, x, hx, X', s, original, artifact, hstep, hs, horiginal, hartifact, hcount,
    hiff.2 (hfit.2 rfl)⟩

/-- The stamp is on a page that there is not: the signature is made, and its artifact does not show it. -/
theorem not_signatures_shown :
    ∃ steps Z, Run (workflowRuns sheetHost sampleSettings sheetServices (anyCircumstances SheetBytes)) openSheet
      steps Z ∧ ∃ x ∈ steps, ∃ X' s original artifact, x.1.step x.2 = some X' ∧ movedBy x = some (.sign s) ∧
        sheetHost.readPdf s.original = some original ∧ sheetHost.readPdf s.artifact = some artifact ∧
        ¬X'.shared.Shows sheetHost s.request original.pages artifact.pages := by
  obtain ⟨steps, Z, hrun, x, hx, hfitting⟩ := exists_signSheet openSheet [(signSheet ⟨2, by decide⟩, 24)] 1 false
    (by decide +kernel)
  obtain ⟨s, X', original, hs, hstep, horiginal, -, hfit⟩ := fitting_eq_some hfitting
  obtain ⟨hnone, -⟩ | ⟨m, hm, hmoves⟩ := workflow_step hrun rfl (fun _ _ _ _ _ => trivial) hx hstep
  · exact absurd (hs.symm.trans hnone) (by simp)
  obtain rfl := Option.some.inj (hs.symm.trans hm)
  obtain ⟨-, -, -, original', artifact, horiginal', hartifact, hiff⟩ := hmoves.signatures_shown_iff sheet_drawsPages
  obtain rfl := Option.some.inj (horiginal.symm.trans horiginal')
  exact ⟨steps, Z, hrun, x, hx, X', s, original, artifact, hstep, hs, horiginal, hartifact, fun hshows =>
    absurd (hfit.1 (hiff.1 hshows)) (by decide)⟩

end Rubrica
