import Mathlib.Logic.Relation
import Rubrica.Identity.Characters
import Rubrica.Platform

set_option autoImplicit false

/-! # Active content in uploads

`validate_pdf_upload`: the checks of an upload before it is stored, and the walk over its object graph that
looks for active content. -/

namespace Rubrica

open Texts

/-! ## Object graphs -/

/-- A PDF object as the reader hands it out. A stream counts as its dictionary. -/
inductive PdfObject where
  | indirect (idnum generation : Nat)
  | dictionary (entries : List (String × PdfObject))
  | array (items : List PdfObject)
  | name (text : String)
  /-- A number, a text, a truth value or null. -/
  | scalar

/-- `getObject` is `none` where `get_object` raises. -/
structure PdfGraph where
  trailer : PdfObject
  getObject : Nat × Nat → Option PdfObject

namespace PdfGraph

variable (g : PdfGraph)

/-- An object is a part of another, or what it refers to. -/
inductive Edge : PdfObject → PdfObject → Prop where
  | entry {entries : List (String × PdfObject)} {key : String} {child : PdfObject}
      (h : (key, child) ∈ entries) : Edge (.dictionary entries) child
  | item {items : List PdfObject} {child : PdfObject} (h : child ∈ items) : Edge (.array items) child
  | target {idnum generation : Nat} {object : PdfObject} (h : g.getObject (idnum, generation) = some object) :
      Edge (.indirect idnum generation) object

/-- Reachable from the trailer. -/
def Reachable (v : PdfObject) : Prop :=
  Relation.ReflTransGen g.Edge g.trailer v

end PdfGraph

/-! ## `_reject_active_content` -/

def ACTIVE_PDF_KEYS : List String :=
  ["/AA", "/EmbeddedFile", "/EmbeddedFiles", "/ImportData", "/JavaScript", "/JS", "/Launch", "/OpenAction",
    "/RichMedia", "/SubmitForm", "/XFA"]

/-- `WorkflowError(message)`. -/
def workflowError (message : String) (statusCode : Nat) : WorkflowError :=
  ⟨message, statusCode, none, []⟩

def tooComplex : WorkflowError :=
  workflowError "PDF structure is too complex" 400

def invalidObject : WorkflowError :=
  workflowError "PDF contains an invalid object" 400

def activeContent : WorkflowError :=
  workflowError "PDF contains active or embedded content" 400

/-- How many objects are inspected at most. -/
def inspectionLimit : Nat :=
  100000

/-- The variables of the loop. `pending` is popped at its head. -/
structure WalkState where
  pending : List PdfObject
  visited : List (Nat × Nat)
  inspected : Nat

inductive Walk where
  | walking (s : WalkState)
  | passed
  | raised (e : WorkflowError)

section Walking

variable (g : PdfGraph)

/-- One turn of the loop. -/
def inspect (s : WalkState) : Walk :=
  match s.pending with
  | [] => .passed
  | value :: pending =>
    if s.inspected + 1 > inspectionLimit then .raised tooComplex
    else
      match value with
      | .indirect idnum generation =>
        if (idnum, generation) ∈ s.visited then .walking ⟨pending, s.visited, s.inspected + 1⟩
        else
          match g.getObject (idnum, generation) with
          | some object => .walking ⟨object :: pending, (idnum, generation) :: s.visited, s.inspected + 1⟩
          | none => .raised invalidObject
      | .dictionary entries =>
        -- Where a key raises, the children before it are not looked at any more.
        if entries.any fun x => x.1 ∈ ACTIVE_PDF_KEYS then .raised activeContent
        else .walking ⟨(entries.map Prod.snd).reverse ++ pending, s.visited, s.inspected + 1⟩
      | .array items => .walking ⟨items.reverse ++ pending, s.visited, s.inspected + 1⟩
      | _ => .walking ⟨pending, s.visited, s.inspected + 1⟩

/-- So many turns of the loop, or fewer where it ends. -/
def walk : Nat → WalkState → Walk
  | 0, s => .walking s
  | n + 1, s =>
    match inspect g s with
    | .walking s' => walk n s'
    | .passed => .passed
    | .raised e => .raised e

def WalkState.start : WalkState :=
  ⟨[g.trailer], [], 0⟩

/-- `_reject_active_content`. The loop ends within the turns it is given (`walk_ends`). -/
def rejectActiveContent : Except WorkflowError Unit :=
  match walk g (inspectionLimit + 1) (WalkState.start g) with
  | .passed => .ok ()
  | .raised e => .error e
  | .walking _ => .error tooComplex

end Walking

section Exact

variable {g : PdfGraph} {s s' : WalkState}

theorem walk_succ (n : Nat) : walk g (n + 1) s =
    match inspect g s with
    | .walking s' => walk g n s'
    | .passed => .passed
    | .raised e => .raised e := rfl

/-! ### The loop ends -/

theorem inspected_of_inspect (h : inspect g s = .walking s') :
    s'.inspected = s.inspected + 1 ∧ s'.inspected ≤ inspectionLimit := by
  unfold inspect at h
  split at h
  · exact absurd h (by simp)
  · split at h
    · exact absurd h (by simp)
    · next hlimit =>
      have hle : s.inspected + 1 ≤ inspectionLimit := not_lt.1 hlimit
      have hcount : ∀ pending visited, (Walk.walking ⟨pending, visited, s.inspected + 1⟩) = .walking s' →
          s'.inspected = s.inspected + 1 ∧ s'.inspected ≤ inspectionLimit := by
        rintro pending visited heq
        obtain rfl := Walk.walking.inj heq
        exact ⟨rfl, hle⟩
      split at h
      · split at h
        · exact hcount _ _ h
        · split at h
          · exact hcount _ _ h
          · exact absurd h (by simp)
      · split at h
        · exact absurd h (by simp)
        · exact hcount _ _ h
      · exact hcount _ _ h
      · exact hcount _ _ h

/-- What is still walking has inspected one object in each turn. -/
theorem inspected_of_walk {n : Nat} (hs : s.inspected ≤ inspectionLimit) (h : walk g n s = .walking s') :
    s'.inspected = s.inspected + n ∧ s'.inspected ≤ inspectionLimit := by
  induction n generalizing s with
  | zero =>
      obtain rfl := Walk.walking.inj h
      exact ⟨rfl, hs⟩
  | succ n ih =>
      rw [walk_succ] at h
      split at h
      · next s1 hinspect =>
        obtain ⟨hone, hle⟩ := inspected_of_inspect hinspect
        obtain ⟨hrest, hle'⟩ := ih hle h
        exact ⟨by omega, hle'⟩
      · exact absurd h (by simp)
      · exact absurd h (by simp)

theorem walk_ends (g : PdfGraph) (s : WalkState) :
    walk g (inspectionLimit + 1) (WalkState.start g) ≠ .walking s := by
  intro h
  obtain ⟨hcount, hle⟩ := inspected_of_walk (Nat.zero_le _) h
  rw [hcount] at hle
  exact absurd hle (by simp [WalkState.start])

/-! ### What the loop has seen -/

/-- `done` are the objects that were inspected: nothing active is among them, and what they lead to was inspected
    or is pending. -/
structure Explored (g : PdfGraph) (s : WalkState) (done : List PdfObject) : Prop where
  start : g.trailer ∈ done ∨ g.trailer ∈ s.pending
  reachable : ∀ v ∈ s.pending, g.Reachable v
  passive : ∀ entries, .dictionary entries ∈ done → ∀ x ∈ entries, x.1 ∉ ACTIVE_PDF_KEYS
  closed : ∀ v ∈ done, ∀ w, g.Edge v w → w ∈ done ∨ w ∈ s.pending
  visited : ∀ i ∈ s.visited, ∀ v, g.getObject i = some v → v ∈ done ∨ v ∈ s.pending

theorem explored_start (g : PdfGraph) : Explored g (WalkState.start g) [] := by
  refine ⟨Or.inr (by simp [WalkState.start]), fun v hv => ?_, by simp, by simp, by simp [WalkState.start]⟩
  obtain rfl := List.mem_singleton.1 hv
  exact Relation.ReflTransGen.refl

/-- An object is inspected: what it leads to becomes pending, and nothing else. -/
theorem Explored.step {done pending : List PdfObject} {value : PdfObject} (h : Explored g s done)
    (hpending : s.pending = value :: pending) (hkept : ∀ w ∈ pending, w ∈ s'.pending)
    (hnew : ∀ w ∈ s'.pending, w ∈ pending ∨ g.Edge value w)
    (hedges : ∀ w, g.Edge value w → w ∈ done ∨ w ∈ s.pending ∨ w ∈ s'.pending)
    (hpassive : ∀ entries, value = .dictionary entries → ∀ x ∈ entries, x.1 ∉ ACTIVE_PDF_KEYS)
    (hvisited : ∀ i ∈ s'.visited, i ∈ s.visited ∨ ∀ v, g.getObject i = some v → v ∈ s'.pending) :
    Explored g s' (value :: done) := by
  -- What was inspected or pending still is.
  have hstay : ∀ w, w ∈ done ∨ w ∈ s.pending → w ∈ value :: done ∨ w ∈ s'.pending := by
    intro w hw
    rcases hw with hw | hw
    · exact Or.inl (List.mem_cons_of_mem _ hw)
    · rw [hpending] at hw
      rcases List.mem_cons.1 hw with rfl | hw
      · exact Or.inl List.mem_cons_self
      · exact Or.inr (hkept w hw)
  have hvalue : g.Reachable value := h.reachable value (hpending ▸ List.mem_cons_self)
  refine ⟨hstay _ h.start, fun w hw => ?_, fun entries hmem => ?_, fun v hv w hedge => ?_, fun i hi v hv => ?_⟩
  · rcases hnew w hw with hw | hedge
    · exact h.reachable w (hpending ▸ List.mem_cons_of_mem _ hw)
    · exact hvalue.tail hedge
  · rcases List.mem_cons.1 hmem with heq | hmem
    · exact hpassive entries heq.symm
    · exact h.passive entries hmem
  · rcases List.mem_cons.1 hv with rfl | hv
    · rcases hedges w hedge with hw | hw | hw
      · exact hstay w (Or.inl hw)
      · exact hstay w (Or.inr hw)
      · exact Or.inr hw
    · exact hstay w (h.closed v hv w hedge)
  · rcases hvisited i hi with hi | hi
    · exact hstay v (h.visited i hi v hv)
    · exact Or.inr (hi v hv)

/-- One turn keeps the invariant. -/
theorem Explored.inspect {done : List PdfObject} (h : Explored g s done)
    (hinspect : inspect g s = .walking s') : ∃ done', Explored g s' done' := by
  unfold Rubrica.inspect at hinspect
  split at hinspect
  · exact absurd hinspect (by simp)
  · next value pending hpending =>
    refine ⟨value :: done, ?_⟩
    split at hinspect
    · exact absurd hinspect (by simp)
    · split at hinspect
      · next idnum generation =>
        split at hinspect
        · -- The reference was followed before.
          next hseen =>
          obtain rfl := Walk.walking.inj hinspect
          refine h.step hpending (fun w hw => hw) (fun w hw => Or.inl hw) (fun w hedge => ?_) (by simp)
            fun i hi => Or.inl hi
          cases hedge with
          | target hobject => exact (h.visited _ hseen w hobject).imp_right Or.inl
        · split at hinspect
          · next object hobject =>
            obtain rfl := Walk.walking.inj hinspect
            have honly : ∀ v, g.getObject (idnum, generation) = some v → v = object :=
              fun v hv => Option.some.inj (hv.symm.trans hobject)
            refine h.step hpending (fun w hw => List.mem_cons_of_mem _ hw) (fun w hw => ?_) (fun w hedge => ?_)
              (by simp) fun i hi => ?_
            · rcases List.mem_cons.1 hw with rfl | hw
              · exact Or.inr (.target hobject)
              · exact Or.inl hw
            · cases hedge with
              | target hw => exact Or.inr (Or.inr (List.mem_cons.2 (Or.inl (honly w hw))))
            · rcases List.mem_cons.1 hi with rfl | hi
              · exact Or.inr fun v hv => List.mem_cons.2 (Or.inl (honly v hv))
              · exact Or.inl hi
          · exact absurd hinspect (by simp)
      · next entries =>
        split at hinspect
        · exact absurd hinspect (by simp)
        · next hkeys =>
          obtain rfl := Walk.walking.inj hinspect
          have hchild : ∀ w, w ∈ (entries.map Prod.snd).reverse ↔ g.Edge (.dictionary entries) w := by
            intro w
            rw [List.mem_reverse, List.mem_map]
            constructor
            · rintro ⟨⟨key, child⟩, hmem, rfl⟩
              exact .entry hmem
            · intro hedge
              cases hedge with
              | entry hmem => exact ⟨_, hmem, rfl⟩
          refine h.step hpending (fun w hw => List.mem_append_right _ hw) (fun w hw => ?_) (fun w hedge => ?_)
            (fun es heq x hx => ?_) fun i hi => Or.inl hi
          · exact (List.mem_append.1 hw).symm.imp_right (hchild w).1
          · exact Or.inr (Or.inr (List.mem_append_left _ ((hchild w).2 hedge)))
          · obtain rfl := PdfObject.dictionary.inj heq
            intro hactive
            exact hkeys (List.any_eq_true.2 ⟨x, hx, decide_eq_true hactive⟩)
      · next items =>
        obtain rfl := Walk.walking.inj hinspect
        refine h.step hpending (fun w hw => List.mem_append_right _ hw) (fun w hw => ?_) (fun w hedge => ?_)
          (by simp) fun i hi => Or.inl hi
        · rcases List.mem_append.1 hw with hw | hw
          · exact Or.inr (.item (List.mem_reverse.1 hw))
          · exact Or.inl hw
        · cases hedge with
          | item hmem => exact Or.inr (Or.inr (List.mem_append_left _ (List.mem_reverse.2 hmem)))
      · next hindirect hdictionary harray =>
        obtain rfl := Walk.walking.inj hinspect
        refine h.step hpending (fun w hw => hw) (fun w hw => Or.inl hw) (fun w hedge => ?_)
          (fun entries heq => absurd heq (hdictionary entries)) fun i hi => Or.inl hi
        cases hedge with
        | entry => exact absurd rfl (hdictionary _)
        | item => exact absurd rfl (harray _)
        | target => exact absurd rfl (hindirect _ _)

/-- A dictionary with a banned key can be reached. -/
def PdfGraph.Active (g : PdfGraph) : Prop :=
  ∃ entries, g.Reachable (.dictionary entries) ∧ ∃ x ∈ entries, x.1 ∈ ACTIVE_PDF_KEYS

/-- A reference that does not resolve can be reached. -/
def PdfGraph.Broken (g : PdfGraph) : Prop :=
  ∃ idnum generation, g.Reachable (.indirect idnum generation) ∧ g.getObject (idnum, generation) = none

/-- Why the walk stops with an error. -/
inductive Raises (g : PdfGraph) : WorkflowError → Prop where
  | tooComplex : Raises g tooComplex
  | invalid (h : g.Broken) : Raises g invalidObject
  | active (h : g.Active) : Raises g activeContent

theorem Explored.raises {done : List PdfObject} {e : WorkflowError} (h : Explored g s done)
    (hinspect : Rubrica.inspect g s = .raised e) : Raises g e := by
  unfold Rubrica.inspect at hinspect
  split at hinspect
  · exact absurd hinspect (by simp)
  · next value pending hpending =>
    have hvalue : g.Reachable value := h.reachable value (hpending ▸ List.mem_cons_self)
    split at hinspect
    · obtain rfl := Walk.raised.inj hinspect
      exact .tooComplex
    · split at hinspect
      · split at hinspect
        · exact absurd hinspect (by simp)
        · split at hinspect
          · exact absurd hinspect (by simp)
          · next hnone =>
            obtain rfl := Walk.raised.inj hinspect
            exact .invalid ⟨_, _, hvalue, hnone⟩
      · split at hinspect
        · next hkeys =>
          obtain rfl := Walk.raised.inj hinspect
          obtain ⟨x, hx, hactive⟩ := List.any_eq_true.1 hkeys
          exact .active ⟨_, hvalue, x, hx, of_decide_eq_true hactive⟩
        · exact absurd hinspect (by simp)
      · exact absurd hinspect (by simp)
      · exact absurd hinspect (by simp)

theorem pending_of_passed (h : inspect g s = .passed) : s.pending = [] := by
  unfold inspect at h
  split at h
  · next hpending => exact hpending
  · split at h
    · exact absurd h (by simp)
    · split at h
      · split at h
        · exact absurd h (by simp)
        · split at h <;> exact absurd h (by simp)
      · split at h <;> exact absurd h (by simp)
      · exact absurd h (by simp)
      · exact absurd h (by simp)

/-- When nothing is pending any more, everything that can be reached was inspected. -/
theorem Explored.mem_done {done : List PdfObject} (h : Explored g s done) (hpending : s.pending = [])
    {v : PdfObject} (hv : g.Reachable v) : v ∈ done := by
  have hnone : ∀ w, w ∈ done ∨ w ∈ s.pending → w ∈ done := by
    intro w hw
    rw [hpending] at hw
    exact hw.resolve_right List.not_mem_nil
  induction hv with
  | refl => exact hnone _ h.start
  | tail _ hedge ih => exact hnone _ (h.closed _ ih _ hedge)

theorem Explored.not_active {done : List PdfObject} (h : Explored g s done) (hpending : s.pending = []) :
    ¬g.Active := by
  rintro ⟨entries, hreach, x, hx, hactive⟩
  exact h.passive entries (h.mem_done hpending hreach) x hx hactive

/-- How the walk ends. -/
theorem Explored.walk {done : List PdfObject} (h : Explored g s done) (n : Nat) :
    (Rubrica.walk g n s = .passed → ¬g.Active) ∧ ∀ e, Rubrica.walk g n s = .raised e → Raises g e := by
  induction n generalizing s done with
  | zero =>
      have hwalking : Rubrica.walk g 0 s = .walking s := rfl
      rw [hwalking]
      exact ⟨fun hpassed => absurd hpassed (by simp), fun e he => absurd he (by simp)⟩
  | succ n ih =>
      rw [walk_succ]
      split
      · next s' hinspect =>
        obtain ⟨done', h'⟩ := h.inspect hinspect
        exact ih h'
      · next hinspect =>
        exact ⟨fun _ => h.not_active (pending_of_passed hinspect), fun e he => absurd he (by simp)⟩
      · next e hinspect =>
        refine ⟨fun hpassed => absurd hpassed (by simp), fun e' he => ?_⟩
        obtain rfl := Walk.raised.inj he
        exact h.raises hinspect

theorem rejectActiveContent_eq_ok (h : rejectActiveContent g = .ok ()) : ¬g.Active := by
  unfold rejectActiveContent at h
  split at h
  · next hpassed => exact ((explored_start g).walk _).1 hpassed
  · exact absurd h (by simp)
  · exact absurd h (by simp)

theorem rejectActiveContent_eq_error {e : WorkflowError} (h : rejectActiveContent g = .error e) : Raises g e := by
  unfold rejectActiveContent at h
  split at h
  · exact absurd h (by simp)
  · next hraised =>
    obtain rfl := Except.error.inj h
    exact ((explored_start g).walk _).2 _ hraised
  · next s hwalking => exact absurd hwalking (walk_ends g s)

/-- **The walk over the object graph.** It ends within its budget; and where it does not run out of it and every
    reference it can reach resolves, it raises for active content exactly where there is some. -/
theorem walk_exact (g : PdfGraph) :
    (∃ n, n ≤ inspectionLimit + 1 ∧ ∀ s, walk g n (WalkState.start g) ≠ .walking s) ∧
      (rejectActiveContent g ≠ .error tooComplex → ¬g.Broken →
        (rejectActiveContent g = .error activeContent ↔ g.Active)) := by
  refine ⟨⟨_, le_rfl, walk_ends g⟩, fun hbudget hsound => ⟨fun h => ?_, fun hactive => ?_⟩⟩
  · generalize he : activeContent = e at h
    cases rejectActiveContent_eq_error h with
    | tooComplex => exact absurd h hbudget
    | invalid hbroken => exact absurd hbroken hsound
    | active hactive => exact hactive
  · cases h : rejectActiveContent g with
    | ok u => exact absurd hactive (rejectActiveContent_eq_ok h)
    | error e =>
        cases rejectActiveContent_eq_error h with
        | tooComplex => exact absurd h hbudget
        | invalid hbroken => exact absurd hbroken hsound
        | active _ => rfl

end Exact

/-- Two pages that refer to each other, one of them with a script. -/
def sampleGraph (key : String) : PdfGraph where
  trailer := .dictionary [("/Root", .indirect 1 0)]
  getObject
    | (1, 0) => some (.dictionary [("/Kids", .array [.indirect 2 0, .indirect 1 0])])
    | _ => some (.dictionary [("/Parent", .indirect 1 0), (key, .scalar)])

theorem walk_exact_sample :
    (∃ n, n ≤ inspectionLimit + 1 ∧
        ∀ s, walk (sampleGraph "/JS") n (WalkState.start (sampleGraph "/JS")) ≠ .walking s) ∧
      (rejectActiveContent (sampleGraph "/JS") = .error activeContent ↔ (sampleGraph "/JS").Active) := by
  refine ⟨(walk_exact (sampleGraph "/JS")).1, (walk_exact (sampleGraph "/JS")).2 (by decide +kernel) ?_⟩
  rintro ⟨idnum, generation, -, hnone⟩
  unfold sampleGraph at hnone
  simp only at hnone
  split at hnone <;> exact absurd hnone (by simp)

/-! ## `validate_pdf_upload` -/

/-- What `pypdf` shows of a file. An error is the class of the exception that reading it raises. -/
structure PdfReader where
  isEncrypted : Except String Bool
  /-- Widths and heights of the media boxes. -/
  pages : Except String (List (Rat × Rat))
  graph : PdfGraph

structure UploadLimits where
  maxSizeBytes : Nat
  maxPages : Nat

/-- `PurePath(filename).name`. -/
def purePathName (filename : List Char) : List Char :=
  ((filename.splitOn '/').filter fun part => part ≠ [] ∧ part ≠ ['.']).getLast?.getD []

def malformedErrors : List String :=
  ["PdfReadError", "ValueError", "TypeError", "RecursionError", "KeyError", "AssertionError"]

/-- The `except` clauses around the reader. -/
def readerFailure (name : String) : Failure :=
  if name ∈ malformedErrors then .error "PDF is malformed or unsupported" 400 else .other name

section Upload

variable (t : CharacterData) (limits : UploadLimits) (read : List UInt8 → Except String PdfReader)

def isPdfFilename (filename : List Char) : Bool :=
  purePathName filename = filename && !filename.contains '\\' &&
    ".pdf".toList.isSuffixOf (t.lower filename) && !filename.any fun c => c.toNat < 32

def pdfHeader : List UInt8 :=
  [37, 80, 68, 70, 45]

def pdfTrailer : List UInt8 :=
  [37, 37, 69, 79, 70]

/-- The header, and the trailer within the last 2048 bytes. -/
def isPdfContent (content : List UInt8) : Bool :=
  pdfHeader.isPrefixOf content && (content.drop (content.length - 2048)).tails.any pdfTrailer.isPrefixOf

/-- The reader is asked for what it has to show, and the graph is walked. -/
def validateReader (reader : PdfReader) : Except Failure Unit := do
  let encrypted ← reader.isEncrypted.mapError readerFailure
  if encrypted then .error (.error "Encrypted PDFs are not supported" 400)
  else do
    let pages ← reader.pages.mapError readerFailure
    if pages.length < 1 ∨ pages.length > limits.maxPages then
      .error (.error "PDF page count is outside the allowed range" 400)
    else if pages.any fun page => page.1 ≤ 0 || page.2 ≤ 0 then .error (.error "PDF contains an invalid page" 400)
    else (rejectActiveContent reader.graph).mapError .workflow

def validatePdfUpload (content : List UInt8) (filename contentType : String) : Except Failure Unit :=
  if content.isEmpty then .error (.error "Document content cannot be empty" 400)
  else if content.length > limits.maxSizeBytes then .error (.error "Document exceeds the allowed size" 413)
  else if String.ofList (t.lower (t.strip (contentType.toList.takeWhile (· ≠ ';')))) ≠ "application/pdf" then
    .error (.error "Only PDF documents are accepted" 415)
  else if ¬isPdfFilename t filename.toList then .error (.error "Invalid PDF filename" 400)
  else if ¬isPdfContent content then .error (.error "File content is not a PDF" 415)
  else do
    let reader ← (read content).mapError readerFailure
    validateReader limits reader

end Upload

/-! ## What is accepted -/

/-- The keys whose value selects the kind of an action or an annotation. -/
def kindKeys : List String :=
  ["/S", "/Subtype", "/Type"]

/-- The object is this name, or refers to it. -/
inductive PdfGraph.Denotes (g : PdfGraph) : PdfObject → String → Prop where
  | name (text : String) : Denotes g (.name text) text
  | target {idnum generation : Nat} {object : PdfObject} {text : String}
      (h : g.getObject (idnum, generation) = some object) (denotes : Denotes g object text) :
      Denotes g (.indirect idnum generation) text

/-- No dictionary that can be reached uses a banned name, as a key or as the kind of something. -/
def PdfGraph.Passive (g : PdfGraph) : Prop :=
  ∀ entries, g.Reachable (.dictionary entries) → ∀ x ∈ entries,
    x.1 ∉ ACTIVE_PDF_KEYS ∧ (x.1 ∈ kindKeys → ∀ text ∈ ACTIVE_PDF_KEYS, ¬g.Denotes x.2 text)

/-- A dictionary that can be reached is of a banned kind. -/
def PdfGraph.NamesActive (g : PdfGraph) : Prop :=
  ∃ entries, g.Reachable (.dictionary entries) ∧
    ∃ x ∈ entries, x.1 ∈ kindKeys ∧ ∃ text ∈ ACTIVE_PDF_KEYS, g.Denotes x.2 text

section Accepted

variable {t : CharacterData} {limits : UploadLimits} {read : List UInt8 → Except String PdfReader}
  {content : List UInt8} {filename contentType : String} {reader : PdfReader}

theorem mapError_eq_ok {α ε ε' : Type} {f : ε → ε'} {x : Except ε α} {a : α} :
    x.mapError f = .ok a ↔ x = .ok a := by
  cases x with
  | ok b => simp [Except.mapError]
  | error e => simp [Except.mapError]

theorem validateReader_eq_ok (h : validateReader limits reader = .ok ()) : ¬reader.graph.Active := by
  obtain ⟨encrypted, -, h⟩ := bind_eq_ok.1 h
  split at h
  · exact absurd h (by simp)
  · obtain ⟨pages, -, h⟩ := bind_eq_ok.1 h
    split at h
    · exact absurd h (by simp)
    · split at h
      · exact absurd h (by simp)
      · exact rejectActiveContent_eq_ok (mapError_eq_ok.1 h)

theorem validatePdfUpload_eq_ok (h : validatePdfUpload t limits read content filename contentType = .ok ())
    (hread : read content = .ok reader) : validateReader limits reader = .ok () := by
  unfold validatePdfUpload at h
  split at h
  · exact absurd h (by simp)
  · split at h
    · exact absurd h (by simp)
    · split at h
      · exact absurd h (by simp)
      · split at h
        · exact absurd h (by simp)
        · split at h
          · exact absurd h (by simp)
          · obtain ⟨reader', hreader, h⟩ := bind_eq_ok.1 h
            rw [hread] at hreader
            obtain rfl := Except.ok.inj hreader
            exact h

/-- **What an accepted upload contains.** It is passive exactly where no dictionary that can be reached is of a
    banned kind by the value of `/S`, `/Subtype` or `/Type`: the keys are all checked, the values are not. -/
theorem upload_passive_iff (h : validatePdfUpload t limits read content filename contentType = .ok ())
    (hread : read content = .ok reader) : reader.graph.Passive ↔ ¬reader.graph.NamesActive := by
  have hkeys := validateReader_eq_ok (validatePdfUpload_eq_ok h hread)
  constructor
  · rintro hpassive ⟨entries, hreach, x, hx, hkind, text, htext, hdenotes⟩
    exact (hpassive entries hreach x hx).2 hkind text htext hdenotes
  · intro hnames entries hreach x hx
    refine ⟨fun hactive => hkeys ⟨entries, hreach, x, hx, hactive⟩, fun hkind text htext hdenotes => ?_⟩
    exact hnames ⟨entries, hreach, x, hx, hkind, text, htext, hdenotes⟩

end Accepted

/-- A file of one page, with a link whose action is given. The table of its objects is after the last of them. -/
def linkPdf (action startxref : String) : List UInt8 :=
  ["%PDF-1.4", "1 0 obj << /Type /Catalog /Pages 2 0 R >> endobj",
    "2 0 obj << /Type /Pages /Kids [3 0 R] /Count 1 >> endobj",
    "3 0 obj << /Type /Page /Parent 2 0 R /MediaBox [0 0 595 842] /Annots [4 0 R] >> endobj",
    "4 0 obj << /Type /Annot /Subtype /Link /Rect [0 0 9 9] /A << " ++ action ++ " >> >> endobj",
    "xref", "0 5", "0000000000 65535 f ", "0000000009 00000 n ", "0000000058 00000 n ", "0000000115 00000 n ",
    "0000000202 00000 n ", "trailer << /Size 5 /Root 1 0 R >>", "startxref", startxref, "%%EOF"].flatMap
    fun line => (line.toList ++ ['\n']).map fun c => UInt8.ofNat c.toNat

/-- Its objects: the catalog, the pages, the page and the link. -/
def linkObject (kind parameter : String) : Nat × Nat → Option PdfObject
  | (1, 0) => some (.dictionary [("/Type", .name "/Catalog"), ("/Pages", .indirect 2 0)])
  | (2, 0) => some (.dictionary [("/Type", .name "/Pages"), ("/Kids", .array [.indirect 3 0]), ("/Count", .scalar)])
  | (3, 0) => some (.dictionary [("/Type", .name "/Page"), ("/Parent", .indirect 2 0),
      ("/MediaBox", .array [.scalar, .scalar, .scalar, .scalar]), ("/Annots", .array [.indirect 4 0])])
  | (4, 0) => some (.dictionary [("/Type", .name "/Annot"), ("/Subtype", .name "/Link"),
      ("/Rect", .array [.scalar, .scalar, .scalar, .scalar]),
      ("/A", .dictionary [("/S", .name kind), (parameter, .scalar)])])
  | _ => none

/-- What the library shows of it. -/
def linkReader (kind parameter : String) : PdfReader where
  isEncrypted := .ok false
  pages := .ok [(595, 842)]
  graph := ⟨.dictionary [("/Size", .scalar), ("/Root", .indirect 1 0)], linkObject kind parameter⟩

/-- A library that reads a link to a page, and one to a program. -/
def readLink (content : List UInt8) : Except String PdfReader :=
  if content = linkPdf "/S /URI /URI (x)" "293" then .ok (linkReader "/URI" "/URI")
  else if content = linkPdf "/S /Launch /F (x)" "294" then .ok (linkReader "/Launch" "/F")
  else .error "PdfReadError"

theorem readLink_uri : readLink (linkPdf "/S /URI /URI (x)" "293") = .ok (linkReader "/URI" "/URI") :=
  if_pos rfl

theorem readLink_launch : readLink (linkPdf "/S /Launch /F (x)" "294") = .ok (linkReader "/Launch" "/F") := by
  rw [readLink, if_neg (by decide +kernel), if_pos rfl]

def sampleLimits : UploadLimits :=
  ⟨52428800, 1000⟩

theorem validatePdfUpload_uri : validatePdfUpload asciiData sampleLimits readLink (linkPdf "/S /URI /URI (x)" "293")
    "contract.pdf" "application/pdf" = .ok () := by
  decide +kernel

/-- The file of a link to a page is accepted. -/
theorem upload_passive_link :
    (linkReader "/URI" "/URI").graph.Passive ↔ ¬(linkReader "/URI" "/URI").graph.NamesActive :=
  upload_passive_iff validatePdfUpload_uri readLink_uri

/-- An action that launches a program is accepted. -/
theorem not_upload_passive :
    ¬∀ (t : CharacterData) (limits : UploadLimits) (read : List UInt8 → Except String PdfReader)
      (content : List UInt8) (filename contentType : String) (reader : PdfReader),
      validatePdfUpload t limits read content filename contentType = .ok () → read content = .ok reader →
        reader.graph.Passive := by
  intro h
  have hpassive := h asciiData sampleLimits readLink (linkPdf "/S /Launch /F (x)" "294") "contract.pdf"
    "application/pdf" _ (by decide +kernel) readLink_launch
  have hlast : ∀ {x y z w : String × PdfObject}, w ∈ [x, y, z, w] :=
    List.mem_cons_of_mem _ (List.mem_cons_of_mem _ (List.mem_cons_of_mem _ List.mem_cons_self))
  have hcatalog : (linkReader "/Launch" "/F").graph.Reachable (.indirect 1 0) :=
    .tail .refl (.entry (List.mem_cons_of_mem _ List.mem_cons_self))
  have hpages : (linkReader "/Launch" "/F").graph.Reachable (.indirect 2 0) :=
    (hcatalog.tail (.target rfl)).tail (.entry (List.mem_cons_of_mem _ List.mem_cons_self))
  have hpage : (linkReader "/Launch" "/F").graph.Reachable (.indirect 3 0) :=
    ((hpages.tail (.target rfl)).tail (.entry (List.mem_cons_of_mem _ List.mem_cons_self))).tail
      (.item List.mem_cons_self)
  have hlink : (linkReader "/Launch" "/F").graph.Reachable (.indirect 4 0) :=
    ((hpage.tail (.target rfl)).tail (.entry hlast)).tail (.item List.mem_cons_self)
  have haction : (linkReader "/Launch" "/F").graph.Reachable
      (.dictionary [("/S", .name "/Launch"), ("/F", .scalar)]) :=
    (hlink.tail (.target rfl)).tail (.entry hlast)
  exact (hpassive _ haction _ List.mem_cons_self).2 (by decide) _ (by decide) (.name "/Launch")

end Rubrica
