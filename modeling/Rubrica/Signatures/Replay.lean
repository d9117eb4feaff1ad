import Rubrica.Signatures.Lifecycle
import Rubrica.Signatures.Trail

set_option autoImplicit false

/-! # What the trail tells

The trail alone tells in what state every document, request and signer is: read from its first entry to its
last, it ends with the rows that are on record. -/

namespace Rubrica

open Transactions

variable {B Page : Type}

/-! ## Reading entries -/

/-- What the entries of a document tell of it. -/
structure DocumentSummary where
  version : Nat
  deleted : Bool
  deriving DecidableEq, Repr

structure RequestSummary where
  status : RequestStatus
  /-- Has a signing link been issued? -/
  linked : Bool
  deriving DecidableEq, Repr

def Document.summary (d : Document) : DocumentSummary :=
  ⟨d.version, d.deletedAt.isSome⟩

def SignatureRequest.summary (r : SignatureRequest) : RequestSummary :=
  ⟨r.status, r.signingTokenHash.isSome⟩

def DocumentSummary.revised (d : DocumentSummary) : DocumentSummary :=
  { d with version := d.version + 1 }

def DocumentSummary.removed (d : DocumentSummary) : DocumentSummary :=
  { d with deleted := true }

def RequestSummary.moved (status : RequestStatus) (r : RequestSummary) : RequestSummary :=
  { r with status := status }

def RequestSummary.issued (r : RequestSummary) : RequestSummary :=
  { r with linked := true }

def DocumentSummary.after (action : String) (d : Option DocumentSummary) : Option DocumentSummary :=
  if action = "document.uploaded" then some ⟨1, false⟩
  else if action = "document.version_created" then d.map revised
  else if action = "document.deleted" then d.map removed
  else d

def RequestSummary.after (action : String) (r : Option RequestSummary) : Option RequestSummary :=
  if action = "signature_request.created" then some ⟨.draft, false⟩
  else if action = "signature_request.opened" then r.map (moved .open)
  else if action = "signature_request.cancelled" then r.map (moved .cancelled)
  else if action = "signature_request.completed" then r.map (moved .completed)
  else if action = "signature_request.link_created" then r.map issued
  else r

def SignerStatus.after (action : String) (s : Option SignerStatus) : Option SignerStatus :=
  if action = "signer.link_created" then some .pending
  else if action = "document.viewed" then s.map fun _ => .viewed
  else if action = "signature.completed" then s.map fun _ => .signed
  else if action = "signature.declined" then s.map fun _ => .declined
  else s

/-- Read the entries about one row of a table, each of which makes something of what is known of the row. -/
def replayRow {S : Type} (after : String → Option S → Option S) (entityType : String) (id : UUID)
    (entries : List TrailEntry) (s : Option S) : Option S :=
  entries.foldl (fun s e => if e.entityType = entityType ∧ e.entityId = id then after e.action s else s) s

def replayDocument (id : UUID) (entries : List TrailEntry) (d : Option DocumentSummary) : Option DocumentSummary :=
  replayRow DocumentSummary.after "document" id entries d

def replayRequest (id : UUID) (entries : List TrailEntry) (r : Option RequestSummary) : Option RequestSummary :=
  replayRow RequestSummary.after "signature_request" id entries r

def replaySigner (id : UUID) (entries : List TrailEntry) (s : Option SignerStatus) : Option SignerStatus :=
  replayRow SignerStatus.after "signer" id entries s

/-! ## Reading the entries of a move -/

section Rows

variable {S : Type} {after : String → Option S → Option S} {entityType : String} {id k : UUID}

theorem replayRow_append (l l' : List TrailEntry) (s : Option S) :
    replayRow after entityType id (l ++ l') s = replayRow after entityType id l' (replayRow after entityType id l s) :=
  List.foldl_append

theorem replayRow_cons (e : TrailEntry) (l : List TrailEntry) (s : Option S) :
    replayRow after entityType id (e :: l) s =
      replayRow after entityType id l (if e.entityType = entityType ∧ e.entityId = id then after e.action s else s) :=
  rfl

variable {ρ : Type} {t : Table UUID ρ} {f : ρ → S}

/-- A row that is new, as it is summed up. -/
theorem map_get?_insert {r : ρ} (hfree : t.get? k = none) :
    ((t.insert k r).get? id).map f = if k = id then some (f r) else (t.get? id).map f := by
  rw [Table.get?_insert_of_free hfree]
  split
  · next hk =>
    subst hk
    rw [hfree]
    rfl
  · rw [Option.or_none]

/-- A row that changes, as it is summed up. -/
theorem map_get?_update {u : ρ → ρ} {g : S → S} (hg : ∀ r, t.get? k = some r → f (u r) = g (f r)) :
    ((t.update k u).get? id).map f = if k = id then ((t.get? id).map f).map g else (t.get? id).map f := by
  rw [Table.get?_update]
  by_cases hk : k = id
  · subst hk
    rw [if_pos rfl, if_pos rfl]
    cases hr : t.get? k with
    | none => rfl
    | some r => exact congrArg some (hg r hr)
  · rw [if_neg (Ne.symm hk), if_neg hk]

/-- Entries about rows of another table. -/
theorem replayRow_of_other {l : List TrailEntry} (h : ∀ e ∈ l, e.entityType ≠ entityType) (s : Option S) :
    replayRow after entityType id l s = s := by
  induction l generalizing s with
  | nil => rfl
  | cons e l ih =>
      have hne : ¬(e.entityType = entityType ∧ e.entityId = id) := fun he => h e List.mem_cons_self he.1
      rw [replayRow_cons, if_neg hne]
      exact ih (fun e he => h e (List.mem_cons_of_mem _ he)) s

end Rows

section Moves

variable {host : Host B Page} {cfg : Settings} {services : SigningServices B} {reliable : Prop} {m : Move B}
  {H : Rights RowKey} {w : World B}

theorem Move.Allowed.documentSummary (h : m.Allowed host cfg services reliable H w) (id : UUID) :
    ((m.apply w.toArchive).documents.get? id).map Document.summary =
      replayDocument id m.trail ((w.documents.get? id).map Document.summary) := by
  cases h with
  | createDocument name fresh version live =>
      refine (map_get?_insert fresh).trans ?_
      simp [Move.trail, replayDocument, replayRow, TrailEntry.ofDocument, DocumentSummary.after, Document.summary,
        version, live]
  | @addVersion k number v d lock document next =>
      refine (map_get?_update (g := DocumentSummary.revised) fun d' hd' => ?_).trans ?_
      · obtain rfl := Option.some.inj (hd'.symm.trans (liveDocument_eq_some.1 document).1)
        rw [next]
        rfl
      · simp [Move.trail, replayDocument, replayRow, TrailEntry.ofDocument, DocumentSummary.after]
  | @deleteDocument k ids now =>
      refine (map_get?_update (f := Document.summary) (u := .deleted now)
        (g := DocumentSummary.removed) fun _ _ => rfl).trans ?_
      have hcancelled : replayDocument id (ids.map fun request => .ofRequest request "signature_request.cancelled")
          ((w.documents.get? id).map Document.summary) = (w.documents.get? id).map Document.summary := by
        refine replayRow_of_other (fun e he => ?_) _
        obtain ⟨request, -, rfl⟩ := List.mem_map.1 he
        simp [TrailEntry.ofRequest]
      rw [replayDocument] at hcancelled ⊢
      rw [Move.trail, replayRow_append, hcancelled]
      simp [replayRow, TrailEntry.ofDocument, DocumentSummary.after]
  | @sign x =>
      refine (replayRow_of_other (fun e he => ?_) _).symm
      cases hc : x.completes <;> simp [Move.trail, hc] at he
      · simp [he, TrailEntry.ofSigner]
      · rcases he with rfl | rfl <;> simp [TrailEntry.ofSigner, TrailEntry.ofRequest]
  | _ => simp [Move.trail, Move.apply, Move.onDocuments, replayDocument, replayRow, TrailEntry.ofRequest,
      TrailEntry.ofSigner]

/-- Requests that are cancelled together. -/
theorem replayRequest_cancelled (id : UUID) (ids : List UUID) (r : Option RequestSummary) :
    replayRequest id (ids.map fun request => .ofRequest request "signature_request.cancelled") r =
      if id ∈ ids then r.map (.moved .cancelled) else r := by
  induction ids generalizing r with
  | nil => rfl
  | cons k ids ih =>
      rw [List.map_cons, replayRequest, replayRow_cons, ← replayRequest, ih]
      by_cases hk : k = id
      · subst hk
        have hagain : (r.map (RequestSummary.moved .cancelled)).map (RequestSummary.moved .cancelled) =
            r.map (RequestSummary.moved .cancelled) := by
          rw [Option.map_map]
          rfl
        simp [TrailEntry.ofRequest, RequestSummary.after, hagain]
      · simp [TrailEntry.ofRequest, hk, Ne.symm hk]

theorem Move.Allowed.requestSummary (h : m.Allowed host cfg services reliable H w) (id : UUID) :
    ((m.apply w.toArchive).requests.get? id).map SignatureRequest.summary =
      replayRequest id m.trail ((w.requests.get? id).map SignatureRequest.summary) := by
  cases h with
  | @deleteDocument k ids now =>
      have hrest : ∀ r, replayRequest id [.ofDocument k "document.deleted"] r = r :=
        replayRow_of_other (by simp [TrailEntry.ofDocument])
      rw [Move.trail, replayRequest, replayRow_append]
      refine Eq.trans ?_ (hrest _).symm
      rw [← replayRequest, replayRequest_cancelled]
      show ((w.requests.map _).get? id).map SignatureRequest.summary = _
      rw [Table.get?_map]
      cases w.requests.get? id with
      | none => simp
      | some r =>
          rw [Option.map_some, Option.map_some, Option.map_some]
          split <;> rfl
  | createRequest name fresh reference status evidence unfinished unlinked =>
      refine (map_get?_insert fresh).trans ?_
      simp [Move.trail, replayRequest, replayRow, TrailEntry.ofRequest, RequestSummary.after,
        SignatureRequest.summary, status, unlinked]
  | @createLink k nonce hash =>
      refine (map_get?_update (f := SignatureRequest.summary) (u := .linked nonce hash)
        (g := RequestSummary.issued) fun _ _ => rfl).trans ?_
      simp [Move.trail, replayRequest, replayRow, TrailEntry.ofRequest, RequestSummary.after]
  | @openRequest k mode =>
      refine (map_get?_update (f := SignatureRequest.summary) (u := .opened mode)
        (g := RequestSummary.moved .open) fun _ _ => rfl).trans ?_
      simp [Move.trail, replayRequest, replayRow, TrailEntry.ofRequest, RequestSummary.after]
  | cancelRequest =>
      refine (map_get?_update (f := SignatureRequest.summary) (u := .cancelled)
        (g := RequestSummary.moved .cancelled) fun _ _ => rfl).trans ?_
      simp [Move.trail, replayRequest, replayRow, TrailEntry.ofRequest, RequestSummary.after]
  | @sign x =>
      cases hc : x.completes with
      | false =>
          simp [Move.trail, hc, Move.apply, Move.onRequests, replayRequest, replayRow, TrailEntry.ofSigner]
      | true =>
          have hrows : ((Move.sign x).apply w.toArchive).requests =
              w.requests.update x.request (.completed x.signature.signedAt) :=
            (Move.onRequests_sign x w.requests).trans (if_pos hc)
          rw [hrows]
          refine (map_get?_update (f := SignatureRequest.summary) (u := .completed x.signature.signedAt)
            (g := RequestSummary.moved .completed) fun _ _ => rfl).trans ?_
          simp [Move.trail, hc, replayRequest, replayRow, TrailEntry.ofRequest, TrailEntry.ofSigner,
            RequestSummary.after]
  | _ => simp [Move.trail, Move.apply, Move.onRequests, replayRequest, replayRow, TrailEntry.ofDocument,
      TrailEntry.ofSigner]

theorem Move.Allowed.signerStatus (h : m.Allowed host cfg services reliable H w) (key : UUID) :
    ((m.apply w.toArchive).signers.get? key).map Signer.status =
      replaySigner key m.trail ((w.signers.get? key).map Signer.status) := by
  cases h with
  | @deleteDocument k ids now =>
      refine (replayRow_of_other (fun e he => ?_) _).symm
      rcases List.mem_append.1 he with he | he
      · obtain ⟨request, -, rfl⟩ := List.mem_map.1 he
        simp [TrailEntry.ofRequest]
      · simp [List.mem_singleton.1 he, TrailEntry.ofDocument]
  | addSigner lock name fresh request status pending =>
      refine (map_get?_insert fresh).trans ?_
      simp [Move.trail, replaySigner, replayRow, TrailEntry.ofSigner, SignerStatus.after, pending]
  | @revokeLink k signer now =>
      refine (map_get?_update (f := Signer.status) (u := .revoked now) (g := id) fun _ _ => rfl).trans ?_
      simp [Move.trail, replaySigner, replayRow, TrailEntry.ofSigner, SignerStatus.after]
  | view =>
      refine (map_get?_update (f := Signer.status) (u := .answered .viewed)
        (g := fun _ => .viewed) fun _ _ => rfl).trans ?_
      simp [Move.trail, replaySigner, replayRow, TrailEntry.ofSigner, SignerStatus.after]
  | decline =>
      refine (map_get?_update (f := Signer.status) (u := .answered .declined)
        (g := fun _ => .declined) fun _ _ => rfl).trans ?_
      simp [Move.trail, replaySigner, replayRow, TrailEntry.ofSigner, SignerStatus.after]
  | @sign x =>
      refine (map_get?_update (f := Signer.status) (u := .hasSigned x.signature.signedAt)
        (g := fun _ => .signed) fun _ _ => rfl).trans ?_
      cases hc : x.completes <;>
        simp [Move.trail, hc, replaySigner, replayRow, TrailEntry.ofSigner, TrailEntry.ofRequest, SignerStatus.after]
  | _ => simp [Move.trail, Move.apply, Move.onSigners, replaySigner, replayRow, TrailEntry.ofDocument,
      TrailEntry.ofRequest]

/-! ## The whole trail -/

/-- The trail, read from its first entry to its last, tells the archive. -/
structure Archive.ToldBy (l : List TrailEntry) (a : Archive) : Prop where
  documents : ∀ id, (a.documents.get? id).map Document.summary = replayDocument id l none
  requests : ∀ id, (a.requests.get? id).map SignatureRequest.summary = replayRequest id l none
  signers : ∀ id, (a.signers.get? id).map Signer.status = replaySigner id l none

/-- One move and its entries. -/
theorem Move.Allowed.toldBy (h : m.Allowed host cfg services reliable H w) {l : List TrailEntry}
    (hl : w.toArchive.ToldBy l) : (m.apply w.toArchive).ToldBy (l ++ m.trail) where
  documents id := by
    rw [h.documentSummary, hl.documents]
    exact (replayRow_append _ _ _).symm
  requests id := by
    rw [h.requestSummary, hl.requests]
    exact (replayRow_append _ _ _).symm
  signers id := by
    rw [h.signerStatus, hl.signers]
    exact (replayRow_append _ _ _).symm

end Moves

section Runs

variable {host : Host B Page} {cfg : Settings} {services : SigningServices B} {Y Z : WorkflowSystem B}
  {steps : List (WorkflowStep B)}

/-- **The trail tells the state.** In every state that the workflow reaches from an empty archive and an empty
    trail, in any interleaving, the version of each document and whether it is deleted, the status of each
    request and whether it has a link, and the status of each signer are what the trail tells of them. -/
theorem trail_tells (hrun : Run (auditedRuns host cfg services (anyCircumstances B)) Y steps Z)
    (hidle : Y.sessions = []) (hempty : Y.shared.toArchive = .empty) (htrail : Y.shared.trail = []) :
    Z.shared.toArchive.ToldBy Z.shared.trail := by
  rw [trail_of_run hrun hidle, htrail, List.nil_append]
  refine workflow_induct (run_of_audited hrun) hidle (fun _ _ _ _ _ => trivial)
    (motive := fun ms w => w.toArchive.ToldBy (ms.flatMap Move.trail)) ?_ (fun ms w w' ih hrests => ?_)
    fun ms w w' m ih hmoves => ?_
  · rw [hempty]
    exact ⟨fun _ => rfl, fun _ => rfl, fun _ => rfl⟩
  · rw [hrests.archive]
    exact ih
  · obtain ⟨H, hallowed, -⟩ := hmoves.allowed
    rw [hmoves.archive, List.flatMap_append, List.flatMap_singleton]
    exact hallowed.toldBy ih

end Runs

/-- The trail of a signed lease tells that it is completed. -/
theorem trail_tells_leaseSigned :
    ∃ steps Z, Run (auditedRuns sampleHost sampleSettings sampleServices (anyCircumstances SampleBytes))
        emptyWorkspace steps Z ∧ replayRequest 20 Z.shared.trail none = some ⟨.completed, true⟩ ∧
      Z.shared.toArchive.ToldBy Z.shared.trail := by
  obtain ⟨steps, Z, hrun, hp⟩ := @exists_audited _ _ sampleHost sampleSettings sampleServices emptyWorkspace
    (anyCircumstances SampleBytes) (serial leaseSigned)
    (fun _ Z => replayRequest 20 Z.shared.trail none = some ⟨.completed, true⟩) (by decide +kernel)
  exact ⟨steps, Z, hrun, of_decide_eq_true hp, trail_tells hrun rfl rfl rfl⟩

end Rubrica
