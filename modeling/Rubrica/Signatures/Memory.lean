import Rubrica.Signatures.Signing
import Rubrica.Transactions.Solo

set_option autoImplicit false

/-! # The in-memory workflow

`SignatureWorkflowService`, over the dictionaries it keeps. It has no transactions: what a call has
changed before it raises stays changed. Calls are served one at a time. -/

namespace Rubrica

open Transactions

variable {B Page α : Type}

/-! ## The dictionaries -/

/-- `StoredVersion`. -/
structure StoredVersion where
  read : DocumentVersionRead
  storageKey : UUID

/-- `AuditEventRead`. -/
structure AuditEventRead where
  occurredAt : Int
  actorId : String
  action : String
  entityType : String
  entityId : UUID
  metadataSanitized : Dict

structure Memory (B : Type) where
  documents : Table UUID DocumentRead
  versions : Table UUID (List StoredVersion)
  requests : Table UUID SignatureRequestRead
  signers : Table UUID SignerRead
  requestSigners : Table UUID (List UUID)
  requestTokenIndex : Table String UUID
  signatures : List (UUID × UUID)
  signatureEvidence : Table (UUID × UUID) StampPosition
  /-- The events, each with the scope it is listed under. -/
  audit : List (UUID × AuditEventRead)
  objects : UUID → Option B
  clock : Int

def Memory.empty (B : Type) : Memory B where
  documents := ∅
  versions := ∅
  requests := ∅
  signers := ∅
  requestSigners := ∅
  requestTokenIndex := ∅
  signatures := []
  signatureEvidence := ∅
  audit := []
  objects := fun _ => none
  clock := 0

/-- A method of the service. -/
abbrev InMemory (B α : Type) := Code (Memory B) Empty Unit Failure α

def look (f : Memory B → α) : InMemory B α :=
  Code.select () f

def change (u : Memory B → Memory B) : InMemory B Unit :=
  Code.effect () u fun _ => ()

namespace Memory

def setRequest (id : UUID) (r : SignatureRequestRead) (m : Memory B) : Memory B :=
  { m with requests := m.requests.set id r }

def setSigner (id : UUID) (s : SignerRead) (m : Memory B) : Memory B :=
  { m with signers := m.signers.set id s }

/-- `list_signers` of a request that is there. -/
def signersOf (request : UUID) (m : Memory B) : List SignerRead :=
  ((m.requestSigners.get? request).getD []).filterMap m.signers.get?

/-- `_audit`. -/
def record (scope : UUID) (e : AuditEventRead) (m : Memory B) : Memory B :=
  { m with audit := m.audit ++ [(scope, e)] }

def isActive (document : UUID) (r : SignatureRequestRead) : Bool :=
  r.documentId = document && (r.status = .draft || r.status = .open)

def put (key : UUID) (content : B) (m : Memory B) : Memory B :=
  { m with objects := Function.update m.objects key (some content) }

end Memory

/-- `_audit`. -/
def note (scope : UUID) (actorId action entityType : String) (entityId : UUID) (metadata : Dict) :
    InMemory B Unit := do
  let now ← look Memory.clock
  change (Memory.record scope ⟨now, actorId, action, entityType, entityId, metadata⟩)

/-- `_document`. -/
def memoryDocument (id : UUID) : InMemory B DocumentRead := do
  let found ← look fun m : Memory B => m.documents.get? id
  Code.orRaise found (.error "Document not found" 404)

/-- `_request`. -/
def memoryRequest (id : UUID) : InMemory B SignatureRequestRead := do
  let found ← look fun m : Memory B => m.requests.get? id
  Code.orRaise found (.error "Signature request not found" 404)

/-- `_counts`. -/
def memoryCounts (r : SignatureRequestRead) : InMemory B SignatureRequestRead := do
  let signers ← look (Memory.signersOf r.id)
  pure { r with
    signerCount := signers.length,
    signedCount := (signers.filter fun s => s.status = .signed).length }

section Host

variable (host : Host B Page) (cfg : Settings)

/-! ## Documents -/

/-- `create_document`; `id` and `key` are the identifiers it draws. -/
def memoryCreateDocument (payload : DocumentCreate) (content : B) (id key : UUID) :
    InMemory B DocumentRead :=
  if host.size content = 0 then Code.raise (.error "Document content cannot be empty" 400)
  else do
    let digest := host.sha256 content
    change (Memory.put key content)
    let item : DocumentRead := {
      id := id,
      organizationId := payload.organizationId,
      title := payload.title,
      originalFilename := payload.originalFilename,
      contentType := payload.contentType,
      sha256 := digest,
      version := 1,
      createdBy := payload.createdBy,
      sizeBytes := none,
      signatureRequestCount := 0,
      completedSignatureCount := 0 }
    let version : DocumentVersionRead :=
      ⟨id, 1, payload.originalFilename, payload.contentType, digest, host.size content, payload.createdBy⟩
    change fun m => { m with
      documents := m.documents.set id item,
      versions := m.versions.set id [⟨version, key⟩] }
    note id payload.createdBy "document.uploaded" "document" id
      [("version", .int 1), ("sha256", .text digest)]
    pure item

/-- `add_version`; `key` is the identifier the store draws. -/
def memoryAddVersion (id : UUID) (upload : VersionUpload B) (key : UUID) : InMemory B DocumentRead :=
  if host.size upload.content = 0 then Code.raise (.error "Document content cannot be empty" 400)
  else do
    let current ← memoryDocument id
    let frozen ← look fun m : Memory B => m.requests.any fun _ r =>
      r.documentId = id && (r.status = .open || r.status = .completed)
    Code.require (frozen = false) (.error "A frozen document cannot receive a new version" 409)
    let number := current.version + 1
    let digest := host.sha256 upload.content
    change (Memory.put key upload.content)
    let version : DocumentVersionRead :=
      ⟨id, number, upload.filename, upload.contentType, digest, host.size upload.content, upload.actorId⟩
    let updated : DocumentRead := { current with
      originalFilename := upload.filename,
      contentType := upload.contentType,
      sha256 := digest,
      version := number }
    change fun m => { m with
      versions := m.versions.update id fun versions => versions ++ [⟨version, key⟩],
      documents := m.documents.set id updated }
    note id upload.actorId "document.version_created" "document" id
      [("version", .int number), ("sha256", .text digest)]
    pure updated

def memoryCancel (actorId : String) : List (UUID × SignatureRequestRead) → InMemory B Unit
  | [] => pure ()
  | x :: rest => do
    change (Memory.setRequest x.1 { x.2 with status := .cancelled })
    note x.1 actorId "signature_request.cancelled" "signature_request" x.1
      [("reason", .text "document_deleted")]
    memoryCancel actorId rest

/-- `delete_document`. -/
def memoryDeleteDocument (id : UUID) (actorId : String) (force : Bool) : InMemory B Unit := do
  let _ ← memoryDocument id
  let active ← look fun m : Memory B => m.requests.select fun _ r => Memory.isActive id r
  Code.require (active = [] ∨ force = true) (hasActiveRequests active.length)
  memoryCancel actorId active
  change fun m => { m with documents := m.documents.erase id }
  note id actorId "document.deleted" "document" id [("cancelled_request_count", .int active.length)]

/-- `get_content`. -/
def memoryContent (id : UUID) (version : Option Nat) : InMemory B (DocumentVersionRead × B) := do
  let current ← memoryDocument id
  let target := if version.getD 0 = 0 then current.version else version.getD 0
  let found ← look fun m : Memory B =>
    ((m.versions.get? id).getD []).find? fun x => x.read.version = target
  let stored ← Code.orRaise found (.error "Document version not found" 404)
  let object ← look fun m : Memory B => m.objects stored.storageKey
  let content ← Code.orRaise object (.other "FileNotFoundError")
  Code.require (host.sha256 content = stored.read.sha256)
    (.error "Stored document integrity check failed" 409)
  pure (stored.read, content)

/-! ## Requests -/

/-- `create_request`; `id` is the identifier it draws. -/
def memoryCreateRequest (payload : SignatureRequestCreate) (id : UUID) :
    InMemory B SignatureRequestRead := do
  let document ← memoryDocument payload.documentId
  let now ← look Memory.clock
  Code.require (now < payload.expiresAt) (.error "Expiration must be in the future" 400)
  let item : SignatureRequestRead := {
    id := id,
    documentId := document.id,
    documentVersion := document.version,
    documentSha256 := document.sha256,
    status := .draft,
    expiresAt := payload.expiresAt,
    createdBy := payload.createdBy,
    completedAt := none,
    signerCount := 0,
    signedCount := 0,
    documentTitle := "",
    originalFilename := "",
    signatureMode := .evidence,
    issuerSnapshot := none }
  change fun m => { m with
    requests := m.requests.set id item,
    requestSigners := m.requestSigners.set id [] }
  note id payload.createdBy "signature_request.created" "signature_request" id
    [("document_version", .int document.version), ("document_sha256", .text document.sha256)]
  pure item

/-- `add_signer`; `id` is the identifier it draws. -/
def memoryAddSigner (request : UUID) (payload : SignerCreate) (actorId : String) (id : UUID) :
    InMemory B SignerRead := do
  let item ← memoryRequest request
  Code.require (item.status = .draft) (.error "Signers can only be added to a draft request" 409)
  let email := host.lower payload.email
  let taken ← look fun m : Memory B => (m.signersOf request).any fun s => s.authUserId = email
  Code.require (taken = false) (.error "This authenticated user is already a signer" 409)
  let now ← look Memory.clock
  let signer : SignerRead := {
    id := id,
    signatureRequestId := item.id,
    authUserId := email,
    name := payload.name,
    email := email,
    preferredLocale := payload.preferredLocale,
    status := .pending,
    tokenExpiresAt := now + payload.tokenTtlSeconds.1 * 1000000,
    linkRevokedAt := none,
    signedAt := none,
    participantRole := .externalSigner,
    representedTenantId := none,
    representationSnapshot := none }
  change fun m => { m with
    signers := m.signers.set id signer,
    requestSigners := m.requestSigners.update request fun ids => ids ++ [id] }
  note request actorId "signer.link_created" "signer" id
    [("token_expires_at", .text (host.isoformat signer.tokenExpiresAt))]
  pure signer

/-- `create_signing_link`; `token` is what it draws. -/
def memoryCreateLink (request : UUID) (actorId token : String) : InMemory B String := do
  let item ← memoryRequest request
  Code.require (item.status = .open) (.error "Only an open request can receive a signing link" 409)
  change fun m => { m with
    requestTokenIndex := m.requestTokenIndex.set (host.sha256 (host.encode token)) item.id }
  note item.id actorId "signature_request.link_created" "signature_request" item.id []
  pure (signingUrl cfg token)

/-- `revoke_signer_link`. -/
def memoryRevoke (request signer : UUID) (actorId : String) : InMemory B SignerRead := do
  let item ← memoryRequest request
  let found ← look fun m : Memory B => m.signers.get? signer
  let row ← Code.orRaise (found.filter fun s => s.signatureRequestId = item.id)
    (.error "Signer not found" 404)
  Code.require (row.status ≠ .signed) (.error "A completed signature link cannot be revoked" 409)
  match row.linkRevokedAt with
  | some _ => pure row
  | none => do
    let now ← look Memory.clock
    let revoked : SignerRead := { row with linkRevokedAt := some now }
    change (Memory.setSigner row.id revoked)
    note item.id actorId "signer.link_revoked" "signer" row.id []
    pure revoked

/-- `open_request`. -/
def memoryOpen (request : UUID) (actorId : String) (mode : SignatureMode) :
    InMemory B SignatureRequestRead := do
  let item ← memoryRequest request
  Code.require (item.status = .draft) (.error "Only a draft request can be opened" 409)
  let ids ← look fun m : Memory B => (m.requestSigners.get? request).getD []
  Code.require (ids ≠ []) (.error "At least one signer is required" 409)
  let document ← memoryDocument item.documentId
  Code.require (document.version = item.documentVersion ∧ document.sha256 = item.documentSha256)
    (.error "Document changed after request creation" 409)
  let updated : SignatureRequestRead := { item with status := .open, signatureMode := mode }
  change (Memory.setRequest request updated)
  note request actorId "signature_request.opened" "signature_request" request []
  memoryCounts updated

/-- `cancel_request`. -/
def memoryCancelRequest (request : UUID) (actorId : String) : InMemory B SignatureRequestRead := do
  let item ← memoryRequest request
  Code.require (item.status = .draft ∨ item.status = .open) (.error "Request cannot be cancelled" 409)
  let updated : SignatureRequestRead := { item with status := .cancelled }
  change (Memory.setRequest request updated)
  note request actorId "signature_request.cancelled" "signature_request" request []
  memoryCounts updated

/-! ## Signing -/

/-- `_resolve_request` for the signer it found. -/
def memoryAdmit (request : SignatureRequestRead) (signer : SignerRead) (allowCompleted : Bool) :
    InMemory B Unit := do
  let now ← look Memory.clock
  Code.require (signer.linkRevokedAt = none) (.error "Signing access has been revoked" 410)
  Code.onlyIf (request.expiresAt ≤ now) do
    Code.onlyIf (signer.status ≠ .signed ∧ signer.status ≠ .declined)
      (change (Memory.setSigner signer.id { signer with status := .expired }))
    Code.raise (.error "Signature request has expired" 410)
  Code.require (request.status = .open ∨
      allowCompleted = true ∧ request.status = .completed ∧ signer.status = .signed)
    (.error "Signature request is not open" 409)

/-- `_resolve_request`. -/
def memoryResolve (token authUserId : String) (allowCompleted : Bool) :
    InMemory B (SignerRead × SignatureRequestRead) := do
  let found ← look fun m : Memory B => m.requestTokenIndex.get? (host.sha256 (host.encode token))
  let id ← Code.orRaise found (.error "Signing link is invalid" 404)
  let request ← memoryRequest id
  let own ← look fun m : Memory B =>
    (m.signersOf request.id).find? fun s => s.authUserId = host.lower authUserId
  match own with
  | none => do
    note request.id authUserId "authorization.failed" "signature_request" request.id []
    Code.raise (.error "Authenticated user does not match a signer for this request" 403)
  | some signer => do
    memoryAdmit request signer allowCompleted
    pure (signer, request)

/-- `signing_context`. -/
def memorySigningContext (token authUserId : String) : InMemory B SigningRead := do
  let found ← memoryResolve host token authUserId true
  let document ← memoryDocument found.2.documentId
  let read ← memoryCounts found.2
  let stamp ← look fun m : Memory B => m.signatureEvidence.get? (found.2.id, found.1.id)
  pure ⟨read, found.1, document.title, document.originalFilename, none,
    stamp.map fun x => .dict x.dump, false, none⟩

/-- `signing_document`. -/
def memorySigningDocument (token authUserId : String) : InMemory B (DocumentVersionRead × B) := do
  let found ← memoryResolve host token authUserId true
  memoryContent host found.2.documentId (some found.2.documentVersion)

/-- `view`. -/
def memoryView (token authUserId : String) : InMemory B SignerRead := do
  let found ← memoryResolve host token authUserId false
  let signer := found.1
  if signer.status = .pending then do
    let viewed : SignerRead := { signer with status := .viewed }
    change (Memory.setSigner signer.id viewed)
    note found.2.id authUserId "document.viewed" "signer" signer.id []
    pure viewed
  else pure signer

/-- `sign`. -/
def memorySign (token authUserId : String) (consent : Bool) (stamp : StampPosition) :
    InMemory B SignerRead :=
  if consent = false then Code.raise (.error "Explicit consent is required" 400)
  else do
    let found ← memoryResolve host token authUserId false
    let signer := found.1
    let request := found.2
    let answered ← look fun m : Memory B => decide ((request.id, signer.id) ∈ m.signatures)
    Code.require (signer.status ≠ .signed ∧ answered = false) (.error "Signer has already signed" 409)
    let document ← memoryDocument request.documentId
    let content ← memoryContent host document.id (some request.documentVersion)
    Code.require (host.sha256 content.2 = request.documentSha256)
      (.error "Document hash does not match the frozen request" 409)
    let now ← look Memory.clock
    let signed : SignerRead := { signer with status := .signed, signedAt := some now }
    change fun m => { m with
      signatures := (request.id, signer.id) :: m.signatures,
      signatureEvidence := m.signatureEvidence.set (request.id, signer.id) stamp,
      signers := m.signers.set signer.id signed }
    note request.id authUserId "signature.completed" "signer" signer.id
      [("document_sha256", .text request.documentSha256), ("document_version", .int request.documentVersion),
        ("stamp", .dict stamp.dump)]
    let all ← look fun m : Memory B => (m.signersOf request.id).all fun s => s.status = .signed
    Code.onlyIf (all = true) do
      change (Memory.setRequest request.id { request with status := .completed, completedAt := some now })
      note request.id authUserId "signature_request.completed" "signature_request" request.id []
    pure signed

/-- `decline`. -/
def memoryDecline (token authUserId : String) : InMemory B SignerRead := do
  let found ← memoryResolve host token authUserId false
  let signer := found.1
  Code.require (signer.status ≠ .signed ∧ signer.status ≠ .declined)
    (.error "Signer already answered" 409)
  let declined : SignerRead := { signer with status := .declined }
  change (Memory.setSigner signer.id declined)
  note found.2.id authUserId "signature.declined" "signer" signer.id []
  pure declined

end Host

end Rubrica
