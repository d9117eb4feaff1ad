import Rubrica.Billing.History
import Rubrica.Signatures.Access

set_option autoImplicit false

/-! # Documents

The operations on documents, statement by statement. -/

namespace Rubrica

open Transactions

variable {B Page : Type}

/-! ## The file allowance -/

/-- The account of a tenant under its row lock, as `consume_document` and `consume_signature` begin. The
    session may hold it as an object already. -/
def lockedAccount (tenant : UUID) (held : Option BillingAccount) : Workflow B AccountObject := do
  let row ← queryForUpdate (fun w : World B => (w.accounts.get? tenant).map fun _ => .account tenant)
    fun w => w.accounts.get? tenant
  accountEntity tenant (held.map fun a => ⟨a, a⟩) row

/-- `consume_document`. -/
def consumeDocument (tenant : UUID) (held : Option BillingAccount) : Workflow B Unit := do
  let account ← lockedAccount tenant held
  let now ← utcNow
  let charged ← Code.orRaise (account.value.consumeDocument now)
    (.error "Monthly file allowance exhausted. Wait for the next billing period or change plan" 402)
  flushAccount tenant { account with value := charged }

/-! ## Uploads -/

/-- `DocumentCreate`. -/
structure DocumentCreate where
  organizationId : String
  title : String
  originalFilename : String
  contentType : String
  createdBy : String

def World.insertDocument (id : UUID) (d : Document) (w : World B) : World B :=
  { w with documents := w.documents.insert id d }

def World.updateDocument (id : UUID) (f : Document → Document) (w : World B) : World B :=
  { w with documents := w.documents.update id f }

def World.insertVersion (document : UUID) (number : Nat) (v : DocumentVersion) (w : World B) : World B :=
  { w with versions := w.versions.insert (document, number) v }

/-- Does a request that is open or completed hold the document as it is? -/
def World.frozen (document : UUID) (w : World B) : Bool :=
  w.requests.any fun _ r => r.documentId = document && (r.status = .open || r.status = .completed)

section Host

variable (host : Host B Page) (caller : Caller)

/-- The row a new document gets. -/
def DocumentCreate.row (payload : DocumentCreate) (tenant : UUID) (version : DocumentVersion) : Document where
  organizationId := payload.organizationId
  tenantId := tenant
  title := payload.title
  originalFilename := payload.originalFilename
  contentType := payload.contentType
  storageKey := version.storageKey
  sha256 := version.sha256
  version := 1
  createdBy := payload.createdBy
  deletedAt := none

/-- `create_document` up to the storage of the content. -/
def prepareDocument (payload : DocumentCreate) (content : B) (name : UUID) :
    Workflow B (UUID × DocumentVersion) := do
  let found ← query fun w : World B => (w.tenants.select fun _ t =>
    t.slug = payload.organizationId && t.deletedAt.isNone).head?
  let tenant ← Code.orRaise found (.error "Tenant not found" 404)
  let member ← requireSeat host caller tenant.1 payload.createdBy (some [.admin, .member])
  consumeDocument tenant.1 member.2
  let key : StorageKey := ⟨tenant.1, accountStorageId host (some member.1.2) payload.createdBy, name⟩
  putObject key content
  pure (tenant.1, ⟨payload.originalFilename, payload.contentType, key, host.sha256 content,
    host.size content, payload.createdBy⟩)

/-- `create_document` after that. -/
def recordDocument (payload : DocumentCreate) (id tenant : UUID) (version : DocumentVersion) :
    Workflow B (DocumentRead × WorkflowPoint B) := do
  let document := payload.row tenant version
  referTo (.tenant tenant) fun w => (w.tenants.get? tenant).isSome
  save (World.insertDocument id document)
  save (World.insertVersion id 1 version)
  audit none payload.createdBy "document.uploaded" "document" id
    [("version", .int 1), ("sha256", .text version.sha256)]
  let read ← documentRead id document
  pure (read, .made (.createDocument id document version))

/-- `create_document`; `id` and `name` are the identifiers it draws. -/
def createDocument (payload : DocumentCreate) (content : B) (id name : UUID) : Workflow B DocumentRead :=
  if host.size content = 0 then Code.raise (.error "Document content cannot be empty" 400)
  else
    storing (prepareDocument host caller payload content name) (fun x => x.2.storageKey) fun x =>
      recordDocument payload id x.1 x.2

/-- What `add_version` is given. -/
structure VersionUpload (B : Type) where
  filename : String
  contentType : String
  actorId : String
  content : B

/-- `add_version` up to the storage of the content. -/
def prepareVersion (identifier : String) (upload : VersionUpload B) (name : UUID) :
    Workflow B ((UUID × Document) × DocumentVersion) := do
  let item ← documentOf host identifier true
  let member ← requireSeat host caller item.2.tenantId upload.actorId (some [.admin, .member])
  let frozen ← query (World.frozen item.1)
  Code.require (frozen = false) (.error "A frozen document cannot receive a new version" 409)
  let key : StorageKey :=
    ⟨item.2.tenantId, accountStorageId host (some member.1.2) upload.actorId, name⟩
  putObject key upload.content
  pure (item, ⟨upload.filename, upload.contentType, key, host.sha256 upload.content,
    host.size upload.content, upload.actorId⟩)

/-- `add_version` after that. -/
def recordVersion (id : UUID) (item : Document) (version : DocumentVersion) :
    Workflow B (DocumentRead × WorkflowPoint B) := do
  let number := item.version + 1
  claim (.versionOf id number) fun w => (w.versions.get? (id, number)).isSome
  save (World.updateDocument id (.revised number version))
  save (World.insertVersion id number version)
  audit none version.createdBy "document.version_created" "document" id
    [("version", .int number), ("sha256", .text version.sha256)]
  let read ← documentRead id (item.revised number version)
  pure (read, .made (.addVersion id number version))

/-- `add_version`; `name` is the identifier the store draws. -/
def addVersion (identifier : String) (upload : VersionUpload B) (name : UUID) : Workflow B DocumentRead :=
  if host.size upload.content = 0 then Code.raise (.error "Document content cannot be empty" 400)
  else
    storing (prepareVersion host caller identifier upload name) (fun x => x.2.storageKey) fun x =>
      recordVersion x.1.1 x.1.2 x.2

/-! ## Queries -/

/-- The rows `list_documents` selects: one for each membership that shows the document. -/
def World.documentsFor (actor : String) (w : World B) : List (UUID × Document) :=
  ((w.documents.select fun _ d => d.deletedAt.isNone).insertionSort fun x y => x.1 ≤ y.1).flatMap
    fun x => (w.members.select fun _ m =>
      m.isActive x.2.tenantId && m.isIdentity host caller actor &&
        (m.role = .admin || host.lower x.2.createdBy = host.lower actor ||
          w.invited x.1 none (host.lower actor))).map fun _ => x

/-- A document of the list, unless its team has too many members. -/
def readListedDocument (x : UUID × Document) : Workflow B (List DocumentRead) := do
  let exceeds ← teamOverLimit x.2.tenantId
  if exceeds then pure []
  else do
    let read ← documentRead x.1 x.2
    pure [read]

/-- `list_documents`. -/
def listDocuments (actor : String) : Workflow B (List DocumentRead) :=
  reading (query (World.documentsFor host caller actor) >>= readEach readListedDocument)

/-- `get_document`. -/
def getDocument (identifier actor : String) : Workflow B DocumentRead :=
  reading do
    let item ← documentOf host identifier false
    let _ ← requireDocumentAccess host caller item.1 item.2 actor none
    documentRead item.1 item.2

/-- What the file of a version turns out to be. -/
def checkedContent (version : DocumentVersionRead) (content : B) : Workflow B (DocumentVersionRead × B) := do
  Code.require (host.sha256 content = version.sha256) (.error "Stored document integrity check failed" 409)
  match host.validatePdf content version.originalFilename with
  | some e => Code.raise (.workflow e)
  | none => pure (version, content)

/-- `get_content`; no actor is a call from within the service. -/
def getContent (identifier : String) (version : Option Nat) (actor : Option String) :
    Workflow B (DocumentVersionRead × B) := do
  let found ← reading do
    let document ← documentOf host identifier false
    Code.onlyIf actor.isSome
      (requireDocumentAccess host caller document.1 document.2 (actor.getD "") none >>= fun _ => pure ())
    -- `version or document.version`: a zero counts as none.
    let number := if version.getD 0 = 0 then document.2.version else version.getD 0
    let item ← query fun w : World B => w.versions.get? (document.1, number)
    let row ← Code.orRaise item (.error "Document version not found" 404)
    pure (row.read document.1 number, row.storageKey)
  let content ← getObject found.2
  checkedContent host found.1 content

/-! ## Deletion -/

/-- A request of the document that is still in progress. -/
def World.inProgress (document id : UUID) (w : World B) : Bool :=
  (w.requests.get? id).any fun r => r.documentId = document && (r.status = .draft || r.status = .open)

/-- The rows of a `FOR UPDATE` query: each is locked in turn, if it still is what was asked for. -/
def lockInProgress (document : UUID) : List UUID → Workflow B (List UUID)
  | [] => pure []
  | id :: rest => do
    let found ← queryForUpdate
      (fun w : World B => if w.inProgress document id then some (.request id) else none)
      (World.inProgress document id)
    let others ← lockInProgress document rest
    pure (if found then id :: others else others)

def World.cancelRequests (ids : List UUID) (w : World B) : World B :=
  { w with requests := w.requests.map fun id r => if id ∈ ids then r.cancelled else r }

def auditCancelled (actorId : String) : List UUID → Workflow B Unit
  | [] => pure ()
  | id :: rest => do
    audit (some id) actorId "signature_request.cancelled" "signature_request" id
      [("reason", .text "document_deleted")]
    auditCancelled actorId rest

def hasActiveRequests (count : Nat) : Failure :=
  .workflow ⟨"Document has signature requests in progress", 409, some "document_has_active_requests",
    [("active_request_count", count)]⟩

/-- `delete_document`. -/
def deleteDocument (identifier actorId : String) (force : Bool) : Workflow B Unit :=
  Code.transaction .plain do
    let item ← documentOf host identifier true
    let _ ← requireSeat host caller item.2.tenantId actorId (some [.admin])
    let ids ← query fun w : World B => (w.requests.select fun id _ => w.inProgress item.1 id).map Prod.fst
    let active ← lockInProgress item.1 ids
    Code.require (active = [] ∨ force = true) (hasActiveRequests active.length)
    auditCancelled actorId active
    let now ← utcNow
    audit none actorId "document.deleted" "document" item.1
      [("cancelled_request_count", .int active.length)]
    save (World.cancelRequests active)
    save (World.updateDocument item.1 (.deleted now))
    pure ((), .made (.deleteDocument item.1 active now))

end Host

end Rubrica
