import Rubrica.Billing.Webhook
import Rubrica.Signatures.Archive

set_option autoImplicit false

/-! # Access to documents and requests

What the operations of `DatabaseSignatureWorkflowService` have in common: the rows they look up, who may
see them, and how a signing token and a subject lead to a signer. -/

namespace Rubrica

open Transactions

variable {B Page α : Type}

/-! ## Points -/

/-- Where in an operation of the workflow a statement stands. -/
inductive WorkflowPoint (B : Type) where
  /-- A statement without a name. -/
  | plain
  /-- A statement of a delivery. -/
  | billing (point : BillingPoint)
  /-- Commits a move of the archive. -/
  | made (move : Move B)
  | putting (key : StorageKey) (content : B)
  | discarding (key : StorageKey)

instance : Unmarked (WorkflowPoint B) := ⟨.plain⟩

/-- A program of the workflow service. -/
abbrev Workflow (B α : Type) := Tx B (WorkflowPoint B) α

/-- `with SessionLocal() as db`, without a commit. -/
def reading (x : Workflow B α) : Workflow B α :=
  Code.rollingBack .plain
    (x >>= fun a => .step .plain .rollback (fun _ => .pure a) (.raise Faulty.fault))

/-- `db.scalar(statement.with_for_update() if lock else statement)`. -/
def selectRow (lock : Bool) (row : World B → Option RowKey) (f : World B → α) : Workflow B α :=
  if lock then queryForUpdate row f else query f

/-- A list comprehension over the rows of a query. -/
def readEach {ρ : Type} (read : ρ → Workflow B (List α)) : List ρ → Workflow B (List α)
  | [] => pure []
  | x :: rest => do
    let reads ← read x
    let others ← readEach read rest
    pure (reads ++ others)

/-! ## Objects in the store -/

/-- The store refuses a key that is taken. -/
def World.put (key : StorageKey) (content : B) (w : World B) : World B :=
  if (w.objects key).isSome then w
  else { w with objects := Function.update w.objects key (some content) }

def World.discard (key : StorageKey) (w : World B) : World B :=
  { w with objects := Function.update w.objects key none }

/-- `storage.put`, under a key whose name is drawn by the caller. -/
def putObject (key : StorageKey) (content : B) : Workflow B Unit := do
  let taken ← Code.effect (.putting key content) (World.put key content) fun w : World B =>
    (w.objects key).isSome
  Code.require (taken = false) (.other "FileExistsError")

/-- `storage.discard_uncommitted`. -/
def discardObject (key : StorageKey) : Workflow B Unit :=
  Code.effect (.discarding key) (World.discard key) fun _ : World B => ()

/-- `storage.get`. -/
def getObject (key : StorageKey) : Workflow B B := do
  let found ← query fun w : World B => w.objects key
  Code.orRaise found (.other "FileNotFoundError")

/-- A transaction that stores an object on its way: when it raises after that, also at its commit, the
    object is discarded again. -/
def storing {β : Type} (before : Workflow B β) (key : β → StorageKey)
    (after : β → Workflow B (α × WorkflowPoint B)) : Workflow B α :=
  Code.rollingBack .plain before >>= fun x =>
    (Code.transaction .plain (after x)).tryCatch fun e => discardObject (key x) >>= fun _ => .raise e

/-! ## Rows -/

def World.liveDocument (id : UUID) (w : World B) : Option Document :=
  (w.documents.get? id).filter fun d => d.deletedAt.isNone

def World.liveRequest (id : UUID) (w : World B) : Option SignatureRequest :=
  (w.requests.get? id).filter fun r => r.deletedAt.isNone

def World.requestOfHash (hash : String) (w : World B) : Option (UUID × SignatureRequest) :=
  (w.requests.select fun _ r => r.signingTokenHash = some hash && r.deletedAt.isNone).head?

def World.signerOf (request : UUID) (subject : String) (w : World B) : Option (UUID × Signer) :=
  (w.signers.select fun _ s => s.signatureRequestId = request && s.authUserId = subject).head?

/-- Is the actor a signer of a request of the document, or of the one request given? -/
def World.invited (document : UUID) (request : Option UUID) (actor : String) (w : World B) : Bool :=
  w.signers.any fun _ s =>
    (s.authUserId = actor || s.email = actor) && (request.all fun r => s.signatureRequestId = r) &&
      (w.requests.get? s.signatureRequestId).any fun r => r.documentId = document && r.deletedAt.isNone

/-- `_document`, of an identifier that is one. -/
def liveDocument (id : UUID) (lock : Bool) : Workflow B Document := do
  let found ← selectRow lock (fun w : World B => (w.liveDocument id).map fun _ => .document id)
    (World.liveDocument id)
  Code.orRaise found (.error "Document not found" 404)

/-- `_request`, of an identifier that is one. -/
def liveRequest (id : UUID) (lock : Bool) : Workflow B SignatureRequest := do
  let found ← selectRow lock (fun w : World B => (w.liveRequest id).map fun _ => .request id)
    (World.liveRequest id)
  Code.orRaise found (.error "Signature request not found" 404)

section Host

variable (host : Host B Page)

/-- `_document`. -/
def documentOf (identifier : String) (lock : Bool) : Workflow B (UUID × Document) := do
  let id ← Code.orRaise (host.parseUuid identifier) (.error "Document not found" 404)
  let document ← liveDocument id lock
  pure (id, document)

/-- `_request`. -/
def requestOf (identifier : String) (lock : Bool) : Workflow B (UUID × SignatureRequest) := do
  let id ← Code.orRaise (host.parseUuid identifier) (.error "Signature request not found" 404)
  let request ← liveRequest id lock
  pure (id, request)

/-- `_signer`, under the row lock. -/
def signerOf (identifier : String) (request : UUID) : Workflow B (UUID × Signer) := do
  let id ← Code.orRaise (host.parseUuid identifier) (.error "Signer not found" 404)
  let signer := fun w : World B => (w.signers.get? id).filter fun s => s.signatureRequestId = request
  let found ← queryForUpdate (fun w => (signer w).map fun _ => .signer id) signer
  let row ← Code.orRaise found (.error "Signer not found" 404)
  pure (id, row)

/-! ## Who may see a document -/

/-- `require_role`, by a session that holds the account it loads for the seat check. -/
def requireSeat (caller : Caller) (tenant : UUID) (subject : String) (roles : Option (List MemberRole)) :
    Workflow B ((UUID × TenantMember) × Option BillingAccount) := do
  let found ← query (World.activeMember host caller subject tenant)
  let member ← Code.orRaise found (.error "Tenant access denied" 403)
  Code.require (∀ rs ∈ roles, member.2.role ∈ rs) (.error "Tenant access denied" 403)
  let count ← query fun w : World B => (w.members.select fun _ m => m.isActive tenant).length
  let account ← query (World.liveAccount tenant)
  let now ← utcNow
  let limit := match account with
    | none => some 1
    | some a => a.memberLimit now
  Code.require (∀ n ∈ limit, count ≤ n) (.error "Select the active team members for the current plan" 409)
  pure (member, account)

/-- `_require_document_access`; what the session holds afterwards of the account. -/
def requireDocumentAccess (caller : Caller) (id : UUID) (document : Document) (actor : String)
    (request : Option UUID) : Workflow B (Option BillingAccount) := do
  let member ← requireSeat host caller document.tenantId actor none
  if member.1.2.role = .admin ∨ host.lower document.createdBy = host.lower actor then pure member.2
  else do
    let invited ← query (World.invited id request (host.lower actor))
    Code.require (invited = true) (.error "Document access is not allowed" 403)
    pure member.2

/-- `_require_request_access`: the document, and the account, that the session holds afterwards. -/
def requireRequestAccess (caller : Caller) (id : UUID) (request : SignatureRequest) (actor : String) :
    Workflow B (Document × Option BillingAccount) := do
  let found ← query fun w : World B => w.documents.get? request.documentId
  let document ← Code.orRaise found (.error "Document not found" 404)
  let account ← requireDocumentAccess host caller request.documentId document actor (some id)
  pure (document, account)

/-! ## Tokens -/

/-- `_request_from_token`. -/
def requestFromToken (token : String) (lock : Bool) : Workflow B (UUID × SignatureRequest) := do
  let hash := host.sha256 (host.encode token)
  let found ← selectRow lock (fun w : World B => (w.requestOfHash hash).map fun x => .request x.1)
    (World.requestOfHash hash)
  Code.orRaise found (.error "Signing link is invalid" 404)

/-- The end of `_resolve_request`, for the signer it found. -/
def admitSigner (request : SignatureRequest) (signer : Signer) (allowCompleted : Bool) :
    Workflow B Unit := do
  let now ← utcNow
  Code.require (signer.linkRevokedAt = none) (.error "Signing access has been revoked" 410)
  let signedHistory := allowCompleted && decide (signer.status = .signed)
  Code.require (now < request.expiresAt ∨ signedHistory = true) (.error "Signature request has expired" 410)
  Code.require (request.status = .open ∨ signedHistory = true) (.error "Signature request is not open" 409)

/-- The middle of `_resolve_request`: a subject without a signer is put on record and refused. -/
def refuseStranger (request : UUID) (authUserId : String) : Workflow B α := do
  audit (some request) authUserId "authorization.failed" "signature_request" request []
  Code.raise (.error "Authenticated user does not match a signer for this request" 403)

/-- A row that was selected, as a session shows it: selecting a row again that the session holds loads no
    column. -/
def asHeld {γ : Type} (held : Option (UUID × γ)) (found : UUID × γ) : UUID × γ :=
  match held with
  | none => found
  | some x => if x.1 = found.1 then x else found

/-- `_resolve_request`, by a session that may hold the request and the signer. -/
def resolveRequest (token authUserId : String) (lock allowCompleted : Bool)
    (heldRequest : Option (UUID × SignatureRequest)) (heldSigner : Option (UUID × Signer)) :
    Workflow B ((UUID × Signer) × (UUID × SignatureRequest)) := do
  let selected ← requestFromToken host token lock
  let request := asHeld heldRequest selected
  let found ← selectRow lock
    (fun w : World B => (w.signerOf request.1 (host.lower authUserId)).map fun x => .signer x.1)
    (World.signerOf request.1 (host.lower authUserId))
  match found with
  | none => refuseStranger request.1 authUserId
  | some row => do
    let signer := asHeld heldSigner row
    admitSigner request.2 signer.2 allowCompleted
    pure (signer, request)

/-- `_request_token`. -/
def requestToken (cfg : Settings) (request : UUID) (nonce : String) : String :=
  let identifier := if request ≤ 0x7FFFFFFF then toString request else host.uuidText request
  host.hmac cfg.evidenceSecret (host.encode ("rubrica-request:" ++ identifier ++ ":" ++ nonce))

/-- The hash a link to the request is found by. -/
def linkHash (cfg : Settings) (request : UUID) (nonce : String) : String :=
  host.sha256 (host.encode (requestToken host cfg request nonce))

/-- `s.rstrip("/")`. -/
def withoutSlashes (s : String) : String :=
  String.ofList (s.toList.reverse.dropWhile fun c => c = '/').reverse

/-- `_signing_url`. -/
def signingUrl (cfg : Settings) (token : String) : String :=
  withoutSlashes cfg.signingAppUrl ++ "/" ++ token

/-! ## Storage scopes -/

/-- `_account_storage_id`. -/
def accountStorageId (member : Option TenantMember) (subject : String) : UUID :=
  (member.bind TenantMember.authUserUuid).getD
    (host.uuid5 ("rubrica-account:" ++ host.lower (host.strip subject)))

/-- `_document_owner_storage_id`. -/
def documentOwnerStorageId (document : Document) : Workflow B UUID := do
  let owner ← query fun w : World B => (w.members.select fun _ m =>
    m.tenantId = document.tenantId && host.lower m.authUserId = host.lower document.createdBy &&
      m.deletedAt.isNone).head?
  pure (accountStorageId host (owner.map Prod.snd) document.createdBy)

end Host

/-! ## What the operations return -/

/-- `DocumentRead`. -/
structure DocumentRead where
  id : UUID
  organizationId : String
  title : String
  originalFilename : String
  contentType : String
  sha256 : String
  version : Nat
  createdBy : String
  sizeBytes : Option Nat
  signatureRequestCount : Nat
  completedSignatureCount : Nat

/-- `DocumentVersionRead`. -/
structure DocumentVersionRead where
  documentId : UUID
  version : Nat
  originalFilename : String
  contentType : String
  sha256 : String
  sizeBytes : Nat
  createdBy : String

/-- `SignatureRequestRead`. -/
structure SignatureRequestRead where
  id : UUID
  documentId : UUID
  documentVersion : Nat
  documentSha256 : String
  status : RequestStatus
  expiresAt : Int
  createdBy : String
  completedAt : Option Int
  signerCount : Nat
  signedCount : Nat
  documentTitle : String
  originalFilename : String
  signatureMode : SignatureMode
  issuerSnapshot : Option Dict

/-- `SignerRead`. -/
structure SignerRead where
  id : UUID
  signatureRequestId : UUID
  authUserId : String
  name : String
  email : String
  preferredLocale : String
  status : SignerStatus
  tokenExpiresAt : Int
  linkRevokedAt : Option Int
  signedAt : Option Int
  participantRole : ParticipantRole
  representedTenantId : Option UUID
  representationSnapshot : Option Dict

/-- `_version_read`. -/
def DocumentVersion.read (document : UUID) (number : Nat) (v : DocumentVersion) : DocumentVersionRead :=
  ⟨document, number, v.originalFilename, v.contentType, v.sha256, v.sizeBytes, v.createdBy⟩

/-- `_signer_read`. -/
def Signer.read (id : UUID) (s : Signer) : SignerRead :=
  ⟨id, s.signatureRequestId, s.authUserId, s.name, s.email, s.preferredLocale, s.status, s.tokenExpiresAt,
    s.linkRevokedAt, s.signedAt, s.participantRole, s.representedTenantId, s.representationSnapshot⟩

/-- `_document_read`. -/
def documentRead (id : UUID) (d : Document) : Workflow B DocumentRead := do
  let sizeBytes ← query fun w : World B =>
    (w.versions.get? (id, d.version)).map DocumentVersion.sizeBytes
  let requestCount ← query fun w : World B =>
    (w.requests.select fun _ r => r.documentId = id && r.deletedAt.isNone).length
  let signatureCount ← query fun w : World B => (w.signers.select fun _ s =>
    s.status = .signed && (w.requests.get? s.signatureRequestId).any fun r =>
      r.documentId = id && r.deletedAt.isNone).length
  pure ⟨id, d.organizationId, d.title, d.originalFilename, d.contentType, d.sha256, d.version, d.createdBy,
    sizeBytes, requestCount, signatureCount⟩

/-- `_request_read`; the session holds the document. -/
def requestRead (id : UUID) (r : SignatureRequest) (document : Document) :
    Workflow B SignatureRequestRead := do
  let signerCount ← query fun w : World B => (w.signersOf id).length
  let signedCount ← query fun w : World B =>
    (w.signers.select fun _ s => s.signatureRequestId = id && s.status = .signed).length
  pure ⟨id, r.documentId, r.documentVersion, r.documentSha256, r.status, r.expiresAt, r.createdBy,
    r.completedAt, signerCount, signedCount, document.title, document.originalFilename, r.signatureMode,
    r.issuerSnapshot⟩

/-! ## Stretches of statements -/

section Local

variable {W : (World B → World B) → Prop}

theorem local_selectRow (lock : Bool) (row : World B → Option RowKey) (f : World B → α) :
    (selectRow lock row f : Workflow B α).Local W := by
  cases lock with
  | false => exact local_query _
  | true => exact local_queryForUpdate _ _

theorem local_getObject (key : StorageKey) : (getObject key : Workflow B B).Local W :=
  Code.local_bind (local_query _) fun _ => Code.local_orRaise _ _

theorem local_liveDocument (id : UUID) (lock : Bool) : (liveDocument id lock : Workflow B _).Local W :=
  Code.local_bind (local_selectRow _ _ _) fun _ => Code.local_orRaise _ _

theorem local_liveRequest (id : UUID) (lock : Bool) : (liveRequest id lock : Workflow B _).Local W :=
  Code.local_bind (local_selectRow _ _ _) fun _ => Code.local_orRaise _ _

theorem local_documentRead (id : UUID) (d : Document) : (documentRead id d : Workflow B _).Local W :=
  Code.local_bind (local_query _) fun _ => Code.local_bind (local_query _) fun _ =>
    Code.local_bind (local_query _) fun _ => Code.local_pure _

theorem local_requestRead (id : UUID) (r : SignatureRequest) (document : Document) :
    (requestRead id r document : Workflow B _).Local W :=
  Code.local_bind (local_query _) fun _ => Code.local_bind (local_query _) fun _ => Code.local_pure _

theorem local_admitSigner (request : SignatureRequest) (signer : Signer) (allowCompleted : Bool) :
    (admitSigner request signer allowCompleted : Workflow B _).Local W :=
  Code.local_bind (local_query _) fun _ => Code.local_bind (Code.local_require _ _) fun _ =>
    Code.local_bind (Code.local_require _ _) fun _ => Code.local_require _ _

variable (host : Host B Page) (caller : Caller)

theorem local_documentOf (identifier : String) (lock : Bool) :
    (documentOf host identifier lock : Workflow B _).Local W :=
  Code.local_bind (Code.local_orRaise _ _) fun _ => Code.local_bind (local_liveDocument _ _) fun _ =>
    Code.local_pure _

theorem local_requestOf (identifier : String) (lock : Bool) :
    (requestOf host identifier lock : Workflow B _).Local W :=
  Code.local_bind (Code.local_orRaise _ _) fun _ => Code.local_bind (local_liveRequest _ _) fun _ =>
    Code.local_pure _

theorem local_signerOf (identifier : String) (request : UUID) :
    (signerOf host identifier request : Workflow B _).Local W :=
  Code.local_bind (Code.local_orRaise _ _) fun _ => Code.local_bind (local_queryForUpdate _ _) fun _ =>
    Code.local_bind (Code.local_orRaise _ _) fun _ => Code.local_pure _

theorem local_requireSeat (tenant : UUID) (subject : String) (roles : Option (List MemberRole)) :
    (requireSeat host caller tenant subject roles : Workflow B _).Local W :=
  Code.local_bind (local_query _) fun _ => Code.local_bind (Code.local_orRaise _ _) fun _ =>
    Code.local_bind (Code.local_require _ _) fun _ => Code.local_bind (local_query _) fun _ =>
      Code.local_bind (local_query _) fun _ => Code.local_bind (local_query _) fun _ =>
        Code.local_bind (Code.local_require _ _) fun _ => Code.local_pure _

theorem local_requireDocumentAccess (id : UUID) (document : Document) (actor : String)
    (request : Option UUID) :
    (requireDocumentAccess host caller id document actor request : Workflow B _).Local W :=
  Code.local_bind (local_requireSeat host caller _ _ _) fun _ => Code.local_ite (Code.local_pure _)
    (Code.local_bind (local_query _) fun _ => Code.local_bind (Code.local_require _ _) fun _ =>
      Code.local_pure _)

theorem local_requireRequestAccess (id : UUID) (request : SignatureRequest) (actor : String) :
    (requireRequestAccess host caller id request actor : Workflow B _).Local W :=
  Code.local_bind (local_query _) fun _ => Code.local_bind (Code.local_orRaise _ _) fun _ =>
    Code.local_bind (local_requireDocumentAccess host caller _ _ _ _) fun _ => Code.local_pure _

theorem local_requestFromToken (token : String) (lock : Bool) :
    (requestFromToken host token lock : Workflow B _).Local W :=
  Code.local_bind (local_selectRow _ _ _) fun _ => Code.local_orRaise _ _

theorem local_refuseStranger (hW : ∀ e, W fun w => w.record e) (request : UUID) (authUserId : String) :
    (refuseStranger request authUserId : Workflow B α).Local W :=
  Code.local_bind (local_audit hW _ _ _ _ _ _) fun _ => Code.local_raise _

theorem local_resolveRequest (hW : ∀ e, W fun w => w.record e) (token authUserId : String)
    (lock allowCompleted : Bool) (heldRequest : Option (UUID × SignatureRequest))
    (heldSigner : Option (UUID × Signer)) :
    (resolveRequest host token authUserId lock allowCompleted heldRequest heldSigner :
      Workflow B _).Local W := by
  refine Code.local_bind (local_requestFromToken host _ _) fun _ =>
    Code.local_bind (local_selectRow _ _ _) fun found => ?_
  cases found with
  | none => exact local_refuseStranger hW _ _
  | some row => exact Code.local_bind (local_admitSigner _ _ _) fun _ => Code.local_pure _

theorem local_documentOwnerStorageId (document : Document) :
    (documentOwnerStorageId host document : Workflow B _).Local W :=
  Code.local_bind (local_query _) fun _ => Code.local_pure _

end Local

end Rubrica
