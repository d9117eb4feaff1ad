import Rubrica.Signatures.Documents

set_option autoImplicit false

/-! # Signature requests

The operations on requests, their signers and their signing links, statement by statement. -/

namespace Rubrica

open Transactions

variable {B Page : Type}

/-! ## What they are given -/

/-- `SignatureRequestCreate`. -/
structure SignatureRequestCreate where
  documentId : UUID
  expiresAt : Int
  createdBy : String

/-- `SignerCreate`, as its validators leave it. -/
structure SignerCreate where
  name : String
  email : String
  preferredLocale : String
  tokenTtlSeconds : {n : Nat // 300 ≤ n ∧ n ≤ 2592000}
  participantRole : ParticipantRole
  representedTenantId : Option UUID
  represented : representedTenantId.isSome ↔
    participantRole = .companyRepresentative ∨ participantRole = .corporateSeal

def World.insertRequest (id : UUID) (r : SignatureRequest) (w : World B) : World B :=
  { w with requests := w.requests.insert id r }

def World.updateRequest (id : UUID) (f : SignatureRequest → SignatureRequest) (w : World B) : World B :=
  { w with requests := w.requests.update id f }

def World.insertSigner (id : UUID) (s : Signer) (w : World B) : World B :=
  { w with signers := w.signers.insert id s }

def World.updateSigner (id : UUID) (f : Signer → Signer) (w : World B) : World B :=
  { w with signers := w.signers.update id f }

section Host

variable (host : Host B Page) (cfg : Settings) (services : SigningServices B) (caller : Caller)

/-! ## Requests -/

/-- The row a new request gets. -/
def SignatureRequestCreate.row (payload : SignatureRequestCreate) (document : Document) (tenant : Tenant) :
    SignatureRequest where
  documentId := payload.documentId
  documentVersion := document.version
  documentSha256 := document.sha256
  status := .draft
  expiresAt := payload.expiresAt
  createdBy := payload.createdBy
  completedAt := none
  signingTokenHash := none
  signingTokenNonce := none
  signatureMode := .evidence
  issuerSnapshot := some (tenant.issuerSnapshot host document.tenantId)
  deletedAt := none

/-- `create_request`, once the expiration is checked; `id` is the identifier it draws. -/
def recordRequest (payload : SignatureRequestCreate) (id : UUID) : Workflow B SignatureRequestRead :=
  Code.transaction .plain do
    let document ← liveDocument payload.documentId false
    let _ ← requireSeat host caller document.tenantId payload.createdBy (some [.admin, .member])
    let found ← query fun w : World B => (w.tenants.get? document.tenantId).filter fun t => t.deletedAt.isNone
    let tenant ← Code.orRaise found (.error "Tenant not found" 404)
    let request := payload.row host document tenant
    referTo (.document payload.documentId) fun w => (w.documents.get? payload.documentId).isSome
    save (World.insertRequest id request)
    audit (some id) payload.createdBy "signature_request.created" "signature_request" id
      [("document_version", .int document.version), ("document_sha256", .text document.sha256)]
    let read ← requestRead id request document
    pure (read, .made (.createRequest id request))

/-- `create_request`. -/
def createRequest (payload : SignatureRequestCreate) (id : UUID) : Workflow B SignatureRequestRead := do
  let now ← utcNow
  Code.require (now < payload.expiresAt) (.error "Expiration must be in the future" 400)
  recordRequest host caller payload id

/-- Is the actor a signer of the request? -/
def World.isSigner (request : UUID) (actor : String) (w : World B) : Bool :=
  w.signers.any fun _ s => s.signatureRequestId = request && (s.authUserId = actor || s.email = actor)

/-- The rows `list_requests` selects: one for each membership that shows the request. -/
def World.requestsFor (actor : String) (w : World B) : List (UUID × SignatureRequest) :=
  ((w.requests.select fun _ r => r.deletedAt.isNone).insertionSort fun x y => x.1 ≤ y.1).flatMap fun x =>
    (w.liveDocument x.2.documentId).toList.flatMap fun d =>
      (w.members.select fun _ m =>
        m.isActive d.tenantId && m.isIdentity host caller actor &&
          (m.role = .admin || host.lower x.2.createdBy = host.lower actor ||
            w.isSigner x.1 (host.lower actor))).map fun _ => x

/-- A request of the list, unless its team has too many members. -/
def readListed (x : UUID × SignatureRequest) : Workflow B (List SignatureRequestRead) := do
  let document ← liveDocument x.2.documentId false
  let exceeds ← teamOverLimit document.tenantId
  if exceeds then pure []
  else do
    let read ← requestRead x.1 x.2 document
    pure [read]

/-- `list_requests`. -/
def listRequests (actor : String) : Workflow B (List SignatureRequestRead) :=
  reading (query (World.requestsFor host caller actor) >>= readEach readListed)

/-- `get_request`. -/
def getRequest (identifier actor : String) : Workflow B SignatureRequestRead :=
  reading do
    let request ← requestOf host identifier false
    let access ← requireRequestAccess host caller request.1 request.2 actor
    requestRead request.1 request.2 access.1

/-- `list_signers`. -/
def listSigners (identifier actor : String) : Workflow B (List SignerRead) :=
  reading do
    let request ← requestOf host identifier false
    let _ ← requireRequestAccess host caller request.1 request.2 actor
    query fun w : World B =>
      ((w.signersOf request.1).insertionSort fun x y => x.1 ≤ y.1).map fun x => x.2.read x.1

/-! ## Signers -/

/-- A member who may represent a tenant. -/
def World.representativeOf (tenant : UUID) (email : String) (w : World B) : Option (UUID × TenantMember) :=
  (w.members.select fun _ m =>
    m.isActive tenant && m.authUserId = email && (m.role = .admin || m.role = .member)).head?

/-- What `add_signer` records about a company representative; `held` is the account it has loaded. -/
def representationSnapshot (request : SignatureRequest) (payload : SignerCreate)
    (held : Option BillingAccount) : Workflow B Dict := do
  let document ← liveDocument request.documentId false
  Code.require (payload.representedTenantId = some document.tenantId)
    (.error "The represented company must be the document tenant" 422)
  let found ← query fun w : World B => w.tenants.get? document.tenantId
  let tenant ← Code.orRaise (found.filter fun t => t.kind = .business)
    (.error "Company representation requires a business tenant" 409)
  let account ← query (World.liveAccount document.tenantId)
  let now ← utcNow
  Code.require (account.any fun a => (held.getD a).businessFeaturesEnabled now)
    (.error "A Professional or Team plan is required for company representation" 403)
  let representative ← query (World.representativeOf document.tenantId (host.lower payload.email))
  let member ← Code.orRaise representative
    (.error "The representative must be an active authorized tenant member" 422)
  let authorized ← utcNow
  pure (Dict.union (tenant.issuerSnapshot host document.tenantId)
    [("representative_role", .text member.2.role.text), ("authorization_status", .text "active_membership"),
      ("authorized_at", .text (host.isoformat authorized))])

/-- The snapshot of a signer who represents a company. -/
def snapshotFor (request : SignatureRequest) (payload : SignerCreate) (held : Option BillingAccount) :
    Workflow B (Option Dict) :=
  if payload.participantRole = .companyRepresentative then
    representationSnapshot host request payload held >>= fun d => pure (some d)
  else pure none

/-- The row a new signer gets. -/
def SignerCreate.row (payload : SignerCreate) (request : UUID) (token : String) (now : Int)
    (snapshot : Option Dict) : Signer where
  signatureRequestId := request
  authUserId := host.lower payload.email
  name := payload.name
  email := host.lower payload.email
  preferredLocale := payload.preferredLocale
  signingTokenHash := host.sha256 (host.encode token)
  tokenExpiresAt := now + payload.tokenTtlSeconds.1 * 1000000
  linkRevokedAt := none
  status := .pending
  signedAt := none
  participantRole := payload.participantRole
  representedTenantId := payload.representedTenantId
  representationSnapshot := snapshot

/-- The flush of a new signer. -/
def insertSigner (id : UUID) (row : Signer) : Workflow B Unit :=
  (do
    claim (.signerOf row.signatureRequestId row.authUserId) fun w =>
      (w.signerOf row.signatureRequestId row.authUserId).isSome
    claim (.tokenHash row.signingTokenHash) fun w =>
      w.signers.any fun _ s => s.signingTokenHash = row.signingTokenHash
    Code.onlyIf row.representedTenantId.isSome
      (referTo (.tenant (row.representedTenantId.getD 0)) fun w =>
        (w.tenants.get? (row.representedTenantId.getD 0)).isSome)
    save (World.insertSigner id row)).tryCatch fun e =>
      .raise (if e = Failure.integrity then .error "This authenticated user is already a signer" 409 else e)

/-- `add_signer`; `id` and `token` are what it draws. -/
def addSigner (identifier : String) (payload : SignerCreate) (actorId : String) (id : UUID) (token : String) :
    Workflow B SignerRead :=
  Code.transaction .plain do
    let request ← requestOf host identifier true
    let access ← requireRequestAccess host caller request.1 request.2 actorId
    Code.require (request.2.status = .draft) (.error "Signers can only be added to a draft request" 409)
    Code.require (payload.participantRole ≠ .corporateSeal)
      (.error "Corporate seal requires a configured organizational credential provider" 409)
    let snapshot ← snapshotFor host request.2 payload access.2
    let now ← utcNow
    let row := payload.row host request.1 token now snapshot
    insertSigner id row
    audit (some request.1) actorId "signer.link_created" "signer" id
      [("token_expires_at", .text (host.isoformat row.tokenExpiresAt))]
    pure (row.read id, .made (.addSigner id row))

/-- `revoke_signer_link`, of the signer it found. -/
def revokeSigner (request : UUID) (signer : UUID × Signer) (actorId : String) :
    Workflow B (SignerRead × WorkflowPoint B) :=
  match signer.2.linkRevokedAt with
  | some _ => pure (signer.2.read signer.1, .plain)
  | none => do
    let now ← utcNow
    audit (some request) actorId "signer.link_revoked" "signer" signer.1 []
    save (World.updateSigner signer.1 (.revoked now))
    pure ((signer.2.revoked now).read signer.1, .made (.revokeLink request signer.1 now))

/-- `revoke_signer_link`. -/
def revokeSignerLink (identifier signerIdentifier actorId : String) : Workflow B SignerRead :=
  Code.transaction .plain do
    let request ← requestOf host identifier true
    let _ ← requireRequestAccess host caller request.1 request.2 actorId
    let signer ← signerOf host signerIdentifier request.1
    Code.require (signer.2.status ≠ .signed) (.error "A completed signature link cannot be revoked" 409)
    revokeSigner request.1 signer actorId

/-! ## Signing links -/

/-- `email_invitations_enabled`, for a session that may hold the account. -/
def emailInvitationsEnabled (tenant : UUID) (held : Option BillingAccount) : Workflow B Bool := do
  let account ← query (World.liveAccount tenant)
  let now ← utcNow
  pure (account.any fun a => (held.getD a).businessFeaturesEnabled now)

theorem local_emailInvitationsEnabled {W : (World B → World B) → Prop} (tenant : UUID)
    (held : Option BillingAccount) : (emailInvitationsEnabled tenant held : Workflow B _).Local W :=
  Code.local_bind (local_query _) fun _ => Code.local_bind (local_query _) fun _ => Code.local_pure _

/-- The signers a link is sent to. -/
def World.awaited (request : UUID) (w : World B) : List (UUID × Signer) :=
  w.signers.select fun _ s => s.signatureRequestId = request &&
    (s.status = .pending || s.status = .viewed) && s.linkRevokedAt.isNone

/-- The e-mail about a link to a signer. -/
def invitationTo (document : Document) (request : UUID) (nonce url : String) (signer : UUID × Signer) :
    SignatureInvitation where
  recipient := signer.2.email
  signerName := signer.2.name
  documentTitle := document.title
  signingUrl := url
  locale := signer.2.preferredLocale
  idempotencyKey :=
    "signature-invite:" ++ host.uuidText request ++ ":" ++ host.uuidText signer.1 ++ ":" ++ nonce

/-- The transaction of `create_signing_link`: the link, and the e-mails that are to go out. -/
def issueLink (identifier actorId nonce : String) : Workflow B (String × List SignatureInvitation) :=
  Code.transaction .plain do
    let request ← requestOf host identifier true
    let access ← requireRequestAccess host caller request.1 request.2 actorId
    Code.require (request.2.status = .open ∨ request.2.status = .completed)
      (.error "Only an open or completed request can receive a signing link" 409)
    let token := requestToken host cfg request.1 nonce
    let hash := host.sha256 (host.encode token)
    audit (some request.1) actorId "signature_request.link_created" "signature_request" request.1 []
    let _ ← liveDocument request.2.documentId false
    let signers ← query (World.awaited request.1)
    let send ← emailInvitationsEnabled access.1.tenantId access.2
    claim (.tokenNonce nonce) fun w =>
      w.requests.any fun id r => id ≠ request.1 && r.signingTokenNonce = some nonce
    claim (.tokenHash hash) fun w =>
      w.requests.any fun id r => id ≠ request.1 && r.signingTokenHash = some hash
    save (World.updateRequest request.1 (.linked nonce hash))
    let url := signingUrl cfg token
    let invitations := if send then signers.map (invitationTo host access.1 request.1 nonce url) else []
    pure ((url, invitations), .made (.createLink request.1 nonce hash))

/-- `send_signature_invitation`. -/
def sendSignatureInvitation (x : SignatureInvitation) : Except Failure Unit :=
  if cfg.production = false ∧ (host.lower (host.strip x.recipient)).endsWith ".local" then .ok ()
  else if services.acceptEmail x then .ok ()
  else .error (.other "SignatureInvitationDeliveryError")

/-- The e-mails, one after the other. -/
def sendInvitations : List SignatureInvitation → Workflow B Unit
  | [] => pure ()
  | x :: rest =>
    match sendSignatureInvitation host cfg services x with
    | .error e => Code.raise e
    | .ok () => sendInvitations rest

/-- `create_signing_link`; `nonce` is what it draws. -/
def createSigningLink (identifier actorId nonce : String) : Workflow B String := do
  let issued ← issueLink host cfg caller identifier actorId nonce
  sendInvitations host cfg services issued.2
  pure issued.1

/-- `get_signing_link`. -/
def getSigningLink (identifier actorId : String) : Workflow B String :=
  reading do
    let request ← requestOf host identifier false
    let _ ← requireRequestAccess host caller request.1 request.2 actorId
    let nonce ← Code.orRaise (present request.2.signingTokenNonce)
      (.error "Signing link must be generated again" 404)
    let token := requestToken host cfg request.1 nonce
    Code.require (request.2.signingTokenHash = some (host.sha256 (host.encode token)))
      (.error "Signing link integrity check failed" 409)
    pure (signingUrl cfg token)

/-! ## Opening and cancelling -/

/-- What a mode of signing asks of the request, of which it counted the signers. -/
def requireMode (request : UUID) (signerCount : Nat) : SignatureMode → Workflow B Unit
  | .evidence => pure ()
  | .serproTimestamp =>
    Code.require (cfg.timestampEnabled = true) (.error "SERPRO timestamp is not configured" 409)
  | .serproId => do
    Code.require (cfg.serproIdConfigured = true) (.error "Serpro ID is not configured" 409)
    Code.require (signerCount = 1) (.error "Serpro ID requests currently require exactly one signer" 409)
    let signer ← query fun w : World B => (w.signersOf request).head?
    Code.require (signer.any fun x =>
        decide ((services.identitySummary x.2.email).identifierType ∈ [some "BR_CPF", some "BR_CNPJ"]))
      (.error "The Serpro ID signer must have a Brazilian CPF or CNPJ" 409)

/-- `open_request`. -/
def openRequest (identifier actorId : String) (mode : SignatureMode) : Workflow B SignatureRequestRead :=
  Code.transaction .plain do
    let request ← requestOf host identifier true
    let access ← requireRequestAccess host caller request.1 request.2 actorId
    Code.require (request.2.status = .draft) (.error "Only a draft request can be opened" 409)
    let signerCount ← query fun w : World B => (w.signersOf request.1).length
    Code.require (signerCount ≠ 0) (.error "At least one signer is required" 409)
    requireMode cfg services request.1 signerCount mode
    -- The session holds the document since it checked access: selecting it again loads no column.
    let _ ← liveDocument request.2.documentId false
    Code.require (access.1.version = request.2.documentVersion ∧ access.1.sha256 = request.2.documentSha256)
      (.error "Document changed after request creation" 409)
    audit (some request.1) actorId "signature_request.opened" "signature_request" request.1
      [("signature_mode", .text mode.text)]
    save (World.updateRequest request.1 (.opened mode))
    let read ← requestRead request.1 (request.2.opened mode) access.1
    pure (read, .made (.openRequest request.1 mode))

/-- `cancel_request`. -/
def cancelRequest (identifier actorId : String) : Workflow B SignatureRequestRead :=
  Code.transaction .plain do
    let request ← requestOf host identifier true
    let access ← requireRequestAccess host caller request.1 request.2 actorId
    Code.require (request.2.status = .draft ∨ request.2.status = .open)
      (.error "Request cannot be cancelled" 409)
    audit (some request.1) actorId "signature_request.cancelled" "signature_request" request.1 []
    save (World.updateRequest request.1 .cancelled)
    let read ← requestRead request.1 request.2.cancelled access.1
    pure (read, .made (.cancelRequest request.1))

end Host

end Rubrica
