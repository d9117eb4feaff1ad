import Rubrica.Signatures.Requests

set_option autoImplicit false

/-! # Signing

The operations behind a signing link, statement by statement, and the ones that serve what was signed. -/

namespace Rubrica

open Transactions

variable {B Page α : Type}

/-! ## The signature allowance -/

/-- `consume_signature`; the clock it judged the account at. -/
def consumeSignature (tenant : UUID) : Workflow B Int := do
  let account ← lockedAccount tenant none
  let now ← utcNow
  if account.value.hasUnlimitedSignatures ∨ account.value.paidAccessEnabled now then do
    flushAccount tenant account
    pure now
  else do
    Code.require (account.value.signaturesUsed < account.value.freeSignaturesLimit)
      (.error "Free signature allowance exhausted. An active subscription is required" 402)
    let charged := { account.value with signaturesUsed := account.value.signaturesUsed + 1 }
    flushAccount tenant { account with value := charged }
    pure now

/-! ## What the operations return -/

/-- `SigningRead`; `stamp` is the part of the evidence it shows. -/
structure SigningRead where
  request : SignatureRequestRead
  signer : SignerRead
  documentTitle : String
  originalFilename : String
  accountCountry : Option String
  stamp : Option Json
  administratorView : Bool
  issuerSnapshot : Option Dict

/-- A file as the signed-document endpoints return it: its name, its digest and its content. -/
structure SignedFile (B : Type) where
  filename : String
  sha256 : String
  content : B

/-- The identifiers that `sign` draws. -/
structure SigningNames where
  signature : UUID
  artifact : UUID
  object : UUID

def World.insertSignature (id : UUID) (x : Signature) (w : World B) : World B :=
  { w with signatures := w.signatures.insert id x }

/-- The result of a service, or its exception. -/
def serviceResult (x : Except Failure α) : Workflow B α :=
  match x with
  | .ok a => pure a
  | .error e => Code.raise e

section Host

variable (host : Host B Page) (cfg : Settings) (services : SigningServices B) (caller : Caller)

/-! ## Looking -/

/-- The order an administrator is shown signers in: the last to sign first, then by identifier. -/
def shownBefore (x y : UUID × Signer) : Bool :=
  match x.2.signedAt, y.2.signedAt with
  | some a, some b => b < a || (a = b && x.1 ≤ y.1)
  | some _, none => true
  | none, some _ => false
  | none, none => x.1 ≤ y.1

/-- The signer `signing_context` shows to an administrator who is none. -/
def administrativeSigner (request : UUID × SignatureRequest) (authUserId : String) :
    Workflow B ((UUID × Signer) × (UUID × SignatureRequest)) := do
  let _ ← requireRequestAccess host caller request.1 request.2 authUserId
  let found ← query fun w : World B =>
    ((w.signersOf request.1).insertionSort fun x y => shownBefore x y).head?
  let signer ← Code.orRaise found (.error "Signature request has no signers" 409)
  pure (signer, request)

/-- The signer, and the request, that `signing_context` shows; the session holds what it has selected. -/
def shownSigner (token authUserId : String) (administrative : Bool) (request : UUID × SignatureRequest)
    (own : Option (UUID × Signer)) : Workflow B ((UUID × Signer) × (UUID × SignatureRequest)) :=
  if administrative then administrativeSigner host caller request authUserId
  else resolveRequest host token authUserId false true (some request) own

/-- `signing_context`. -/
def signingContext (token authUserId : String) (administrator : Bool) : Workflow B SigningRead :=
  reading do
    let request ← requestFromToken host token false
    let own ← query (World.signerOf request.1 (host.lower authUserId))
    let administrative := administrator && own.isNone
    let found ← shownSigner host caller token authUserId administrative request own
    let document ← liveDocument found.2.2.documentId false
    let tenant ← query fun w : World B => w.tenants.get? document.tenantId
    let signature ← query fun w : World B => (w.signatures.select fun _ x =>
      x.signatureRequestId = found.2.1 && x.signerId = found.1.1).head?
    let read ← requestRead found.2.1 found.2.2 document
    let stamp := if administrative then none
      else signature.bind fun x => Dict.get? x.2.evidenceJson "stamp"
    pure ⟨read, found.1.2.read found.1.1, document.title, document.originalFilename,
      tenant.bind Tenant.countryCode, stamp, administrative, found.2.2.issuerSnapshot⟩

/-- How `signing_document` and `signing_signed_document` find the request. An administrator who is a
    signer is not asked for anything else. -/
def requestForSigning (token authUserId : String) (administrator : Bool) :
    Workflow B (UUID × SignatureRequest) :=
  if administrator then do
    let request ← requestFromToken host token false
    let own ← query (World.signerOf request.1 (host.lower authUserId))
    match own with
    | some _ => pure request
    | none => do
      let _ ← requireRequestAccess host caller request.1 request.2 authUserId
      pure request
  else do
    let found ← resolveRequest host token authUserId false true none none
    pure found.2

/-- `signing_document`. -/
def signingDocument (token authUserId : String) (administrator : Bool) :
    Workflow B (DocumentVersionRead × B) := do
  let found ← reading do
    let request ← requestForSigning host caller token authUserId administrator
    let item ← query fun w : World B => w.versions.get? (request.2.documentId, request.2.documentVersion)
    let version ← Code.orRaise item (.error "Document version not found" 404)
    pure (version.read request.2.documentId request.2.documentVersion, version.storageKey)
  let content ← getObject found.2
  checkedContent host found.1 content

/-- The signature whose artifact is served: the one with the greatest identifier. -/
def World.servedSignature (request : UUID) (w : World B) : Option (UUID × Signature) :=
  ((w.signatures.select fun _ x => x.signatureRequestId = request && x.artifactStorageKey.isSome).insertionSort
    fun x y => y.1 ≤ x.1).head?

/-- `signed_document`; no actor is a call from within the service. -/
def signedDocument (identifier : String) (actorId : Option String) : Workflow B (SignedFile B) := do
  let found ← reading do
    let request ← requestOf host identifier false
    Code.onlyIf actorId.isSome
      (requireRequestAccess host caller request.1 request.2 (actorId.getD "") >>= fun _ => pure ())
    let signature ← query (World.servedSignature request.1)
    Code.orRaise (signature.bind fun x => x.2.artifactStorageKey.bind fun key =>
        (present x.2.artifactSha256).map fun digest => (key, digest))
      (.error "Signed document is not available" 404)
  let content ← getObject found.1
  Code.require (host.sha256 content = found.2) (.error "Signed document integrity check failed" 409)
  pure ⟨"rubrica-request-" ++ identifier ++ "-signed.pdf", found.2, content⟩

/-- `signing_signed_document`. -/
def signingSignedDocument (token authUserId : String) (administrator : Bool) : Workflow B (SignedFile B) := do
  let request ← reading (requestForSigning host caller token authUserId administrator)
  signedDocument host caller (host.uuidText request.1) none

/-! ## Answering -/

/-- `view`, of the signer it resolved. -/
def markViewed (request : UUID) (signer : UUID × Signer) (authUserId : String) :
    Workflow B (SignerRead × WorkflowPoint B) :=
  if signer.2.status = .pending then do
    audit (some request) authUserId "document.viewed" "signer" signer.1 []
    save (World.updateSigner signer.1 (.answered .viewed))
    pure ((signer.2.answered .viewed).read signer.1, .made (.view request signer.1))
  else pure (signer.2.read signer.1, .plain)

/-- `view`. -/
def viewDocument (token authUserId : String) : Workflow B SignerRead :=
  Code.transaction .plain do
    let found ← resolveRequest host token authUserId true false none none
    markViewed found.2.1 found.1 authUserId

/-- `decline`. -/
def decline (token authUserId : String) : Workflow B SignerRead :=
  Code.transaction .plain do
    let found ← resolveRequest host token authUserId true false none none
    let signer := found.1
    Code.require (signer.2.status ≠ .signed ∧ signer.2.status ≠ .declined)
      (.error "Signer already answered" 409)
    audit (some found.2.1) authUserId "signature.declined" "signer" signer.1 []
    save (World.updateSigner signer.1 (.answered .declined))
    pure ((signer.2.answered .declined).read signer.1, .made (.decline found.2.1 signer.1))

/-! ## Signing -/

/-- What the mode of the request asks of the call. -/
def requireCertificate (request : UUID × SignatureRequest) (signer : Signer)
    (certificate : Option CertificateGrant) : Workflow B Unit := do
  Code.require (request.2.signatureMode = .serproId → certificate.isSome)
    (.error "This request requires a Serpro ID certificate signature" 409)
  Code.require (certificate.isSome → request.2.signatureMode = .serproId)
    (.error "This request does not accept a Serpro ID certificate signature" 409)
  Code.onlyIf certificate.isSome do
    Code.require (signer.status = .pending ∨ signer.status = .viewed)
      (.error "Signer cannot authorize a certificate signature in the current state" 409)
    let remaining ← query fun w : World B => w.unsigned request.1
    Code.require (remaining = 1) (.error "Certificate signing must be the final signature on this PDF" 409)

/-- The version the request is pinned to, and its document. -/
def frozenVersion (request : SignatureRequest) : Workflow B (DocumentVersion × Document) := do
  let item ← query fun w : World B => w.versions.get? (request.documentId, request.documentVersion)
  let version ← Code.orRaise (item.filter fun v => v.sha256 = request.documentSha256)
    (.error "Document hash does not match the frozen request" 409)
  let found ← query fun w : World B => w.liveDocument request.documentId
  let document ← Code.orRaise found (.error "Document not found" 404)
  pure (version, document)

/-- A company representative must still be a member who may represent. -/
def requireRepresentation (signer : Signer) (authUserId : String) : Workflow B Unit :=
  Code.onlyIf (signer.participantRole = .companyRepresentative) do
    let active ← query fun w : World B => w.members.any fun _ m =>
      (signer.representedTenantId.any fun tenant => m.isActive tenant) &&
        m.isIdentity host caller authUserId && (m.role = .admin || m.role = .member)
    Code.require (active = true) (.error "Company representation authorization is no longer active" 403)

/-- The bytes that are signed. -/
def originalOf (request : SignatureRequest) (version : DocumentVersion)
    (certificate : Option CertificateGrant) : Workflow B B := do
  let original ← getObject version.storageKey
  Code.require (host.sha256 original = request.documentSha256)
    (.error "Document hash does not match the frozen request" 409)
  match host.validatePdf original version.originalFilename with
  | some e => Code.raise (.workflow e)
  | none => do
    Code.require (certificate.isSome → host.hasCertificateSignatures original = false)
      (.error "Uploaded PDF already has certificate signatures; this workflow cannot rewrite it safely" 409)
    pure original

/-- The evidence that is recorded: `_signature_evidence`, with the mode and the certificate. -/
def recordedEvidence (request : UUID × SignatureRequest) (signer : UUID × Signer) (authUserId : String)
    (now : Int) (command : SignCommand) (country : Option String) (certificate : Option CertificateGrant) :
    Dict :=
  let evidence := (signatureEvidence host cfg request signer authUserId now command
    (services.identitySummary authUserId) country).set "signature_mode" (.text request.2.signatureMode.text)
  match certificate with
  | none => evidence
  | some grant => evidence.set "certificate_signature" (.dict (grant.info.map fun x => (x.1, .text x.2)))

/-- A certificate, then a timestamp, is applied to the PDF. -/
def finishPdf (mode : SignatureMode) (certificate : Option CertificateGrant) (generated : B) :
    Except Failure (B × Option Dict) := do
  let pdf ← match certificate with
    | none => pure generated
    | some grant => services.signPdf grant.accessToken generated
  if mode = .serproTimestamp ∧ cfg.timestampEnabled = true then do
    let x ← services.timestamp pdf
    pure (x.1, some x.2)
  else pure (pdf, none)

/-- The records of the signatures so far, with one more. -/
def stampRecords (existing : List (UUID × Signature)) (evidence : Dict) : List Dict :=
  (existing.map fun x => stampRecord host x.2.evidenceJson x.2.evidenceSha256) ++
    [stampRecord host evidence (some (host.evidenceSha256 evidence))]

/-- What `sign` is called with. -/
structure SignCall where
  token : String
  authUserId : String
  command : SignCommand
  certificate : Option CertificateGrant

/-- `sign` from the evidence to the storage of the artifact. -/
def composeArtifact (call : SignCall) (names : SigningNames) (signer : UUID × Signer)
    (request : UUID × SignatureRequest) (document : Document) (country : Option String) (countedAt : Int)
    (original : B) : Workflow B (Signing B × StorageKey) := do
  let now ← utcNow
  let evidence := recordedEvidence host cfg services request signer call.authUserId now call.command country
    call.certificate
  let existing ← query fun w : World B => w.signaturesOf request.1
  let stamps := stampRecords host existing evidence
  let metadata := signedMetadata host names.artifact request now evidence stamps
  let generated ← serviceResult (generateSignedPdf host original stamps metadata)
  let finished ← serviceResult (finishPdf cfg services request.2.signatureMode call.certificate generated)
  let owner ← documentOwnerStorageId host document
  let key : StorageKey := ⟨document.tenantId, owner, names.object⟩
  putObject key finished.1
  let signature : Signature := {
    signatureRequestId := request.1,
    signerId := signer.1,
    authUserId := call.authUserId,
    documentSha256 := request.2.documentSha256,
    signedAt := now,
    evidenceJson := evidence,
    evidenceSha256 := some (host.evidenceSha256 evidence),
    artifactStorageKey := some key,
    artifactSha256 := some (host.sha256 finished.1),
    trustedTimestampJson := finished.2 }
  pure (⟨request.1, names.signature, signature, document.tenantId, countedAt, original, stamps, metadata,
    generated, finished.1, call.certificate, false⟩, key)

/-- What `sign` has prepared when the artifact is stored. -/
structure PreparedSignature (B : Type) where
  signing : Signing B
  signer : Signer
  request : SignatureRequest
  key : StorageKey

/-- `sign` up to the storage of the artifact. -/
def prepareSignature (call : SignCall) (names : SigningNames) : Workflow B (PreparedSignature B) := do
  let found ← resolveRequest host call.token call.authUserId true false none none
  let signer := found.1
  let request := found.2
  Code.require (signer.2.status ≠ .signed) (.error "Signer has already signed" 409)
  requireCertificate request signer.2 call.certificate
  let frozen ← frozenVersion request.2
  let tenant ← query fun w : World B => w.tenants.get? frozen.2.tenantId
  requireRepresentation host caller signer.2 call.authUserId
  let countedAt ← consumeSignature frozen.2.tenantId
  let original ← originalOf host request.2 frozen.1 call.certificate
  let composed ← composeArtifact host cfg services call names signer request frozen.2
    (tenant.bind Tenant.countryCode) countedAt original
  pure ⟨composed.1, signer.2, request.2, composed.2⟩

/-- The signatures of a request are unique for the signer and for the subject; the row lock of the request
    keeps others from adding one. -/
def World.signatureTaken (x : Signature) (w : World B) : Bool :=
  w.signatures.any fun _ y => y.signatureRequestId = x.signatureRequestId &&
    (y.signerId = x.signerId || y.authUserId = x.authUserId)

/-- `sign` after that. -/
def recordSignature (x : PreparedSignature B) : Workflow B (SignerRead × WorkflowPoint B) := do
  let signature := x.signing.signature
  let taken ← query (World.signatureTaken signature)
  Code.require (taken = false) .integrity
  save (World.insertSignature x.signing.id signature)
  save (World.updateSigner signature.signerId (.hasSigned signature.signedAt))
  audit (some x.signing.request) signature.authUserId "signature.completed" "signer" signature.signerId
    [("document_sha256", .text x.request.documentSha256),
      ("document_version", .int x.request.documentVersion),
      ("evidence_sha256", Json.ofText signature.evidenceSha256),
      ("artifact_sha256", Json.ofText signature.artifactSha256)]
  let pending ← query fun w : World B => w.unsigned x.signing.request
  Code.onlyIf (pending = 0) do
    audit (some x.signing.request) signature.authUserId "signature_request.completed" "signature_request"
      x.signing.request [("artifact_sha256", Json.ofText signature.artifactSha256)]
    save (World.updateRequest x.signing.request (.completed signature.signedAt))
  let read := (x.signer.hasSigned signature.signedAt).read signature.signerId
  pure (read, .made (.sign { x.signing with completes := decide (pending = 0) }))

/-- `sign`; `names` are the identifiers it draws. -/
def sign (call : SignCall) (names : SigningNames) : Workflow B SignerRead :=
  if call.command.consent = false then Code.raise (.error "Explicit consent is required" 400)
  else
    storing (prepareSignature host cfg services caller call names) PreparedSignature.key recordSignature

end Host

/-! ## A workspace to compute with -/

def sampleSettings : Settings :=
  ⟨.default, "secret", "https://sign.example/", false, true, true⟩

/-- Services that always answer. -/
def sampleServices : SigningServices SampleBytes where
  identitySummary _ := ⟨none, none, none⟩
  signPdf _ pdf := .ok pdf
  timestamp pdf := .ok (pdf, [])
  acceptEmail _ := true

def samplePdf : SampleBytes :=
  .pdf ⟨["page"], []⟩

def sampleKey : StorageKey :=
  ⟨1, 2, 11⟩

def sampleDocument : Document where
  organizationId := "workspace"
  tenantId := 1
  title := "Lease"
  originalFilename := "lease.pdf"
  contentType := "application/pdf"
  storageKey := sampleKey
  sha256 := samplePdf.digest
  version := 1
  createdBy := "author@x"
  deletedAt := none

def sampleRequest (status : RequestStatus) : SignatureRequest where
  documentId := 10
  documentVersion := 1
  documentSha256 := samplePdf.digest
  status := status
  expiresAt := 100
  createdBy := "author@x"
  completedAt := none
  signingTokenHash := some (sampleHost.sha256 (sampleHost.encode "token"))
  signingTokenNonce := some "nonce"
  signatureMode := .evidence
  issuerSnapshot := none
  deletedAt := none

def sampleSigner (email : String) (status : SignerStatus) : Signer where
  signatureRequestId := 20
  authUserId := email
  name := email
  email := email
  preferredLocale := "en"
  signingTokenHash := email
  tokenExpiresAt := 100
  linkRevokedAt := none
  status := status
  signedAt := none
  participantRole := .externalSigner
  representedTenantId := none
  representationSnapshot := none

/-- What the signer of a lease is added with. -/
def leaseSigner : SignerCreate :=
  ⟨"Signer", "signer@x", "en", ⟨300, by decide⟩, .externalSigner, none, by decide⟩

def sampleMember (email : String) (role : MemberRole) : TenantMember :=
  ⟨1, email, none, role, .active, none, 0, none⟩

/-- A tenant with an administrator, an author and an auditor, a document of the author, and a request with
    one signer and a link whose token is `token`. -/
def sampleWorkspace (request : SignatureRequest) (signer : Signer) : World SampleBytes :=
  { World.empty SampleBytes with
    documents := (∅ : Table UUID Document).insert 10 sampleDocument,
    versions := (∅ : Table (UUID × Nat) DocumentVersion).insert (10, 1)
      ⟨"lease.pdf", "application/pdf", sampleKey, samplePdf.digest, 1, "author@x"⟩,
    requests := (∅ : Table UUID SignatureRequest).insert 20 request,
    signers := (∅ : Table UUID Signer).insert 30 signer,
    tenants := (∅ : Table UUID Tenant).insert 1 ⟨"Workspace", "workspace", some "BR", .personal, none, none,
      none, none, none, none, none, none, none, none⟩,
    members := (((∅ : Table UUID TenantMember).insert 2 (sampleMember "admin@x" .admin)).insert 3
      (sampleMember "author@x" .member)).insert 4 (sampleMember "auditor@x" .auditor),
    accounts := (∅ : Table UUID BillingAccount).insert 1
      { BillingAccount.created with complimentaryLifetime := true },
    objects := fun key => if key = sampleKey then some samplePdf else none }

def sampleCommand : SignCommand where
  consent := true
  consentVersion := "rubrica-evidence-v1"
  stamp := ⟨⟨1, by decide⟩, 0, 0, "INTL", none, false, "rubrica-stamp-v2", "en", "UTC"⟩
  client := none
  geolocation := none
  ipAddress := "unknown"
  userAgent := "unknown"

end Rubrica
