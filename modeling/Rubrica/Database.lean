import Rubrica.Platform
import Rubrica.Transactions.Rules

set_option autoImplicit false

/-! # The database

The tables of the core service and the object store next to it, as one state, and the statements that
its programs are made of. A statement no result speaks about stands at the point `Unmarked.unmarked`.

A unique index is modelled by its entries: who adds an entry holds it until the transaction ends, so
that a second writer of the same entry waits and then sees whether the first has committed. A foreign
key shares the row it refers to, for as long. Identifiers are drawn by the programs themselves; who
starts a program gives it its names. -/

namespace Rubrica

open Transactions

/-! ## Rows -/

inductive TenantKind where
  | personal
  | business
  deriving DecidableEq, Repr

structure Tenant where
  name : String
  slug : String
  countryCode : Option String
  kind : TenantKind
  legalName : Option String
  registrationCountry : Option String
  registrationType : Option String
  registrationValueEncrypted : Option String
  registrationLookupHmac : Option String
  registrationMasked : Option String
  registrationVerificationStatus : Option String
  registrationSource : Option String
  registrationProviderReference : Option String
  deletedAt : Option Int
  deriving DecidableEq, Repr

inductive MemberRole where
  | admin
  | member
  | auditor
  deriving DecidableEq, Repr

def MemberRole.text : MemberRole → String
  | admin => "admin"
  | member => "member"
  | auditor => "auditor"

inductive MemberStatus where
  | active
  | suspended
  deriving DecidableEq, Repr

structure TenantMember where
  tenantId : UUID
  authUserId : String
  authUserUuid : Option UUID
  role : MemberRole
  status : MemberStatus
  joinedAt : Option Int
  createdAt : Int
  deletedAt : Option Int
  deriving DecidableEq, Repr

inductive BillingEventStatus where
  | received
  | processed
  | ignoredStale
  | failed
  deriving DecidableEq, Repr

/-- An event that is not to be applied any more. -/
def BillingEventStatus.isDone : BillingEventStatus → Bool
  | processed => true
  | ignoredStale => true
  | _ => false

/-- A row of `billing_events`, under the provider's identifier of the event. -/
structure BillingEventRow where
  tenantId : Option UUID
  eventType : EventType
  resourceId : String
  payloadHash : String
  status : BillingEventStatus
  processedAt : Option Int
  errorCode : Option String
  deriving DecidableEq, Repr

structure Document where
  organizationId : String
  tenantId : UUID
  title : String
  originalFilename : String
  contentType : String
  storageKey : StorageKey
  sha256 : String
  version : Nat
  createdBy : String
  deletedAt : Option Int
  deriving DecidableEq, Repr

/-- A row of `document_versions`, under its document and number. -/
structure DocumentVersion where
  originalFilename : String
  contentType : String
  storageKey : StorageKey
  sha256 : String
  sizeBytes : Nat
  createdBy : String
  deriving DecidableEq, Repr

inductive RequestStatus where
  | draft
  | open
  | completed
  | expired
  | cancelled
  deriving DecidableEq, Repr

inductive SignatureMode where
  | evidence
  | serproTimestamp
  | serproId
  deriving DecidableEq, Repr

def SignatureMode.text : SignatureMode → String
  | evidence => "evidence"
  | serproTimestamp => "serpro_timestamp"
  | serproId => "serproid"

structure SignatureRequest where
  documentId : UUID
  documentVersion : Nat
  documentSha256 : String
  status : RequestStatus
  expiresAt : Int
  createdBy : String
  completedAt : Option Int
  signingTokenHash : Option String
  signingTokenNonce : Option String
  signatureMode : SignatureMode
  issuerSnapshot : Option Dict
  deletedAt : Option Int

inductive SignerStatus where
  | pending
  | viewed
  | signed
  | declined
  | expired
  deriving DecidableEq, Repr

inductive ParticipantRole where
  | personalSigner
  | externalSigner
  | companyRepresentative
  | corporateSeal
  deriving DecidableEq, Repr

def ParticipantRole.text : ParticipantRole → String
  | personalSigner => "personal_signer"
  | externalSigner => "external_signer"
  | companyRepresentative => "company_representative"
  | corporateSeal => "corporate_seal"

structure Signer where
  signatureRequestId : UUID
  authUserId : String
  name : String
  email : String
  preferredLocale : String
  signingTokenHash : String
  tokenExpiresAt : Int
  linkRevokedAt : Option Int
  status : SignerStatus
  signedAt : Option Int
  participantRole : ParticipantRole
  representedTenantId : Option UUID
  representationSnapshot : Option Dict

structure Signature where
  signatureRequestId : UUID
  signerId : UUID
  authUserId : String
  documentSha256 : String
  signedAt : Int
  evidenceJson : Dict
  evidenceSha256 : Option String
  artifactStorageKey : Option StorageKey
  artifactSha256 : Option String
  trustedTimestampJson : Option Dict

structure AuditEvent where
  signatureRequestId : Option UUID
  occurredAt : Int
  actorId : String
  action : String
  entityType : String
  entityId : UUID
  metadataSanitized : Dict

/-! ## The state -/

/-- Documents, signature requests and signatures. -/
structure Archive where
  documents : Table UUID Document
  versions : Table (UUID × Nat) DocumentVersion
  requests : Table UUID SignatureRequest
  signers : Table UUID Signer
  signatures : Table UUID Signature

structure World (B : Type) extends Archive where
  tenants : Table UUID Tenant
  members : Table UUID TenantMember
  /-- `billing_accounts`, under the tenant. -/
  accounts : Table UUID BillingAccount
  events : Table String BillingEventRow
  payments : Table String BillingPayment
  audits : List AuditEvent
  objects : StorageKey → Option B
  clock : Int

def World.empty (B : Type) : World B where
  documents := ∅
  versions := ∅
  requests := ∅
  signers := ∅
  signatures := ∅
  tenants := ∅
  members := ∅
  accounts := ∅
  events := ∅
  payments := ∅
  audits := []
  objects := fun _ => none
  clock := 0

/-- What a session can hold: rows, entries of unique indexes, and the names it has drawn. -/
inductive RowKey where
  | tenant (id : UUID)
  | member (id : UUID)
  | account (tenant : UUID)
  | event (id : String)
  | document (id : UUID)
  | request (id : UUID)
  | signer (id : UUID)
  | accountOf (tenant : UUID)
  | memberOf (tenant : UUID) (subject : String)
  | memberUser (tenant user : UUID)
  | customer (id : String)
  | subscription (id : String)
  | registration (lookup : String)
  | eventEntry (id : String)
  | payment (id : String)
  | versionOf (document : UUID) (number : Nat)
  | signerOf (request : UUID) (subject : String)
  | tokenHash (hash : String)
  | tokenNonce (nonce : String)
  | name (id : UUID)
  deriving DecidableEq, Repr

/-! ## Statements -/

/-- A program of a service: a session's statements over the database. -/
abbrev Tx (B τ α : Type) := Code (World B) RowKey τ Failure α

/-- Points that statements without a mark stand at. -/
class Unmarked (τ : Type) where
  unmarked : τ

variable {B τ α : Type} [Unmarked τ]

def query (f : World B → α) : Tx B τ α :=
  Code.select Unmarked.unmarked f

/-- `SELECT .. FOR UPDATE`. -/
def queryForUpdate (row : World B → Option RowKey) (f : World B → α) : Tx B τ α :=
  Code.selectLocking Unmarked.unmarked .exclusive row f

def save (u : World B → World B) : Tx B τ Unit :=
  Code.write Unmarked.unmarked u

/-- `DateTimeService.utc_now`. -/
def utcNow : Tx B τ Int :=
  query World.clock

/-- Take an entry of a unique index, at a point of its own. -/
def claimAt (point : τ) (entry : RowKey) (taken : World B → Bool) : Tx B τ Unit :=
  Code.selectLocking point .exclusive (fun _ => some entry) taken >>= fun t =>
    Code.require (t = false) .integrity

def claim (entry : RowKey) (taken : World B → Bool) : Tx B τ Unit :=
  claimAt Unmarked.unmarked entry taken

/-- Take the entry that a change of a unique column adds. -/
def claimChanged {γ : Type} [DecidableEq γ] (loaded value : Option γ) (entry : γ → RowKey)
    (taken : γ → World B → Bool) : Tx B τ Unit :=
  match value with
  | none => pure ()
  | some c => Code.onlyIf (loaded ≠ some c) (claim (entry c) (taken c))

/-- Check a foreign key, at a point of its own. -/
def referToAt (point : τ) (row : RowKey) (there : World B → Bool) : Tx B τ Unit :=
  Code.selectLocking point .shared (fun w => if there w then some row else none) there >>= fun t =>
    Code.require (t = true) .integrity

def referTo (row : RowKey) (there : World B → Bool) : Tx B τ Unit :=
  referToAt Unmarked.unmarked row there

def World.record (w : World B) (e : AuditEvent) : World B :=
  { w with audits := w.audits ++ [e] }

/-- `_audit`. -/
def audit (request : Option UUID) (actorId action entityType : String) (entityId : UUID)
    (metadata : Dict) : Tx B τ Unit :=
  utcNow >>= fun now => save fun w => w.record ⟨request, now, actorId, action, entityType, entityId, metadata⟩

/-! ## Statements alone -/

section Alone

variable {u : World B → World B} {w : World B}

theorem alone_save (v : World B → World B) : (save v : Tx B τ Unit).alone u w = ⟨.ok (), v ∘ u, w⟩ := rfl

theorem alone_claim {entry : RowKey} {taken : World B → Bool} (h : taken (u w) = false) :
    (claim entry taken : Tx B τ Unit).alone u w = ⟨.ok (), u, w⟩ := by
  show (Code.require (taken (u w) = false) Failure.integrity : Tx B τ Unit).alone u w = _
  rw [Code.require, if_pos h]
  rfl

theorem alone_claimChanged {γ : Type} [DecidableEq γ] {loaded value : Option γ} {entry : γ → RowKey}
    {taken : γ → World B → Bool} (h : ∀ c, value = some c → taken c (u w) = false) :
    (claimChanged loaded value entry taken : Tx B τ Unit).alone u w = ⟨.ok (), u, w⟩ := by
  cases value with
  | none => rfl
  | some c =>
      show (Code.onlyIf _ (claim (entry c) (taken c) : Tx B τ Unit)).alone u w = _
      unfold Code.onlyIf
      split
      · exact alone_claim (h c rfl)
      · rfl

theorem alone_referTo {row : RowKey} {there : World B → Bool} (h : there (u w) = true) :
    (referTo row there : Tx B τ Unit).alone u w = ⟨.ok (), u, w⟩ := by
  show (Code.require (there (u w) = true) Failure.integrity : Tx B τ Unit).alone u w = _
  rw [Code.require, if_pos h]
  rfl

end Alone

/-! ## Stretches of statements -/

/-- The write changes nothing that `f` shows. -/
def Keeps {γ : Type} (f : World B → γ) (u : World B → World B) : Prop :=
  ∀ w, f (u w) = f w

section Local

variable {W : (World B → World B) → Prop}

theorem local_query (f : World B → α) : (query f : Tx B τ α).Local W :=
  Code.local_select _ _

theorem local_queryForUpdate (row : World B → Option RowKey) (f : World B → α) :
    (queryForUpdate row f : Tx B τ α).Local W :=
  Code.local_selectLocking _ _ _ _

theorem local_save {u : World B → World B} (hu : W u) : (save u : Tx B τ Unit).Local W :=
  Code.local_write _ hu

omit [Unmarked τ] in
theorem local_claimAt (point : τ) (entry : RowKey) (taken : World B → Bool) :
    (claimAt point entry taken : Tx B τ Unit).Local W :=
  Code.local_bind (Code.local_selectLocking _ _ _ _) fun _ => Code.local_require _ _

theorem local_claim (entry : RowKey) (taken : World B → Bool) :
    (claim entry taken : Tx B τ Unit).Local W :=
  local_claimAt _ _ _

theorem local_claimChanged {γ : Type} [DecidableEq γ] (loaded value : Option γ) (entry : γ → RowKey)
    (taken : γ → World B → Bool) : (claimChanged loaded value entry taken : Tx B τ Unit).Local W := by
  cases value with
  | none => exact Code.local_pure _
  | some c => exact Code.local_onlyIf _ fun _ => local_claim _ _

omit [Unmarked τ] in
theorem local_referToAt (point : τ) (row : RowKey) (there : World B → Bool) :
    (referToAt point row there : Tx B τ Unit).Local W :=
  Code.local_bind (Code.local_selectLocking _ _ _ _) fun _ => Code.local_require _ _

theorem local_referTo (row : RowKey) (there : World B → Bool) :
    (referTo row there : Tx B τ Unit).Local W :=
  local_referToAt _ _ _

/-- The event has the fields it is recorded with. -/
theorem local_audit_of {request : Option UUID} {actorId action entityType : String} {entityId : UUID}
    {metadata : Dict} (hW : ∀ now, W fun w => w.record ⟨request, now, actorId, action, entityType, entityId, metadata⟩) :
    (audit request actorId action entityType entityId metadata : Tx B τ Unit).Local W :=
  Code.local_bind (local_query _) fun now => local_save (hW now)

theorem local_audit (hW : ∀ e, W fun w => w.record e) (request : Option UUID)
    (actorId action entityType : String) (entityId : UUID) (metadata : Dict) :
    (audit request actorId action entityType entityId metadata : Tx B τ Unit).Local W :=
  local_audit_of fun _ => hW _

end Local

end Rubrica
