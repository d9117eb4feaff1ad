import Rubrica.Sessions.Store
import Rubrica.Teams.Team

set_option autoImplicit false

/-! # Registration

`AccountService.register` of the authentication service, and `TenantService.provision_owner` of the core
service, which it calls. Each has a database of its own: the call is carried out in core in a transaction of
core's, which stays committed whatever becomes of the caller's. -/

namespace Rubrica

open Transactions

variable {B Page : Type} (host : Host B Page)

/-! ## Provisioning -/

structure TenantProvision where
  ownerUserId : Option UUID
  ownerEmail : String
  name : String
  countryCode : Option String

/-- What `provision_owner` draws. -/
structure ProvisionNames where
  tenant : UUID
  member : UUID
  slug : String
  deriving DecidableEq, Repr

/-- The tenants that a user or an address administers, the oldest first, with the role there. -/
def World.administered (user : Caller) (owner : String) (w : World B) : List (UUID × MemberRole) :=
  (w.tenants.select fun _ t => t.deletedAt.isNone).flatMap fun t =>
    (w.members.select fun _ m =>
      m.tenantId = t.1 && m.isIdentity host user owner && m.role = .admin).map fun m => (t.1, m.2.role)

def World.insertTenant (id : UUID) (t : Tenant) (w : World B) : World B :=
  { w with tenants := w.tenants.insert id t }

def World.bindMember (id : UUID) (user : Option UUID) (w : World B) : World B :=
  { w with members := w.members.update id fun m => { m with authUserUuid := user } }

/-- A new tenant. -/
def Tenant.provisioned (name slug : String) (countryCode : Option String) : Tenant where
  name := name
  slug := slug
  countryCode := countryCode
  kind := .personal
  legalName := none
  registrationCountry := none
  registrationType := none
  registrationValueEncrypted := none
  registrationLookupHmac := none
  registrationMasked := none
  registrationVerificationStatus := none
  registrationSource := none
  registrationProviderReference := none
  deletedAt := none

/-- Bind the membership of an owner to the user, unless it is bound already. -/
def bindOwner (user : Option UUID) (tenant : UUID) (found : Option (UUID × TenantMember)) :
    Tx B TeamPoint Unit :=
  match found with
  | none => pure ()
  | some (id, m) => Code.onlyIf (m.authUserUuid = none) do
    claimChanged none user (RowKey.memberUser tenant) fun user w =>
      w.members.any fun _ m' => m'.tenantId = tenant && m'.authUserUuid = some user && m'.deletedAt.isNone
    save (World.bindMember id user)

/-- `provision_owner`, for an owner who has a tenant. -/
def readOwned (user : Option UUID) (owner : String) (existing : UUID × MemberRole) :
    Tx B TeamPoint (UUID × MemberRole) := do
  let found ← query fun w => (w.members.select fun _ m =>
    m.tenantId = existing.1 && m.isIdentity host user owner).head?
  bindOwner user existing.1 found
  pure existing

/-- `provision_owner`, for an owner without a tenant. -/
def createOwned (payload : TenantProvision) (owner : String) (names : ProvisionNames) :
    Tx B TeamPoint (UUID × MemberRole) := do
  let created ← utcNow
  save (World.insertTenant names.tenant
    (.provisioned (host.strip payload.name) names.slug payload.countryCode))
  let joined ← utcNow
  flushMember names.member
    ⟨names.tenant, owner, payload.ownerUserId, .admin, .active, some joined, created, none⟩
  let _ ← createAccount names.tenant
  pure (names.tenant, .admin)

/-- `provision_owner`, once it has looked for the owner's tenant. -/
def provisionFor (payload : TenantProvision) (owner : String) (names : ProvisionNames)
    (existing : Option (UUID × MemberRole)) : Tx B TeamPoint (UUID × MemberRole) :=
  match existing with
  | some found => readOwned host payload.ownerUserId owner found
  | none => createOwned host payload owner names

/-- `provision_owner`. -/
def provisionOwner (payload : TenantProvision) (names : ProvisionNames) :
    Tx B TeamPoint (UUID × MemberRole) :=
  Code.transaction .plain do
    let owner := host.lower (host.strip payload.ownerEmail)
    let existing ← query fun w => (w.administered host payload.ownerUserId owner).head?
    let read ← provisionFor host payload owner names existing
    pure (read, .plain)

/-! ## The two databases -/

/-- A row of `user_identifiers`. -/
structure UserIdentifier where
  userId : UUID
  identifierType : String
  issuingCountry : String
  lookupHmac : String
  deriving DecidableEq, Repr

/-- The tables of the authentication service, and core. -/
structure Directory (B : Type) where
  users : Table UUID User
  roles : List (UUID × String)
  identifiers : Table UUID UserIdentifier
  /-- Under the digest of the token. -/
  accountTokens : Table Nat AccountToken
  core : World B

/-- Rows, entries of unique indexes, and the names that registrations draw. -/
inductive DirectoryKey where
  | accountToken (hash : Nat)
  | email (email : String)
  | identifier (identifierType issuingCountry lookup : String)
  | name (id : UUID)
  deriving DecidableEq, Repr

/-- Where in a registration a statement stands. -/
inductive RegistrationPoint where
  | plain
  /-- The call that core carries out, for an owner and a user. -/
  | provisioning (owner : String) (user : UUID)
  /-- The commit of a token. -/
  | issued (user : UUID) (purpose : String) (token : Nat)
  deriving DecidableEq, Repr

abbrev RegistrationTx (B α : Type) := Code (Directory B) DirectoryKey RegistrationPoint Failure α

/-! ## Registering -/

/-- An identity document, as the request's schema has validated it. -/
structure IdentityDocument where
  identifierType : String
  issuingCountry : String
  /-- `normalize_identifier` of what was entered. -/
  normalized : String
  deriving DecidableEq, Repr

structure PublicRegistration where
  name : String
  email : String
  /-- Its three fields come together, or not at all. -/
  identityDocument : Option IdentityDocument
  deriving DecidableEq, Repr

structure RegistrationSettings where
  identityHmacKey : String
  emailVerificationTtl : Int

/-- What a registration draws. -/
structure RegistrationNames where
  user : UUID
  identifier : UUID
  /-- The digest of the token that verifies the e-mail. -/
  token : Nat
  placeholder : PasswordHash
  core : ProvisionNames
  deriving DecidableEq, Repr

/-- `payload.email.strip().lower()`. -/
def PublicRegistration.normalizedEmail (payload : PublicRegistration) : String :=
  host.lower (host.strip payload.email)

/-- The address that core knows the owner by: it normalizes what it is sent. -/
def PublicRegistration.owner (payload : PublicRegistration) : String :=
  host.lower (host.strip (payload.normalizedEmail host))

/-- `except IntegrityError as exc: raise AccountConflictError from exc`. -/
def conflicting (exc : Failure) : RegistrationTx B Unit :=
  .raise (if exc = .integrity then .other "AccountConflictError" else exc)

/-- Take an entry of a unique index. -/
def claimEntry (entry : DirectoryKey) (taken : Directory B → Bool) : RegistrationTx B Unit :=
  Code.selectLocking .plain .exclusive (fun _ => some entry) taken >>= fun t =>
    Code.require (t = false) .integrity

/-- A user who has not chosen a password yet. -/
def User.registered (email : String) (placeholder : PasswordHash) : User where
  email := email
  emailVerified := false
  mfaEnabled := false
  mfaSecretCiphertext := none
  mfaLastUsedStep := none
  passwordHash := placeholder
  tokenVersion := 1
  isActive := false

/-- The flush of the new user. -/
def addUser (payload : PublicRegistration) (names : RegistrationNames) : RegistrationTx B Unit := do
  claimEntry (.email (payload.normalizedEmail host)) fun d =>
    d.users.any fun _ u => u.email = payload.normalizedEmail host
  Code.write .plain fun d =>
    { d with
      users := d.users.insert names.user (.registered (payload.normalizedEmail host) names.placeholder) }

/-- The flush of what `add_identifier` adds. -/
def flushIdentifier (id : UUID) (row : UserIdentifier) : RegistrationTx B Unit := do
  claimEntry (.identifier row.identifierType row.issuingCountry row.lookupHmac) fun d =>
    d.identifiers.any fun _ i => i.identifierType = row.identifierType &&
      i.issuingCountry = row.issuingCountry && i.lookupHmac = row.lookupHmac
  Code.write .plain fun d => { d with identifiers := d.identifiers.insert id row }

def identify (cfg : RegistrationSettings) (payload : PublicRegistration) (names : RegistrationNames) :
    RegistrationTx B Unit :=
  match payload.identityDocument with
  | none => pure ()
  | some document =>
    (flushIdentifier names.identifier ⟨names.user, document.identifierType, document.issuingCountry,
      host.hmac cfg.identityHmacKey (host.encode document.normalized)⟩).tryCatch conflicting

/-- The token is one of the user, for the purpose, and has not been consumed. -/
def AccountToken.isPending (user : UUID) (purpose : String) (t : AccountToken) : Bool :=
  t.userId = user && t.purpose = purpose && t.consumedAt.isNone

/-- The row of a token, if it is pending. -/
def Directory.pendingToken (user : UUID) (purpose : String) (token : Nat) (d : Directory B) : Option AccountToken :=
  (d.accountTokens.get? token).filter fun t => t.isPending user purpose

def Directory.insertToken (token : Nat) (t : AccountToken) (d : Directory B) : Directory B :=
  { d with accountTokens := d.accountTokens.insert token t }

def Directory.consume (token : Nat) (now : Int) (d : Directory B) : Directory B :=
  { d with accountTokens := d.accountTokens.update token fun t => { t with consumedAt := some now } }

/-- `UPDATE` locks the rows it has found one after another, and changes each as it is by then. -/
def consumePending (user : UUID) (purpose : String) (now : Int) : List Nat → RegistrationTx B Unit
  | [] => pure ()
  | token :: tokens => do
    let found ← Code.selectLocking .plain .exclusive
      (fun d => (d.pendingToken user purpose token).map fun _ => .accountToken token)
      fun d => d.pendingToken user purpose token
    Code.onlyIf (found.isSome = true) (Code.write .plain (Directory.consume token now))
    consumePending user purpose now tokens

/-- `_issue_token`. -/
def issueToken (user : UUID) (purpose : String) (ttl : Int) (token : Nat) : RegistrationTx B Unit := do
  let now ← Code.select .plain fun d => d.core.clock
  let tokens ← Code.select .plain fun d =>
    (d.accountTokens.select fun _ t => t.isPending user purpose).map Prod.fst
  consumePending user purpose now tokens
  let now ← Code.select .plain fun d => d.core.clock
  Code.write .plain (Directory.insertToken token ⟨user, purpose, now + ttl, none, none⟩)

/-- What core makes of a call of `provision_owner`. -/
def Directory.provisioned (payload : TenantProvision) (names : ProvisionNames) (d : Directory B) :
    Ended (World B) Failure (UUID × MemberRole) :=
  (provisionOwner host payload names).alone id d.core

/-- `provision_account_tenant`: the call, its response, and the response's status. -/
def provisionAccountTenant (payload : PublicRegistration) (names : RegistrationNames) :
    RegistrationTx B Unit := do
  let body : TenantProvision := ⟨some names.user, payload.normalizedEmail host, host.strip payload.name,
    payload.identityDocument.map IdentityDocument.issuingCountry⟩
  let answer ← Code.effect (.provisioning (payload.owner host) names.user)
    (fun d => { d with core := (d.provisioned host body names.core).shared })
    fun d => (d.provisioned host body names.core).result
  Code.select .plain fun _ => ()
  Code.require (answer.toOption.isSome = true) (.other "TenantProvisioningError")

/-- `_send_verification`: of the notification service nothing is modelled but that the call can fail. -/
def sendVerification : RegistrationTx B Unit :=
  Code.select .plain fun _ => ()

def register (cfg : RegistrationSettings) (payload : PublicRegistration) (names : RegistrationNames) :
    RegistrationTx B Unit :=
  Code.transaction .plain do
    (addUser host payload names).tryCatch conflicting
    Code.write .plain fun d => { d with roles := d.roles ++ [(names.user, "signature_admin")] }
    identify host cfg payload names
    issueToken names.user "verify_email" cfg.emailVerificationTtl names.token
    provisionAccountTenant host payload names
    sendVerification
    pure ((), .issued names.user "verify_email" names.token)

/-! ## Who registers -/

/-- The identifier stands somewhere in core. -/
def World.Mentions (id : UUID) (w : World B) : Prop :=
  (∃ t, w.tenants.get? id = some t) ∨ (∃ a, w.accounts.get? id = some a) ∨
    (∃ m, w.members.get? id = some m) ∨
      ∃ k m, w.members.get? k = some m ∧ (m.tenantId = id ∨ m.authUserUuid = some id)

instance (id : UUID) (w : World B) : Decidable (w.Mentions id) :=
  decidable_of_iff ((w.tenants.get? id).isSome ∨ (w.accounts.get? id).isSome ∨ (w.members.get? id).isSome ∨
    w.members.any fun _ m => m.tenantId = id ∨ m.authUserUuid = some id) (by
      simp only [Option.isSome_iff_exists, Table.any_iff, decide_eq_true_eq, World.Mentions])

/-- The identifiers of a registration that core comes to know. -/
def RegistrationNames.ids (names : RegistrationNames) : List UUID :=
  [names.user, names.core.tenant, names.core.member]

def RegistrationNames.rights (names : RegistrationNames) : Rights DirectoryKey :=
  names.ids.map fun id => (.name id, .exclusive)

abbrev RegistrationSystem (B : Type) := System (Directory B) DirectoryKey RegistrationPoint Failure Unit
abbrev RegistrationLabel (B : Type) := Label (Directory B) DirectoryKey RegistrationPoint Failure Unit
abbrev RegistrationStep (B : Type) := RegistrationSystem B × RegistrationLabel B

def startRegistration (cfg : RegistrationSettings) (payload : PublicRegistration)
    (names : RegistrationNames) : RegistrationLabel B :=
  .start names.rights (register host cfg payload names)

/-- Attempts to register, one after the other or at once. Any statement can fail, and the acknowledgement
    of a commit can be lost; of a call to core the execution can fail, or the response. -/
def registrations (cfg : RegistrationSettings) :
    Setting (Directory B) DirectoryKey RegistrationPoint Failure Unit where
  starts base code d := ∃ (payload : PublicRegistration) (names : RegistrationNames),
    base = names.rights ∧ (∀ id ∈ names.ids, ¬d.core.Mentions id) ∧ code = register host cfg payload names
  env d d' := ∃ now, d' = { d with core := { d.core with clock := now } }
  lossy := True

end Rubrica
