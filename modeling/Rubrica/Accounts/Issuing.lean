import Rubrica.Accounts.Registration
import Rubrica.Sessions.Service
import Rubrica.Transactions.Parts

set_option autoImplicit false

/-! # Who issues and who consumes account tokens

The methods of `AccountService` besides `register`. Those that issue a token use the tables of the directory,
those that consume one the tables of the sessions: each runs over its part of the service's database. -/

namespace Rubrica

open Transactions

variable {B Page : Type} (host : Host B Page)

/-! ## Issuing -/

structure AccountSettings where
  registration : RegistrationSettings
  passwordResetTtl : Int

structure InternalMemberInvitation where
  name : String
  email : String
  identityDocument : IdentityDocument
  deriving DecidableEq, Repr

structure InternalMemberInvitationResult where
  userId : UUID
  email : String
  activationSent : Bool
  deriving DecidableEq, Repr

/-- The user that is added for an invitation is one like a registration's. -/
def InternalMemberInvitation.registration (payload : InternalMemberInvitation) : PublicRegistration :=
  ⟨payload.name, payload.email, some payload.identityDocument⟩

/-- `_user_by_email`. -/
def Directory.userByEmail (email : String) (d : Directory B) : Option (UUID × User) :=
  (d.users.select fun _ u => u.email = host.lower (host.strip email)).head?

namespace AccountService

/-- The user who is invited: who has the address, or a new one. -/
def invitedUser (cfg : RegistrationSettings) (payload : InternalMemberInvitation) (names : RegistrationNames)
    (found : Option (UUID × User)) : RegistrationTx B (UUID × User) :=
  match found with
  | some user => pure user
  | none => do
    addUser host payload.registration names
    Code.write .plain fun d => { d with roles := d.roles ++ [(names.user, "signature_operator")] }
    flushIdentifier names.identifier ⟨names.user, payload.identityDocument.identifierType,
      payload.identityDocument.issuingCountry,
      host.hmac cfg.identityHmacKey (host.encode payload.identityDocument.normalized)⟩
    pure (names.user, .registered (payload.registration.normalizedEmail host) names.placeholder)

/-- `_issue_token`, if the user is to have one: was it issued, and the point of the commit. -/
def issueIf (wanted : Bool) (user : UUID) (purpose : String) (ttl : Int) (token : Nat) :
    RegistrationTx B (Bool × RegistrationPoint) :=
  match wanted with
  | true => do
    issueToken user purpose ttl token
    pure (true, .issued user purpose token)
  | false => pure (false, .plain)

/-- `AccountService.invite_member`. -/
def inviteMember (cfg : AccountSettings) (payload : InternalMemberInvitation) (names : RegistrationNames) :
    RegistrationTx B InternalMemberInvitationResult := do
  let result ← Code.transaction .plain do
    let found ← Code.select .plain (Directory.userByEmail host payload.email)
    let user ← invitedUser host cfg.registration payload names found
    let sent ← issueIf (!user.2.isActive) user.1 "verify_email" cfg.registration.emailVerificationTtl names.token
    pure (⟨user.1, user.2.email, sent.1⟩, sent.2)
  Code.onlyIf (result.activationSent = true) sendVerification
  pure result

/-- A token for the user with an address, unless there is none or the method refuses. -/
def requestToken (email : String) (refuses : User → Bool) (purpose : String) (ttl : Int) (token : Nat) :
    RegistrationTx B Unit := do
  let sent ← Code.transaction .plain do
    let found ← Code.select .plain (Directory.userByEmail host email)
    match found with
    | none => pure (false, .plain)
    | some user => issueIf (!refuses user.2) user.1 purpose ttl token
  Code.onlyIf (sent = true) sendVerification

def requestEmailVerification (cfg : AccountSettings) (email : String) (token : Nat) : RegistrationTx B Unit :=
  requestToken host email (fun u => u.emailVerified) "verify_email" cfg.registration.emailVerificationTtl token

def requestPasswordRecovery (cfg : AccountSettings) (email : String) (token : Nat) : RegistrationTx B Unit :=
  requestToken host email (fun u => !u.isActive) "reset_password" cfg.passwordResetTtl token

end AccountService

/-! ## The whole service -/

/-- The directory, and what of the service's state is only the sessions'. -/
structure AccountWorld (B : Type) where
  directory : Directory B
  recoveryCodes : Table UUID RecoveryCode
  securityEvents : List (UUID × String)
  redis : Redis
  history : List AuthEvent

/-- Rows and names, whichever part they belong to. -/
inductive AccountKey where
  | accountToken (hash : Nat)
  /-- The digest of a token that is to be issued. -/
  | newToken (hash : Nat)
  | directory (key : DirectoryKey)
  | auth (key : AuthKey)
  deriving DecidableEq, Repr

inductive AccountPoint where
  | plain
  | issued (user : UUID) (purpose : String) (token : Nat)
  /-- The commit of the consumption of a token. -/
  | accepted (token : Nat) (purpose : String)
  deriving DecidableEq, Repr

instance instUnmarkedAccount : Unmarked AccountPoint := ⟨.plain⟩

namespace AccountWorld

def clock (w : AccountWorld B) : Int := w.directory.core.clock

def accountTokens (w : AccountWorld B) : Table Nat AccountToken := w.directory.accountTokens

def auth (w : AccountWorld B) : AuthWorld where
  users := w.directory.users
  recoveryCodes := w.recoveryCodes
  accountTokens := w.directory.accountTokens
  securityEvents := w.securityEvents
  clock := w.directory.core.clock
  redis := w.redis
  history := w.history

def setAuth (a : AuthWorld) (w : AccountWorld B) : AccountWorld B where
  directory :=
    { w.directory with
      users := a.users
      accountTokens := a.accountTokens
      core := { w.directory.core with clock := a.clock } }
  recoveryCodes := a.recoveryCodes
  securityEvents := a.securityEvents
  redis := a.redis
  history := a.history

end AccountWorld

def directoryPart : Part (Directory B) (AccountWorld B) where
  get w := w.directory
  set d w := { w with directory := d }
  get_set _ _ := rfl
  set_get _ := rfl
  set_set _ _ _ := rfl

def authPart : Part AuthWorld (AccountWorld B) where
  get := AccountWorld.auth
  set := AccountWorld.setAuth
  get_set _ _ := rfl
  set_get _ := rfl
  set_set _ _ _ := rfl

def DirectoryKey.account : DirectoryKey → AccountKey
  | accountToken hash => .accountToken hash
  | key => .directory key

def AuthKey.account : AuthKey → AccountKey
  | accountToken hash => .accountToken hash
  | key => .auth key

def RegistrationPoint.account : RegistrationPoint → AccountPoint
  | issued user purpose token => .issued user purpose token
  | _ => .plain

/-- The points of a method that consumes a token. -/
def AuthPoint.account (token : Nat) (purpose : String) : AuthPoint → AccountPoint
  | passwordChange _ _ => .accepted token purpose
  | _ => .plain

/-! ## Who may call -/

/-- A call, with what it draws. -/
inductive AccountCall where
  | register (payload : PublicRegistration) (names : RegistrationNames)
  | inviteMember (payload : InternalMemberInvitation) (names : RegistrationNames)
  | requestEmailVerification (email : String) (token : Nat)
  | requestPasswordRecovery (email : String) (token : Nat)
  | verifyEmail (raw : Nat) (newPassword : String) (salt : Nat)
  | resetPassword (raw : Nat) (newPassword : String) (salt : Nat)

abbrev AccountTx (B α : Type) := Code (AccountWorld B) AccountKey AccountPoint Failure α

/-- A program of the directory. -/
def onDirectory {α : Type} (x : RegistrationTx B α) : AccountTx B α :=
  x.zoom directoryPart DirectoryKey.account RegistrationPoint.account

/-- A program of the sessions that consumes a token. -/
def onAuth {α : Type} (token : Nat) (purpose : String) (x : AuthTx α) : AccountTx B α :=
  x.zoom authPart AuthKey.account (AuthPoint.account token purpose)

namespace AccountCall

/-- The token that the call may issue. -/
def token : AccountCall → Option Nat
  | register _ names => some names.token
  | inviteMember _ names => some names.token
  | requestEmailVerification _ token => some token
  | requestPasswordRecovery _ token => some token
  | _ => none

variable (auth : AuthHost) (cfg : AccountSettings)

def run : AccountCall → AccountTx B Unit
  | register payload names => onDirectory (Rubrica.register host cfg.registration payload names)
  | inviteMember payload names =>
      onDirectory (AccountService.inviteMember host cfg payload names) >>= fun _ => pure ()
  | requestEmailVerification email token => onDirectory (AccountService.requestEmailVerification host cfg email token)
  | requestPasswordRecovery email token => onDirectory (AccountService.requestPasswordRecovery host cfg email token)
  | verifyEmail raw newPassword salt =>
      onAuth raw "verify_email" (Rubrica.verifyEmail auth raw newPassword salt) >>= fun _ => pure ()
  | resetPassword raw newPassword salt =>
      onAuth raw "reset_password" (Rubrica.resetPassword auth raw newPassword salt) >>= fun _ => pure ()

/-- The rights a call starts with. -/
def rights (call : AccountCall) : Rights AccountKey :=
  call.token.toList.map fun token => (.newToken token, .exclusive)

end AccountCall

abbrev AccountSystem (B : Type) := System (AccountWorld B) AccountKey AccountPoint Failure Unit
abbrev AccountLabel (B : Type) := Label (AccountWorld B) AccountKey AccountPoint Failure Unit
abbrev AccountStep (B : Type) := AccountSystem B × AccountLabel B

def AccountCall.start (auth : AuthHost) (cfg : AccountSettings) (call : AccountCall) : AccountLabel B :=
  .start call.rights (call.run host auth cfg)

/-- Calls that issue and consume tokens, each token that is issued a new one. Besides them nobody writes tokens. -/
def accountRuns (auth : AuthHost) (cfg : AccountSettings) :
    Setting (AccountWorld B) AccountKey AccountPoint Failure Unit where
  starts base code w := ∃ call : AccountCall, (∀ token ∈ call.token, w.accountTokens.get? token = none) ∧
    Label.start base code = call.start host auth cfg
  env w w' := w'.accountTokens = w.accountTokens
  lossy := True

end Rubrica
