import Rubrica.Sessions.Store

set_option autoImplicit false

/-! # The session service

`SessionService` and the two methods of `AccountService` that set a password, statement by statement. A
call comes with the names it draws, as many as it may need. User ids are UUIDs, whose texts are never all
digits, so each user has one set of sessions. -/

namespace Rubrica

open Transactions

/-! ## Programs -/

/-- Where in a call a statement stands. -/
inductive AuthPoint where
  /-- A statement without a name. -/
  | plain
  /-- A Redis command that writes. -/
  | command (c : Command)
  /-- Loads the user whose ticket is completed, under a lock. -/
  | completing (ticket : Nat) (user : UUID)
  /-- Commits a password change of the user, who was loaded with this `token_version`. -/
  | passwordChange (user : UUID) (loaded : Int)
  deriving DecidableEq, Repr

abbrev AuthTx (α : Type) := Code AuthWorld AuthKey AuthPoint Failure α

/-- The functions the services call and do not define. -/
structure AuthHost where
  /-- `str.strip`. -/
  strip : String → String
  /-- `str.lower`. -/
  lower : String → String
  /-- `str.upper`. -/
  upper : String → String
  /-- The digest that `bcrypt` makes of a password under a salt; `none` where it raises `ValueError`. -/
  bcrypt : String → Nat → Option String
  /-- `decrypt_secret`, `none` where it raises. -/
  decryptSecret : String → Option String
  /-- `pyotp.TOTP(secret).verify(code, valid_window=1)`, at a time. -/
  totp : String → String → Int → Bool
  /-- `timecode`. -/
  timecode : Int → Int
  /-- The order in which a set is walked. -/
  order : List Nat → List Nat
  order_perm : ∀ members, (order members).Perm members

/-- `verify_password`. -/
def AuthHost.verifyPassword (host : AuthHost) (password : String) (hash : PasswordHash) : Bool :=
  host.bcrypt password hash.salt = some hash.digest

/-- A query of the database. -/
def database {α : Type} (query : AuthWorld → α) : AuthTx α :=
  Code.select .plain query

/-- A Redis command that reads. -/
def fetch {α : Type} (query : Redis → α) : AuthTx α :=
  Code.select .plain fun w => query w.redis

/-- A Redis command that writes; what it answers is read from the state it found. -/
def sendFor {α : Type} (c : Command) (answer : Redis → α) : AuthTx α :=
  Code.effect (.command c) (AuthWorld.execute c) fun w => answer w.redis

def send (c : Command) : AuthTx Unit :=
  sendFor c fun _ => ()

/-- `INCR`, which answers the new value. -/
def incr (key : RedisKey) : AuthTx Nat :=
  sendFor (.incr key) fun r => r.counters key + 1

/-- `DateTimeService.utc_now`. -/
def authClock : AuthTx Int :=
  database fun w => w.clock

/-! ## Answers -/

structure LoginRequest where
  email : String
  password : String

structure LoginResponse where
  accessToken : Nat
  refreshToken : Nat
  sessionId : Nat
  deriving DecidableEq, Repr

structure SessionRead where
  sessionId : Nat
  subject : String
  deriving DecidableEq, Repr

/-- What a call returns. -/
inductive AuthAnswer where
  | loggedIn (response : LoginResponse)
  | challenge (ticket : Nat)
  | refreshed (response : LoginResponse)
  | session (read : SessionRead)
  /-- `None`. -/
  | nothing
  | done (b : Bool)
  | passwordSet
  deriving DecidableEq, Repr

/-- The session whose token the call accepted. -/
def AuthAnswer.accepted : AuthAnswer → Option Nat
  | refreshed response => some response.sessionId
  | session read => some read.sessionId
  | _ => none

/-! ## Sessions -/

/-- The id and the tokens that are drawn for a session. -/
structure SessionNames where
  session : Nat
  access : Nat
  refresh : Nat
  deriving DecidableEq, Repr

/-- `_store_session`. -/
def storeSession (st : SessionState) (checked : Nat) : AuthTx LoginResponse := do
  send (.setSession st checked)
  send (.setToken .access st.accessKey st.sessionId)
  send (.setToken .refresh st.refreshKey st.sessionId)
  send (.sadd st.userId st.sessionId)
  send (.expire (.userSessions st.userId))
  pure ⟨st.accessKey, st.refreshKey, st.sessionId⟩

/-- `_create_session`. -/
def createSession (names : SessionNames) (id : UUID) (user : User) (checked : Nat) : AuthTx AuthAnswer := do
  let response ← storeSession
    ⟨names.session, id, user.email, user.tokenVersion, names.access, names.refresh⟩ checked
  pure (.loggedIn response)

/-- `_create_mfa_challenge`. -/
def createMfaChallenge (ticket : Nat) (id : UUID) (checked : Nat) : AuthTx AuthAnswer := do
  send (.setMfa ticket id checked)
  pure (.challenge ticket)

/-- `_load_state`. -/
def loadState (session : Option Nat) : AuthTx (Option SessionState) :=
  match session with
  | none => pure none
  | some id => fetch fun r => r.sessions id

/-- `_state_for_token`. -/
def stateForToken (kind : TokenKind) (token : Nat) : AuthTx (Option SessionState) := do
  let session ← fetch fun r => r.tokens kind token
  let state ← loadState session
  pure (state.filter fun st => st.key kind = token)

/-- `_revoke_state`. -/
def revokeState (st : SessionState) : AuthTx Unit := do
  send (.delete [.token .access st.accessKey, .token .refresh st.refreshKey, .session st.sessionId])
  send (.srem st.userId st.sessionId)

/-- Revoke a session that may be gone. -/
def revokeStored (stored : Option SessionState) : AuthTx Unit :=
  match stored with
  | none => pure ()
  | some st => revokeState st

/-- Is the session's user active, with the `token_version` of the session? -/
def AuthWorld.isCurrent (st : SessionState) (w : AuthWorld) : Bool :=
  match w.users.get? st.userId with
  | none => false
  | some user => user.isActive && user.tokenVersion = st.tokenVersion

/-- `_user_is_active`. -/
def userIsActive (st : SessionState) : AuthTx Bool :=
  database fun w => w.isCurrent st

/-! ## Multi-factor authentication -/

/-- `MfaService.audit`. -/
def mfaAudit (id : UUID) (action : String) : AuthTx Unit :=
  Code.write .plain fun w => { w with securityEvents := w.securityEvents ++ [(id, action)] }

section Host

variable (host : AuthHost)

/-- `code.replace("-", "").replace(" ", "").upper()`. -/
def AuthHost.normalizeCode (code : String) : String :=
  host.upper (String.ofList (code.toList.filter fun c => c ≠ '-' && c ≠ ' '))

/-- `verify_user_code`, where the code is not a TOTP of the user. -/
def verifyRecoveryCode (id : UUID) (code : String) : AuthTx Bool := do
  let rows ← database fun w => w.recoveryCodes.select fun _ r =>
    r.userId = id && r.consumedAt.isNone && r.deletedAt.isNone
  match rows.find? fun x => host.verifyPassword code x.2.codeHash with
  | none => pure false
  | some (key, _) => do
    let now ← authClock
    Code.write .plain fun w =>
      { w with recoveryCodes := w.recoveryCodes.update key fun r => { r with consumedAt := some now } }
    pure true

/-- `verify_user_code`, where the code is a TOTP of the user. -/
def verifyStep (id : UUID) (user : User) : AuthTx Bool := do
  let now ← authClock
  if user.mfaLastUsedStep.any fun last => host.timecode now ≤ last then pure false
  else do
    Code.write .plain fun w =>
      { w with users := w.users.update id fun u =>
          { u with mfaLastUsedStep := some (host.timecode now) } }
    pure true

/-- `verify_user_code`. -/
def verifyUserCode (id : UUID) (user : User) (code : String) : AuthTx Bool :=
  match present user.mfaSecretCiphertext with
  | none => verifyRecoveryCode host id (host.normalizeCode code)
  | some ciphertext => do
    let secret ← Code.orRaise (host.decryptSecret ciphertext) (Failure.other "InvalidToken")
    let now ← authClock
    if host.totp secret (host.normalizeCode code) now then verifyStep host id user
    else verifyRecoveryCode host id (host.normalizeCode code)

/-! ## Calls -/

/-- `login`, for a user that was found, or not. -/
def loginUser (password : String) (rateKey : RedisKey) (names : SessionNames) (ticket : Nat)
    (found : Option (UUID × User × Nat)) : AuthTx AuthAnswer :=
  match found with
  | none => pure .nothing
  | some (id, user, checked) =>
    if !user.isActive || !user.emailVerified then pure .nothing
    else if !host.verifyPassword password user.passwordHash then pure .nothing
    else do
      send (.delete [rateKey])
      if user.mfaEnabled then createMfaChallenge ticket id checked
      else createSession names id user checked

/-- The user of an e-mail, and how many password changes of the user there have been. -/
def AuthWorld.userByEmail (email : String) (w : AuthWorld) : Option (UUID × User × Nat) :=
  (w.users.select fun _ u => u.email = email).head?.map fun x => (x.1, x.2, w.changes x.1)

def login (payload : LoginRequest) (names : SessionNames) (ticket : Nat) : AuthTx AuthAnswer := do
  let email := host.lower (host.strip payload.email)
  let attempts ← incr (.loginAttempts email)
  Code.onlyIf (attempts = 1) (send (.expire (.loginAttempts email)))
  if 10 < attempts then pure .nothing
  else do
    let found ← database fun w => w.userByEmail email
    loginUser host payload.password (.loginAttempts email) names ticket found

/-- `complete_mfa_challenge`, once the code is verified, or not. -/
def concludeMfa (ticket : Nat) (names : SessionNames) (id : UUID) (user : User) (attempts checked : Nat)
    (verified : Bool) : AuthTx AuthAnswer :=
  if !verified then do
    mfaAudit id "mfa.challenge_failed"
    Code.onlyIf (5 ≤ attempts) (send (.delete [.mfa ticket, .mfaAttempts ticket]))
    pure .nothing
  else do
    mfaAudit id "mfa.challenge_succeeded"
    send (.delete [.mfa ticket, .mfaAttempts ticket])
    createSession names id user checked

/-- `complete_mfa_challenge`, for a user that was found, or not. -/
def completeMfaFor (ticket : Nat) (code : String) (names : SessionNames) (id : UUID) (attempts : Nat)
    (found : Option User × Nat) : AuthTx AuthAnswer :=
  match found.1 with
  | none => pure .nothing
  | some user =>
    if !user.isActive || !user.emailVerified || !user.mfaEnabled then pure .nothing
    else do
      let verified ← verifyUserCode host id user code
      concludeMfa ticket names id user attempts found.2 verified

/-- `complete_mfa_challenge`, for the user of the ticket, if it has one. -/
def completeMfaOf (ticket : Nat) (code : String) (names : SessionNames) (attempts : Nat)
    (user : Option UUID) : AuthTx AuthAnswer :=
  match user with
  | none => pure .nothing
  | some id => Code.transaction .plain do
    let found ← Code.selectLocking (.completing ticket id) .exclusive
      (fun w => (w.users.get? id).map fun _ => .user id)
      (fun w => (w.users.get? id, w.ticketChecked ticket))
    let answer ← completeMfaFor host ticket code names id attempts found
    pure (answer, .plain)

def completeMfaChallenge (ticket : Nat) (code : String) (names : SessionNames) : AuthTx AuthAnswer := do
  let attempts ← incr (.mfaAttempts ticket)
  Code.onlyIf (attempts = 1) (send (.expire (.mfaAttempts ticket)))
  if 5 < attempts then do
    send (.delete [.mfa ticket, .mfaAttempts ticket])
    pure .nothing
  else do
    let user ← fetch fun r => r.mfa ticket
    completeMfaOf host ticket code names attempts user

/-- `refresh`, for a token without a session: it may have been used. -/
def refreshUsed (token : Nat) : AuthTx AuthAnswer := do
  let used ← fetch fun r => r.usedRefresh token
  let reused ← loadState used
  revokeStored reused
  pure .nothing

/-- `refresh`, for a session whose user is active. -/
def rotateSession (token access next : Nat) (st : SessionState) : AuthTx AuthAnswer := do
  let args : Rotation := ⟨st.refreshKey, token, { st with accessKey := access, refreshKey := next }⟩
  let rotated ← sendFor (.rotate args) fun r => (r.rotates args).isSome
  pure (if rotated then .refreshed ⟨access, next, st.sessionId⟩ else .nothing)

/-- `refresh`, for a token with a session. -/
def refreshState (token access next : Nat) (st : SessionState) : AuthTx AuthAnswer := do
  let active ← userIsActive st
  if !active then do
    revokeState st
    pure .nothing
  else rotateSession token access next st

def refresh (token access next : Nat) : AuthTx AuthAnswer := do
  let state ← stateForToken .refresh token
  match state with
  | none => refreshUsed token
  | some st => refreshState token access next st

/-- `current_session`, for a token with a session. -/
def currentState (st : SessionState) : AuthTx AuthAnswer := do
  let active ← userIsActive st
  pure (if active then .session ⟨st.sessionId, st.subject⟩ else .nothing)

def currentSession (token : Nat) : AuthTx AuthAnswer := do
  let state ← stateForToken .access token
  match state with
  | none => pure .nothing
  | some st => currentState st

def logout (token : Nat) : AuthTx AuthAnswer := do
  let state ← stateForToken .access token
  match state with
  | none => pure (.done false)
  | some st => do
    revokeState st
    pure (.done true)

/-- The loop of `logout_all`. -/
def revokeSessions : List Nat → AuthTx Unit
  | [] => pure ()
  | id :: rest => do
    let stored ← loadState (some id)
    revokeStored stored
    revokeSessions rest

/-- `logout_all`, for a token with a session. -/
def logoutAllOf (st : SessionState) : AuthTx AuthAnswer := do
  let members ← fetch fun r => r.userSessions st.userId
  revokeSessions (host.order members)
  send (.delete [.userSessions st.userId])
  pure (.done true)

def logoutAll (token : Nat) : AuthTx AuthAnswer := do
  let state ← stateForToken .access token
  match state with
  | none => pure (.done false)
  | some st => logoutAllOf host st

/-! ## Passwords -/

/-- A token that can still be used. -/
def AuthWorld.liveToken (raw : Nat) (purpose : String) (now : Int) (w : AuthWorld) : Option AccountToken :=
  (w.accountTokens.get? raw).filter fun t =>
    t.purpose = purpose && t.consumedAt.isNone && now < t.expiresAt && t.deletedAt.isNone

def invalidAccountToken : Failure :=
  .other "InvalidAccountTokenError"

/-- `_consume_token`. -/
def consumeToken (raw : Nat) (purpose : String) : AuthTx AccountToken := do
  let now ← authClock
  let found ← Code.selectLocking .plain .exclusive
    (fun w => (w.liveToken raw purpose now).map fun _ => .accountToken raw)
    (fun w => w.liveToken raw purpose now)
  let token ← Code.orRaise found invalidAccountToken
  let now ← authClock
  Code.write .plain fun w =>
    { w with accountTokens := w.accountTokens.update raw fun t => { t with consumedAt := some now } }
  pure token

/-- What `UPDATE` makes of a user's row, for an object that was loaded and then changed. -/
def User.flush (loaded value row : User) : User :=
  { row with
    emailVerified := written loaded.emailVerified value.emailVerified row.emailVerified,
    passwordHash := written loaded.passwordHash value.passwordHash row.passwordHash,
    tokenVersion := written loaded.tokenVersion value.tokenVersion row.tokenVersion,
    isActive := written loaded.isActive value.isActive row.isActive }

def AuthWorld.changePassword (id : UUID) (loaded value : User) (w : AuthWorld) : AuthWorld :=
  { w with
    users := w.users.update id (loaded.flush value),
    history := .passwordChanged id :: w.history }

/-- A new password for the user of a token: `change` is what the method sets besides. -/
def setPassword (purpose : String) (change : User → User) (raw : Nat) (newPassword : String) (salt : Nat) :
    AuthTx AuthAnswer :=
  Code.transaction .plain do
    let token ← consumeToken raw purpose
    let found ← database fun w => w.users.get? token.userId
    let user ← Code.orRaise found invalidAccountToken
    let digest ← Code.orRaise (host.bcrypt newPassword salt) (Failure.other "ValueError")
    -- `UPDATE` locks the row; the object was loaded without a lock.
    let _ ← Code.selectLocking .plain .exclusive
      (fun w => (w.users.get? token.userId).map fun _ => .user token.userId) fun _ => ()
    Code.write .plain (AuthWorld.changePassword token.userId user (change
      { user with passwordHash := ⟨salt, digest⟩, tokenVersion := user.tokenVersion + 1 }))
    pure (.passwordSet, .passwordChange token.userId user.tokenVersion)

def resetPassword (raw : Nat) (newPassword : String) (salt : Nat) : AuthTx AuthAnswer :=
  setPassword host "reset_password" id raw newPassword salt

def verifyEmail (raw : Nat) (newPassword : String) (salt : Nat) : AuthTx AuthAnswer :=
  setPassword host "verify_email" (fun user => { user with emailVerified := true, isActive := true }) raw
    newPassword salt

/-! ## Who may call -/

/-- A call, with the names it draws. -/
inductive AuthCall where
  | login (payload : LoginRequest) (names : SessionNames) (ticket : Nat)
  | completeMfaChallenge (ticket : Nat) (code : String) (names : SessionNames)
  | refresh (token access next : Nat)
  | currentSession (token : Nat)
  | logout (token : Nat)
  | logoutAll (token : Nat)
  | resetPassword (raw : Nat) (newPassword : String) (salt : Nat)
  | verifyEmail (raw : Nat) (newPassword : String) (salt : Nat)

def SessionNames.keys (names : SessionNames) : List AuthKey :=
  [.session names.session, .token .access names.access, .token .refresh names.refresh]

namespace AuthCall

def names : AuthCall → List AuthKey
  | login _ names ticket => .ticket ticket :: names.keys
  | completeMfaChallenge _ _ names => names.keys
  | refresh _ access next => [.token .access access, .token .refresh next]
  | _ => []

def run : AuthCall → AuthTx AuthAnswer
  | login payload names ticket => Rubrica.login host payload names ticket
  | completeMfaChallenge ticket code names => Rubrica.completeMfaChallenge host ticket code names
  | refresh token access next => Rubrica.refresh token access next
  | currentSession token => Rubrica.currentSession token
  | logout token => Rubrica.logout token
  | logoutAll token => Rubrica.logoutAll host token
  | resetPassword raw newPassword salt => Rubrica.resetPassword host raw newPassword salt
  | verifyEmail raw newPassword salt => Rubrica.verifyEmail host raw newPassword salt

/-- The rights a call starts with. -/
def rights (call : AuthCall) : Rights AuthKey :=
  call.names.map fun name => (name, .exclusive)

end AuthCall

end Host

abbrev AuthSystem := System AuthWorld AuthKey AuthPoint Failure AuthAnswer
abbrev AuthLabel := Label AuthWorld AuthKey AuthPoint Failure AuthAnswer
abbrev AuthStep := AuthSystem × AuthLabel

end Rubrica
