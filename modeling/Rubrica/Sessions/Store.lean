import Mathlib.Data.List.Basic
import Mathlib.Logic.Function.Basic
import Rubrica.Platform
import Rubrica.Transactions.Table

set_option autoImplicit false

/-! # The session store

The tables of the authentication service, and Redis next to them, as its session service uses it. Every
Redis command is one step, the rotation script included. Expiry is not a part of this: a command that
sets a lifetime is a step that changes nothing, and keys lapse where the setting says so. -/

namespace Rubrica

open Transactions

/-! ## Redis -/

/-- The JSON of a session. Session ids and tokens are random; a number stands for one, and for the digest
    that its key is made of. -/
structure SessionState where
  sessionId : Nat
  userId : UUID
  subject : String
  tokenVersion : Int
  accessKey : Nat
  refreshKey : Nat
  deriving DecidableEq, Repr

inductive TokenKind where
  | access
  | refresh
  deriving DecidableEq, Repr

/-- `state.get(f"{kind}_key")`. -/
def SessionState.key (st : SessionState) : TokenKind → Nat
  | .access => st.accessKey
  | .refresh => st.refreshKey

inductive RedisKey where
  | session (id : Nat)
  | token (kind : TokenKind) (token : Nat)
  | usedRefresh (token : Nat)
  | mfa (ticket : Nat)
  | mfaAttempts (ticket : Nat)
  | loginAttempts (email : String)
  | userSessions (user : UUID)
  deriving DecidableEq, Repr

structure Redis where
  sessions : Nat → Option SessionState
  /-- The session of an access or refresh token. -/
  tokens : TokenKind → Nat → Option Nat
  usedRefresh : Nat → Option Nat
  mfa : Nat → Option UUID
  counters : RedisKey → Nat
  /-- Sets, in the order their members were added. -/
  userSessions : UUID → List Nat

namespace Redis

def empty : Redis :=
  ⟨fun _ => none, fun _ _ => none, fun _ => none, fun _ => none, fun _ => 0, fun _ => []⟩

def setSession (st : SessionState) (r : Redis) : Redis :=
  { r with sessions := Function.update r.sessions st.sessionId (some st) }

def setToken (kind : TokenKind) (token session : Nat) (r : Redis) : Redis :=
  { r with tokens := Function.update r.tokens kind (Function.update (r.tokens kind) token (some session)) }

def setUsed (token session : Nat) (r : Redis) : Redis :=
  { r with usedRefresh := Function.update r.usedRefresh token (some session) }

def setMfa (ticket : Nat) (user : UUID) (r : Redis) : Redis :=
  { r with mfa := Function.update r.mfa ticket (some user) }

def incr (key : RedisKey) (r : Redis) : Redis :=
  { r with counters := Function.update r.counters key (r.counters key + 1) }

def sadd (user : UUID) (session : Nat) (r : Redis) : Redis :=
  { r with userSessions := Function.update r.userSessions user ((r.userSessions user).insert session) }

def srem (user : UUID) (session : Nat) (r : Redis) : Redis :=
  { r with
    userSessions := Function.update r.userSessions user ((r.userSessions user).filter (· ≠ session)) }

/-- `DEL`. -/
def delete (keys : List RedisKey) (r : Redis) : Redis where
  sessions id := if .session id ∈ keys then none else r.sessions id
  tokens kind t := if .token kind t ∈ keys then none else r.tokens kind t
  usedRefresh t := if .usedRefresh t ∈ keys then none else r.usedRefresh t
  mfa t := if .mfa t ∈ keys then none else r.mfa t
  counters key := if key ∈ keys then 0 else r.counters key
  userSessions user := if .userSessions user ∈ keys then [] else r.userSessions user

end Redis

/-- The arguments of `_ROTATE_REFRESH_SCRIPT`: `KEYS[1]`, the token of `KEYS[5]`, and the state of
    `ARGV[2]`, which the other keys and the session id are made of. -/
structure Rotation where
  refreshKey : Nat
  used : Nat
  next : SessionState
  deriving DecidableEq, Repr

/-- What the script writes once it has found the session. -/
def Redis.rotated (a : Rotation) (current : SessionState) (r : Redis) : Redis :=
  (((((r.delete [.token .access current.accessKey, .token .refresh a.refreshKey]).setSession a.next).setToken
    .access a.next.accessKey a.next.sessionId).setToken .refresh a.next.refreshKey a.next.sessionId).setUsed
      a.used a.next.sessionId).sadd a.next.userId a.next.sessionId

/-- The session that `_ROTATE_REFRESH_SCRIPT` rotates; `none` where it returns 0. -/
def Redis.rotates (a : Rotation) (r : Redis) : Option SessionState :=
  if r.tokens .refresh a.refreshKey = some a.next.sessionId then
    (r.sessions a.next.sessionId).filter fun current => current.refreshKey = a.refreshKey
  else none

/-- `_ROTATE_REFRESH_SCRIPT`. -/
def Redis.rotate (a : Rotation) (r : Redis) : Redis :=
  match r.rotates a with
  | none => r
  | some current => r.rotated a current

/-! ## Commands -/

/-- A Redis command. `checked` is no argument of it: it tells how many password changes of the user there
    had been when the password was checked that the session, or the ticket, goes back to. -/
inductive Command where
  | incr (key : RedisKey)
  | expire (key : RedisKey)
  | setSession (state : SessionState) (checked : Nat)
  | setToken (kind : TokenKind) (token session : Nat)
  | setMfa (ticket : Nat) (user : UUID) (checked : Nat)
  | sadd (user : UUID) (session : Nat)
  | srem (user : UUID) (session : Nat)
  | delete (keys : List RedisKey)
  | rotate (args : Rotation)
  deriving DecidableEq, Repr

def Command.run : Command → Redis → Redis
  | incr key, r => r.incr key
  | expire _, r => r
  | setSession st _, r => r.setSession st
  | setToken kind token session, r => r.setToken kind token session
  | setMfa ticket user _, r => r.setMfa ticket user
  | sadd user session, r => r.sadd user session
  | srem user session, r => r.srem user session
  | delete keys, r => r.delete keys
  | rotate a, r => r.rotate a

/-! ## Tables -/

/-- What `bcrypt` makes of a password: the salt and the digest, one text in the column. -/
structure PasswordHash where
  salt : Nat
  digest : String
  deriving DecidableEq, Repr

structure User where
  email : String
  emailVerified : Bool
  mfaEnabled : Bool
  mfaSecretCiphertext : Option String
  mfaLastUsedStep : Option Int
  passwordHash : PasswordHash
  tokenVersion : Int
  isActive : Bool
  deriving DecidableEq, Repr

structure AccountToken where
  userId : UUID
  purpose : String
  expiresAt : Int
  consumedAt : Option Int
  deletedAt : Option Int
  deriving DecidableEq, Repr

structure RecoveryCode where
  userId : UUID
  codeHash : PasswordHash
  consumedAt : Option Int
  deletedAt : Option Int
  deriving DecidableEq, Repr

/-- What results about runs look back to; no program depends on it. -/
inductive AuthEvent where
  | ran (c : Command)
  | passwordChanged (user : UUID)
  deriving DecidableEq, Repr

structure AuthWorld where
  users : Table UUID User
  recoveryCodes : Table UUID RecoveryCode
  /-- Under the digest of the token. -/
  accountTokens : Table Nat AccountToken
  securityEvents : List (UUID × String)
  clock : Int
  redis : Redis
  /-- The latest first. -/
  history : List AuthEvent

namespace AuthWorld

def execute (c : Command) (w : AuthWorld) : AuthWorld :=
  { w with redis := c.run w.redis, history := .ran c :: w.history }

/-- The command has been executed. -/
def Ran (c : Command) (w : AuthWorld) : Prop :=
  .ran c ∈ w.history

/-- How many password changes of the user have been committed. -/
def changes (user : UUID) (w : AuthWorld) : Nat :=
  w.history.count (.passwordChanged user)

/-- How many password changes there had been when the password was checked that the ticket is for. -/
def ticketChecked (ticket : Nat) (w : AuthWorld) : Nat :=
  (w.history.findSome? fun
    | .ran (.setMfa t _ checked) => if t = ticket then some checked else none
    | _ => none).getD 0

@[simp] theorem execute_redis (c : Command) (w : AuthWorld) : (w.execute c).redis = c.run w.redis := rfl
@[simp] theorem execute_users (c : Command) (w : AuthWorld) : (w.execute c).users = w.users := rfl
@[simp] theorem execute_history (c : Command) (w : AuthWorld) :
    (w.execute c).history = .ran c :: w.history := rfl

theorem ran_execute_iff {c c' : Command} {w : AuthWorld} : (w.execute c').Ran c ↔ c = c' ∨ w.Ran c := by
  simp [Ran, execute]

theorem changes_execute (c : Command) (user : UUID) (w : AuthWorld) :
    (w.execute c).changes user = w.changes user := by
  simp [changes, execute]

end AuthWorld

/-! ## Names -/

/-- The rows that programs lock, and the names they draw. -/
inductive AuthKey where
  | user (id : UUID)
  | accountToken (hash : Nat)
  | session (id : Nat)
  | token (kind : TokenKind) (token : Nat)
  | ticket (ticket : Nat)
  deriving DecidableEq, Repr

def AuthKey.IsRow : AuthKey → Prop
  | user _ => True
  | accountToken _ => True
  | _ => False

/-- The names that a command brings into use. -/
def Command.names : Command → List AuthKey
  | setSession st _ => [.session st.sessionId]
  | setToken kind token _ => [.token kind token]
  | setMfa ticket _ _ => [.ticket ticket]
  | rotate a => [.token .access a.next.accessKey, .token .refresh a.next.refreshKey]
  | _ => []

namespace AuthWorld

/-- The name has been in use. -/
def Issued (name : AuthKey) (w : AuthWorld) : Prop :=
  ∃ c, w.Ran c ∧ name ∈ c.names

theorem issued_execute_iff {name : AuthKey} {c : Command} {w : AuthWorld} :
    (w.execute c).Issued name ↔ name ∈ c.names ∨ w.Issued name := by
  unfold Issued
  simp only [ran_execute_iff, or_and_right, exists_or, exists_eq_left]

/-- No session has been stored, and no password changed. -/
def Fresh (w : AuthWorld) : Prop :=
  w.redis = .empty ∧ w.history = []

end AuthWorld

end Rubrica
