import Rubrica.Sessions.Calls
import Rubrica.Transactions.Abiding

set_option autoImplicit false

/-! # Who a session belongs to

A session is stored by a call that has checked a password, and a code where the user has a second factor, or it is
a stored session under new tokens. `Evidence` is what a run tells of its calls; `Evidence.Earned` says of the state
of a session how it came about, back to the login. Every call of the session service keeps Redis to what the
evidence bears out, whatever else happens to the tables. -/

namespace Rubrica

open Transactions

abbrev AuthDeed := Deed AuthWorld AuthPoint

/-- What a run tells of its calls: which call a session makes, in which states its statements are executed, and the
    commands that it sends. -/
structure Evidence where
  called : Nat → AuthCall → Prop
  seen : Nat → AuthWorld → Prop
  sent : Nat → Command → Prop

/-- The session that the command stores. -/
def Command.stores : Command → Option SessionState
  | setSession st _ => some st
  | rotate a => some a.next
  | _ => none

/-- The session that the deed stores. -/
def sessionStoredBy (d : AuthDeed) : Option SessionState :=
  match d.point with
  | .command c => c.stores
  | _ => none

/-- What `_store_session` makes of the names, for a user. -/
def SessionNames.state (names : SessionNames) (id : UUID) (user : User) : SessionState :=
  ⟨names.session, id, user.email, user.tokenVersion, names.access, names.refresh⟩

/-- The session under new tokens. -/
def SessionState.under (st : SessionState) (access refresh : Nat) : SessionState :=
  { st with
    accessKey := access,
    refreshKey := refresh }

namespace Evidence

variable (host : AuthHost) (V : Evidence) (i : Nat)

/-! ## What was checked -/

/-- The call found the user of the e-mail, active and verified, and the password is the user's. -/
def PasswordChecked (payload : LoginRequest) (id : UUID) (user : User) : Prop :=
  ∃ w n, V.seen i w ∧ w.userByEmail (host.lower (host.strip payload.email)) = some (id, user, n) ∧
    user.isActive = true ∧ user.emailVerified = true ∧
    host.verifyPassword payload.password user.passwordHash = true

/-- The code is the user's: a TOTP of a time step after the last one that was used, or a recovery code that has not
    been used. -/
inductive CodeMatches (id : UUID) (user : User) (code : String) : Prop where
  | totp (ciphertext secret : String) (w w' : AuthWorld) (stored : present user.mfaSecretCiphertext = some ciphertext)
      (decrypted : host.decryptSecret ciphertext = some secret) (seen : V.seen i w)
      (valid : host.totp secret (host.normalizeCode code) w.clock = true) (later : V.seen i w')
      (unused : ∀ last, user.mfaLastUsedStep = some last → last < host.timecode w'.clock)
  | recovery (w : AuthWorld) (key : UUID) (row : RecoveryCode) (seen : V.seen i w)
      (found : w.recoveryCodes.get? key = some row) (own : row.userId = id) (unused : row.consumedAt = none)
      (live : row.deletedAt = none)
      (valid : host.verifyPassword (host.normalizeCode code) row.codeHash = true)

/-- The call found the user, active, verified and with a second factor, and the code is the user's. -/
def CodeChecked (id : UUID) (user : User) (code : String) : Prop :=
  ∃ w, V.seen i w ∧ w.users.get? id = some user ∧ user.isActive = true ∧ user.emailVerified = true ∧
    user.mfaEnabled = true ∧ V.CodeMatches host i id user code

/-- A login gave the ticket out, which checked the password of a user with a second factor. -/
def TicketEarned (ticket : Nat) (id : UUID) : Prop :=
  ∃ j payload names user, V.called j (.login payload names ticket) ∧ V.PasswordChecked host j payload id user ∧
    user.mfaEnabled = true

/-- The call may open the session. -/
inductive Opens : SessionState → Prop where
  | password (payload : LoginRequest) (names : SessionNames) (ticket : Nat) (id : UUID) (user : User)
      (called : V.called i (.login payload names ticket)) (checked : V.PasswordChecked host i payload id user)
      (single : user.mfaEnabled = false) : Opens (names.state id user)
  | code (ticket : Nat) (code : String) (names : SessionNames) (id : UUID) (user : User)
      (called : V.called i (.completeMfaChallenge ticket code names)) (ticketed : V.TicketEarned host ticket id)
      (checked : V.CodeChecked host i id user code) : Opens (names.state id user)

/-- How a session came about: a call opened it, and its refresh token was exchanged, each time by a call that was
    given the token and found the user active, with the `token_version` of the session. -/
inductive Earned : SessionState → Prop where
  | opened (j : Nat) (st : SessionState) (n : Nat) (opens : V.Opens host j st) (sent : V.sent j (.setSession st n)) :
      Earned st
  | renewed (j : Nat) (st : SessionState) (access next : Nat) (w : AuthWorld) (earned : Earned st)
      (called : V.called j (.refresh st.refreshKey access next)) (seen : V.seen j w) (current : w.isCurrent st = true)
      (sent : V.sent j (.rotate ⟨st.refreshKey, st.refreshKey, st.under access next⟩)) :
      Earned (st.under access next)

/-! ## What the evidence bears out -/

/-- What a call needs for a command. -/
def Due : Command → Prop
  | .setSession st _ => V.Opens host i st
  | .setMfa ticket id _ => V.TicketEarned host ticket id
  | .rotate a => ∃ st access next w, V.Earned host st ∧ V.called i (.refresh st.refreshKey access next) ∧
      V.seen i w ∧ w.isCurrent st = true ∧ a = ⟨st.refreshKey, st.refreshKey, st.under access next⟩
  | _ => True

/-- What a call may do: send a command that it has what it needs for, and store a session once; or leave Redis
    alone. -/
def Permits (l : List AuthDeed) (d : AuthDeed) : Prop :=
  match d.point with
  | .command c =>
      d.after = d.before.execute c ∧ V.Due host i c ∧ (c.stores ≠ none → ∀ d' ∈ l, sessionStoredBy d' = none)
  | _ => d.after.redis = d.before.redis

/-- What Redis has is borne out by the evidence. -/
structure Known (r : Redis) : Prop where
  sessions : ∀ id st, r.sessions id = some st → st.sessionId = id ∧ V.Earned host st
  tickets : ∀ ticket id, r.mfa ticket = some id → V.TicketEarned host ticket id

variable {host V i} {r : Redis}

theorem known_empty : V.Known host .empty := by
  constructor
  · intro id st h
    exact absurd h (by simp [Redis.empty])
  · intro ticket id h
    exact absurd h (by simp [Redis.empty])

theorem Known.delete (h : V.Known host r) (keys : List RedisKey) : V.Known host (r.delete keys) := by
  constructor
  · intro id st hst
    have hold : r.sessions id = some st := by
      simp only [Redis.delete] at hst
      split at hst
      · exact absurd hst (by simp)
      · exact hst
    exact h.sessions id st hold
  · intro ticket id hticket
    have hold : r.mfa ticket = some id := by
      simp only [Redis.delete] at hticket
      split at hticket
      · exact absurd hticket (by simp)
      · exact hticket
    exact h.tickets ticket id hold

/-- A session that is stored has been earned. -/
theorem Known.store {st : SessionState} (h : V.Known host r) (hst : V.Earned host st) {r' : Redis}
    (hsessions : ∀ id, r'.sessions id = if id = st.sessionId then some st else r.sessions id)
    (htickets : r'.mfa = r.mfa) : V.Known host r' := by
  constructor
  · intro id st' hst'
    rw [hsessions] at hst'
    split at hst'
    · next hid =>
        obtain rfl := Option.some.inj hst'
        exact ⟨hid.symm, hst⟩
    · exact h.sessions id st' hst'
  · rw [htickets]
    exact h.tickets

/-- A command that was due, and sent, leaves what the evidence bears out. -/
theorem Known.run {c : Command} (h : V.Known host r) (hdue : V.Due host i c) (hsent : V.sent i c) :
    V.Known host (c.run r) := by
  cases c with
  | setSession st n =>
      refine h.store (.opened i st n hdue hsent) (fun id => ?_) rfl
      simp [Command.run, Redis.setSession, Function.update_apply]
  | setMfa ticket id n =>
      refine ⟨h.sessions, fun ticket' id' hticket => ?_⟩
      simp only [Command.run, Redis.setMfa, Function.update_apply] at hticket
      split at hticket
      · next heq =>
          obtain rfl := Option.some.inj hticket
          exact heq ▸ hdue
      · exact h.tickets ticket' id' hticket
  | rotate a =>
      obtain ⟨st, access, next, w, hearned, hcalled, hseen, hcurrent, rfl⟩ := hdue
      show V.Known host (r.rotate _)
      cases hrotates : r.rotates ⟨st.refreshKey, st.refreshKey, st.under access next⟩ with
      | none =>
          rw [Redis.rotate_of_none hrotates]
          exact h
      | some current =>
          rw [Redis.rotate_of_some hrotates]
          refine h.store (.renewed i st access next w hearned hcalled hseen hcurrent hsent) (fun id => ?_) rfl
          exact Redis.rotated_sessions id
  | delete keys => exact h.delete keys
  | _ => exact ⟨h.sessions, h.tickets⟩

/-! ## Statements -/

/-- What a call knows at each of its statements. -/
def Knows (host : AuthHost) (V : Evidence) (i : Nat) (w : AuthWorld) : Prop :=
  V.Known host w.redis ∧ V.seen i w

/-- In session `i` the program does what the evidence permits. -/
abbrev Keeps {α : Type} (host : AuthHost) (V : Evidence) (i : Nat) (x : AuthTx α)
    (Q : α → (AuthWorld → AuthWorld) → List AuthDeed → Prop) (u : AuthWorld → AuthWorld) (l : List AuthDeed) : Prop :=
  x.abides (fun _ => V.Knows host i) (V.Permits host i) Q (fun _ _ _ => True) u l

/-- The writes that wait for a commit are not of Redis. -/
def LeavesRedis (u : AuthWorld → AuthWorld) : Prop :=
  ∀ w, (u w).redis = w.redis

/-- No session has been stored. -/
def Unstored (l : List AuthDeed) : Prop :=
  ∀ d ∈ l, sessionStoredBy d = none

theorem leavesRedis_id : LeavesRedis id := fun _ => rfl

theorem LeavesRedis.comp {f u : AuthWorld → AuthWorld} (hf : LeavesRedis f) (hu : LeavesRedis u) :
    LeavesRedis (f ∘ u) :=
  fun w => (hf (u w)).trans (hu w)

section Programs

variable {α : Type} {Q : α → (AuthWorld → AuthWorld) → List AuthDeed → Prop} {u : AuthWorld → AuthWorld}
  {l : List AuthDeed} {c : Command}

theorem keeps_fetch {query : Redis → α} (hu : LeavesRedis u)
    (hQ : ∀ w, V.Known host w.redis → V.seen i w → Q (query w.redis) u l) : V.Keeps host i (fetch query) Q u l := by
  refine Code.abides_select (fun w hw => ?_) trivial
  rw [hu w]
  exact hQ w hw.1 hw.2

/-- A command that stores no session. -/
theorem keeps_sendFor {answer : Redis → α} (hu : LeavesRedis u) (hdue : V.Due host i c) (hc : c.stores = none)
    (hQ : ∀ (w : AuthWorld) l', (Unstored l → Unstored l') → Q (answer w.redis) u l') :
    V.Keeps host i (sendFor c answer) Q u l := by
  refine Code.abides_effect (fun w _ => ⟨⟨rfl, hdue, fun h => absurd hc h⟩, ?_⟩) trivial
  rw [hu w]
  refine hQ w _ fun hl d hd => ?_
  rcases List.mem_append.1 hd with hd | hd
  · exact hl d hd
  · obtain rfl := List.mem_singleton.1 hd
    exact hc

/-- A command that stores the first session of the call. -/
theorem keeps_storing {answer : Redis → α} (hu : LeavesRedis u) (hdue : V.Due host i c) (hl : Unstored l)
    (hQ : ∀ (w : AuthWorld) l', Q (answer w.redis) u l') : V.Keeps host i (sendFor c answer) Q u l := by
  refine Code.abides_effect (fun w _ => ⟨⟨rfl, hdue, fun _ => hl⟩, ?_⟩) trivial
  rw [hu w]
  exact hQ w _

theorem keeps_sendIf {p : Prop} [Decidable p] {Q : Unit → (AuthWorld → AuthWorld) → List AuthDeed → Prop}
    (hu : LeavesRedis u) (hdue : V.Due host i c) (hc : c.stores = none)
    (hQ : ∀ l', (Unstored l → Unstored l') → Q () u l') : V.Keeps host i (Code.onlyIf p (send c)) Q u l := by
  unfold Code.onlyIf
  split
  · exact keeps_sendFor hu hdue hc fun _ => hQ
  · exact hQ l id

/-! ## Sessions -/

theorem keeps_storeSession {st : SessionState} {n : Nat}
    {Q : LoginResponse → (AuthWorld → AuthWorld) → List AuthDeed → Prop} (hu : LeavesRedis u) (hl : Unstored l)
    (hst : V.Opens host i st) (hQ : ∀ l', Q ⟨st.accessKey, st.refreshKey, st.sessionId⟩ u l') :
    V.Keeps host i (storeSession st n) Q u l := by
  refine Code.abides_bind.2 (keeps_storing hu hst hl fun _ l => ?_)
  refine Code.abides_bind.2 (keeps_sendFor hu trivial rfl fun _ l _ => ?_)
  refine Code.abides_bind.2 (keeps_sendFor hu trivial rfl fun _ l _ => ?_)
  refine Code.abides_bind.2 (keeps_sendFor hu trivial rfl fun _ l _ => ?_)
  exact Code.abides_bind.2 (keeps_sendFor hu trivial rfl fun _ l _ => hQ l)

theorem keeps_createSession {names : SessionNames} {id : UUID} {user : User} {n : Nat}
    {Q : AuthAnswer → (AuthWorld → AuthWorld) → List AuthDeed → Prop} (hu : LeavesRedis u) (hl : Unstored l)
    (hst : V.Opens host i (names.state id user)) (hQ : ∀ a l', Q a u l') :
    V.Keeps host i (createSession names id user n) Q u l :=
  Code.abides_bind.2 (keeps_storeSession hu hl hst fun l' => hQ _ l')

theorem keeps_loadState {session : Option Nat}
    {Q : Option SessionState → (AuthWorld → AuthWorld) → List AuthDeed → Prop} (hu : LeavesRedis u)
    (hnone : Q none u l) (hsome : ∀ st, V.Earned host st → Q (some st) u l) :
    V.Keeps host i (loadState session) Q u l := by
  cases session with
  | none => exact hnone
  | some id =>
      show V.Keeps host i (fetch fun r => r.sessions id) Q u l
      refine keeps_fetch hu fun w hknown _ => ?_
      cases h : w.redis.sessions id with
      | none => exact hnone
      | some st => exact hsome st (hknown.sessions id st h).2

theorem keeps_stateForToken {kind : TokenKind} {token : Nat}
    {Q : Option SessionState → (AuthWorld → AuthWorld) → List AuthDeed → Prop} (hu : LeavesRedis u)
    (hnone : Q none u l) (hsome : ∀ st, V.Earned host st → st.key kind = token → Q (some st) u l) :
    V.Keeps host i (stateForToken kind token) Q u l := by
  refine Code.abides_bind.2 (keeps_fetch hu fun w _ _ => ?_)
  refine Code.abides_bind.2 (keeps_loadState hu hnone fun st hst => ?_)
  show Q ((some st).filter fun st => st.key kind = token) u l
  cases h : (some st).filter fun st => decide (st.key kind = token) with
  | none => exact hnone
  | some st' =>
      obtain ⟨hst', hkey⟩ := Option.filter_eq_some_iff.1 h
      obtain rfl := Option.some.inj hst'
      exact hsome st hst (of_decide_eq_true hkey)

theorem keeps_revokeState {st : SessionState} {Q : Unit → (AuthWorld → AuthWorld) → List AuthDeed → Prop}
    (hu : LeavesRedis u) (hQ : ∀ l', Q () u l') : V.Keeps host i (revokeState st) Q u l := by
  refine Code.abides_bind.2 (keeps_sendFor hu trivial rfl fun _ l _ => ?_)
  exact keeps_sendFor hu trivial rfl fun _ l' _ => hQ l'

theorem keeps_revokeStored {stored : Option SessionState}
    {Q : Unit → (AuthWorld → AuthWorld) → List AuthDeed → Prop} (hu : LeavesRedis u) (hQ : ∀ l', Q () u l') :
    V.Keeps host i (revokeStored stored) Q u l := by
  cases stored with
  | none => exact hQ l
  | some st => exact keeps_revokeState hu hQ

theorem keeps_revokeSessions {ids : List Nat} {Q : Unit → (AuthWorld → AuthWorld) → List AuthDeed → Prop}
    (hu : LeavesRedis u) (hQ : ∀ l', Q () u l') : V.Keeps host i (revokeSessions ids) Q u l := by
  induction ids generalizing l with
  | nil => exact hQ l
  | cons id rest ih =>
      refine Code.abides_bind.2 (keeps_loadState hu ?_ fun st _ => ?_)
      · exact Code.abides_bind.2 (keeps_revokeStored hu fun _ => ih)
      · exact Code.abides_bind.2 (keeps_revokeStored hu fun _ => ih)

/-! ## Codes -/

section Codes

variable {user : UUID} {row : User} {code : String} {Q : Bool → (AuthWorld → AuthWorld) → List AuthDeed → Prop}

theorem keeps_verifyRecoveryCode
    (hQ : ∀ b v, LeavesRedis v → (b = true → V.CodeMatches host i user row code) → Q b v l) :
    V.Keeps host i (verifyRecoveryCode host user (host.normalizeCode code)) Q id l := by
  refine Code.abides_bind.2 (Code.abides_select (fun w hw => ?_) trivial)
  dsimp only [id_eq]
  split
  · exact hQ false id leavesRedis_id fun hb => absurd hb (by simp)
  · next key recovery h =>
      obtain ⟨hrow, hunused⟩ := Table.mem_select_iff.1 (List.mem_of_find?_eq_some h)
      simp only [Bool.and_eq_true, decide_eq_true_eq, Option.isNone_iff_eq_none] at hunused
      have hvalid : host.verifyPassword (host.normalizeCode code) recovery.codeHash = true := by
        simpa using List.find?_some h
      have hmatches : V.CodeMatches host i user row code :=
        .recovery w key recovery hw.2 hrow hunused.1.1 hunused.1.2 hunused.2 hvalid
      refine Code.abides_bind.2 (Code.abides_select (fun _ _ => ?_) trivial)
      exact Code.abides_bind.2 ⟨trivial, fun _ _ => hQ true _ (fun _ => rfl) fun _ => hmatches⟩

theorem keeps_verifyUserCode
    (hQ : ∀ b v, LeavesRedis v → (b = true → V.CodeMatches host i user row code) → Q b v l) :
    V.Keeps host i (verifyUserCode host user row code) Q id l := by
  unfold verifyUserCode
  split
  · exact keeps_verifyRecoveryCode hQ
  · next ciphertext hstored =>
      refine Code.abides_bind.2 (Code.abides_orRaise (fun secret hdecrypted => ?_) fun _ => trivial)
      refine Code.abides_bind.2 (Code.abides_select (fun w hw => ?_) trivial)
      show V.Keeps host i (if _ then _ else _) Q id l
      split
      · next hvalid =>
          refine Code.abides_bind.2 (Code.abides_select (fun w' hw' => ?_) trivial)
          show V.Keeps host i (if _ then _ else _) Q id l
          split
          · exact hQ false id leavesRedis_id fun hb => absurd hb (by simp)
          · next hunused =>
              -- The step of the clock is after the last one that was used.
              have hlater : ∀ last, row.mfaLastUsedStep = some last → last < host.timecode w'.clock := by
                intro last hlast
                rw [hlast] at hunused
                simpa using hunused
              exact Code.abides_bind.2 ⟨trivial, fun _ _ => hQ true _ (fun _ => rfl) fun _ =>
                .totp ciphertext secret w w' hstored hdecrypted hw.2 hvalid hw'.2 hlater⟩
      · exact keeps_verifyRecoveryCode hQ

end Codes

/-! ## Calls -/

/-- The call does what the evidence permits, from where it has stored no session. -/
abbrev Sound {α : Type} (host : AuthHost) (V : Evidence) (i : Nat) (x : AuthTx α) (l : List AuthDeed) : Prop :=
  V.Keeps host i x (fun _ _ _ => True) id l

theorem sound_login {payload : LoginRequest} {names : SessionNames} {ticket : Nat}
    (hcalled : V.called i (.login payload names ticket)) (hl : Unstored l) :
    V.Sound host i (login host payload names ticket) l := by
  refine Code.abides_bind.2 (keeps_sendFor leavesRedis_id trivial rfl fun w l₁ hl₁ => ?_)
  refine Code.abides_bind.2 (keeps_sendIf leavesRedis_id trivial rfl fun l₂ hl₂ => ?_)
  show V.Sound host i (if _ then _ else _) l₂
  split
  · trivial
  · refine Code.abides_bind.2 (Code.abides_select (fun w hw => ?_) trivial)
    show V.Sound host i (loginUser host _ _ _ _ (w.userByEmail _)) l₂
    cases hfound : w.userByEmail (host.lower (host.strip payload.email)) with
    | none => trivial
    | some found =>
        obtain ⟨user, row, n⟩ := found
        show V.Sound host i (if _ then _ else if _ then _ else _) l₂
        split
        · trivial
        · next hactive =>
            split
            · trivial
            · next hpassword =>
                simp only [Bool.or_eq_true, Bool.not_eq_true', not_or, Bool.not_eq_false] at hactive hpassword
                have hchecked : V.PasswordChecked host i payload user row :=
                  ⟨w, n, hw.2, hfound, hactive.1, hactive.2, hpassword⟩
                refine Code.abides_bind.2 (keeps_sendFor leavesRedis_id trivial rfl fun _ l₃ hl₃ => ?_)
                show V.Sound host i (if _ then _ else _) l₃
                split
                · next hmfa =>
                    exact Code.abides_bind.2 (keeps_sendFor leavesRedis_id
                      ⟨i, payload, names, row, hcalled, hchecked, hmfa⟩ rfl fun _ _ _ => trivial)
                · next hmfa =>
                    exact keeps_createSession leavesRedis_id (hl₃ (hl₂ (hl₁ hl)))
                      (.password payload names ticket user row hcalled hchecked (by simpa using hmfa))
                      fun _ _ => trivial

theorem keeps_completeMfaFor {ticket : Nat} {code : String} {names : SessionNames} {user : UUID} {attempts n : Nat}
    {found : Option User} (hcalled : V.called i (.completeMfaChallenge ticket code names))
    (hticket : V.TicketEarned host ticket user)
    (hfound : ∀ row, found = some row → ∃ w, V.seen i w ∧ w.users.get? user = some row) (hl : Unstored l) :
    V.Keeps host i (completeMfaFor host ticket code names user attempts (found, n)) (fun _ u _ => LeavesRedis u) id
      l := by
  cases found with
  | none => exact leavesRedis_id
  | some row =>
      show V.Keeps host i (if _ then _ else _) _ id l
      split
      · exact leavesRedis_id
      · next hactive =>
          simp only [Bool.or_eq_true, Bool.not_eq_true', not_or, Bool.not_eq_false] at hactive
          refine Code.abides_bind.2 (keeps_verifyUserCode fun b v hv hb => ?_)
          -- The audit entry is a write of the transaction.
          have haudit : ∀ action, LeavesRedis ((fun w : AuthWorld =>
              { w with securityEvents := w.securityEvents ++ [(user, action)] }) ∘ v) :=
            fun action => LeavesRedis.comp (fun _ => rfl) hv
          cases b with
          | false =>
              refine Code.abides_bind.2 ⟨trivial, fun _ _ => ?_⟩
              exact Code.abides_bind.2 (keeps_sendIf (haudit _) trivial rfl fun _ _ => haudit _)
          | true =>
              refine Code.abides_bind.2 ⟨trivial, fun _ _ => ?_⟩
              refine Code.abides_bind.2 (keeps_sendFor (haudit _) trivial rfl fun _ l' hl' => ?_)
              obtain ⟨w, hw, hrow⟩ := hfound row rfl
              have hchecked : V.CodeChecked host i user row code :=
                ⟨w, hw, hrow, hactive.1.1, hactive.1.2, hactive.2, hb rfl⟩
              exact keeps_createSession (haudit _) (hl' hl)
                (.code ticket code names user row hcalled hticket hchecked) fun _ _ => haudit _

theorem sound_completeMfaChallenge {ticket : Nat} {code : String} {names : SessionNames}
    (hcalled : V.called i (.completeMfaChallenge ticket code names)) (hl : Unstored l) :
    V.Sound host i (completeMfaChallenge host ticket code names) l := by
  refine Code.abides_bind.2 (keeps_sendFor leavesRedis_id trivial rfl fun w l₁ hl₁ => ?_)
  refine Code.abides_bind.2 (keeps_sendIf leavesRedis_id trivial rfl fun l₂ hl₂ => ?_)
  show V.Sound host i (if _ then _ else _) l₂
  split
  · exact Code.abides_bind.2 (keeps_sendFor leavesRedis_id trivial rfl fun _ _ _ => trivial)
  · refine Code.abides_bind.2 (keeps_fetch leavesRedis_id fun w hknown _ => ?_)
    cases hticket : w.redis.mfa ticket with
    | none => trivial
    | some user =>
        refine Code.abides_transaction (Code.abides_bind.2 (Code.abides_selectLocking (fun w' hw' => ?_) trivial))
        refine Code.abides_bind.2 (Code.abides_mono (keeps_completeMfaFor hcalled (hknown.tickets ticket user hticket)
          (fun row hrow => ⟨w', hw'.2, hrow⟩) (hl₂ (hl₁ hl))) (fun a u l hu => ?_) fun _ _ _ h => h)
        exact ⟨trivial, fun w'' _ => ⟨hu w'', trivial, trivial⟩⟩

/-- `refresh`, for a session that was stored under the token. -/
theorem sound_refreshState {access next : Nat} {st : SessionState} (hearned : V.Earned host st)
    (hcalled : V.called i (.refresh st.refreshKey access next)) (hl : Unstored l) :
    V.Sound host i (refreshState st.refreshKey access next st) l := by
  refine Code.abides_bind.2 (Code.abides_select (fun w hw => ?_) trivial)
  show V.Sound host i (if !w.isCurrent st then _ else _) l
  split
  · exact Code.abides_bind.2 (keeps_revokeState leavesRedis_id fun _ => trivial)
  · next hcurrent =>
      have hdue : V.Due host i (.rotate ⟨st.refreshKey, st.refreshKey, st.under access next⟩) :=
        ⟨st, access, next, w, hearned, hcalled, hw.2, by simpa using hcurrent, rfl⟩
      exact Code.abides_bind.2 (keeps_storing leavesRedis_id hdue hl fun _ _ => trivial)

theorem sound_refresh {token access next : Nat} (hcalled : V.called i (.refresh token access next))
    (hl : Unstored l) : V.Sound host i (refresh token access next) l := by
  refine Code.abides_bind.2 (keeps_stateForToken leavesRedis_id ?_ fun st hearned hkey => ?_)
  · refine Code.abides_bind.2 (keeps_fetch leavesRedis_id fun w _ _ => ?_)
    refine Code.abides_bind.2 (keeps_loadState leavesRedis_id ?_ fun st _ => ?_)
    · exact Code.abides_bind.2 (keeps_revokeStored leavesRedis_id fun _ => trivial)
    · exact Code.abides_bind.2 (keeps_revokeStored leavesRedis_id fun _ => trivial)
  · obtain rfl : st.refreshKey = token := hkey
    exact sound_refreshState hearned hcalled hl

/-- The call accepted the access token for the session. -/
def Accepts (host : AuthHost) (V : Evidence) (i token : Nat) (st : SessionState) : Prop :=
  V.Earned host st ∧ st.accessKey = token ∧ ∃ w, V.seen i w ∧ w.isCurrent st = true

theorem keeps_currentSession {token : Nat} {Q : AuthAnswer → (AuthWorld → AuthWorld) → List AuthDeed → Prop}
    (hnone : Q .nothing id l) (hsome : ∀ st, V.Accepts host i token st → Q (.session ⟨st.sessionId, st.subject⟩) id l) :
    V.Keeps host i (currentSession token) Q id l := by
  refine Code.abides_bind.2 (keeps_stateForToken leavesRedis_id hnone fun st hearned hkey => ?_)
  refine Code.abides_bind.2 (Code.abides_select (fun w hw => ?_) trivial)
  show Q (if w.isCurrent st then _ else _) id l
  split
  · next hcurrent => exact hsome st ⟨hearned, hkey, w, hw.2, hcurrent⟩
  · exact hnone

theorem sound_logout {token : Nat} : V.Sound host i (logout token) l := by
  refine Code.abides_bind.2 (keeps_stateForToken leavesRedis_id trivial fun st _ _ => ?_)
  exact Code.abides_bind.2 (keeps_revokeState leavesRedis_id fun _ => trivial)

theorem sound_logoutAll {token : Nat} : V.Sound host i (logoutAll host token) l := by
  refine Code.abides_bind.2 (keeps_stateForToken leavesRedis_id trivial fun st _ _ => ?_)
  refine Code.abides_bind.2 (keeps_fetch leavesRedis_id fun w _ _ => ?_)
  refine Code.abides_bind.2 (keeps_revokeSessions leavesRedis_id fun l => ?_)
  exact Code.abides_bind.2 (keeps_sendFor leavesRedis_id trivial rfl fun _ _ _ => trivial)

/-- A new password is a write of the database alone. -/
theorem sound_setPassword {purpose : String} {change : User → User} {raw salt : Nat} {newPassword : String} :
    V.Sound host i (setPassword host purpose change raw newPassword salt) l := by
  have hkeeps : ∀ f, KeepsUsers f → LeavesRedis f := fun f hf w => (hf w).2.1
  refine Code.abides_transaction (Code.abides_bind.2 ?_)
  refine Code.abides_local (local_consumeToken raw purpose) leavesRedis_id (fun f v hf hv => (hkeeps f hf).comp hv)
    (fun token v hv => ?_) fun _ _ => trivial
  refine Code.abides_bind.2 (Code.abides_select (fun w _ => ?_) trivial)
  refine Code.abides_bind.2 (Code.abides_orRaise (fun user _ => ?_) fun _ => trivial)
  refine Code.abides_bind.2 (Code.abides_orRaise (fun digest _ => ?_) fun _ => trivial)
  refine Code.abides_bind.2 (Code.abides_selectLocking (fun _ _ => ?_) trivial)
  refine Code.abides_bind.2 ⟨trivial, fun _ _ => ⟨trivial, fun w' _ => ⟨?_, trivial, trivial⟩⟩⟩
  exact hv w'

/-- What a call has returned, by which call it was. -/
def Answers (host : AuthHost) (V : Evidence) (i : Nat) (call : AuthCall) (a : AuthAnswer) : Prop :=
  ∀ token read, call = .currentSession token → a = .session read →
    ∃ st, V.Accepts host i token st ∧ read = ⟨st.sessionId, st.subject⟩

/-- Every call keeps to the evidence. -/
theorem keeps_authCall {call : AuthCall} (hcalled : V.called i call) (hl : Unstored l) :
    V.Keeps host i (call.run host) (fun a _ _ => V.Answers host i call a) id l := by
  have hother : ∀ {x : AuthTx AuthAnswer}, V.Sound host i x l → (∀ token, call ≠ .currentSession token) →
      V.Keeps host i x (fun a _ _ => V.Answers host i call a) id l := fun hx hne =>
    Code.abides_mono hx (fun _ _ _ _ token _ hcall => absurd hcall (hne token)) fun _ _ _ h => h
  cases call with
  | login payload names ticket => exact hother (sound_login hcalled hl) (by simp)
  | completeMfaChallenge ticket code names => exact hother (sound_completeMfaChallenge hcalled hl) (by simp)
  | refresh token access next => exact hother (sound_refresh hcalled hl) (by simp)
  | currentSession token =>
      refine keeps_currentSession (fun _ _ _ ha => absurd ha (by simp)) fun st hst token' read hcall ha => ?_
      obtain rfl := AuthCall.currentSession.inj hcall
      obtain rfl := AuthAnswer.session.inj ha
      exact ⟨st, hst, rfl⟩
  | logout token => exact hother sound_logout (by simp)
  | logoutAll token => exact hother sound_logoutAll (by simp)
  | resetPassword raw newPassword salt =>
      have hx : V.Sound host i (resetPassword host raw newPassword salt) l := sound_setPassword
      exact hother hx (by simp)
  | verifyEmail raw newPassword salt =>
      have hx : V.Sound host i (verifyEmail host raw newPassword salt) l := sound_setPassword
      exact hother hx (by simp)

end Programs

end Evidence

end Rubrica
