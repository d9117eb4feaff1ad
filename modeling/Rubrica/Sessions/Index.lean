import Rubrica.Sessions.Rotation

set_option autoImplicit false

/-! # The index of sessions

`logout_all` reads the set of a user's sessions, revokes what it finds, and deletes the set. A session that
is added in between leaves the index without being revoked (`not_sessions_indexed`). In runs where every set
that is deleted only holds sessions that are gone, the index has every accepted session whose login has
returned, and `logout_all` revokes them all (`sessions_indexed`). -/

namespace Rubrica

open Transactions

/-! ## What calls lock -/

section Locks

variable (host : AuthHost)

theorem locksOnly_database {α : Type} (query : AuthWorld → α) :
    (database query : AuthTx α).LocksOnly AuthKey.IsRow :=
  Code.locksOnly_select _ _

theorem locksOnly_fetch {α : Type} (query : Redis → α) : (fetch query : AuthTx α).LocksOnly AuthKey.IsRow :=
  Code.locksOnly_select _ _

theorem locksOnly_sendFor {α : Type} (c : Command) (answer : Redis → α) :
    (sendFor c answer : AuthTx α).LocksOnly AuthKey.IsRow :=
  Code.locksOnly_effect _ _ _

theorem locksOnly_createSession (names : SessionNames) (id : UUID) (user : User) (checked : Nat) :
    (createSession names id user checked).LocksOnly AuthKey.IsRow := by
  refine Code.locksOnly_bind ?_ fun _ => Code.locksOnly_pure _
  exact Code.locksOnly_bind (locksOnly_sendFor _ _) fun _ => Code.locksOnly_bind (locksOnly_sendFor _ _) fun _ =>
    Code.locksOnly_bind (locksOnly_sendFor _ _) fun _ => Code.locksOnly_bind (locksOnly_sendFor _ _) fun _ =>
      Code.locksOnly_bind (locksOnly_sendFor _ _) fun _ => Code.locksOnly_pure _

theorem locksOnly_loadState (session : Option Nat) : (loadState session).LocksOnly AuthKey.IsRow := by
  cases session with
  | none => exact Code.locksOnly_pure _
  | some id => exact locksOnly_fetch fun r => r.sessions id

theorem locksOnly_stateForToken (kind : TokenKind) (token : Nat) :
    (stateForToken kind token).LocksOnly AuthKey.IsRow :=
  Code.locksOnly_bind (locksOnly_fetch _) fun _ => Code.locksOnly_bind (locksOnly_loadState _) fun _ =>
    Code.locksOnly_pure _

theorem locksOnly_revokeState (st : SessionState) : (revokeState st).LocksOnly AuthKey.IsRow :=
  Code.locksOnly_bind (locksOnly_sendFor _ _) fun _ => locksOnly_sendFor _ _

theorem locksOnly_revokeStored (stored : Option SessionState) :
    (revokeStored stored).LocksOnly AuthKey.IsRow := by
  cases stored with
  | none => exact Code.locksOnly_pure _
  | some st => exact locksOnly_revokeState st

theorem locksOnly_verifyUserCode (id : UUID) (user : User) (code : String) :
    (verifyUserCode host id user code).LocksOnly AuthKey.IsRow := by
  have recovery : ∀ code, (verifyRecoveryCode host id code).LocksOnly AuthKey.IsRow := by
    intro code
    refine Code.locksOnly_bind (locksOnly_database _) fun rows => ?_
    split
    · exact Code.locksOnly_pure _
    · exact Code.locksOnly_bind (locksOnly_database _) fun _ => Code.locksOnly_bind (Code.locksOnly_write _ _)
        fun _ => Code.locksOnly_pure _
  unfold verifyUserCode
  split
  · exact recovery _
  · refine Code.locksOnly_bind (Code.locksOnly_orRaise _ _) fun secret =>
      Code.locksOnly_bind (locksOnly_database _) fun now => ?_
    refine Code.locksOnly_ite (Code.locksOnly_bind (locksOnly_database _) fun now => ?_) (recovery _)
    exact Code.locksOnly_ite (Code.locksOnly_pure _)
      (Code.locksOnly_bind (Code.locksOnly_write _ _) fun _ => Code.locksOnly_pure _)

theorem locksOnly_login (payload : LoginRequest) (names : SessionNames) (ticket : Nat) :
    (login host payload names ticket).LocksOnly AuthKey.IsRow := by
  refine Code.locksOnly_bind (locksOnly_sendFor _ _) fun attempts =>
    Code.locksOnly_bind (Code.locksOnly_onlyIf _ (locksOnly_sendFor _ _)) fun _ => ?_
  refine Code.locksOnly_ite (Code.locksOnly_pure _) (Code.locksOnly_bind (locksOnly_database _) fun found => ?_)
  unfold loginUser
  split
  · exact Code.locksOnly_pure _
  · refine Code.locksOnly_ite (Code.locksOnly_pure _) (Code.locksOnly_ite (Code.locksOnly_pure _)
      (Code.locksOnly_bind (locksOnly_sendFor _ _) fun _ => Code.locksOnly_ite ?_
        (locksOnly_createSession _ _ _ _)))
    exact Code.locksOnly_bind (locksOnly_sendFor _ _) fun _ => Code.locksOnly_pure _

theorem locksOnly_completeMfaFor (ticket : Nat) (code : String) (names : SessionNames) (id : UUID)
    (attempts : Nat) (found : Option User × Nat) :
    (completeMfaFor host ticket code names id attempts found).LocksOnly AuthKey.IsRow := by
  have audit : ∀ action, (mfaAudit id action).LocksOnly AuthKey.IsRow := fun _ => Code.locksOnly_write _ _
  unfold completeMfaFor
  split
  · exact Code.locksOnly_pure _
  · refine Code.locksOnly_ite (Code.locksOnly_pure _)
      (Code.locksOnly_bind (locksOnly_verifyUserCode host _ _ _) fun verified => ?_)
    refine Code.locksOnly_ite ?_ ?_
    · exact Code.locksOnly_bind (audit _) fun _ =>
        Code.locksOnly_bind (Code.locksOnly_onlyIf _ (locksOnly_sendFor _ _)) fun _ => Code.locksOnly_pure _
    · exact Code.locksOnly_bind (audit _) fun _ => Code.locksOnly_bind (locksOnly_sendFor _ _) fun _ =>
        locksOnly_createSession _ _ _ _

theorem locksOnly_completeMfaChallenge (ticket : Nat) (code : String) (names : SessionNames) :
    (completeMfaChallenge host ticket code names).LocksOnly AuthKey.IsRow := by
  refine Code.locksOnly_bind (locksOnly_sendFor _ _) fun attempts =>
    Code.locksOnly_bind (Code.locksOnly_onlyIf _ (locksOnly_sendFor _ _)) fun _ => ?_
  refine Code.locksOnly_ite (Code.locksOnly_bind (locksOnly_sendFor _ _) fun _ => Code.locksOnly_pure _)
    (Code.locksOnly_bind (locksOnly_fetch _) fun user => ?_)
  unfold completeMfaOf
  split
  · exact Code.locksOnly_pure _
  · next id =>
      refine Code.locksOnly_transaction _ (Code.locksOnly_bind ?_ fun found =>
        Code.locksOnly_bind (locksOnly_completeMfaFor host _ _ _ _ _ _) fun _ => Code.locksOnly_pure _)
      refine Code.locksOnly_selectLocking _ _ _ fun w r hr => ?_
      obtain ⟨-, -, rfl⟩ := Option.map_eq_some_iff.1 hr
      trivial

theorem locksOnly_refresh (token access next : Nat) :
    (refresh token access next).LocksOnly AuthKey.IsRow := by
  refine Code.locksOnly_bind (locksOnly_stateForToken _ _) fun state => ?_
  cases state with
  | none =>
      exact Code.locksOnly_bind (locksOnly_fetch _) fun _ => Code.locksOnly_bind (locksOnly_loadState _) fun _ =>
        Code.locksOnly_bind (locksOnly_revokeStored _) fun _ => Code.locksOnly_pure _
  | some st =>
      refine Code.locksOnly_bind (locksOnly_database _) fun active => Code.locksOnly_ite ?_ ?_
      · exact Code.locksOnly_bind (locksOnly_revokeState st) fun _ => Code.locksOnly_pure _
      · exact Code.locksOnly_bind (locksOnly_sendFor _ _) fun _ => Code.locksOnly_pure _

theorem locksOnly_currentSession (token : Nat) : (currentSession token).LocksOnly AuthKey.IsRow := by
  refine Code.locksOnly_bind (locksOnly_stateForToken _ _) fun state => ?_
  cases state with
  | none => exact Code.locksOnly_pure _
  | some st => exact Code.locksOnly_bind (locksOnly_database _) fun _ => Code.locksOnly_pure _

theorem locksOnly_logout (token : Nat) : (logout token).LocksOnly AuthKey.IsRow := by
  refine Code.locksOnly_bind (locksOnly_stateForToken _ _) fun state => ?_
  cases state with
  | none => exact Code.locksOnly_pure _
  | some st => exact Code.locksOnly_bind (locksOnly_revokeState st) fun _ => Code.locksOnly_pure _

theorem locksOnly_revokeSessions (ids : List Nat) : (revokeSessions ids).LocksOnly AuthKey.IsRow := by
  induction ids with
  | nil => exact Code.locksOnly_pure _
  | cons id rest ih =>
      exact Code.locksOnly_bind (locksOnly_loadState _) fun _ =>
        Code.locksOnly_bind (locksOnly_revokeStored _) fun _ => ih

theorem locksOnly_logoutAll (token : Nat) : (logoutAll host token).LocksOnly AuthKey.IsRow := by
  refine Code.locksOnly_bind (locksOnly_stateForToken _ _) fun state => ?_
  cases state with
  | none => exact Code.locksOnly_pure _
  | some st =>
      exact Code.locksOnly_bind (locksOnly_fetch _) fun _ =>
        Code.locksOnly_bind (locksOnly_revokeSessions _) fun _ =>
          Code.locksOnly_bind (locksOnly_sendFor _ _) fun _ => Code.locksOnly_pure _

theorem locksOnly_setPassword (purpose : String) (change : User → User) (raw : Nat) (newPassword : String)
    (salt : Nat) : (setPassword host purpose change raw newPassword salt).LocksOnly AuthKey.IsRow := by
  refine Code.locksOnly_transaction _ (Code.locksOnly_bind ?_ fun token =>
    Code.locksOnly_bind (locksOnly_database _) fun _ => Code.locksOnly_bind (Code.locksOnly_orRaise _ _) fun _ =>
      Code.locksOnly_bind (Code.locksOnly_orRaise _ _) fun _ => Code.locksOnly_bind ?_ fun _ =>
        Code.locksOnly_bind (Code.locksOnly_write _ _) fun _ => Code.locksOnly_pure _)
  · refine Code.locksOnly_bind (locksOnly_database _) fun now => Code.locksOnly_bind ?_ fun _ =>
      Code.locksOnly_bind (Code.locksOnly_orRaise _ _) fun _ => Code.locksOnly_bind (locksOnly_database _)
        fun _ => Code.locksOnly_bind (Code.locksOnly_write _ _) fun _ => Code.locksOnly_pure _
    refine Code.locksOnly_selectLocking _ _ _ fun w r hr => ?_
    obtain ⟨-, -, rfl⟩ := Option.map_eq_some_iff.1 hr
    trivial
  · refine Code.locksOnly_selectLocking _ _ _ fun w r hr => ?_
    obtain ⟨-, -, rfl⟩ := Option.map_eq_some_iff.1 hr
    trivial

/-- Calls lock users and their tokens; what else they have a right to they have drawn. -/
theorem AuthCall.locksOnly (call : AuthCall) : (call.run host).LocksOnly AuthKey.IsRow := by
  cases call with
  | login payload names ticket => exact locksOnly_login host payload names ticket
  | completeMfaChallenge ticket code names => exact locksOnly_completeMfaChallenge host ticket code names
  | refresh token access next => exact locksOnly_refresh token access next
  | currentSession token => exact locksOnly_currentSession token
  | logout token => exact locksOnly_logout token
  | logoutAll token => exact locksOnly_logoutAll host token
  | resetPassword raw newPassword salt =>
      show (setPassword host _ id raw newPassword salt).LocksOnly _
      exact locksOnly_setPassword host _ _ raw newPassword salt
  | verifyEmail raw newPassword salt =>
      show (setPassword host _ (fun user => { user with emailVerified := true, isActive := true }) raw
        newPassword salt).LocksOnly _
      exact locksOnly_setPassword host _ _ raw newPassword salt

end Locks

/-! ## Runs -/

namespace AuthWorld

/-- The session was stored for the user. -/
def SessionOf (id : Nat) (user : UUID) (w : AuthWorld) : Prop :=
  ∃ st n, w.Ran (.setSession st n) ∧ st.sessionId = id ∧ st.userId = user

/-- The access token was written for a session of the user. -/
def TokenOf (token : Nat) (user : UUID) (w : AuthWorld) : Prop :=
  ∃ id, w.IssuedFor .access token id ∧ w.SessionOf id user

end AuthWorld

/-- No login that may store the session is in progress. -/
def loginDone (id : Nat) (Z : AuthSystem) : Prop :=
  ∀ (i : Nat) t, Z.sessions[i]? = some t → (AuthKey.session id, LockMode.exclusive) ∈ t.ctx.base →
    (Z.returned i).isSome

/-- Where the step deletes the set of a user's sessions, none that is in it is stored any more. -/
def drainedAt (x : AuthStep) : Prop :=
  ∀ keys act, x.1.executes x.2 = some (.command (.delete keys), act) →
    ∀ user, .userSessions user ∈ keys → ∀ id ∈ x.1.shared.redis.userSessions user,
      x.1.shared.redis.sessions id = none

/-- `logout_all` is complete, and the index sound:
    - once a `logout_all` with a token of the user has succeeded, no session of the user is accepted whose
      login had returned when it began;
    - every accepted session whose login is not in progress is in its user's set. -/
def SessionsIndexed (host : AuthHost) (steps : List AuthStep) (Z : AuthSystem) : Prop :=
  (∀ past future X token, steps = past ++ (X, (AuthCall.logoutAll token).start host) :: future →
    Z.returned X.sessions.length = some (.done true) →
      ∃ user, Z.shared.TokenOf token user ∧ ∀ i r, X.returned i = some (.loggedIn r) →
        X.shared.SessionOf r.sessionId user →
          ∀ kind token' st, Z.shared.redis.accepts kind token' = some st → st.sessionId ≠ r.sessionId) ∧
  ∀ kind token st, Z.shared.redis.accepts kind token = some st → loginDone st.sessionId Z →
    st.sessionId ∈ Z.shared.redis.userSessions st.userId

section Runs

variable {host : AuthHost} {Y Z : AuthSystem} {steps : List AuthStep}

theorem meets_index {x : AuthStep} (h : drainedAt x) : (authProtocol .index).Meets x.1 x.2 := by
  intro point act hexecutes
  show authCond .index point x.1.shared
  cases point with
  | command c =>
      cases c with
      | delete keys => exact h keys act hexecutes
      | _ => trivial
  | _ => trivial

/-- A login that has returned a session has added it to the index. -/
theorem ran_sadd_of_returned (hgood : (authProtocol .index).Good Finished (fun _ _ _ => True) Z) {i : Nat}
    {t : Session AuthWorld AuthKey AuthPoint Failure AuthAnswer} (hi : Z.sessions[i]? = some t)
    (hret : (Z.returned i).isSome) {id : Nat} (hbase : (AuthKey.session id, LockMode.exclusive) ∈ t.ctx.base) :
    Z.shared.InIndex id := by
  obtain ⟨a, ha⟩ := Option.isSome_iff_exists.1 hret
  unfold System.returned at ha
  rw [hi] at ha
  obtain ⟨c, code⟩ := t
  cases code with
  | pure b =>
      have hfinished : Finished b c Z.shared := hgood.wp i _ hi
      exact hfinished.index id hbase
  | raise e => exact absurd ha (by simp)
  | step pt act next fail => exact absurd ha (by simp)

/-- A session that is stored was stored by a call that drew its id. -/
theorem drawn_of_issued (id : Nat) (hrun : Run (authWork host False) Y steps Z) (hidle : Y.sessions = [])
    (hfresh : Y.shared.Fresh) (hdrained : ∀ x ∈ steps, drainedAt x)
    (hissued : Z.shared.Issued (.session id)) :
    ∃ (i : Nat) (t : Session AuthWorld AuthKey AuthPoint Failure AuthAnswer), Z.sessions[i]? = some t ∧
      (AuthKey.session id, LockMode.exclusive) ∈ t.ctx.base := by
  have hpassword : (AuthRegime.index = .password) = False := by simp
  rw [← hpassword] at hrun
  have hlocks : ∀ base code s, (authWork host (AuthRegime.index = .password)).starts base code s →
      code.LocksOnly AuthKey.IsRow := by
    rintro base code s ⟨call, -, -, rfl⟩
    exact call.locksOnly host
  refine (authWork_governed host .index).owner (authGood_of_fresh hidle hfresh).inv
    hidle hrun (fun x hx => meets_index (hdrained x hx)) hlocks (fun h => h) ?_ ?_ ?_ hissued
  · rintro ⟨c, hc, -⟩
    exact hfresh.not_ran c hc
  · exact fun s s' he => issued_of_env he
  · exact fun pt H s s' hg => issued_of_guar hg

/-- **Logging out everywhere.** In every run, of any calls, in which each set of sessions is deleted only
    when none of those in it is stored any more, `logout_all` is complete and the index sound. -/
theorem sessions_indexed (hrun : Run (authWork host False) Y steps Z) (hidle : Y.sessions = [])
    (hfresh : Y.shared.Fresh) (hdrained : ∀ x ∈ steps, drainedAt x) : SessionsIndexed host steps Z := by
  have hdrawn := fun id => drawn_of_issued id hrun hidle hfresh hdrained
  have hpassword : (AuthRegime.index = .password) = False := by simp
  rw [← hpassword] at hrun
  have hmeets : ∀ x ∈ steps, (authProtocol .index).Meets x.1 x.2 := fun x hx => meets_index (hdrained x hx)
  have hgov := authWork_governed host .index
  have hgood := hgov.good (authGood_of_fresh hidle hfresh) hrun hmeets
  have hinv := hgood.inv.1
  refine ⟨?_, fun kind token st h hdone => ?_⟩
  · intro past future X token hsteps hret
    obtain ⟨-, b, hb, hloggedOut⟩ := authCall_returned hrun hidle hfresh hmeets hsteps hret
    obtain rfl := AuthAnswer.done.inj hb
    obtain ⟨st, n, hran, hfor, hrevoked⟩ := hloggedOut rfl
    refine ⟨st.userId, ⟨st.sessionId, hfor, st, n, hran, rfl, rfl⟩, ?_⟩
    rintro i r hr ⟨st', n', hran', hid, huser⟩ kind token' st'' h
    obtain ⟨c, hfinished⟩ : ∃ c, Finished (.loggedIn r) c X.shared :=
      hgov.returned (authGood_of_fresh hidle hfresh) (hsteps ▸ hrun).split.1 (fun x hx =>
        hmeets x (hsteps ▸ List.mem_append_left _ hx)) hr
    have hindex := hfinished.index _ (hfinished.loggedIn r rfl).1
    have hadded := hindex st' n' hran' hid
    rw [huser] at hadded
    exact not_accepts_of_revoked hinv (hrevoked rfl _ hadded) h
  · have hst := session_of_accepts hinv h
    obtain ⟨-, n, hstored⟩ := hinv.session _ st hst
    obtain ⟨i, t, hi, hbase⟩ := hdrawn st.sessionId hstored.issued
    have hindex := ran_sadd_of_returned hgood hi (hdone i t hi hbase) hbase
    obtain ⟨st0, hran, hrenews⟩ := hstored
    refine hgood.inv.2.1 rfl _ st hst ?_
    rw [hrenews.userId]
    exact hindex st0 n hran hrenews.sessionId.symm

/-! ### A login during `logout_all` -/

def startLogoutAll (token : Nat) : AuthLabel :=
  AuthCall.start sampleAuthHost (.logoutAll token)

/-- `drainedAt`, computed. -/
def drains (x : AuthStep) : Bool :=
  match x.1.executes x.2 with
  | some (.command (.delete keys), _) => keys.all fun
      | .userSessions user =>
          (x.1.shared.redis.userSessions user).all fun id => (x.1.shared.redis.sessions id).isNone
      | _ => true
  | _ => true

theorem drainedAt_of_drains {x : AuthStep} (h : drains x = true) : drainedAt x := by
  intro keys act hexecutes user hkey id hid
  unfold drains at h
  rw [hexecutes] at h
  exact Option.isNone_iff_eq_none.1 (List.all_eq_true.1 (List.all_eq_true.1 h _ hkey) id hid)

/-- Two logins, and `logout_all`. -/
def logins : List AuthLabel :=
  startLogin ⟨1, 10, 20⟩ :: (Label.runs 0 9 ++ startLogin ⟨2, 12, 22⟩ :: (Label.runs 1 9 ++
    startLogoutAll 10 :: Label.runs 2 10))

theorem sessions_indexed_logins :
    ∃ steps Z, Run (authWork sampleAuthHost False) oneUser steps Z ∧
      Z.returned 1 = some (.loggedIn ⟨12, 22, 2⟩) ∧ Z.returned 2 = some (.done true) ∧
      Z.shared.redis.accepts .access 12 = none ∧ SessionsIndexed sampleAuthHost steps Z := by
  obtain ⟨steps, Z, hreplay, hp⟩ := System.exists_replay (Y := oneUser) logins
    (p := fun steps Z => steps.all namesNew && (steps.all drains && (Z.returned 1 = some (.loggedIn ⟨12, 22, 2⟩) &&
      (Z.returned 2 = some (.done true) && Z.shared.redis.accepts .access 12 = none)))) (by decide)
  obtain ⟨hnew, hp⟩ := Bool.and_eq_true_iff.1 hp
  obtain ⟨hdrains, hp⟩ := Bool.and_eq_true_iff.1 hp
  obtain ⟨hlogin, hp⟩ := Bool.and_eq_true_iff.1 hp
  obtain ⟨hlogout, haccepts⟩ := Bool.and_eq_true_iff.1 hp
  have hlabels : ∀ l ∈ logins, (∃ call, l = AuthCall.start sampleAuthHost call) ∨ ∃ i, l = .run i :=
    List.forall_mem_cons.2 ⟨Or.inl ⟨_, rfl⟩, List.forall_mem_append.2 ⟨starts_runs,
      List.forall_mem_cons.2 ⟨Or.inl ⟨_, rfl⟩, List.forall_mem_append.2 ⟨starts_runs,
        List.forall_mem_cons.2 ⟨Or.inl ⟨_, rfl⟩, starts_runs⟩⟩⟩⟩⟩
  have hrun := replay_authWork False hlabels hnew hreplay
  exact ⟨steps, Z, hrun, of_decide_eq_true hlogin, of_decide_eq_true hlogout, of_decide_eq_true haccepts,
    sessions_indexed hrun rfl oneUser_fresh fun x hx => drainedAt_of_drains (List.all_eq_true.1 hdrains x hx)⟩

/-- `logout_all` has revoked what the set held, and is about to delete it; a login stores a session and adds
    it to the set, which is then deleted. -/
def loginDuringLogoutAll : List AuthLabel :=
  startLogin ⟨1, 10, 20⟩ :: (Label.runs 0 9 ++ startLogoutAll 10 :: (Label.runs 1 6 ++
    startLogin ⟨2, 12, 22⟩ :: (Label.runs 2 9 ++ Label.runs 1 1)))

/-- Without the condition a session can stay accepted outside the index. -/
theorem not_sessions_indexed :
    ¬∀ (steps : List AuthStep) (Z : AuthSystem), Run (authWork sampleAuthHost False) oneUser steps Z →
      SessionsIndexed sampleAuthHost steps Z := by
  intro h
  obtain ⟨steps, Z, hreplay, hp⟩ := System.exists_replay (Y := oneUser) loginDuringLogoutAll
    (p := fun steps Z => steps.all namesNew && (Z.sessions.length = 3 && ((Z.returned 0).isSome &&
      ((Z.returned 1).isSome && ((Z.returned 2).isSome &&
        (Z.shared.redis.accepts .access 12 = some ⟨2, 1, "a", 1, 12, 22⟩ &&
          Z.shared.redis.userSessions 1 = [])))))) (by decide)
  simp only [Bool.and_eq_true, decide_eq_true_eq] at hp
  obtain ⟨hnew, hlength, h0, h1, h2, haccepts, hset⟩ := hp
  have hlabels : ∀ l ∈ loginDuringLogoutAll,
      (∃ call, l = AuthCall.start sampleAuthHost call) ∨ ∃ i, l = .run i :=
    List.forall_mem_cons.2 ⟨Or.inl ⟨_, rfl⟩, List.forall_mem_append.2 ⟨starts_runs,
      List.forall_mem_cons.2 ⟨Or.inl ⟨_, rfl⟩, List.forall_mem_append.2 ⟨starts_runs,
        List.forall_mem_cons.2 ⟨Or.inl ⟨_, rfl⟩, List.forall_mem_append.2 ⟨starts_runs, starts_runs⟩⟩⟩⟩⟩⟩
  -- Every call has returned.
  have hdone : loginDone 2 Z := by
    intro i t hi _
    have hlt := (List.getElem?_eq_some_iff.1 hi).1
    obtain rfl | rfl | rfl : i = 0 ∨ i = 1 ∨ i = 2 := by omega
    · exact h0
    · exact h1
    · exact h2
  have hmem := (h steps Z (replay_authWork False hlabels hnew hreplay)).2 _ _ _ haccepts hdone
  have hmem : 2 ∈ Z.shared.redis.userSessions 1 := hmem
  rw [hset] at hmem
  exact absurd hmem List.not_mem_nil

end Runs

end Rubrica
