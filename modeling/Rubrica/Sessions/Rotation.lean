import Rubrica.Sessions.Calls

set_option autoImplicit false

/-! # Refresh rotation

Calls of the session service in any interleaving, from an empty store: a refresh token is exchanged at most
once, a session has at most one accepted token of each kind, presenting a used refresh token revokes its
session, and no token of a revoked session is accepted again (`rotation_safe`). -/

namespace Rubrica

open Transactions

/-! ## Calls at work -/

/-- Calls of the session service at work at once, each with names that were not in use before. The rest of
    the world does what concerns no session; where `lapses` holds, keys lapse. -/
def authWork (host : AuthHost) (lapses : Prop) :
    Setting AuthWorld AuthKey AuthPoint Failure AuthAnswer where
  starts base code w := ∃ call : AuthCall,
    base = call.rights ∧ w.Unissued call.names ∧ code = call.run host
  env w w' := w.Elsewhere w' ∨ lapses ∧ ∃ keys, w' = w.lapse keys
  lossy := True

def AuthCall.start (host : AuthHost) (call : AuthCall) : AuthLabel :=
  .start call.rights (call.run host)

/-- What holds when a call has returned, whichever it was: its session, if it stored one, is in the
    index. -/
structure Finished (a : AuthAnswer) (c : Ctx AuthWorld AuthKey) (w : AuthWorld) : Prop where
  base : c.base ⊆ c.held
  loggedIn : ∀ r, a = .loggedIn r → (AuthKey.session r.sessionId, LockMode.exclusive) ∈ c.base ∧
    w.Issued (.session r.sessionId)
  index : ∀ id, (AuthKey.session id, LockMode.exclusive) ∈ c.base → w.InIndex id

section Calls

variable {R : AuthRegime} {host : AuthHost} {s0 w : AuthWorld} {call : AuthCall} {a : AuthAnswer}

theorem AuthCall.mem_names {name : AuthKey} (h : (name, LockMode.exclusive) ∈ call.rights) :
    name ∈ call.names := by
  obtain ⟨name', hname, he⟩ := List.mem_map.1 h
  obtain rfl := (Prod.mk.inj he).1
  exact hname

theorem AuthCall.names_of_rights {call' : AuthCall} (h : call.rights = call'.rights) :
    call.names = call'.names :=
  List.map_injective_iff.2 (fun _ _ he => (Prod.mk.inj he).1) h

theorem LoginResult.finished {names : SessionNames} (h : LoginResult names a w)
    (hnames : ∀ id, .session id ∈ call.names ↔ id = names.session) : Finished a (.start call.rights) w where
  base := fun _ h => h
  loggedIn r hr := by
    obtain ⟨hid, hissued⟩ := h.loggedIn r hr
    rw [hid]
    exact ⟨AuthCall.held ((hnames _).2 rfl), hissued⟩
  index id hid := by
    obtain rfl := (hnames id).1 (AuthCall.mem_names hid)
    exact h.index

/-- A call that draws no session id. -/
theorem finished_of_nameless (hnames : ∀ id, .session id ∉ call.names) (ha : ∀ r, a ≠ .loggedIn r) :
    Finished a (.start call.rights) w where
  base := fun _ h => h
  loggedIn r hr := absurd hr (ha r)
  index id hid := absurd (AuthCall.mem_names hid) (hnames id)

theorem AuthCall.Post.finished (h : call.Post R s0 a w) : Finished a (.start call.rights) w := by
  obtain ⟨-, h⟩ := h
  cases call with
  | login payload names ticket => exact h.finished fun id => by simp [AuthCall.names, SessionNames.keys]
  | completeMfaChallenge ticket code names =>
      exact h.finished fun id => by simp [AuthCall.names, SessionNames.keys]
  | refresh token access next => exact finished_of_nameless (fun id => by simp [AuthCall.names]) h.1
  | logoutAll token =>
      obtain ⟨b, rfl, -⟩ := h
      exact finished_of_nameless (fun id => by simp [AuthCall.names]) fun _ => by simp
  | _ => exact finished_of_nameless (fun id => by simp [AuthCall.names]) h

/-- The others cannot break what a call has returned. -/
theorem stable_post (call : AuthCall) (s0 : AuthWorld) (a : AuthAnswer) :
    (authProtocol R).Stable call.rights (call.Post R s0 a) := by
  intro w w' hi ⟨ha, hpost⟩
  have hl := later_of_interferes hi
  refine ⟨ha.later hl, ?_⟩
  cases call with
  | login payload names ticket =>
      exact stable_loginResult (AuthCall.held (by simp [AuthCall.names, SessionNames.keys])) a w w' hi hpost
  | completeMfaChallenge ticket code names =>
      exact stable_loginResult (AuthCall.held (by simp [AuthCall.names, SessionNames.keys])) a w w' hi hpost
  | refresh token access next =>
      exact ⟨hpost.1, fun hR id hid => ⟨(hpost.2 hR id hid).1, hl.revoked id (hpost.2 hR id hid).2⟩⟩
  | logoutAll token =>
      obtain ⟨b, rfl, h⟩ := hpost
      refine ⟨b, rfl, fun hb => ?_⟩
      obtain ⟨st, n, hran, hfor, hrevoked⟩ := h hb
      exact ⟨st, n, hl.ran _ hran, hl.issuedFor hfor, fun hR id hid => hl.revoked id (hrevoked hR id hid)⟩
  | _ => exact hpost

theorem authWork_governed (host : AuthHost) (R : AuthRegime) :
    (authProtocol R).Governs Finished (fun _ _ _ => True) (authWork host (R = .password)) where
  lasting := by
    intro a c w w' hr h
    refine ⟨h.base, fun r ha => ?_, fun id hid => ?_⟩
    · obtain ⟨hheld, hissued⟩ := h.loggedIn r ha
      exact ⟨hheld, (later_of_rely hr).issued hissued⟩
    · exact (stable_inIndex (h.base hid)).rely hr (h.index id hid)
  lasting_raise := Protocol.lasting_true
  starts := by
    rintro base code w - ⟨call, rfl, hnew, rfl⟩
    refine Protocol.wp_mono (wp_authCall host call hnew) (fun _ h => h) ?_ fun _ _ _ _ h => h
    rintro a c' w' - ⟨rfl, hpost⟩
    exact hpost.finished
  env := by
    rintro w w' hinv (he | ⟨hR, keys, rfl⟩)
    · exact ⟨Or.inl he, authInv_elsewhere hinv he⟩
    · exact ⟨Or.inr ⟨hR, keys, rfl⟩, hinv.1.lapse keys, fun h => absurd (h.symm.trans hR) (by simp), hinv.2.2⟩
  lossy := fun _ => trivial
  fault := fun _ _ _ => trivial

end Calls

/-! ## Runs -/

section Runs

variable {R : AuthRegime} {host : AuthHost} {Y Z : AuthSystem} {steps past future : List AuthStep}

theorem authGood_of_fresh (hidle : Y.sessions = []) (hfresh : Y.shared.Fresh) :
    (authProtocol R).Good Finished (fun _ _ _ => True) Y :=
  Protocol.good_of_idle _ ⟨hfresh.inv, fun _ => hfresh.indexed, fun _ => hfresh.stamped⟩ hidle

/-- What a call that began in the course of a run has returned. -/
theorem authCall_returned (hrun : Run (authWork host (R = .password)) Y steps Z) (hidle : Y.sessions = [])
    (hfresh : Y.shared.Fresh) (hmeets : ∀ x ∈ steps, (authProtocol R).Meets x.1 x.2) {X : AuthSystem}
    {call : AuthCall} (hsteps : steps = past ++ (X, call.start host) :: future) {a : AuthAnswer}
    (hret : Z.returned X.sessions.length = some a) : call.Post R X.shared a Z.shared := by
  subst hsteps
  have hgov := authWork_governed host R
  obtain ⟨hbefore, ⟨call', hrights, hnew, hcode⟩, X', hstep, hafter⟩ := hrun.split
  have hX := hgov.good (authGood_of_fresh hidle hfresh) hbefore fun x hx =>
    hmeets x (List.mem_append_left _ hx)
  obtain ⟨rfl, hX'⟩ := hX.start hgov ⟨call', hrights, hnew, hcode⟩ hstep
  have hmeets' : ∀ x ∈ future, (authProtocol R).Meets x.1 x.2 := fun x hx =>
    hmeets x (List.mem_append_right _ (List.mem_cons_of_mem _ hx))
  have hwp := wp_authCall (R := R) host call (s := X.shared) (AuthCall.names_of_rights hrights ▸ hnew)
  have hlasting : (authProtocol R).Lasting fun a c w => c = .start call.rights ∧ call.Post R X.shared a w := by
    rintro b c w w' hr ⟨rfl, hpost⟩
    exact ⟨rfl, (stable_post call X.shared b).rely hr hpost⟩
  have hj : (X.sessions ++ [⟨.start call.rights, call.run host⟩])[X.sessions.length]? =
      some ⟨.start call.rights, call.run host⟩ := by
    simp
  obtain ⟨c, -, hpost⟩ := hgov.follow hX' hafter hmeets' hlasting hj hwp hret
  exact hpost

end Runs

/-! ## Exchanges -/

/-- What `_state_for_token` finds when nothing happens between its two commands. -/
def Redis.accepts (kind : TokenKind) (token : Nat) (r : Redis) : Option SessionState :=
  ((r.tokens kind token).bind r.sessions).filter fun st => st.key kind = token

theorem stateForToken_alone (kind : TokenKind) (token : Nat) (w : AuthWorld) :
    (stateForToken kind token).alone id w = ⟨.ok (w.redis.accepts kind token), id, w⟩ := by
  show (Code.select .plain (fun w : AuthWorld => w.redis.tokens kind token) >>= _).alone id w = _
  rw [Code.alone_select_bind, id_eq]
  unfold Redis.accepts
  cases w.redis.tokens kind token with
  | none => rfl
  | some session => rfl

/-- The rotation that a step carries out. -/
def exchangeAt (x : AuthStep) : Option Rotation :=
  match x.1.publishes x.2 with
  | some (.command (.rotate a)) => (x.1.shared.redis.rotates a).map fun _ => a
  | _ => none

/-- The step deletes the session's state. -/
def revokesAt (id : Nat) (x : AuthStep) : Prop :=
  ∃ keys, x.1.publishes x.2 = some (.command (.delete keys)) ∧ .session id ∈ keys

section Runs

variable {R : AuthRegime} {host : AuthHost} {X Y Z : AuthSystem} {l : AuthLabel}
  {steps past future : List AuthStep} {s' : AuthWorld}

theorem exchangeAt_eq_some {x : AuthStep} {a : Rotation} (h : exchangeAt x = some a) :
    x.1.publishes x.2 = some (.command (.rotate a)) ∧
      ∃ current, x.1.shared.redis.rotates a = some current := by
  unfold exchangeAt at h
  split at h
  · next b hpub =>
      obtain ⟨current, hcurrent, rfl⟩ := Option.map_eq_some_iff.1 h
      exact ⟨hpub, current, hcurrent⟩
  · exact absurd h (by simp)

theorem moves_command {c : Command} (hmove : (authProtocol R).Moves X l s')
    (hpub : X.publishes l = some (.command c)) :
    s' = X.shared.execute c ∧ ∃ H, Allowed R H c X.shared := by
  unfold Protocol.Moves at hmove
  rw [hpub] at hmove
  obtain ⟨H, rfl, ha⟩ := hmove
  exact ⟨rfl, H, ha⟩

/-- An exchange takes a token that was not used, and marks it. -/
theorem used_of_exchange {a : Rotation} (hinv : X.shared.Inv) (hmove : (authProtocol R).Moves X l s')
    (h : exchangeAt (X, l) = some a) :
    X.shared.redis.usedRefresh a.used = none ∧ s'.redis.usedRefresh a.used = some a.next.sessionId := by
  obtain ⟨hpub, current, hrotates⟩ := exchangeAt_eq_some h
  obtain ⟨rfl, H, ha⟩ := moves_command hmove hpub
  constructor
  · have htoken := (Redis.rotates_eq_some.1 hrotates).1
    rw [← ha.duty.1] at htoken
    rw [Option.eq_none_iff_forall_ne_some]
    intro id hid
    rw [(hinv.used _ _ hid).1] at htoken
    exact absurd htoken (by simp)
  · show (X.shared.redis.rotate a).usedRefresh a.used = _
    rw [Redis.rotate_of_some hrotates, Redis.rotated_usedRefresh, if_pos rfl]

/-- No token was exchanged twice, and those that were are marked. -/
theorem exchanges_of_run (hR : R ≠ .password) (hrun : Run (authWork host (R = .password)) Y steps Z)
    (hidle : Y.sessions = []) (hfresh : Y.shared.Fresh)
    (hmeets : ∀ x ∈ steps, (authProtocol R).Meets x.1 x.2) :
    ((steps.filterMap exchangeAt).map Rotation.used).Nodup ∧
      ∀ a ∈ steps.filterMap exchangeAt, Z.shared.redis.usedRefresh a.used = some a.next.sessionId := by
  refine (authWork_governed host R).induct (authGood_of_fresh hidle hfresh) hrun hmeets
    (motive := fun steps w => ((steps.filterMap exchangeAt).map Rotation.used).Nodup ∧
      ∀ a ∈ steps.filterMap exchangeAt, w.redis.usedRefresh a.used = some a.next.sessionId)
    ⟨List.nodup_nil, fun _ ha => absurd ha List.not_mem_nil⟩ ?_
  intro past X l s' ⟨hnodup, hused⟩ hinv hinv' hl hmove
  have hkept : ∀ a ∈ past.filterMap exchangeAt, s'.redis.usedRefresh a.used = some a.next.sessionId :=
    fun a ha => (stable_used hR).rely (hmove.rely hinv hinv' hl) (hused a ha)
  rw [List.filterMap_append]
  cases hex : exchangeAt (X, l) with
  | none =>
      rw [List.filterMap_cons_none hex, List.filterMap_nil, List.append_nil]
      exact ⟨hnodup, hkept⟩
  | some a =>
      obtain ⟨hnew, hmarked⟩ := used_of_exchange hinv.1 hmove hex
      rw [List.filterMap_cons_some hex, List.filterMap_nil, List.map_append, List.map_singleton]
      refine ⟨List.nodup_append_comm.1 (List.nodup_cons.2 ⟨fun ha => ?_, hnodup⟩), fun b hb => ?_⟩
      · obtain ⟨b, hb, hba⟩ := List.mem_map.1 ha
        have hbused := hused b hb
        rw [hba, hnew] at hbused
        exact absurd hbused (by simp)
      · rcases List.mem_append.1 hb with hb | hb
        · exact hkept b hb
        · obtain rfl := List.mem_singleton.1 hb
          exact hmarked

/-- A session whose state was deleted is revoked from then on. -/
theorem revoked_of_revokesAt (hrun : Run (authWork host (R = .password)) Y steps Z)
    (hidle : Y.sessions = []) (hfresh : Y.shared.Fresh)
    (hmeets : ∀ x ∈ steps, (authProtocol R).Meets x.1 x.2) {x : AuthStep} {id : Nat}
    (hx : x ∈ steps) (hrevokes : revokesAt id x) : Z.shared.Revoked id := by
  refine (authWork_governed host R).induct (authGood_of_fresh hidle hfresh) hrun hmeets
    (motive := fun steps w => ∀ x ∈ steps, revokesAt id x → w.Revoked id)
    (fun _ hx => absurd hx List.not_mem_nil) ?_ x hx hrevokes
  intro past X l s' hpast hinv hinv' hl hmove x hx hrevokes
  rcases List.mem_append.1 hx with hx | hx
  · exact (later_of_rely (hmove.rely hinv hinv' hl)).revoked id (hpast x hx hrevokes)
  · obtain rfl := List.mem_singleton.1 hx
    obtain ⟨keys, hpub, hkey⟩ := hrevokes
    obtain ⟨rfl, H, ha⟩ := moves_command hmove hpub
    exact AuthWorld.revoked_delete hkey (ha.duty.2 id hkey)

end Runs

/-! ## Safety -/

section Accepted

variable {w : AuthWorld} {kind : TokenKind} {token token' : Nat} {st st' : SessionState}

theorem accepts_eq_some (h : w.redis.accepts kind token = some st) :
    (∃ id, w.redis.tokens kind token = some id ∧ w.redis.sessions id = some st) ∧ st.key kind = token := by
  unfold Redis.accepts at h
  obtain ⟨hbind, hkey⟩ := Option.filter_eq_some_iff.1 h
  exact ⟨Option.bind_eq_some_iff.1 hbind, of_decide_eq_true hkey⟩

theorem session_of_accepts (hinv : w.Inv) (h : w.redis.accepts kind token = some st) :
    w.redis.sessions st.sessionId = some st := by
  obtain ⟨⟨id, -, hst⟩, -⟩ := accepts_eq_some h
  rw [(hinv.session id st hst).1]
  exact hst

/-- A session has one accepted token of each kind. -/
theorem accepts_unique (hinv : w.Inv) (h : w.redis.accepts kind token = some st)
    (h' : w.redis.accepts kind token' = some st') (hid : st.sessionId = st'.sessionId) : token = token' := by
  have hst := session_of_accepts hinv h
  have hst' := session_of_accepts hinv h'
  rw [hid, hst'] at hst
  obtain rfl := Option.some.inj hst
  exact (accepts_eq_some h).2.symm.trans (accepts_eq_some h').2

theorem not_accepts_of_revoked (hinv : w.Inv) {id : Nat} (hid : w.Revoked id)
    (h : w.redis.accepts kind token = some st) : st.sessionId ≠ id := by
  rintro rfl
  exact absurd ((session_of_accepts hinv h).symm.trans hid.2) (by simp)

end Accepted

section Runs

variable {host : AuthHost} {Y Z : AuthSystem} {steps : List AuthStep}

/-- Rotation asks for no condition. -/
theorem meets_rotation (X : AuthSystem) (l : AuthLabel) : (authProtocol .rotation).Meets X l := by
  intro point act _
  show authCond .rotation point X.shared
  cases point with
  | command c => cases c <;> trivial
  | _ => trivial

/-- **Rotation is safe.** Whatever calls run, in any order of their statements, with no key lapsing:
    - no refresh token is exchanged twice;
    - a session has at most one accepted access token, and one accepted refresh token;
    - a refresh call that begins after its token was exchanged gives nothing, and once it has returned no
      token of the session is accepted;
    - once a session has been revoked no token of it is accepted, and no call that begins later accepts
      one. -/
theorem rotation_safe (hrun : Run (authWork host False) Y steps Z) (hidle : Y.sessions = [])
    (hfresh : Y.shared.Fresh) :
    ((steps.filterMap exchangeAt).map Rotation.used).Nodup ∧
    (∀ kind token token' st st', Z.shared.redis.accepts kind token = some st →
      Z.shared.redis.accepts kind token' = some st' → st.sessionId = st'.sessionId → token = token') ∧
    (∀ past future X token access next,
      steps = past ++ (X, (AuthCall.refresh token access next).start host) :: future →
        ∀ a ∈ past.filterMap exchangeAt, a.used = token → ∀ answer,
          Z.returned X.sessions.length = some answer → answer = .nothing ∧
            ∀ kind token' st, Z.shared.redis.accepts kind token' = some st →
              st.sessionId ≠ a.next.sessionId) ∧
    ∀ past future x id, steps = past ++ x :: future → revokesAt id x →
      (∀ kind token st, Z.shared.redis.accepts kind token = some st → st.sessionId ≠ id) ∧
      ∀ between later X call, future = between ++ (X, AuthCall.start host call) :: later →
        ∀ answer, Z.returned X.sessions.length = some answer → answer.accepted ≠ some id := by
  have hpassword : (AuthRegime.rotation = .password) = False := by simp
  rw [← hpassword] at hrun
  have hmeets : ∀ x ∈ steps, (authProtocol .rotation).Meets x.1 x.2 := fun x _ => meets_rotation x.1 x.2
  have hinv : Z.shared.Inv :=
    ((authWork_governed host .rotation).good (authGood_of_fresh hidle hfresh) hrun hmeets).inv.1
  refine ⟨(exchanges_of_run (by simp) hrun hidle hfresh hmeets).1,
    fun kind token token' st st' h h' hid => accepts_unique hinv h h' hid, ?_, ?_⟩
  · intro past future X token access next hsteps a ha hused answer hret
    have hbefore := (hsteps ▸ hrun).split.1
    have hmark := (exchanges_of_run (by simp) hbefore hidle hfresh
      fun x _ => meets_rotation x.1 x.2).2 a ha
    rw [hused] at hmark
    obtain ⟨-, -, hreused⟩ := authCall_returned hrun hidle hfresh hmeets hsteps hret
    obtain ⟨rfl, hrevoked⟩ := hreused (by simp) _ hmark
    exact ⟨rfl, fun kind token' st h => not_accepts_of_revoked hinv hrevoked h⟩
  · intro past future x id hsteps hrevokes
    have hx : x ∈ steps := by
      rw [hsteps]
      exact List.mem_append_right _ List.mem_cons_self
    refine ⟨fun kind token st h => not_accepts_of_revoked hinv
      (revoked_of_revokesAt hrun hidle hfresh hmeets hx hrevokes) h, ?_⟩
    rintro between later X call rfl answer hret haccepted
    have hsteps' : steps = (past ++ x :: between) ++ (X, call.start host) :: later := by
      rw [hsteps, List.append_assoc, List.cons_append]
    have hbefore := (hsteps' ▸ hrun).split.1
    have hrevoked := revoked_of_revokesAt hbefore hidle hfresh (fun x _ => meets_rotation x.1 x.2)
      (List.mem_append_right _ List.mem_cons_self) hrevokes
    exact (((authCall_returned hrun hidle hfresh hmeets hsteps' hret).1) id haccepted).1 hrevoked

end Runs

/-! ### A token presented twice -/

def AuthEvent.names : AuthEvent → List AuthKey
  | ran c => c.names
  | passwordChanged _ => []

theorem AuthWorld.issued_iff {name : AuthKey} {w : AuthWorld} :
    name ∈ w.history.flatMap AuthEvent.names ↔ w.Issued name := by
  rw [List.mem_flatMap]
  constructor
  · rintro ⟨e, he, hname⟩
    cases e with
    | ran c => exact ⟨c, he, hname⟩
    | passwordChanged user => exact absurd hname List.not_mem_nil
  · rintro ⟨c, hc, hname⟩
    exact ⟨_, hc, hname⟩

instance (name : AuthKey) (w : AuthWorld) : Decidable (w.Issued name) :=
  decidable_of_iff _ AuthWorld.issued_iff

/-- Where the step starts a call, its names are new. -/
def namesNew (x : AuthStep) : Bool :=
  match x.2 with
  | .start base _ => base.all fun h => !decide (x.1.shared.Issued h.1)
  | _ => true

/-- Statements of calls that start with new names are a run. -/
theorem replay_authWork {host : AuthHost} (lapses : Prop) {labels : List AuthLabel} {Y Z : AuthSystem}
    {steps : List AuthStep} (hlabels : ∀ l ∈ labels, (∃ call, l = AuthCall.start host call) ∨ ∃ i, l = .run i)
    (hnew : steps.all namesNew = true) (h : Y.replay labels = some (steps, Z)) :
    Run (authWork host lapses) Y steps Z := by
  refine System.replay_steps_run h fun x hx => ?_
  have hl : x.2 ∈ labels := System.replay_labels h ▸ List.mem_map_of_mem hx
  have hx := List.all_eq_true.1 hnew x hx
  obtain ⟨X, l⟩ := x
  rcases hlabels l hl with ⟨call, rfl⟩ | ⟨i, rfl⟩
  · refine ⟨call, rfl, fun name hname => ?_, rfl⟩
    have hname := List.all_eq_true.1 hx (name, .exclusive) (AuthCall.held hname)
    simpa using hname
  · trivial

def sampleAuthHost : AuthHost where
  strip := id
  lower := id
  upper := id
  bcrypt password _ := some password
  decryptSecret := some
  totp _ _ _ := true
  timecode := id
  order := id
  order_perm _ := .refl _

/-- One user, with a password and no second factor. -/
def oneUser : AuthSystem :=
  ⟨⟨⟨[(1, ⟨"a", true, false, none, none, ⟨0, "p"⟩, 1, true⟩)], by decide⟩, ∅, ∅, [], 0, .empty, []⟩, []⟩

theorem oneUser_fresh : oneUser.shared.Fresh := ⟨rfl, rfl⟩

def startLogin (names : SessionNames) : AuthLabel :=
  AuthCall.start sampleAuthHost (.login ⟨"a", "p"⟩ names names.session)

theorem starts_runs {i n : Nat} : ∀ l ∈ (Label.runs i n : List AuthLabel),
    (∃ call, l = AuthCall.start sampleAuthHost call) ∨ ∃ i, l = .run i :=
  fun _ hl => Or.inr ⟨i, List.eq_of_mem_replicate hl⟩

/-- A login, a refresh, and a refresh with the same token. -/
def reuse : List AuthLabel :=
  startLogin ⟨1, 10, 20⟩ :: (Label.runs 0 9 ++
    AuthCall.start sampleAuthHost (.refresh 20 11 21) :: (Label.runs 1 4 ++
      AuthCall.start sampleAuthHost (.refresh 20 12 22) :: Label.runs 2 5))

theorem rotation_safe_reuse :
    ∃ steps Z, Run (authWork sampleAuthHost False) oneUser steps Z ∧
      (steps.filterMap exchangeAt).map Rotation.used = [20] ∧ Z.returned 2 = some .nothing ∧
      Z.shared.redis.accepts .access 11 = none ∧
      ((steps.filterMap exchangeAt).map Rotation.used).Nodup := by
  obtain ⟨steps, Z, hreplay, hp⟩ := System.exists_replay (Y := oneUser) reuse
    (p := fun steps Z => steps.all namesNew && ((steps.filterMap exchangeAt).map Rotation.used = [20] &&
      (Z.returned 2 = some .nothing && Z.shared.redis.accepts .access 11 = none))) (by decide)
  obtain ⟨hnew, hp⟩ := Bool.and_eq_true_iff.1 hp
  obtain ⟨hused, hp⟩ := Bool.and_eq_true_iff.1 hp
  obtain ⟨hnothing, haccepts⟩ := Bool.and_eq_true_iff.1 hp
  have hlabels : ∀ l ∈ reuse, (∃ call, l = AuthCall.start sampleAuthHost call) ∨ ∃ i, l = .run i :=
    List.forall_mem_cons.2 ⟨Or.inl ⟨_, rfl⟩, List.forall_mem_append.2 ⟨starts_runs,
      List.forall_mem_cons.2 ⟨Or.inl ⟨_, rfl⟩, List.forall_mem_append.2 ⟨starts_runs,
        List.forall_mem_cons.2 ⟨Or.inl ⟨_, rfl⟩, starts_runs⟩⟩⟩⟩⟩
  have hrun := replay_authWork False hlabels hnew hreplay
  exact ⟨steps, Z, hrun, of_decide_eq_true hused, of_decide_eq_true hnothing, of_decide_eq_true haccepts,
    (rotation_safe hrun rfl oneUser_fresh).1⟩

end Rubrica
