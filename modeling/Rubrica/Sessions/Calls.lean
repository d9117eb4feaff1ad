import Rubrica.Sessions.Logins

set_option autoImplicit false

/-! # What each call keeps

Every call keeps the protocol, and returns what its postcondition says (`AuthCall.Post`): a login has added
its session to the index; a session whose token is accepted was not revoked, and in the password regime its
password check is not older than the user's last password change when the call began; a used refresh token
has revoked its session; and `logout_all` has revoked what was in the index before. -/

namespace Rubrica

open Transactions

variable {R : AuthRegime} {α : Type} {Q : α → Ctx AuthWorld AuthKey → AuthWorld → Prop}
  {c : Ctx AuthWorld AuthKey} {s : AuthWorld} {A : AuthWorld → Prop}

/-! ## Tokens -/

theorem stable_issued {H : Rights AuthKey} (name : AuthKey) :
    (authProtocol R).Stable H fun w => w.Issued name :=
  stable_later fun _ _ hl h => hl.issued h

theorem wp_loadState {session : Option Nat} {Q : Option SessionState → Ctx AuthWorld AuthKey → AuthWorld → Prop}
    (hc : Tidy c) (hA : (authProtocol R).Stable c.held A) (hs : A s)
    (hnone : ∀ w, A w → (∀ id, session = some id → w.redis.sessions id = none) → Q none c w)
    (hsome : ∀ id st w, A w → (authProtocol R).inv w → session = some id →
      w.redis.sessions id = some st → Q (some st) c w) :
    (authProtocol R).wp (loadState session) Q (fun _ _ _ => True) c s := by
  cases session with
  | none => exact hnone s hs fun _ h => absurd h (by simp)
  | some id =>
      show (authProtocol R).wp (fetch fun r => r.sessions id) Q _ c s
      refine wp_fetch hc hA hs fun w hw hinv => ?_
      cases hst : w.redis.sessions id with
      | none =>
          refine hnone w hw fun id' hid => ?_
          obtain rfl := Option.some.inj hid
          exact hst
      | some st => exact hsome id st w hw hinv rfl hst

/-- `_state_for_token`: a state is found by a token that was looked up before. -/
theorem wp_stateForToken {kind : TokenKind} {token : Nat}
    {Q : Option SessionState → Ctx AuthWorld AuthKey → AuthWorld → Prop} (hc : Tidy c)
    (hA : (authProtocol R).Stable c.held A) (hs : A s) (hnone : ∀ w, A w → Q none c w)
    (hsome : ∀ id st w, A w → (authProtocol R).inv w → w.redis.sessions id = some st → st.key kind = token →
      w.IssuedFor kind token id →
      (∃ w0, A w0 ∧ (authProtocol R).inv w0 ∧ w0.redis.tokens kind token = some id) → Q (some st) c w) :
    (authProtocol R).wp (stateForToken kind token) Q (fun _ _ _ => True) c s := by
  refine Protocol.wp_seq (wp_fetch hc hA hs fun w0 hw0 hinv0 => ?_)
  cases htok : w0.redis.tokens kind token with
  | none => exact hnone w0 hw0
  | some id =>
      have hfor : (authProtocol R).Stable c.held fun w => w.IssuedFor kind token id :=
        stable_later fun _ _ hl h => hl.issuedFor h
      refine Protocol.wp_seq (wp_loadState hc (hA.and hfor) ⟨hw0, hinv0.1.token _ _ _ htok⟩
        (fun w hw _ => hnone w hw.1) fun id' st w hw hinv hid hst => ?_)
      obtain rfl := Option.some.inj hid
      show Q ((some st).filter fun st => st.key kind = token) c w
      by_cases hkey : st.key kind = token
      · rw [Option.filter_some, if_pos (by simpa using hkey)]
        exact hsome id st w hw.1 hinv hst hkey hw.2 ⟨w0, hw0, hinv0, htok⟩
      · rw [Option.filter_some, if_neg (by simpa using hkey)]
        exact hnone w hw.1

/-! ## Revocation -/

/-- `_revoke_state`: what is not forgotten is still there, and the session is revoked. -/
theorem wp_revokeState {st : SessionState} {Q : Unit → Ctx AuthWorld AuthKey → AuthWorld → Prop} (hc : Tidy c)
    (hA : ∀ w w' : AuthWorld, w.Later w' → A w → A w') (hs : A s) (hissued : s.Issued (.session st.sessionId))
    (hQ : ∀ w, A w → w.Revoked st.sessionId → Q () c w) :
    (authProtocol R).wp (revokeState st) Q (fun _ _ _ => True) c s := by
  have hstable : (authProtocol R).Stable c.held A := stable_later hA
  have hduty : ∀ w : AuthWorld, w.Issued (.session st.sessionId) → Allowed R c.held
      (.delete [.token .access st.accessKey, .token .refresh st.refreshKey, .session st.sessionId]) w := by
    refine fun w hw => ⟨by simp [Command.names], by simp, fun id hid => ?_⟩
    obtain rfl : id = st.sessionId := by simpa using hid
    exact hw
  refine Protocol.wp_seq (wp_sendFor hc (hstable.and (stable_issued _)) ⟨hs, hissued⟩
    (fun w hw _ => hduty w hw.2) fun w hw _ => ?_)
  have hrevoked : (authProtocol R).Stable c.held fun w => w.Revoked st.sessionId :=
    stable_later fun _ _ hl h => hl.revoked _ h
  refine wp_sendFor hc (hstable.and hrevoked)
    ⟨hA _ _ (AuthWorld.later_execute (hduty w hw.2)) hw.1, AuthWorld.revoked_delete (by simp) hw.2⟩
    (fun w hw _ => ⟨by simp [Command.names], hw.2⟩) fun w hw _ => ?_
  have hlater := AuthWorld.later_execute (R := R) (H := c.held)
    (c := .srem st.userId st.sessionId) (w := w) ⟨by simp [Command.names], hw.2⟩
  exact hQ _ (hA _ _ hlater hw.1) (hlater.revoked _ hw.2)

theorem wp_revokeStored {stored : Option SessionState} {Q : Unit → Ctx AuthWorld AuthKey → AuthWorld → Prop}
    (hc : Tidy c) (hA : ∀ w w' : AuthWorld, w.Later w' → A w → A w') (hs : A s)
    (hissued : ∀ st, stored = some st → s.Issued (.session st.sessionId))
    (hQ : ∀ w, A w → (∀ st, stored = some st → w.Revoked st.sessionId) → Q () c w) :
    (authProtocol R).wp (revokeStored stored) Q (fun _ _ _ => True) c s := by
  cases stored with
  | none => exact hQ s hs fun _ h => absurd h (by simp)
  | some st =>
      refine wp_revokeState hc hA hs (hissued st rfl) fun w hw hrevoked => hQ w hw fun st' hst => ?_
      obtain rfl := Option.some.inj hst
      exact hrevoked

/-- Revoke what is stored of a session: whatever is, or is not, there. -/
theorem wp_revokeLoaded {session : Option Nat} {f : Unit → AuthTx α} (hc : Tidy c)
    (hA : ∀ w w' : AuthWorld, w.Later w' → A w → A w') (hs : A s)
    (hQ : ∀ w, A w → (∀ id, session = some id → s.Issued (.session id) → w.Revoked id) →
      (authProtocol R).wp (f ()) Q (fun _ _ _ => True) c w) :
    (authProtocol R).wp (loadState session >>= fun stored => revokeStored stored >>= f) Q
      (fun _ _ _ => True) c s := by
  have hA' : ∀ w w' : AuthWorld, w.Later w' → (s.Later w ∧ A w) → s.Later w' ∧ A w' :=
    fun w w' hl h => ⟨h.1.trans hl, hA w w' hl h.2⟩
  refine Protocol.wp_seq (wp_loadState hc (stable_later hA') ⟨.refl s, hs⟩ (fun w hw hgone => ?_)
    fun id st w hw hinv hid hst => ?_)
  · exact hQ w hw.2 fun id hid hissued => ⟨hw.1.issued hissued, hgone id hid⟩
  · obtain ⟨hkey, n, hstored⟩ := hinv.1.session id st hst
    refine Protocol.wp_seq (wp_revokeStored hc hA' hw (fun st' he => ?_) fun w' hw' hrevoked => ?_)
    · obtain rfl := Option.some.inj he
      exact hstored.issued
    · refine hQ w' hw'.2 fun id' hid' _ => ?_
      obtain rfl := Option.some.inj (hid.symm.trans hid')
      exact hkey ▸ hrevoked st rfl

/-! ## Accepted tokens -/

/-- Whose token a call accepts that started at `s0`: of no session that was revoked then, and, in the
    password regime, of none whose password check is older than the user's last password change then. -/
def Accepts (R : AuthRegime) (s0 : AuthWorld) (a : AuthAnswer) (w : AuthWorld) : Prop :=
  ∀ id, a.accepted = some id → ¬s0.Revoked id ∧ ∃ st n, w.Ran (.setSession st n) ∧ st.sessionId = id ∧
    (R = .password → s0.changes st.userId ≤ n)

/-- No session was stored for the answer. -/
def AuthAnswer.NoLogin (a : AuthAnswer) : Prop :=
  ∀ r, a ≠ .loggedIn r

theorem Accepts.none (s0 : AuthWorld) {a : AuthAnswer} (h : a.accepted = none) (w : AuthWorld) :
    Accepts R s0 a w := by
  intro id hid
  rw [h] at hid
  exact absurd hid (by simp)

theorem Accepts.later {s0 w w' : AuthWorld} {a : AuthAnswer} (h : Accepts R s0 a w) (hl : w.Later w') :
    Accepts R s0 a w' := by
  intro id hid
  obtain ⟨hno, st, n, hran, hst⟩ := h id hid
  exact ⟨hno, st, n, hl.ran _ hran, hst⟩

/-- The state of an active session was stored by a login. -/
theorem accepts_of_active {s0 w : AuthWorld} {st : SessionState} {a : AuthAnswer} (hl : s0.Later w)
    (hinv : (authProtocol R).inv w) (hnot : ¬s0.Revoked st.sessionId) (hstored : ∃ n, w.Stored st n)
    (hactive : w.isCurrent st = true) (ha : ∀ id, a.accepted = some id → id = st.sessionId) :
    Accepts R s0 a w := by
  intro id hid
  obtain rfl := ha id hid
  obtain ⟨n, st0, hran, hst⟩ := hstored
  refine ⟨hnot, st0, n, hran, hst.sessionId.symm, fun hR => ?_⟩
  obtain ⟨row, hrow, -, -, hcurrent⟩ := hinv.2.2 hR st0 n hran
  unfold AuthWorld.isCurrent at hactive
  rw [hst.userId, hrow] at hactive
  have hversion : row.tokenVersion = st.tokenVersion :=
    of_decide_eq_true (Bool.and_eq_true_iff.1 hactive).2
  rw [hcurrent (by rw [hversion, hst.tokenVersion])]
  exact hl.changes st0.userId

/-- A session whose state was read was not revoked before. -/
theorem not_revoked_of_stored {s0 w : AuthWorld} {id : Nat} {st : SessionState} (hl : s0.Later w)
    (hst : w.redis.sessions id = some st) : ¬s0.Revoked id := by
  intro h
  exact absurd (hst.symm.trans (hl.revoked id h).2) (by simp)

section Start

variable {base : Rights AuthKey} {Q : AuthAnswer → Ctx AuthWorld AuthKey → AuthWorld → Prop}

theorem stable_laterThan (H : Rights AuthKey) (s0 : AuthWorld) :
    (authProtocol R).Stable H fun w => s0.Later w :=
  stable_later fun _ _ hl h => h.trans hl

theorem stable_stored {H : Rights AuthKey} (st : SessionState) (n : Nat) :
    (authProtocol R).Stable H fun w => w.Stored st n :=
  stable_later fun _ _ hl h => hl.stored h

/-! ## `current_session` and `logout` -/

theorem wp_currentSession {token : Nat} (hQ : ∀ a w, Accepts R s a w → a.NoLogin → Q a (.start base) w) :
    (authProtocol R).wp (currentSession token) Q (fun _ _ _ => True) (.start base) s := by
  have nothing : ∀ w, Q .nothing (.start base) w := fun w => hQ _ w (.none s rfl w) fun _ => by simp
  refine Protocol.wp_seq (wp_stateForToken (tidy_start base) (stable_laterThan _ s) (.refl s)
    (fun w _ => nothing w) fun id st w hw hinv hst _ _ _ => ?_)
  obtain ⟨hid, n, hstored⟩ := hinv.1.session id st hst
  have hnot : ¬s.Revoked st.sessionId := hid ▸ not_revoked_of_stored hw hst
  show (authProtocol R).wp (currentState st) Q _ _ _
  refine Protocol.wp_seq (wp_database ((stable_laterThan _ s).and (stable_stored st n)) ⟨hw, hstored⟩
    fun w hw hinv => ?_)
  show Q (if w.isCurrent st then _ else _) _ _
  split
  · next hactive =>
      refine hQ _ w (accepts_of_active hw.1 hinv hnot ⟨n, hw.2⟩ hactive fun id hid => ?_) fun _ => by simp
      exact (Option.some.inj hid).symm
  · exact nothing w

theorem wp_logout {token : Nat} (hQ : ∀ b w, Q (.done b) (.start base) w) :
    (authProtocol R).wp (logout token) Q (fun _ _ _ => True) (.start base) s := by
  refine Protocol.wp_seq (wp_stateForToken (tidy_start base) (Protocol.stable_const _ True) trivial
    (fun w _ => hQ false w) fun id st w _ hinv hst _ _ _ => ?_)
  obtain ⟨-, n, hstored⟩ := hinv.1.session id st hst
  exact Protocol.wp_seq (wp_revokeState (A := fun _ => True) (tidy_start base) (fun _ _ _ h => h) trivial
    hstored.issued fun w _ _ => hQ true w)

/-! ## `refresh` -/

/-- A refresh token that was used before the call revokes its session. -/
def Reused (R : AuthRegime) (s0 : AuthWorld) (token : Nat) (a : AuthAnswer) (w : AuthWorld) : Prop :=
  R ≠ .password → ∀ id, s0.redis.usedRefresh token = some id → a = .nothing ∧ w.Revoked id

theorem wp_refreshUsed {s0 : AuthWorld} {token : Nat} (hl : s0.Later s)
    (hused : R ≠ .password → ∀ id, s0.redis.usedRefresh token = some id → s.redis.usedRefresh token = some id)
    (hQ : ∀ w, Reused R s0 token .nothing w → Q .nothing (.start base) w) :
    (authProtocol R).wp (refreshUsed token) Q (fun _ _ _ => True) (.start base) s := by
  have hA : (authProtocol R).Stable (Ctx.start base : Ctx AuthWorld AuthKey).held fun w =>
      R ≠ .password → ∀ id, s0.redis.usedRefresh token = some id → w.redis.usedRefresh token = some id :=
    fun w w' hi h hR id hid => stable_used hR w w' hi (h hR id hid)
  refine Protocol.wp_seq (wp_fetch (tidy_start base) ((stable_laterThan _ s0).and hA) ⟨hl, hused⟩
    fun w hw hinv => ?_)
  refine wp_revokeLoaded (tidy_start base) (fun _ _ hl h => h.trans hl) hw.1 fun w' _ hrevoked => ?_
  refine hQ w' fun hR id hid => ⟨rfl, ?_⟩
  have hfound := hw.2 hR id hid
  exact hrevoked id hfound (hinv.1.used _ _ hfound).2.2

theorem wp_rotateSession {token access next n : Nat} {st : SessionState} (hkey : st.refreshKey = token)
    (hheld : ∀ name ∈ [AuthKey.token .access access, .token .refresh next],
      (name, LockMode.exclusive) ∈ base)
    (hnew : s.Unissued [.token .access access, .token .refresh next]) (hstored : s.Stored st n)
    (hQ : ∀ a w, s.Later w → (∀ id, a.accepted = some id → id = st.sessionId) → a.NoLogin →
      Q a (.start base) w) :
    (authProtocol R).wp (rotateSession token access next st) Q (fun _ _ _ => True) (.start base) s := by
  have allowed : ∀ w : AuthWorld, w.Unissued [.token .access access, .token .refresh next] → w.Stored st n →
      Allowed R base (.rotate ⟨st.refreshKey, token, { st with accessKey := access, refreshKey := next }⟩) w := by
    intro w hw hs
    refine ⟨fun name hn => ⟨hheld name hn, hw name hn⟩, hkey.symm, n, ?_⟩
    obtain ⟨st0, hran, hst⟩ := hs
    exact ⟨st0, hran, hst.sessionId, hst.userId, hst.subject, hst.tokenVersion⟩
  refine Protocol.wp_seq (wp_sendFor (tidy_start base)
    (((stable_laterThan _ s).and (stable_unissuedAll hheld)).and (stable_stored st n))
    ⟨⟨.refl s, hnew⟩, hstored⟩ (fun w hw _ => allowed w hw.1.2 hw.2) fun w hw _ => ?_)
  refine hQ _ _ (hw.1.1.trans (AuthWorld.later_execute (allowed w hw.1.2 hw.2))) (fun id hid => ?_)
    fun r hr => ?_
  · split at hid
    · exact (Option.some.inj hid).symm
    · exact absurd hid (by simp [AuthAnswer.accepted])
  · split at hr <;> exact absurd hr (by simp)

theorem wp_refreshState {s0 : AuthWorld} {token access next n : Nat} {st : SessionState} (hl : s0.Later s)
    (hkey : st.refreshKey = token) (hnot : ¬s0.Revoked st.sessionId)
    (hheld : ∀ name ∈ [AuthKey.token .access access, .token .refresh next],
      (name, LockMode.exclusive) ∈ base)
    (hnew : s.Unissued [.token .access access, .token .refresh next]) (hstored : s.Stored st n)
    (hQ : ∀ a w, Accepts R s0 a w → a.NoLogin → Q a (.start base) w) :
    (authProtocol R).wp (refreshState token access next st) Q (fun _ _ _ => True) (.start base) s := by
  refine Protocol.wp_seq (wp_database
    (((stable_laterThan _ s0).and (stable_unissuedAll hheld)).and (stable_stored st n))
    ⟨⟨hl, hnew⟩, hstored⟩ fun w hw hinv => ?_)
  show (authProtocol R).wp (if !w.isCurrent st then _ else _) Q _ _ _
  split
  · exact Protocol.wp_seq (wp_revokeState (A := fun _ => True) (tidy_start base) (fun _ _ _ h => h) trivial
      hw.2.issued fun w _ _ => hQ _ w (.none s0 rfl w) fun _ => by simp)
  · next hactive =>
      have hactive : w.isCurrent st = true := by simpa using hactive
      refine wp_rotateSession hkey hheld hw.1.2 hw.2 fun a w' hlater ha hno => ?_
      exact hQ a w' ((accepts_of_active hw.1.1 hinv hnot ⟨n, hw.2⟩ hactive ha).later hlater) hno

theorem wp_refresh {token access next : Nat}
    (hheld : ∀ name ∈ [AuthKey.token .access access, .token .refresh next],
      (name, LockMode.exclusive) ∈ base)
    (hnew : s.Unissued [.token .access access, .token .refresh next])
    (hQ : ∀ a w, Accepts R s a w → a.NoLogin → Reused R s token a w → Q a (.start base) w) :
    (authProtocol R).wp (refresh token access next) Q (fun _ _ _ => True) (.start base) s := by
  have hA : (authProtocol R).Stable (Ctx.start base : Ctx AuthWorld AuthKey).held fun w =>
      R ≠ .password → ∀ id, s.redis.usedRefresh token = some id → w.redis.usedRefresh token = some id :=
    fun w w' hi h hR id hid => stable_used hR w w' hi (h hR id hid)
  refine Protocol.wp_seq (wp_stateForToken (tidy_start base)
    (((stable_laterThan _ s).and (stable_unissuedAll hheld)).and hA) ⟨⟨.refl s, hnew⟩, fun _ _ h => h⟩
    (fun w hw => ?_) fun id st w hw hinv hst hkey _ hfound => ?_)
  · exact wp_refreshUsed hw.1.1 hw.2 fun w' h => hQ _ w' (.none s rfl w') (fun _ => by simp) h
  · obtain ⟨hid, n, hstored⟩ := hinv.1.session id st hst
    obtain ⟨w0, hw0, hinv0, htok⟩ := hfound
    refine wp_refreshState hw.1.1 hkey (hid ▸ not_revoked_of_stored hw.1.1 hst) hheld hw.1.2 hstored
      fun a w' ha hno => hQ a w' ha hno fun hR id' hid' => ?_
    -- A used token is not the token of a session.
    have hnone := (hinv0.1.used _ _ (hw0.2 hR id' hid')).1
    exact absurd (htok.symm.trans hnone) (by simp)

/-! ## `logout_all` -/

/-- Where `logout_all` has succeeded, the sessions are revoked that were in the index of the token's user
    when the call began. -/
def LoggedOut (R : AuthRegime) (s0 : AuthWorld) (token : Nat) (b : Bool) (w : AuthWorld) : Prop :=
  b = true → ∃ st n, w.Ran (.setSession st n) ∧ w.IssuedFor .access token st.sessionId ∧
    (R = .index → ∀ id, s0.Ran (.sadd st.userId id) → w.Revoked id)

/-- The loop of `logout_all`: of the sessions that count, those are left that were not walked yet. -/
theorem wp_revokeSessions {ids : List Nat} (old : Nat → Prop)
    {Q : Unit → Ctx AuthWorld AuthKey → AuthWorld → Prop}
    (hA : ∀ w w' : AuthWorld, w.Later w' → A w → A w') (hs : A s)
    (hissued : ∀ id, old id → s.Issued (.session id)) (hold : ∀ id, old id → id ∈ ids ∨ s.Revoked id)
    (hQ : ∀ w, A w → (∀ id, old id → w.Revoked id) → Q () (.start base) w) :
    (authProtocol R).wp (revokeSessions ids) Q (fun _ _ _ => True) (.start base) s := by
  induction ids generalizing s with
  | nil => exact hQ s hs fun id hid => (hold id hid).resolve_left List.not_mem_nil
  | cons id rest ih =>
      have hA' : ∀ w w' : AuthWorld, w.Later w' → (s.Later w ∧ A w) → s.Later w' ∧ A w' :=
        fun w w' hl h => ⟨h.1.trans hl, hA w w' hl h.2⟩
      refine wp_revokeLoaded (tidy_start base) hA' ⟨.refl s, hs⟩ fun w hw hrevoked => ?_
      refine ih hw.2 (fun id' hid' => hw.1.issued (hissued id' hid')) fun id' hid' => ?_
      rcases hold id' hid' with hmem | hgone
      · rcases List.mem_cons.1 hmem with rfl | hmem
        · exact Or.inr (hrevoked id' rfl (hissued id' hid'))
        · exact Or.inl hmem
      · exact Or.inr (hw.1.revoked _ hgone)

theorem wp_logoutAllOf {host : AuthHost} {s0 : AuthWorld} {token n : Nat} {st st0 : SessionState}
    (hl : s0.Later s) (hran : s.Ran (.setSession st0 n)) (hst : st.Renews st0)
    (hfor : s.IssuedFor .access token st0.sessionId)
    (hQ : ∀ b w, LoggedOut R s0 token b w → Q (.done b) (.start base) w) :
    (authProtocol R).wp (logoutAllOf host st) Q (fun _ _ _ => True) (.start base) s := by
  -- What is not forgotten on the way.
  let A : AuthWorld → Prop := fun w =>
    s0.Later w ∧ w.Ran (.setSession st0 n) ∧ w.IssuedFor .access token st0.sessionId
  have hA : ∀ w w' : AuthWorld, w.Later w' → A w → A w' := fun w w' hlater h =>
    ⟨h.1.trans hlater, hlater.ran _ h.2.1, hlater.issuedFor h.2.2⟩
  refine Protocol.wp_seq (wp_fetch (tidy_start base) (stable_later hA) ⟨hl, hran, hfor⟩ fun w hw hinv => ?_)
  let old : Nat → Prop := fun id => R = .index ∧ s0.Ran (.sadd st.userId id)
  have hadded : ∀ id, old id → ∃ st1 n1, w.Ran (.setSession st1 n1) ∧ st1.sessionId = id ∧
      st1.userId = st.userId :=
    fun id hid => hinv.1.added _ _ (hw.1.ran _ hid.2)
  have hissued : ∀ id, old id → w.Issued (.session id) := by
    intro id hid
    obtain ⟨st1, n1, hran1, rfl, -⟩ := hadded id hid
    exact hran1.issued
  refine Protocol.wp_seq (wp_revokeSessions old hA hw hissued (fun id hid => ?_)
    fun w' hw' hrevoked => ?_)
  · rw [(host.order_perm _).mem_iff]
    cases hrecord : w.redis.sessions id with
    | none => exact Or.inr ⟨hissued id hid, hrecord⟩
    | some st2 =>
        -- Its user is the one it was added for.
        obtain ⟨st1, n1, hran1, hid1, huser1⟩ := hadded id hid
        obtain ⟨hid2, n2, st3, hran3, hst3⟩ := hinv.1.session id st2 hrecord
        obtain ⟨rfl, -⟩ := hinv.1.once st1 st3 n1 n2 hran1 hran3
          (hid1.trans (hid2.symm.trans hst3.sessionId))
        have huser : st2.userId = st.userId := hst3.userId.trans huser1
        have hin := hinv.2.1 hid.1 id st2 hrecord (huser ▸ hw.1.ran _ hid.2)
        exact Or.inl (huser ▸ hin)
  · have hrev : ∀ w w' : AuthWorld, w.Later w' → (A w ∧ ∀ id, old id → w.Revoked id) →
        A w' ∧ ∀ id, old id → w'.Revoked id :=
      fun w w' hlater h => ⟨hA w w' hlater h.1, fun id hid => hlater.revoked id (h.2 id hid)⟩
    have hduty : ∀ w : AuthWorld, Command.Duty R w (.delete [.userSessions st.userId]) :=
      fun w => ⟨by simp, by simp⟩
    refine Protocol.wp_seq (wp_sendQuiet (tidy_start base) (stable_later hrev) ⟨hw', hrevoked⟩ rfl hduty
      fun w hw _ => ?_)
    have hw := hrev w _ (AuthWorld.later_execute (R := R) (H := base)
      (c := .delete [.userSessions st.userId]) ⟨by simp [Command.names], hduty w⟩) hw
    refine hQ _ _ fun _ => ⟨st0, n, hw.1.2.1, hw.1.2.2, fun hR id hid => hw.2 id ⟨hR, ?_⟩⟩
    exact hst.userId ▸ hid

theorem wp_logoutAll {host : AuthHost} {token : Nat}
    (hQ : ∀ b w, LoggedOut R s token b w → Q (.done b) (.start base) w) :
    (authProtocol R).wp (logoutAll host token) Q (fun _ _ _ => True) (.start base) s := by
  refine Protocol.wp_seq (wp_stateForToken (tidy_start base) (stable_laterThan _ s) (.refl s)
    (fun w _ => hQ _ w fun h => absurd h (by simp)) fun id st w hw hinv hst _ hfor _ => ?_)
  obtain ⟨hid, n, st0, hran, hrenews⟩ := hinv.1.session id st hst
  refine wp_logoutAllOf hw hran hrenews ?_ hQ
  rw [← hrenews.sessionId, hid]
  exact hfor

/-! ## Passwords -/

/-- Writes that concern neither users nor sessions. -/
def KeepsUsers (u : AuthWorld → AuthWorld) : Prop :=
  ∀ w, (u w).users = w.users ∧ (u w).redis = w.redis ∧ (u w).history = w.history

theorem local_consumeToken (raw : Nat) (purpose : String) : (consumeToken raw purpose).Local KeepsUsers :=
  Code.local_bind (Code.local_select _ _) fun _ => Code.local_bind (Code.local_selectLocking _ _ _ _) fun _ =>
    Code.local_bind (Code.local_orRaise _ _) fun _ => Code.local_bind (Code.local_select _ _) fun _ =>
      Code.local_bind (Code.local_write _ fun _ => ⟨rfl, rfl, rfl⟩) fun _ => Code.local_pure _

theorem keepsUsers_pending {c' : Ctx AuthWorld AuthKey} (h : (Ctx.start base).Grows KeepsUsers c')
    (w : AuthWorld) :
    (c'.pending w).users = w.users ∧ (c'.pending w).redis = w.redis ∧ (c'.pending w).history = w.history :=
  ⟨h.project (f := AuthWorld.users) (fun _ hu w => (hu w).1) w,
    h.project (f := AuthWorld.redis) (fun _ hu w => (hu w).2.1) w,
    h.project (f := AuthWorld.history) (fun _ hu w => (hu w).2.2) w⟩

/-- Rows of users are not deleted. -/
theorem stable_user {H : Rights AuthKey} (id : UUID) :
    (authProtocol R).Stable H fun w => ∃ row, w.users.get? id = some row := by
  rintro w w' ⟨-, -, he | ⟨point, H', -, -, hg⟩⟩ ⟨row, hrow⟩
  · obtain he | ⟨-, keys, rfl⟩ := he
    · obtain ⟨row', hrow', -⟩ := he.users id row hrow
      exact ⟨row', hrow'⟩
    · exact ⟨row, hrow⟩
  · obtain ⟨cmd, -, rfl, -⟩ | ⟨user, loaded, -, hp⟩ | he := authGuar_cases hg
    · exact ⟨row, hrow⟩
    · obtain ⟨row', hrow', -⟩ := hp.users id row hrow
      exact ⟨row', hrow'⟩
    · obtain ⟨row', hrow', -⟩ := he.users id row hrow
      exact ⟨row', hrow'⟩

theorem flush_tokenVersion {loaded value row : User} (h : value.tokenVersion = loaded.tokenVersion + 1) :
    (loaded.flush value row).tokenVersion = loaded.tokenVersion + 1 := by
  show written loaded.tokenVersion value.tokenVersion row.tokenVersion = _
  unfold written
  rw [if_neg (by omega), h]

/-- What the writes of a password change do at the commit. -/
theorem passwordChanged_of_pending {H : Rights AuthKey} {id : UUID} (loaded value : User)
    {c' : Ctx AuthWorld AuthKey} (hc' : (Ctx.start base).Grows KeepsUsers c')
    (hheld : (.user id, LockMode.exclusive) ∈ H) (hvalue : value.tokenVersion = loaded.tokenVersion + 1)
    (w : AuthWorld) :
    AuthWorld.PasswordChanged id loaded.tokenVersion H w ((c'.pending w).changePassword id loaded value) := by
  obtain ⟨husers, hredis, hhistory⟩ := keepsUsers_pending hc' w
  refine ⟨hheld, hredis, ?_, fun id' row hrow => ?_⟩
  · show AuthEvent.passwordChanged id :: (c'.pending w).history = _
    rw [hhistory]
  · show ∃ row', ((c'.pending w).users.update id (loaded.flush value)).get? id' = some row' ∧ _
    rw [husers, Table.get?_update, hrow]
    split
    · exact ⟨_, rfl, flush_tokenVersion hvalue⟩
    · exact ⟨row, rfl, rfl⟩

theorem authInv_passwordChanged {H : Rights AuthKey} {id : UUID} {loaded : Int} {w w' : AuthWorld}
    (h : (authProtocol R).inv w) (hp : AuthWorld.PasswordChanged id loaded H w w')
    (hcond : authCond R (.passwordChange id loaded) w) : (authProtocol R).inv w' := by
  refine ⟨hp.inv h.1, fun hR => hp.indexed (h.2.1 hR), ?_⟩
  rintro rfl
  exact (h.2.2 rfl).congr (fun _ _ hran => (AuthWorld.ran_passwordChanged hp.history _).1 hran)
    fun _ _ _ hs => hp.stamp hcond hs

theorem wp_setPassword {host : AuthHost} {purpose : String} {change : User → User} {raw salt : Nat}
    {newPassword : String} (hchange : ∀ user, (change user).tokenVersion = user.tokenVersion)
    (hQ : ∀ w, Q .passwordSet (.start base) w) :
    (authProtocol R).wp (setPassword host purpose change raw newPassword salt) Q (fun _ _ _ => True)
      (.start base) s := by
  refine Protocol.wp_transaction (D := fun _ _ => True) (fun _ h => h) (fun _ => Protocol.stable_const _ _)
    (fun _ _ _ _ => trivial) ?_
  refine Protocol.wp_seq (Protocol.wp_local (local_consumeToken raw purpose) (Protocol.stable_const _ True)
    trivial (fun token c' w hgrows _ => ?_) fun _ _ _ _ _ => trivial)
  refine Protocol.wp_seq (wp_database (Protocol.stable_const _ True) trivial fun w _ _ => ?_)
  refine Protocol.wp_seq (Protocol.wp_orRaise (fun user hfound => ?_) fun _ => trivial)
  refine Protocol.wp_seq (Protocol.wp_orRaise (fun digest _ => ?_) fun _ => trivial)
  have hthere : ∃ row, w.users.get? token.userId = some row :=
    ⟨user, by rw [← (keepsUsers_pending hgrows w).1]; exact hfound⟩
  refine Protocol.wp_seq (Protocol.wp_selectLocking (stable_user token.userId) hthere
    (fun w hw _ _ hnone => ?_) (fun w row hw _ _ hrow => ?_) fun _ _ _ => trivial)
  · obtain ⟨user', huser'⟩ := hw
    rw [(keepsUsers_pending hgrows w).1, huser'] at hnone
    exact absurd hnone (by simp)
  · obtain ⟨user', huser'⟩ := hw
    rw [(keepsUsers_pending hgrows w).1, huser'] at hrow
    obtain rfl := Option.some.inj hrow
    refine Protocol.wp_seq (Protocol.wp_write (Protocol.stable_const _ True) trivial (fun w _ _ _ => ?_)
      fun _ _ _ => trivial)
    refine Protocol.commitsAt_of (Protocol.stable_const _ True) trivial (fun _ _ => trivial)
      fun w _ hinv hcond => ?_
    have hp := passwordChanged_of_pending (H := (.user token.userId, .exclusive) :: c'.held) user
      (change { user with passwordHash := ⟨salt, digest⟩, tokenVersion := user.tokenVersion + 1 })
      hgrows List.mem_cons_self (hchange _) w
    refine ⟨authInv_passwordChanged hinv hp hcond, hp, ?_, fun _ => trivial⟩
    have hreset : c'.reset = .start base := by
      rw [hgrows.reset]
      rfl
    rw [Ctx.reset, Ctx.buffer_base, Ctx.take_base, ← Ctx.reset, hreset]
    exact hQ _

end Start

/-! ## Calls -/

/-- What a call that started at `s0` returns. -/
def AuthCall.Post (R : AuthRegime) (s0 : AuthWorld) (call : AuthCall) (a : AuthAnswer) (w : AuthWorld) : Prop :=
  Accepts R s0 a w ∧
    match call with
    | login _ names _ => LoginResult names a w
    | completeMfaChallenge _ _ names => LoginResult names a w
    | refresh token _ _ => a.NoLogin ∧ Reused R s0 token a w
    | logoutAll token => ∃ b, a = .done b ∧ LoggedOut R s0 token b w
    | _ => a.NoLogin

theorem AuthCall.held {call : AuthCall} {name : AuthKey} (h : name ∈ call.names) :
    (name, LockMode.exclusive) ∈ call.rights :=
  List.mem_map_of_mem h

/-- Every call keeps the protocol, from where its names are new. -/
theorem wp_authCall (host : AuthHost) (call : AuthCall) (hnew : s.Unissued call.names) :
    (authProtocol R).wp (call.run host) (fun a c w => c = .start call.rights ∧ call.Post R s a w)
      (fun _ _ _ => True) (.start call.rights) s := by
  cases call with
  | login payload names ticket =>
      exact wp_login (tidy_start _) rfl (fun _ hn => AuthCall.held hn) hnew fun a w h =>
        ⟨rfl, .none s h.accepted w, h⟩
  | completeMfaChallenge ticket code names =>
      exact wp_completeMfaChallenge (fun _ hn => AuthCall.held hn) hnew fun a w h => ⟨rfl, .none s h.accepted w, h⟩
  | refresh token access next =>
      exact wp_refresh (fun _ hn => AuthCall.held hn) hnew fun a w ha hno h => ⟨rfl, ha, hno, h⟩
  | currentSession token => exact wp_currentSession fun a w ha hno => ⟨rfl, ha, hno⟩
  | logout token => exact wp_logout fun b w => ⟨rfl, .none s rfl w, fun _ => by simp⟩
  | logoutAll token => exact wp_logoutAll fun b w h => ⟨rfl, .none s rfl w, b, rfl, h⟩
  | resetPassword raw newPassword salt =>
      show (authProtocol R).wp (setPassword host _ id raw newPassword salt) _ _ _ _
      exact wp_setPassword (fun _ => rfl) fun w => ⟨rfl, .none s rfl w, fun _ => by simp⟩
  | verifyEmail raw newPassword salt =>
      show (authProtocol R).wp (setPassword host _ (fun user =>
        { user with emailVerified := true, isActive := true }) raw newPassword salt) _ _ _ _
      exact wp_setPassword (fun _ => rfl) fun w => ⟨rfl, .none s rfl w, fun _ => by simp⟩

end Rubrica
