import Mathlib.Data.List.Perm.Basic
import Rubrica.Sessions.Store
import Rubrica.Transactions.Program

set_option autoImplicit false

/-! # What holds of the session store

The invariants of the session store, each with what a command may do to keep it: a name is brought into
use once, by a holder of it; a session that was revoked is not stored again; a refresh token that was
used is not taken again. The index of sessions and the passwords behind them are kept on conditions. -/

namespace Rubrica

open Transactions

/-! ## Fields after a command -/

/-- The token of a kind that a rotation deletes. -/
def Rotation.spent (a : Rotation) (current : SessionState) : TokenKind → Nat
  | .access => current.accessKey
  | .refresh => a.refreshKey

namespace Redis

variable {r : Redis} {a : Rotation} {current : SessionState}

theorem rotates_eq_some : r.rotates a = some current ↔
    r.tokens .refresh a.refreshKey = some a.next.sessionId ∧ r.sessions a.next.sessionId = some current ∧
      current.refreshKey = a.refreshKey := by
  unfold rotates
  split
  · next h => simp [h, Option.filter_eq_some_iff]
  · next h => simp [h]

theorem rotate_of_some (h : r.rotates a = some current) : r.rotate a = r.rotated a current := by
  simp only [rotate, h]

theorem rotate_of_none (h : r.rotates a = none) : r.rotate a = r := by
  simp only [rotate, h]

theorem setToken_tokens (r : Redis) (kind kind' : TokenKind) (token token' session : Nat) :
    (r.setToken kind token session).tokens kind' token' =
      if kind' = kind ∧ token' = token then some session else r.tokens kind' token' := by
  by_cases hk : kind' = kind
  · subst hk
    simp [setToken, Function.update_apply]
  · simp [setToken, hk]

theorem rotated_tokens (kind : TokenKind) (token : Nat) :
    (r.rotated a current).tokens kind token =
      if token = a.next.key kind then some a.next.sessionId
      else if token = a.spent current kind then none
      else r.tokens kind token := by
  show ((((r.delete _).setSession a.next).setToken .access _ _).setToken .refresh _ _).tokens kind token = _
  rw [setToken_tokens, setToken_tokens]
  cases kind with
  | access =>
      simp only [reduceCtorEq, false_and, if_false, true_and]
      exact if_congr Iff.rfl rfl (if_congr (by simp [Rotation.spent]) rfl rfl)
  | refresh =>
      simp only [reduceCtorEq, false_and, if_false, true_and]
      exact if_congr Iff.rfl rfl (if_congr (by simp [Rotation.spent]) rfl rfl)

theorem rotated_sessions (id : Nat) :
    (r.rotated a current).sessions id = if id = a.next.sessionId then some a.next else r.sessions id := by
  simp [rotated, sadd, setUsed, setToken, setSession, delete, Function.update_apply]

theorem rotated_usedRefresh (token : Nat) :
    (r.rotated a current).usedRefresh token =
      if token = a.used then some a.next.sessionId else r.usedRefresh token := by
  simp [rotated, sadd, setUsed, setToken, setSession, delete, Function.update_apply]

theorem rotated_userSessions (user : UUID) :
    (r.rotated a current).userSessions user =
      if user = a.next.userId then (r.userSessions user).insert a.next.sessionId
      else r.userSessions user := by
  by_cases h : user = a.next.userId
  · subst h
    simp [rotated, sadd, setUsed, setToken, setSession, delete]
  · simp [rotated, sadd, setUsed, setToken, setSession, delete, h]

end Redis

/-! ## What is known of the past -/

/-- The state of the same login, perhaps under other tokens. -/
structure SessionState.Renews (st st0 : SessionState) : Prop where
  sessionId : st.sessionId = st0.sessionId
  userId : st.userId = st0.userId
  subject : st.subject = st0.subject
  tokenVersion : st.tokenVersion = st0.tokenVersion

theorem SessionState.Renews.refl (st : SessionState) : st.Renews st := ⟨rfl, rfl, rfl, rfl⟩

namespace AuthWorld

/-- A login stored the session, after a check of the password that the `checked` changes had led to. -/
def Stored (st : SessionState) (checked : Nat) (w : AuthWorld) : Prop :=
  ∃ st0, w.Ran (.setSession st0 checked) ∧ st.Renews st0

/-- The session was stored, and is not there any more. -/
def Revoked (id : Nat) (w : AuthWorld) : Prop :=
  w.Issued (.session id) ∧ w.redis.sessions id = none

/-- The token was written for the session. -/
def IssuedFor (kind : TokenKind) (token id : Nat) (w : AuthWorld) : Prop :=
  w.Ran (.setToken kind token id) ∨ ∃ a, w.Ran (.rotate a) ∧ a.next.key kind = token ∧ a.next.sessionId = id

/-- The session, if it was stored, has been added to its user's set. -/
def InIndex (id : Nat) (w : AuthWorld) : Prop :=
  ∀ st checked, w.Ran (.setSession st checked) → st.sessionId = id → w.Ran (.sadd st.userId id)

/-- `version` is the user's only if the password is still the one that `checked` changes had led to. -/
def Stamp (user : UUID) (version : Int) (checked : Nat) (w : AuthWorld) : Prop :=
  ∃ row, w.users.get? user = some row ∧ version ≤ row.tokenVersion ∧ checked ≤ w.changes user ∧
    (version = row.tokenVersion → checked = w.changes user)

variable {w w' : AuthWorld}

theorem Ran.execute {c : Command} (h : w.Ran c) (c' : Command) : (w.execute c').Ran c :=
  ran_execute_iff.2 (Or.inr h)

theorem ran_execute (c : Command) (w : AuthWorld) : (w.execute c).Ran c :=
  ran_execute_iff.2 (Or.inl rfl)

theorem Issued.execute {name : AuthKey} (h : w.Issued name) (c : Command) : (w.execute c).Issued name :=
  issued_execute_iff.2 (Or.inr h)

theorem IssuedFor.issued {kind : TokenKind} {token id : Nat} (h : w.IssuedFor kind token id) :
    w.Issued (.token kind token) := by
  rcases h with h | ⟨a, h, rfl, -⟩
  · exact ⟨_, h, by simp [Command.names]⟩
  · refine ⟨_, h, ?_⟩
    cases kind <;> simp [Command.names, SessionState.key]

theorem Ran.issued {st : SessionState} {n : Nat} (h : w.Ran (.setSession st n)) :
    w.Issued (.session st.sessionId) :=
  ⟨_, h, by simp [Command.names]⟩

theorem Stored.issued {st : SessionState} {n : Nat} (h : w.Stored st n) :
    w.Issued (.session st.sessionId) := by
  obtain ⟨st0, hran, hst⟩ := h
  rw [hst.sessionId]
  exact hran.issued

/-- Nothing is forgotten, and what was revoked stays revoked. -/
structure Later (w w' : AuthWorld) : Prop where
  ran : ∀ c, w.Ran c → w'.Ran c
  changes : ∀ user, w.changes user ≤ w'.changes user
  revoked : ∀ id, w.Revoked id → w'.Revoked id

theorem Later.refl (w : AuthWorld) : w.Later w := ⟨fun _ h => h, fun _ => Nat.le_refl _, fun _ h => h⟩

theorem Later.trans {w'' : AuthWorld} (h : w.Later w') (h' : w'.Later w'') : w.Later w'' where
  ran c hc := h'.ran c (h.ran c hc)
  changes user := Nat.le_trans (h.changes user) (h'.changes user)
  revoked id hid := h'.revoked id (h.revoked id hid)

theorem Later.issued (h : w.Later w') {name : AuthKey} (hn : w.Issued name) : w'.Issued name := by
  obtain ⟨c, hc, hname⟩ := hn
  exact ⟨c, h.ran c hc, hname⟩

theorem Later.stored (h : w.Later w') {st : SessionState} {n : Nat} (hs : w.Stored st n) :
    w'.Stored st n := by
  obtain ⟨st0, hran, hst⟩ := hs
  exact ⟨st0, h.ran _ hran, hst⟩

theorem Later.issuedFor (h : w.Later w') {kind : TokenKind} {token id : Nat}
    (hi : w.IssuedFor kind token id) : w'.IssuedFor kind token id := by
  rcases hi with hi | ⟨a, hran, ha⟩
  · exact Or.inl (h.ran _ hi)
  · exact Or.inr ⟨a, h.ran _ hran, ha⟩

/-! ## Invariants -/

/-- What holds of the store and of its past. -/
structure Inv (w : AuthWorld) : Prop where
  used : ∀ token id, w.redis.usedRefresh token = some id →
    w.redis.tokens .refresh token = none ∧ w.Issued (.token .refresh token) ∧ w.Issued (.session id)
  token : ∀ kind token id, w.redis.tokens kind token = some id → w.IssuedFor kind token id
  session : ∀ id st, w.redis.sessions id = some st → st.sessionId = id ∧ ∃ n, w.Stored st n
  once : ∀ st st' n n', w.Ran (.setSession st n) → w.Ran (.setSession st' n') →
    st.sessionId = st'.sessionId → st = st' ∧ n = n'
  added : ∀ user id, w.Ran (.sadd user id) →
    ∃ st n, w.Ran (.setSession st n) ∧ st.sessionId = id ∧ st.userId = user

/-- A session that was added to its user's set is in it as long as it is stored. -/
def Indexed (w : AuthWorld) : Prop :=
  ∀ id st, w.redis.sessions id = some st → w.Ran (.sadd st.userId id) → id ∈ w.redis.userSessions st.userId

/-- No session is stored under the `token_version` of a password that it did not check. -/
def Stamped (w : AuthWorld) : Prop :=
  ∀ st n, w.Ran (.setSession st n) → w.Stamp st.userId st.tokenVersion n

theorem Fresh.not_ran (h : w.Fresh) (c : Command) : ¬w.Ran c := by
  simp [Ran, h.2]

theorem Fresh.inv (h : w.Fresh) : w.Inv where
  used token id ht := by simp [h.1, Redis.empty] at ht
  token kind token id ht := by simp [h.1, Redis.empty] at ht
  session id st ht := by simp [h.1, Redis.empty] at ht
  once st st' n n' hran := absurd hran (h.not_ran _)
  added user id hran := absurd hran (h.not_ran _)

theorem Fresh.indexed (h : w.Fresh) : w.Indexed :=
  fun _ _ _ hran => absurd hran (h.not_ran _)

theorem Fresh.stamped (h : w.Fresh) : w.Stamped :=
  fun _ _ hran => absurd hran (h.not_ran _)

end AuthWorld

/-! ## What calls promise -/

/-- What else is kept: nothing, the index of sessions, or the passwords behind them. -/
inductive AuthRegime where
  | rotation
  | index
  | password
  deriving DecidableEq, Repr

/-- What a command needs besides its names. -/
def Command.Duty (R : AuthRegime) (w : AuthWorld) : Command → Prop
  | setSession st n => R = .password → w.Stamp st.userId st.tokenVersion n
  | sadd user id => ∃ st n, w.Ran (.setSession st n) ∧ st.sessionId = id ∧ st.userId = user
  | srem _ id => w.Revoked id
  | delete keys => (∀ token, .usedRefresh token ∉ keys) ∧ ∀ id, .session id ∈ keys → w.Issued (.session id)
  | rotate a => a.used = a.refreshKey ∧ ∃ n, w.Stored a.next n
  | _ => True

/-- A holder of `H` may execute the command. -/
structure Allowed (R : AuthRegime) (H : Rights AuthKey) (c : Command) (w : AuthWorld) : Prop where
  names : ∀ name ∈ c.names, (name, LockMode.exclusive) ∈ H ∧ ¬w.Issued name
  duty : c.Duty R w

/-- Nothing that sessions rest on changes: Redis, and the passwords. -/
structure AuthWorld.Elsewhere (w w' : AuthWorld) : Prop where
  redis : w'.redis = w.redis
  history : w'.history = w.history
  users : ∀ id row, w.users.get? id = some row → ∃ row', w'.users.get? id = some row' ∧
    row'.passwordHash = row.passwordHash ∧ row'.tokenVersion = row.tokenVersion

/-- What a committed password change does, of a user who was loaded with this `token_version`. -/
structure AuthWorld.PasswordChanged (user : UUID) (loaded : Int) (H : Rights AuthKey) (w w' : AuthWorld) : Prop where
  held : (.user user, LockMode.exclusive) ∈ H
  redis : w'.redis = w.redis
  history : w'.history = .passwordChanged user :: w.history
  users : ∀ id row, w.users.get? id = some row → ∃ row', w'.users.get? id = some row' ∧
    row'.tokenVersion = if id = user then loaded + 1 else row.tokenVersion

/-- Keys lapse. -/
def AuthWorld.lapse (keys : List RedisKey) (w : AuthWorld) : AuthWorld :=
  { w with redis := w.redis.delete keys }

/-! ## The invariants are kept -/

namespace AuthWorld

variable {R : AuthRegime} {H : Rights AuthKey} {c : Command} {w w' : AuthWorld}

theorem changes_eq_of_history (h : w'.history = w.history) (user : UUID) : w'.changes user = w.changes user := by
  unfold changes
  rw [h]

theorem Elsewhere.later (h : w.Elsewhere w') : w.Later w' where
  ran c hc := by
    unfold Ran
    rw [h.history]
    exact hc
  changes user := Nat.le_of_eq (changes_eq_of_history h.history user).symm
  revoked id hid := by
    refine ⟨?_, by rw [h.redis]; exact hid.2⟩
    obtain ⟨c, hc, hname⟩ := hid.1
    refine ⟨c, ?_, hname⟩
    unfold Ran
    rw [h.history]
    exact hc

theorem Elsewhere.ran_iff (h : w.Elsewhere w') (c : Command) : w'.Ran c ↔ w.Ran c := by
  unfold Ran
  rw [h.history]

/-- A move keeps the invariant that stores no session, adds none to a set, and writes no token. -/
theorem Inv.congr (h : w.Inv) (hran : ∀ c, w.Ran c → w'.Ran c)
    (hnew : ∀ c, w'.Ran c → w.Ran c ∨ (∀ st n, c ≠ .setSession st n) ∧ ∀ user id, c ≠ .sadd user id)
    (hused : ∀ token id, w'.redis.usedRefresh token = some id → w.redis.usedRefresh token = some id)
    (htokens : ∀ kind token id, w'.redis.tokens kind token = some id → w.redis.tokens kind token = some id)
    (hsessions : ∀ id st, w'.redis.sessions id = some st → w.redis.sessions id = some st) : w'.Inv := by
  have issued : ∀ {name}, w.Issued name → w'.Issued name := by
    rintro name ⟨c, hc, hname⟩
    exact ⟨c, hran c hc, hname⟩
  have stored : ∀ st n, w'.Ran (.setSession st n) → w.Ran (.setSession st n) :=
    fun st n hs => (hnew _ hs).resolve_right fun hn => hn.1 st n rfl
  refine ⟨fun token id ht => ?_, fun kind token id ht => ?_, fun id st hst => ?_, ?_, ?_⟩
  · obtain ⟨hnone, htoken, hsession⟩ := h.used token id (hused token id ht)
    refine ⟨?_, issued htoken, issued hsession⟩
    rw [Option.eq_none_iff_forall_ne_some] at hnone ⊢
    exact fun id' hid' => hnone id' (htokens _ _ _ hid')
  · rcases h.token kind token id (htokens kind token id ht) with hi | ⟨a, ha, hk⟩
    · exact Or.inl (hran _ hi)
    · exact Or.inr ⟨a, hran _ ha, hk⟩
  · obtain ⟨hid, n, st0, hst0, hr⟩ := h.session id st (hsessions id st hst)
    exact ⟨hid, n, st0, hran _ hst0, hr⟩
  · intro st st' n n' hs hs'
    exact h.once st st' n n' (stored _ _ hs) (stored _ _ hs')
  · intro user id hs
    obtain ⟨st, n, hst, hk⟩ := h.added user id ((hnew _ hs).resolve_right fun hn => hn.2 user id rfl)
    exact ⟨st, n, hran _ hst, hk⟩

theorem Elsewhere.inv (h : w.Elsewhere w') (hi : w.Inv) : w'.Inv := by
  refine hi.congr (fun c hc => (h.ran_iff c).2 hc) (fun c hc => Or.inl ((h.ran_iff c).1 hc)) ?_ ?_ ?_ <;>
    rw [h.redis]
  · exact fun _ _ ht => ht
  · exact fun _ _ _ ht => ht
  · exact fun _ _ hst => hst

theorem delete_eq_some {keys : List RedisKey} {r : Redis} :
    (∀ token id, (r.delete keys).usedRefresh token = some id → r.usedRefresh token = some id) ∧
    (∀ kind token id, (r.delete keys).tokens kind token = some id → r.tokens kind token = some id) ∧
    ∀ id st, (r.delete keys).sessions id = some st → r.sessions id = some st := by
  simp [Redis.delete]

theorem Inv.lapse (h : w.Inv) (keys : List RedisKey) : (w.lapse keys).Inv :=
  h.congr (fun _ hc => hc) (fun _ hc => Or.inl hc) delete_eq_some.1 delete_eq_some.2.1 delete_eq_some.2.2

theorem ran_passwordChanged {user : UUID} (hist : w'.history = .passwordChanged user :: w.history) (c : Command) :
    w'.Ran c ↔ w.Ran c := by
  simp [Ran, hist]

theorem PasswordChanged.inv {user : UUID} {loaded : Int} (h : PasswordChanged user loaded H w w')
    (hi : w.Inv) : w'.Inv := by
  refine hi.congr (fun c hc => (ran_passwordChanged h.history c).2 hc)
    (fun c hc => Or.inl ((ran_passwordChanged h.history c).1 hc)) ?_ ?_ ?_ <;> rw [h.redis]
  · exact fun _ _ ht => ht
  · exact fun _ _ _ ht => ht
  · exact fun _ _ hst => hst

/-! ### Commands -/

/-- A command that stores no session, adds none to a set, and writes no token. -/
theorem Inv.execute_quiet (h : w.Inv) (hsession : ∀ st n, c ≠ .setSession st n) (hsadd : ∀ user id, c ≠ .sadd user id)
    (hused : ∀ token id, (c.run w.redis).usedRefresh token = some id → w.redis.usedRefresh token = some id)
    (htokens : ∀ kind token id, (c.run w.redis).tokens kind token = some id →
      w.redis.tokens kind token = some id)
    (hsessions : ∀ id st, (c.run w.redis).sessions id = some st → w.redis.sessions id = some st) :
    (w.execute c).Inv := by
  refine h.congr (fun c' hc => hc.execute c) (fun c' hc => ?_) hused htokens hsessions
  rcases ran_execute_iff.1 hc with rfl | hc
  · exact Or.inr ⟨hsession, hsadd⟩
  · exact Or.inl hc

theorem once_execute (h : w.Inv) (hc : ∀ st n, c = .setSession st n → ¬w.Issued (.session st.sessionId)) :
    ∀ st st' n n', (w.execute c).Ran (.setSession st n) → (w.execute c).Ran (.setSession st' n') →
      st.sessionId = st'.sessionId → st = st' ∧ n = n' := by
  intro st st' n n' hs hs' hid
  rcases ran_execute_iff.1 hs with he | hs <;> rcases ran_execute_iff.1 hs' with he' | hs'
  · obtain ⟨rfl, rfl⟩ := Command.setSession.inj (he.trans he'.symm)
    exact ⟨rfl, rfl⟩
  · exact absurd (hid ▸ hs'.issued) (hc st n he.symm)
  · exact absurd (hid ▸ hs.issued) (hc st' n' he'.symm)
  · exact h.once st st' n n' hs hs' hid

theorem added_execute (h : w.Inv) (hc : ∀ user id, c = .sadd user id → c.Duty R w) :
    ∀ user id, (w.execute c).Ran (.sadd user id) →
      ∃ st n, (w.execute c).Ran (.setSession st n) ∧ st.sessionId = id ∧ st.userId = user := by
  intro user id hs
  rcases ran_execute_iff.1 hs with he | hs
  · obtain ⟨st, n, hst, hk⟩ : Command.Duty R w (.sadd user id) := he ▸ hc user id he.symm
    exact ⟨st, n, hst.execute c, hk⟩
  · obtain ⟨st, n, hst, hk⟩ := h.added user id hs
    exact ⟨st, n, hst.execute c, hk⟩

theorem IssuedFor.execute {kind : TokenKind} {token id : Nat} (h : w.IssuedFor kind token id) (c : Command) :
    (w.execute c).IssuedFor kind token id := by
  rcases h with h | ⟨a, h, hk⟩
  · exact Or.inl (h.execute c)
  · exact Or.inr ⟨a, h.execute c, hk⟩

theorem Stored.execute {st : SessionState} {n : Nat} (h : w.Stored st n) (c : Command) :
    (w.execute c).Stored st n := by
  obtain ⟨st0, hran, hst⟩ := h
  exact ⟨st0, hran.execute c, hst⟩

theorem Inv.execute_setSession {st : SessionState} {n : Nat} (h : w.Inv)
    (ha : Allowed R H (.setSession st n) w) : (w.execute (.setSession st n)).Inv where
  used token id ht := by
    obtain ⟨hnone, htoken, hsession⟩ := h.used token id ht
    exact ⟨hnone, htoken.execute _, hsession.execute _⟩
  token kind token id ht := (h.token kind token id ht).execute _
  session id st' hst := by
    replace hst : Function.update w.redis.sessions st.sessionId (some st) id = some st' := hst
    by_cases hid : id = st.sessionId
    · subst hid
      rw [Function.update_self] at hst
      obtain rfl := Option.some.inj hst
      exact ⟨rfl, n, st, ran_execute _ _, .refl st⟩
    · rw [Function.update_of_ne hid] at hst
      obtain ⟨hk, n', hs⟩ := h.session id st' hst
      exact ⟨hk, n', hs.execute _⟩
  once := once_execute h fun st' n' he => by
    obtain ⟨rfl, rfl⟩ := Command.setSession.inj he
    exact (ha.names _ (by simp [Command.names])).2
  added := added_execute (R := R) h fun _ _ he => absurd he (by simp)

theorem Inv.execute_setToken {kind : TokenKind} {token session : Nat} (h : w.Inv)
    (ha : Allowed R H (.setToken kind token session) w) :
    (w.execute (.setToken kind token session)).Inv where
  used token' id ht := by
    obtain ⟨hnone, htoken, hsession⟩ := h.used token' id ht
    refine ⟨?_, htoken.execute _, hsession.execute _⟩
    show (w.redis.setToken kind token session).tokens .refresh token' = none
    rw [Redis.setToken_tokens, if_neg, hnone]
    rintro ⟨rfl, rfl⟩
    exact (ha.names _ (by simp [Command.names])).2 htoken
  token kind' token' id ht := by
    replace ht : (w.redis.setToken kind token session).tokens kind' token' = some id := ht
    rw [Redis.setToken_tokens] at ht
    split at ht
    · next hk =>
        obtain ⟨rfl, rfl⟩ := hk
        obtain rfl := Option.some.inj ht
        exact Or.inl (ran_execute _ _)
    · exact (h.token kind' token' id ht).execute _
  session id st hst := by
    obtain ⟨hk, n, hs⟩ := h.session id st hst
    exact ⟨hk, n, hs.execute _⟩
  once := once_execute h fun _ _ he => absurd he (by simp)
  added := added_execute (R := R) h fun _ _ he => absurd he (by simp)

theorem Inv.execute_sadd {user : UUID} {session : Nat} (h : w.Inv) (ha : Allowed R H (.sadd user session) w) :
    (w.execute (.sadd user session)).Inv where
  used token id ht := by
    obtain ⟨hnone, htoken, hsession⟩ := h.used token id ht
    exact ⟨hnone, htoken.execute _, hsession.execute _⟩
  token kind token id ht := (h.token kind token id ht).execute _
  session id st hst := by
    obtain ⟨hk, n, hs⟩ := h.session id st hst
    exact ⟨hk, n, hs.execute _⟩
  once := once_execute h fun _ _ he => absurd he (by simp)
  added := added_execute h fun _ _ _ => ha.duty

/-- A rotation takes a token that was not used, and its successors are new. -/
theorem Inv.execute_rotate {a : Rotation} (h : w.Inv) (ha : Allowed R H (.rotate a) w) :
    (w.execute (.rotate a)).Inv := by
  cases hr : w.redis.rotates a with
  | none =>
      have hrun : Command.run (.rotate a) w.redis = w.redis := Redis.rotate_of_none hr
      refine h.execute_quiet (fun _ _ he => absurd he (by simp)) (fun _ _ he => absurd he (by simp)) ?_ ?_ ?_ <;>
        rw [hrun]
      · exact fun _ _ ht => ht
      · exact fun _ _ _ ht => ht
      · exact fun _ _ hst => hst
  | some current =>
      have hrun : (w.execute (.rotate a)).redis = w.redis.rotated a current := Redis.rotate_of_some hr
      obtain ⟨htok, hses, hkey⟩ := Redis.rotates_eq_some.1 hr
      obtain ⟨hused, n, hstored⟩ := ha.duty
      have hissued := (h.token _ _ _ htok).issued
      have hnew : ∀ token, w.Issued (.token .refresh token) → token ≠ a.next.key .refresh := by
        rintro token ht rfl
        exact (ha.names _ (by simp [Command.names, SessionState.key])).2 ht
      have hnone : ∀ token, w.Issued (.token .refresh token) →
          (token = a.refreshKey ∨ w.redis.tokens .refresh token = none) →
          (w.execute (.rotate a)).redis.tokens .refresh token = none := by
        intro token ht hcase
        rw [hrun, Redis.rotated_tokens, if_neg (hnew token ht)]
        split
        · rfl
        · next hne => exact hcase.resolve_left hne
      refine ⟨fun token id ht => ?_, fun kind token id ht => ?_, fun id st hst => ?_, ?_, ?_⟩
      · rw [hrun, Redis.rotated_usedRefresh] at ht
        split at ht
        · next htoken =>
            have htoken := htoken.trans hused
            obtain rfl := Option.some.inj ht
            exact ⟨hnone token (htoken ▸ hissued) (Or.inl htoken), (htoken ▸ hissued).execute _,
              hstored.issued.execute _⟩
        · obtain ⟨hno, htoken, hsession⟩ := h.used token id ht
          exact ⟨hnone token htoken (Or.inr hno), htoken.execute _, hsession.execute _⟩
      · rw [hrun, Redis.rotated_tokens] at ht
        split at ht
        · next htoken =>
            exact Or.inr ⟨a, ran_execute _ _, htoken.symm, Option.some.inj ht⟩
        · split at ht
          · exact absurd ht (by simp)
          · exact (h.token kind token id ht).execute _
      · rw [hrun, Redis.rotated_sessions] at hst
        split at hst
        · next hid =>
            obtain rfl := Option.some.inj hst
            exact ⟨hid.symm, n, hstored.execute _⟩
        · obtain ⟨hk, n', hs⟩ := h.session id st hst
          exact ⟨hk, n', hs.execute _⟩
      · exact once_execute h fun _ _ he => absurd he (by simp)
      · exact added_execute (R := R) h fun _ _ he => absurd he (by simp)

theorem Inv.execute (h : w.Inv) (ha : Allowed R H c w) : (w.execute c).Inv := by
  cases c with
  | setSession st n => exact h.execute_setSession ha
  | setToken kind token session => exact h.execute_setToken ha
  | sadd user session => exact h.execute_sadd ha
  | rotate a => exact h.execute_rotate ha
  | delete keys =>
      exact h.execute_quiet (fun _ _ he => absurd he (by simp)) (fun _ _ he => absurd he (by simp))
        delete_eq_some.1 delete_eq_some.2.1 delete_eq_some.2.2
  | _ =>
      exact h.execute_quiet (fun _ _ he => absurd he (by simp)) (fun _ _ he => absurd he (by simp))
        (fun _ _ ht => ht) (fun _ _ _ ht => ht) fun _ _ hst => hst

/-! ### What was revoked -/

theorem later_execute (ha : Allowed R H c w) : w.Later (w.execute c) where
  ran c' hc := hc.execute c
  changes user := Nat.le_of_eq (changes_execute c user w).symm
  revoked id hid := by
    refine ⟨hid.1.execute c, ?_⟩
    cases c with
    | setSession st n =>
        show Function.update w.redis.sessions st.sessionId (some st) id = none
        rw [Function.update_of_ne, hid.2]
        rintro rfl
        exact (ha.names _ (by simp [Command.names])).2 hid.1
    | rotate a =>
        show (w.redis.rotate a).sessions id = none
        cases hr : w.redis.rotates a with
        | none => rw [Redis.rotate_of_none hr, hid.2]
        | some current =>
            rw [Redis.rotate_of_some hr, Redis.rotated_sessions, if_neg, hid.2]
            rintro rfl
            exact absurd ((Redis.rotates_eq_some.1 hr).2.1.symm.trans hid.2) (by simp)
    | delete keys =>
        show (w.redis.delete keys).sessions id = none
        simp [Redis.delete, hid.2]
    | _ => exact hid.2

/-- What a deletion of its key makes of a session. -/
theorem revoked_delete {keys : List RedisKey} {id : Nat} (hid : .session id ∈ keys)
    (h : w.Issued (.session id)) : (w.execute (.delete keys)).Revoked id := by
  refine ⟨h.execute _, ?_⟩
  show (w.redis.delete keys).sessions id = none
  simp [Redis.delete, hid]

theorem later_lapse (keys : List RedisKey) (w : AuthWorld) : w.Later (w.lapse keys) where
  ran _ hc := hc
  changes _ := Nat.le_refl _
  revoked id hid := ⟨hid.1, by
    show (w.redis.delete keys).sessions id = none
    simp [Redis.delete, hid.2]⟩

theorem PasswordChanged.later {user : UUID} {loaded : Int} (h : PasswordChanged user loaded H w w') :
    w.Later w' where
  ran c hc := (ran_passwordChanged h.history c).2 hc
  changes id := by
    unfold changes
    rw [h.history]
    exact List.count_le_count_cons
  revoked id hid := by
    obtain ⟨⟨c, hc, hname⟩, hnone⟩ := hid
    exact ⟨⟨c, (ran_passwordChanged h.history c).2 hc, hname⟩, by rw [h.redis]; exact hnone⟩

/-! ### The index of sessions -/

theorem Indexed.congr (h : w.Indexed) (hnew : ∀ user id, w'.Ran (.sadd user id) → w.Ran (.sadd user id))
    (hsessions : ∀ id st, w'.redis.sessions id = some st → w.redis.sessions id = some st)
    (hsets : ∀ user id st, w'.redis.sessions id = some st → id ∈ w.redis.userSessions user →
      id ∈ w'.redis.userSessions user) : w'.Indexed := by
  intro id st hst hran
  exact hsets _ id st hst (h id st (hsessions id st hst) (hnew _ _ hran))

theorem Elsewhere.indexed (h : w.Elsewhere w') (hx : w.Indexed) : w'.Indexed := by
  refine hx.congr (fun user id hr => (h.ran_iff _).1 hr) ?_ ?_ <;> rw [h.redis]
  · exact fun _ _ hst => hst
  · exact fun _ _ _ _ hid => hid

theorem PasswordChanged.indexed {user : UUID} {loaded : Int} (h : PasswordChanged user loaded H w w')
    (hx : w.Indexed) : w'.Indexed := by
  refine hx.congr (fun user id hr => (ran_passwordChanged h.history _).1 hr) ?_ ?_ <;> rw [h.redis]
  · exact fun _ _ hst => hst
  · exact fun _ _ _ _ hid => hid

/-- A command keeps the index, where the sets it deletes are sets of revoked sessions. -/
theorem Indexed.execute (h : w.Indexed) (hi : w.Inv) (ha : Allowed R H c w)
    (hcond : ∀ keys, c = .delete keys → ∀ user, .userSessions user ∈ keys →
      ∀ id ∈ w.redis.userSessions user, w.redis.sessions id = none) : (w.execute c).Indexed := by
  have old : ∀ {user id}, (w.execute c).Ran (.sadd user id) → c ≠ .sadd user id → w.Ran (.sadd user id) :=
    fun hr hne => (ran_execute_iff.1 hr).resolve_left fun he => hne he.symm
  cases c with
  | setSession st n =>
      intro id st' hst hran
      have hran := old hran (by simp)
      replace hst : Function.update w.redis.sessions st.sessionId (some st) id = some st' := hst
      by_cases hid : id = st.sessionId
      · -- A session that was added to a set was stored before.
        obtain ⟨st0, n0, hst0, hid0, -⟩ := hi.added _ _ hran
        have hissued := hst0.issued
        rw [hid0, hid] at hissued
        exact absurd hissued (ha.names _ (by simp [Command.names])).2
      · rw [Function.update_of_ne hid] at hst
        exact h id st' hst hran
  | sadd user session =>
      intro id st hst hran
      show id ∈ Function.update w.redis.userSessions user ((w.redis.userSessions user).insert session) st.userId
      by_cases hu : st.userId = user
      · subst hu
        rw [Function.update_self, List.mem_insert_iff]
        by_cases hid : id = session
        · exact Or.inl hid
        · exact Or.inr (h id st hst (old hran fun he => hid (Command.sadd.inj he).2.symm))
      · rw [Function.update_of_ne hu]
        exact h id st hst (old hran fun he => hu (Command.sadd.inj he).1.symm)
  | srem user session =>
      refine h.congr (fun _ _ hr => old hr (by simp)) (fun _ _ hst => hst) fun user' id st hst hid => ?_
      show id ∈ Function.update w.redis.userSessions user _ user'
      by_cases hu : user' = user
      · subst hu
        rw [Function.update_self, List.mem_filter]
        refine ⟨hid, decide_eq_true fun he => ?_⟩
        have hgone : w.redis.sessions session = none := ha.duty.2
        rw [← he] at hgone
        exact absurd (hst.symm.trans hgone) (by simp)
      · rwa [Function.update_of_ne hu]
  | delete keys =>
      refine h.congr (fun _ _ hr => old hr (by simp)) delete_eq_some.2.2 fun user id st hst hid => ?_
      show id ∈ if RedisKey.userSessions user ∈ keys then [] else w.redis.userSessions user
      rw [if_neg]
      · exact hid
      · intro hkey
        exact absurd ((delete_eq_some.2.2 _ _ hst).symm.trans (hcond keys rfl user hkey id hid)) (by simp)
  | rotate a =>
      cases hr : w.redis.rotates a with
      | none =>
          have hrun : (w.execute (.rotate a)).redis = w.redis := Redis.rotate_of_none hr
          refine h.congr (fun _ _ hr => old hr (by simp)) ?_ ?_ <;> rw [hrun]
          · exact fun _ _ hst => hst
          · exact fun _ _ _ _ hid => hid
      | some current =>
          have hrun : (w.execute (.rotate a)).redis = w.redis.rotated a current := Redis.rotate_of_some hr
          intro id st hst hran
          have hran := old hran (by simp)
          rw [hrun, Redis.rotated_sessions] at hst
          rw [hrun, Redis.rotated_userSessions]
          split at hst
          · next hid =>
              obtain rfl := Option.some.inj hst
              rw [if_pos rfl, List.mem_insert_iff]
              exact Or.inl hid
          · have hin := h id st hst hran
            split
            · exact List.mem_insert_iff.2 (Or.inr hin)
            · exact hin
  | _ => exact h.congr (fun _ _ hr => old hr (by simp)) (fun _ _ hst => hst) fun _ _ _ _ hid => hid

/-! ### Passwords -/

theorem Stamp.congr {user : UUID} {version : Int} {checked : Nat} (h : w.Stamp user version checked)
    (husers : ∀ id row, w.users.get? id = some row → ∃ row', w'.users.get? id = some row' ∧
      row'.tokenVersion = row.tokenVersion) (hchanges : w'.changes user = w.changes user) :
    w'.Stamp user version checked := by
  obtain ⟨row, hrow, hle, hchecked, hcur⟩ := h
  obtain ⟨row', hrow', hver⟩ := husers user row hrow
  exact ⟨row', hrow', by rw [hver]; exact hle, by rw [hchanges]; exact hchecked,
    by rw [hver, hchanges]; exact hcur⟩

theorem Elsewhere.stamp (h : w.Elsewhere w') {user : UUID} {version : Int} {checked : Nat}
    (hs : w.Stamp user version checked) : w'.Stamp user version checked := by
  refine hs.congr (fun id row hrow => ?_) (changes_eq_of_history h.history user)
  obtain ⟨row', hrow', -, hver⟩ := h.users id row hrow
  exact ⟨row', hrow', hver⟩

theorem Stamp.execute {user : UUID} {version : Int} {checked : Nat} (h : w.Stamp user version checked)
    (c : Command) : (w.execute c).Stamp user version checked :=
  h.congr (fun _ row hrow => ⟨row, hrow, rfl⟩) (changes_execute c user w)

/-- A password change, of a user who was loaded with its present `token_version`, outdates every stamp. -/
theorem PasswordChanged.stamp {user : UUID} {loaded : Int} (h : PasswordChanged user loaded H w w')
    (hcond : ∀ row, w.users.get? user = some row → row.tokenVersion = loaded) {id : UUID} {version : Int}
    {checked : Nat} (hs : w.Stamp id version checked) : w'.Stamp id version checked := by
  obtain ⟨row, hrow, hle, hchecked, hcur⟩ := hs
  obtain ⟨row', hrow', hver⟩ := h.users id row hrow
  have hchanges : w'.changes id = w.changes id + if user = id then 1 else 0 := by
    unfold changes
    rw [h.history, List.count_cons]
    simp [beq_iff_eq]
  by_cases hid : id = user
  · subst hid
    have hrow := hcond row hrow
    rw [if_pos rfl] at hver hchanges
    refine ⟨row', hrow', by omega, by omega, fun he => ?_⟩
    omega
  · rw [if_neg hid] at hver
    rw [if_neg (Ne.symm hid)] at hchanges
    exact ⟨row', hrow', by omega, by omega, fun he => by have := hcur (he.trans hver); omega⟩

theorem Stamped.congr (h : w.Stamped) (hnew : ∀ st n, w'.Ran (.setSession st n) → w.Ran (.setSession st n))
    (hstamp : ∀ user version n, w.Stamp user version n → w'.Stamp user version n) : w'.Stamped :=
  fun st n hran => hstamp _ _ _ (h st n (hnew st n hran))

theorem Stamped.execute (h : w.Stamped) (ha : Allowed .password H c w) : (w.execute c).Stamped := by
  intro st n hran
  rcases ran_execute_iff.1 hran with he | hran
  · have hduty : Command.Duty .password w (.setSession st n) := he ▸ ha.duty
    exact (hduty rfl).execute c
  · exact (h st n hran).execute c

end AuthWorld

end Rubrica
