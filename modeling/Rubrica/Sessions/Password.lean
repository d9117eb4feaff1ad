import Rubrica.Sessions.Rotation

set_option autoImplicit false

/-! # Password changes

A session carries the `token_version` of the user at the login, and a password change raises it. A ticket
of the second factor carries none: a session that is stored for it gets the version of the moment, whatever
password the ticket was issued for (`not_password_final`). In runs where no ticket is completed that is
older than a password change, and no two changes load the same version, a password change ends every
earlier authentication (`password_final`). -/

namespace Rubrica

open Transactions

/-- Where the step completes a ticket, the password was not changed since it was checked for the ticket;
    where it commits a password change, the user still has the `token_version` that was loaded. -/
def versionsKeptAt (x : AuthStep) : Prop :=
  (∀ ticket user act, x.1.executes x.2 = some (.completing ticket user, act) →
    x.1.shared.ticketChecked ticket = x.1.shared.changes user) ∧
  ∀ user loaded act, x.1.executes x.2 = some (.passwordChange user loaded, act) →
    ∀ row, x.1.shared.users.get? user = some row → row.tokenVersion = loaded

/-- After a password change has been committed, of sessions that go back to an earlier check of the
    password: none passes `_user_is_active`, and no call that begins then accepts one. -/
def PasswordFinal (host : AuthHost) (steps : List AuthStep) (Z : AuthSystem) : Prop :=
  ∀ past future x user loaded, steps = past ++ x :: future →
    x.1.publishes x.2 = some (.passwordChange user loaded) →
      ∀ st checked, Z.shared.Ran (.setSession st checked) → st.userId = user →
        checked ≤ x.1.shared.changes user →
          (∀ renewed : SessionState, renewed.Renews st → Z.shared.isCurrent renewed = false) ∧
          ∀ between later X call, future = between ++ (X, AuthCall.start host call) :: later →
            ∀ answer, Z.returned X.sessions.length = some answer → answer.accepted ≠ some st.sessionId

section Runs

variable {host : AuthHost} {Y Z : AuthSystem} {steps : List AuthStep}

theorem meets_password {x : AuthStep} (h : versionsKeptAt x) : (authProtocol .password).Meets x.1 x.2 := by
  intro point act hexecutes
  show authCond .password point x.1.shared
  cases point with
  | plain => trivial
  | command c => cases c <;> trivial
  | completing ticket user => exact h.1 ticket user act hexecutes
  | passwordChange user loaded => exact h.2 user loaded act hexecutes

/-- A committed password change is counted from then on. -/
theorem changes_of_run (x : AuthStep) (user : UUID) (loaded : Int) (hrun : Run (authWork host True) Y steps Z)
    (hidle : Y.sessions = []) (hfresh : Y.shared.Fresh) (hkept : ∀ x ∈ steps, versionsKeptAt x)
    (hx : x ∈ steps) (hpub : x.1.publishes x.2 = some (.passwordChange user loaded)) :
    x.1.shared.changes user < Z.shared.changes user := by
  have hpassword : (AuthRegime.password = .password) = True := by simp
  rw [← hpassword] at hrun
  refine (authWork_governed host .password).induct (authGood_of_fresh hidle hfresh) hrun
    (fun x hx => meets_password (hkept x hx))
    (motive := fun steps w => ∀ x ∈ steps, x.1.publishes x.2 = some (.passwordChange user loaded) →
      x.1.shared.changes user < w.changes user)
    (fun _ hx => absurd hx List.not_mem_nil) ?_ x hx hpub
  intro past X l s' hpast hinv hinv' hl hmove x hx hpub
  rcases List.mem_append.1 hx with hx | hx
  · exact Nat.lt_of_lt_of_le (hpast x hx hpub) ((later_of_rely (hmove.rely hinv hinv' hl)).changes user)
  · obtain rfl := List.mem_singleton.1 hx
    unfold Protocol.Moves at hmove
    rw [hpub] at hmove
    obtain ⟨H, hp⟩ := hmove
    have hp : AuthWorld.PasswordChanged user loaded H X.shared s' := hp
    show List.count _ X.shared.history < List.count _ s'.history
    rw [hp.history, List.count_cons_self]
    exact Nat.lt_succ_self _

/-- **Password changes.** In every run, of any calls, in which no ticket is completed after its user's
    password was changed, and no change commits over another it did not load, a password change ends every
    earlier authentication. -/
theorem password_final (hrun : Run (authWork host True) Y steps Z) (hidle : Y.sessions = [])
    (hfresh : Y.shared.Fresh) (hkept : ∀ x ∈ steps, versionsKeptAt x) : PasswordFinal host steps Z := by
  have hchanges := fun x user loaded => changes_of_run x user loaded hrun hidle hfresh hkept
  have hbefore : ∀ past future (x y : AuthStep) user loaded, steps = past ++ y :: future → x ∈ past →
      x.1.publishes x.2 = some (.passwordChange user loaded) →
        x.1.shared.changes user < y.1.shared.changes user := by
    rintro past future x y user loaded rfl hx hpub
    exact changes_of_run x user loaded hrun.split.1 hidle hfresh (fun z hz => hkept z (List.mem_append_left _ hz)) hx hpub
  have hpassword : (AuthRegime.password = .password) = True := by simp
  rw [← hpassword] at hrun
  have hmeets : ∀ x ∈ steps, (authProtocol .password).Meets x.1 x.2 := fun x hx => meets_password (hkept x hx)
  have hinv := ((authWork_governed host .password).good (authGood_of_fresh hidle hfresh) hrun hmeets).inv
  intro past future x user loaded hsteps hpub st checked hran huser hchecked
  constructor
  · -- The stamp of the session is not the user's any more.
    intro renewed hrenewed
    have hx : x ∈ steps := by
      rw [hsteps]
      exact List.mem_append_right _ List.mem_cons_self
    have hlt := hchanges x user loaded hx hpub
    obtain ⟨row, hrow, -, -, hcurrent⟩ := hinv.2.2 rfl st checked hran
    rw [huser] at hcurrent
    unfold AuthWorld.isCurrent
    rw [hrenewed.userId, hrow, hrenewed.tokenVersion]
    refine Bool.and_eq_false_iff.2 (Or.inr (decide_eq_false fun hversion => ?_))
    have heq := hcurrent hversion.symm
    omega
  · rintro between later X call rfl answer hret haccepted
    have hsteps' : steps = (past ++ x :: between) ++ (X, call.start host) :: later := by
      rw [hsteps, List.append_assoc, List.cons_append]
    have hlt := hbefore _ _ x _ user loaded hsteps' (List.mem_append_right _ List.mem_cons_self) hpub
    obtain ⟨-, st', n, hran', hid, hle⟩ :=
      (authCall_returned hrun hidle hfresh hmeets hsteps' hret).1 _ haccepted
    obtain ⟨rfl, rfl⟩ := hinv.1.once st' st n checked hran' hran hid
    have hle := hle rfl
    rw [huser] at hle
    have hlt : x.1.shared.changes user < X.shared.changes user := hlt
    omega

end Runs

/-! ### A ticket from before -/

/-- `versionsKeptAt`, computed. -/
def keepsVersions (x : AuthStep) : Bool :=
  match x.1.executes x.2 with
  | some (.completing ticket user, _) => x.1.shared.ticketChecked ticket = x.1.shared.changes user
  | some (.passwordChange user loaded, _) =>
      (x.1.shared.users.get? user).all fun row => row.tokenVersion = loaded
  | _ => true

theorem versionsKeptAt_of_keepsVersions {x : AuthStep} (h : keepsVersions x = true) : versionsKeptAt x := by
  unfold keepsVersions at h
  constructor
  · intro ticket user act hexecutes
    rw [hexecutes] at h
    exact of_decide_eq_true h
  · intro user loaded act hexecutes row hrow
    rw [hexecutes] at h
    simp only [hrow, Option.all_some] at h
    exact of_decide_eq_true h

/-- A user, with or without a second factor, who has asked for a new password. -/
def forgetful (mfa : Bool) : AuthSystem :=
  ⟨⟨⟨[(1, ⟨"a", true, mfa, some "s", none, ⟨0, "p"⟩, 1, true⟩)], List.nodup_singleton _⟩, ∅,
    ⟨[(7, ⟨1, "reset_password", 10, none, none⟩)], List.nodup_singleton _⟩, [], 0, .empty, []⟩, []⟩

theorem forgetful_fresh (mfa : Bool) : (forgetful mfa).shared.Fresh := ⟨rfl, rfl⟩

def startReset : AuthLabel :=
  AuthCall.start sampleAuthHost (.resetPassword 7 "q" 1)

/-- The step commits the new password. -/
def changesPassword (x : AuthStep) : Bool :=
  x.1.publishes x.2 = some (.passwordChange 1 1)

/-- A login, a new password, and a look at the session. -/
def resetAfterLogin : List AuthLabel :=
  startLogin ⟨1, 10, 20⟩ :: (Label.runs 0 9 ++ startReset :: (Label.runs 1 8 ++
    AuthCall.start sampleAuthHost (.currentSession 10) :: Label.runs 2 3))

theorem password_final_reset :
    ∃ steps Z, Run (authWork sampleAuthHost True) (forgetful false) steps Z ∧
      steps.countP changesPassword = 1 ∧ Z.returned 0 = some (.loggedIn ⟨10, 20, 1⟩) ∧
      Z.returned 2 = some .nothing ∧ PasswordFinal sampleAuthHost steps Z := by
  obtain ⟨steps, Z, hreplay, hp⟩ := System.exists_replay (Y := forgetful false) resetAfterLogin
    (p := fun steps Z => steps.all namesNew && (steps.all keepsVersions && (steps.countP changesPassword = 1 &&
      (Z.returned 0 = some (.loggedIn ⟨10, 20, 1⟩) && Z.returned 2 = some .nothing)))) (by decide)
  simp only [Bool.and_eq_true, decide_eq_true_eq] at hp
  obtain ⟨hnew, hkept, hcount, hlogin, hnothing⟩ := hp
  have hlabels : ∀ l ∈ resetAfterLogin,
      (∃ call, l = AuthCall.start sampleAuthHost call) ∨ ∃ i, l = .run i :=
    List.forall_mem_cons.2 ⟨Or.inl ⟨_, rfl⟩, List.forall_mem_append.2 ⟨starts_runs,
      List.forall_mem_cons.2 ⟨Or.inl ⟨_, rfl⟩, List.forall_mem_append.2 ⟨starts_runs,
        List.forall_mem_cons.2 ⟨Or.inl ⟨_, rfl⟩, starts_runs⟩⟩⟩⟩⟩
  have hrun := replay_authWork True hlabels hnew hreplay
  exact ⟨steps, Z, hrun, hcount, hlogin, hnothing, password_final hrun rfl (forgetful_fresh false)
    fun x hx => versionsKeptAt_of_keepsVersions (List.all_eq_true.1 hkept x hx)⟩

/-- A login up to its ticket, a new password, and then the second factor. -/
def resetBeforeCompletion : List AuthLabel :=
  startLogin ⟨1, 10, 20⟩ :: (Label.runs 0 5 ++ startReset :: (Label.runs 1 8 ++
    AuthCall.start sampleAuthHost (.completeMfaChallenge 1 "c" ⟨2, 12, 22⟩) :: Label.runs 2 15))

/-- Without the condition a ticket outlives the password it was issued for. -/
theorem not_password_final :
    ¬∀ (steps : List AuthStep) (Z : AuthSystem), Run (authWork sampleAuthHost True) (forgetful true) steps Z →
      PasswordFinal sampleAuthHost steps Z := by
  intro h
  let st : SessionState := ⟨2, 1, "a", 2, 12, 22⟩
  obtain ⟨steps, Z, hreplay, hp⟩ := System.exists_replay (Y := forgetful true) resetBeforeCompletion
    (p := fun steps Z => steps.all namesNew && (steps.any changesPassword &&
      (steps.all (fun x => !changesPassword x || x.1.shared.changes 1 = 0) &&
        (AuthEvent.ran (.setSession st 0) ∈ Z.shared.history && Z.shared.isCurrent st)))) (by decide)
  simp only [Bool.and_eq_true, decide_eq_true_eq] at hp
  obtain ⟨hnew, hany, hfirst, hran, hcurrent⟩ := hp
  have hlabels : ∀ l ∈ resetBeforeCompletion,
      (∃ call, l = AuthCall.start sampleAuthHost call) ∨ ∃ i, l = .run i :=
    List.forall_mem_cons.2 ⟨Or.inl ⟨_, rfl⟩, List.forall_mem_append.2 ⟨starts_runs,
      List.forall_mem_cons.2 ⟨Or.inl ⟨_, rfl⟩, List.forall_mem_append.2 ⟨starts_runs,
        List.forall_mem_cons.2 ⟨Or.inl ⟨_, rfl⟩, starts_runs⟩⟩⟩⟩⟩
  obtain ⟨x, hx, hchange⟩ := List.any_eq_true.1 hany
  obtain ⟨past, future, rfl⟩ := List.append_of_mem hx
  have hzero := List.all_eq_true.1 hfirst x hx
  rw [hchange] at hzero
  have hzero : x.1.shared.changes 1 = 0 := of_decide_eq_true hzero
  have hfinal := h _ Z (replay_authWork True hlabels hnew hreplay) past future x 1 1 rfl
    (of_decide_eq_true hchange) st 0 hran rfl (Nat.zero_le _)
  have hstale := hfinal.1 st (.refl st)
  rw [hcurrent] at hstale
  exact absurd hstale (by simp)

end Rubrica
