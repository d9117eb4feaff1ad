import Rubrica.Sessions.Protocol

set_option autoImplicit false

/-! # Logins

The rules for statements of the session service, and what a login keeps, with and without a second factor:
it stores at most one session, under names that it drew, and adds it to the index (`LoginResult`). -/

namespace Rubrica

open Transactions

variable {R : AuthRegime} {α : Type} {Q : α → Ctx AuthWorld AuthKey → AuthWorld → Prop}
  {c : Ctx AuthWorld AuthKey} {s : AuthWorld} {A : AuthWorld → Prop}

/-! ## Statements -/

/-- The writes that wait for a commit concern no session. -/
def Tidy (c : Ctx AuthWorld AuthKey) : Prop :=
  ∀ w : AuthWorld, w.Elsewhere (c.pending w)

theorem AuthWorld.Elsewhere.refl (w : AuthWorld) : w.Elsewhere w :=
  ⟨rfl, rfl, fun _ row hrow => ⟨row, hrow, rfl, rfl⟩⟩

theorem AuthWorld.Elsewhere.trans {w w' w'' : AuthWorld} (h : w.Elsewhere w') (h' : w'.Elsewhere w'') :
    w.Elsewhere w'' where
  redis := h'.redis.trans h.redis
  history := h'.history.trans h.history
  users id row hrow := by
    obtain ⟨row', hrow', hpassword, hversion⟩ := h.users id row hrow
    obtain ⟨row'', hrow'', hpassword', hversion'⟩ := h'.users id row' hrow'
    exact ⟨row'', hrow'', hpassword'.trans hpassword, hversion'.trans hversion⟩

theorem tidy_start (base : Rights AuthKey) : Tidy (.start base) := fun w => .refl w

theorem wp_database {query : AuthWorld → α} (hA : (authProtocol R).Stable c.held A) (hs : A s)
    (hQ : ∀ w, A w → (authProtocol R).inv w → Q (query (c.pending w)) c w) :
    (authProtocol R).wp (database query) Q (fun _ _ _ => True) c s :=
  Protocol.wp_select hA hs (fun w h hi _ => hQ w h hi) fun _ _ _ => trivial

theorem wp_fetch {query : Redis → α} (hc : Tidy c) (hA : (authProtocol R).Stable c.held A) (hs : A s)
    (hQ : ∀ w, A w → (authProtocol R).inv w → Q (query w.redis) c w) :
    (authProtocol R).wp (fetch query) Q (fun _ _ _ => True) c s := by
  refine Protocol.wp_select hA hs (fun w h hi _ => ?_) fun _ _ _ => trivial
  rw [(hc w).redis]
  exact hQ w h hi

theorem wp_sendFor {cmd : Command} {answer : Redis → α} (hc : Tidy c)
    (hA : (authProtocol R).Stable c.held A) (hs : A s)
    (hallowed : ∀ w, A w → (authProtocol R).inv w → Allowed R c.held cmd w)
    (hQ : ∀ w, A w → (authProtocol R).inv w → Q (answer w.redis) c (w.execute cmd)) :
    (authProtocol R).wp (sendFor cmd answer) Q (fun _ _ _ => True) c s := by
  refine Protocol.wp_effect hA hs (fun w h hi hcond => ?_) fun _ _ _ => trivial
  have ha := hallowed w h hi
  refine ⟨authInv_execute hi ha hcond, ⟨rfl, ha⟩, ?_⟩
  rw [(hc w).redis]
  exact hQ w h hi

/-- A command that brings no name into use and touches no session. -/
theorem wp_sendQuiet {cmd : Command} {answer : Redis → α} (hc : Tidy c)
    (hA : (authProtocol R).Stable c.held A) (hs : A s) (hnames : cmd.names = [])
    (hduty : ∀ w, cmd.Duty R w)
    (hQ : ∀ w, A w → (authProtocol R).inv w → Q (answer w.redis) c (w.execute cmd)) :
    (authProtocol R).wp (sendFor cmd answer) Q (fun _ _ _ => True) c s := by
  refine wp_sendFor hc hA hs (fun w _ _ => ⟨fun name hn => ?_, hduty w⟩) hQ
  rw [hnames] at hn
  exact absurd hn List.not_mem_nil

/-- A choice between a command and nothing. -/
theorem wp_sendIf {p : Prop} [Decidable p] {cmd : Command} {Q : Unit → Ctx AuthWorld AuthKey → AuthWorld → Prop}
    (hc : Tidy c) (hA : (authProtocol R).Stable c.held A) (hs : A s) (hnames : cmd.names = [])
    (hduty : ∀ w, cmd.Duty R w) (hkeep : ∀ w, A w → A (w.execute cmd))
    (hQ : ∀ w, A w → Q () c w) :
    (authProtocol R).wp (Code.onlyIf p (send cmd)) Q (fun _ _ _ => True) c s := by
  unfold Code.onlyIf
  split
  · exact wp_sendQuiet hc hA hs hnames hduty fun w h _ => hQ _ (hkeep w h)
  · exact hQ s hs

/-! ## Names that were drawn -/

namespace AuthWorld

/-- None of the names is in use yet. -/
def Unissued (names : List AuthKey) (w : AuthWorld) : Prop :=
  ∀ name ∈ names, ¬w.Issued name

variable {names : List AuthKey} {w : AuthWorld} {cmd : Command}

theorem Unissued.execute (h : w.Unissued names) (hdisjoint : ∀ name ∈ names, name ∉ cmd.names) :
    (w.execute cmd).Unissued names := by
  intro name hname hissued
  rcases issued_execute_iff.1 hissued with hn | hn
  · exact hdisjoint name hname hn
  · exact h name hname hn

theorem Unissued.mono {names' : List AuthKey} (h : w.Unissued names) (hsub : names' ⊆ names) :
    w.Unissued names' :=
  fun name hname => h name (hsub hname)

end AuthWorld

theorem stable_unissuedAll {H : Rights AuthKey} {names : List AuthKey}
    (h : ∀ name ∈ names, (name, LockMode.exclusive) ∈ H) :
    (authProtocol R).Stable H fun w => w.Unissued names :=
  fun w w' hi hw name hname => stable_unissued (h name hname) w w' hi (hw name hname)

/-! ## Storing a session -/

/-- What a login knows before it stores a session: the names are new, and the stamp is right. -/
structure Storable (R : AuthRegime) (st : SessionState) (n : Nat) (w : AuthWorld) : Prop where
  names : w.Unissued [.session st.sessionId, .token .access st.accessKey, .token .refresh st.refreshKey]
  stamp : R = .password → w.Stamp st.userId st.tokenVersion n

theorem stable_storable {H : Rights AuthKey} {st : SessionState} {n : Nat}
    (h : ∀ name ∈ [AuthKey.session st.sessionId, .token .access st.accessKey, .token .refresh st.refreshKey],
      (name, LockMode.exclusive) ∈ H) : (authProtocol R).Stable H fun w => Storable R st n w :=
  fun w w' hi hw => ⟨stable_unissuedAll h w w' hi hw.names, stable_stamp _ _ _ w w' hi hw.stamp⟩

theorem stable_ran {H : Rights AuthKey} (cmd : Command) : (authProtocol R).Stable H fun w => w.Ran cmd :=
  stable_later fun _ _ hl h => hl.ran _ h

/-- `_store_session`: the session is stored, then its tokens, and then it is added to the index. -/
theorem wp_storeSession {st : SessionState} {n : Nat}
    {Q : LoginResponse → Ctx AuthWorld AuthKey → AuthWorld → Prop} (hc : Tidy c)
    (hheld : ∀ name ∈ [AuthKey.session st.sessionId, .token .access st.accessKey,
      .token .refresh st.refreshKey], (name, LockMode.exclusive) ∈ c.held) (hs : Storable R st n s)
    (hQ : ∀ w, w.Issued (.session st.sessionId) → w.InIndex st.sessionId →
      Q ⟨st.accessKey, st.refreshKey, st.sessionId⟩ c w) :
    (authProtocol R).wp (storeSession st n) Q (fun _ _ _ => True) c s := by
  have haccess : (AuthKey.token .access st.accessKey, LockMode.exclusive) ∈ c.held := hheld _ (by simp)
  have hrefresh : (AuthKey.token .refresh st.refreshKey, LockMode.exclusive) ∈ c.held := hheld _ (by simp)
  refine Protocol.wp_seq (wp_sendFor hc (stable_storable hheld) hs (fun w h _ => ?_) fun w h _ => ?_)
  · refine ⟨fun name hn => ?_, h.stamp⟩
    obtain rfl := List.mem_singleton.1 hn
    exact ⟨hheld _ (by simp), h.names _ (by simp)⟩
  have hnew : ((w.execute (.setSession st n)).Unissued [.token .access st.accessKey]) ∧
      (w.execute (.setSession st n)).Unissued [.token .refresh st.refreshKey] :=
    ⟨(h.names.mono (by simp)).execute (by simp [Command.names]),
      (h.names.mono (by simp)).execute (by simp [Command.names])⟩
  refine Protocol.wp_seq (wp_sendFor hc
    (((stable_unissuedAll (by simpa using haccess)).and (stable_unissuedAll (by simpa using hrefresh))).and
      (stable_ran _)) ⟨hnew, AuthWorld.ran_execute _ _⟩ (fun w h _ => ?_) fun w h _ => ?_)
  · refine ⟨fun name hn => ?_, trivial⟩
    obtain rfl := List.mem_singleton.1 hn
    exact ⟨haccess, h.1.1 _ (by simp)⟩
  refine Protocol.wp_seq (wp_sendFor hc ((stable_unissuedAll (by simpa using hrefresh)).and (stable_ran _))
    ⟨h.1.2.execute (by simp [Command.names]), h.2.execute _⟩ (fun w h _ => ?_) fun w h _ => ?_)
  · refine ⟨fun name hn => ?_, trivial⟩
    obtain rfl := List.mem_singleton.1 hn
    exact ⟨hrefresh, h.1 _ (by simp)⟩
  refine Protocol.wp_seq (wp_sendFor hc (stable_ran _) (h.2.execute _) (fun w h _ => ?_) fun w h _ => ?_)
  · exact ⟨by simp [Command.names], st, n, h, rfl, rfl⟩
  refine Protocol.wp_seq (wp_sendQuiet hc ((stable_ran _).and (stable_ran _))
    ⟨h.execute _, AuthWorld.ran_execute _ _⟩ rfl (fun _ => trivial) fun w h hinv => ?_)
  refine hQ _ (h.1.execute _).issued fun st' n' hran hid => ?_
  -- No other session was stored under this id.
  have hran := (AuthWorld.ran_execute_iff.1 hran).resolve_left (by simp)
  obtain ⟨rfl, -⟩ := hinv.1.once st' st n' n hran h.1 hid
  exact h.2.execute _

/-! ## Logins -/

/-- What a login, or the completion of one, leaves behind: no session, or one in the index. -/
structure LoginResult (names : SessionNames) (a : AuthAnswer) (w : AuthWorld) : Prop where
  accepted : a.accepted = none
  index : w.InIndex names.session
  loggedIn : ∀ r, a = .loggedIn r → r.sessionId = names.session ∧ w.Issued (.session names.session)

theorem stable_loginResult {H : Rights AuthKey} {names : SessionNames}
    (h : (.session names.session, LockMode.exclusive) ∈ H) (a : AuthAnswer) :
    (authProtocol R).Stable H (LoginResult names a) := by
  intro w w' hi hw
  refine ⟨hw.accepted, stable_inIndex h w w' hi hw.index, fun r hr => ?_⟩
  exact ⟨(hw.loggedIn r hr).1, (later_of_interferes hi).issued (hw.loggedIn r hr).2⟩

theorem AuthWorld.inIndex_of_unissued {id : Nat} {w : AuthWorld} (h : ¬w.Issued (.session id)) :
    w.InIndex id := by
  intro st n hran hid
  exact absurd (hid ▸ hran.issued) h

/-- Without a session there is nothing to add to the index. -/
theorem LoginResult.rejected {names : SessionNames} {a : AuthAnswer} {w : AuthWorld}
    (h : ¬w.Issued (.session names.session)) (ha : ∀ r, a ≠ .loggedIn r) (haccepted : a.accepted = none) :
    LoginResult names a w :=
  ⟨haccepted, AuthWorld.inIndex_of_unissued h, fun r hr => absurd hr (ha r)⟩

theorem LoginResult.nothing {names : SessionNames} {w : AuthWorld} (h : ¬w.Issued (.session names.session)) :
    LoginResult names .nothing w :=
  .rejected h (fun _ => by simp) rfl

theorem wp_createSession {names : SessionNames} {id : UUID} {user : User} {n : Nat}
    {Q : AuthAnswer → Ctx AuthWorld AuthKey → AuthWorld → Prop} (hc : Tidy c)
    (hheld : ∀ name ∈ names.keys, (name, LockMode.exclusive) ∈ c.held) (hnames : s.Unissued names.keys)
    (hstamp : R = .password → s.Stamp id user.tokenVersion n)
    (hQ : ∀ a w, LoginResult names a w → Q a c w) :
    (authProtocol R).wp (createSession names id user n) Q (fun _ _ _ => True) c s := by
  refine Protocol.wp_seq (wp_storeSession hc hheld ⟨hnames, hstamp⟩ fun w hissued hindex => ?_)
  refine hQ _ w ⟨rfl, hindex, fun r hr => ?_⟩
  obtain rfl := AuthAnswer.loggedIn.inj hr
  exact ⟨rfl, hissued⟩

/-- What a login knows of a user it has found. -/
def Known (R : AuthRegime) (found : Option (UUID × User × Nat)) (w : AuthWorld) : Prop :=
  ∀ id user n, found = some (id, user, n) → R = .password → w.Stamp id user.tokenVersion n

theorem known_userByEmail (email : String) (w : AuthWorld) : Known R (w.userByEmail email) w := by
  intro id user n hfound _
  obtain ⟨x, hx, he⟩ := Option.map_eq_some_iff.1 hfound
  obtain ⟨rfl, rfl, rfl⟩ : x.1 = id ∧ x.2 = user ∧ w.changes x.1 = n := by simpa using he
  have hrow := (Table.mem_select_iff.1 (List.mem_of_mem_head? hx)).1
  exact ⟨x.2, hrow, Int.le_refl _, Nat.le_refl _, fun _ => rfl⟩

section Host

variable {host : AuthHost}

theorem wp_loginUser {password : String} {rateKey : RedisKey} {names : SessionNames} {ticket : Nat}
    {found : Option (UUID × User × Nat)} {Q : AuthAnswer → Ctx AuthWorld AuthKey → AuthWorld → Prop}
    (hc : Tidy c) (hrate : (∀ t, rateKey ≠ .usedRefresh t) ∧ ∀ id, rateKey ≠ .session id)
    (hheld : ∀ name ∈ .ticket ticket :: names.keys, (name, LockMode.exclusive) ∈ c.held)
    (hnames : s.Unissued (.ticket ticket :: names.keys)) (hknown : Known R found s)
    (hQ : ∀ a w, LoginResult names a w → Q a c w) :
    (authProtocol R).wp (loginUser host password rateKey names ticket found) Q (fun _ _ _ => True) c s := by
  have nothing : ∀ w, w.Unissued (.ticket ticket :: names.keys) → Q .nothing c w :=
    fun w hw => hQ _ w (.nothing (hw _ (by simp [SessionNames.keys])))
  unfold loginUser
  cases found with
  | none => exact nothing s hnames
  | some found =>
      obtain ⟨id, user, n⟩ := found
      simp only
      split
      · exact nothing s hnames
      split
      · exact nothing s hnames
      have hA : (authProtocol R).Stable c.held fun w => w.Unissued (.ticket ticket :: names.keys) ∧
          (R = .password → w.Stamp id user.tokenVersion n) :=
        (stable_unissuedAll hheld).and (stable_stamp _ _ _)
      refine Protocol.wp_seq (wp_sendQuiet hc hA ⟨hnames, hknown id user n rfl⟩ rfl
        (fun _ => ⟨fun t ht => ?_, fun i hi => ?_⟩) fun w hw _ => ?_)
      · exact hrate.1 t (List.mem_singleton.1 ht).symm
      · exact absurd (List.mem_singleton.1 hi).symm (hrate.2 i)
      have hw' : (w.execute (.delete [rateKey])).Unissued (.ticket ticket :: names.keys) ∧
          (R = .password → (w.execute (.delete [rateKey])).Stamp id user.tokenVersion n) :=
        ⟨hw.1.execute (by simp [Command.names]), fun hR => (hw.2 hR).execute _⟩
      split
      · refine Protocol.wp_seq (wp_sendFor hc hA hw' (fun w hw _ => ⟨fun name hn => ?_, trivial⟩)
          fun w hw _ => ?_)
        · obtain rfl := List.mem_singleton.1 hn
          exact ⟨hheld _ (by simp), hw.1 _ (by simp)⟩
        · refine hQ _ _ (.rejected ?_ (by simp) rfl)
          have hnew := hw.1.mono (List.subset_cons_self _ names.keys)
          exact hnew.execute (by simp [Command.names, SessionNames.keys]) _ (by simp [SessionNames.keys])
      · exact wp_createSession hc (fun name hn => hheld name (List.mem_cons_of_mem _ hn))
          (hw'.1.mono (List.subset_cons_self _ _)) hw'.2 hQ

theorem wp_login {payload : LoginRequest} {names : SessionNames} {ticket : Nat}
    {Q : AuthAnswer → Ctx AuthWorld AuthKey → AuthWorld → Prop} (hc : Tidy c) (hpending : c.pending = id)
    (hheld : ∀ name ∈ .ticket ticket :: names.keys, (name, LockMode.exclusive) ∈ c.held)
    (hnames : s.Unissued (.ticket ticket :: names.keys)) (hQ : ∀ a w, LoginResult names a w → Q a c w) :
    (authProtocol R).wp (login host payload names ticket) Q (fun _ _ _ => True) c s := by
  have hA := stable_unissuedAll (R := R) hheld
  refine Protocol.wp_seq (wp_sendQuiet hc hA hnames rfl (fun _ => trivial) fun w hw _ => ?_)
  refine Protocol.wp_seq (wp_sendIf hc hA (hw.execute (by simp [Command.names])) rfl (fun _ => trivial)
    (fun _ h => h.execute (by simp [Command.names])) fun w hw => ?_)
  split
  · exact hQ _ w (.nothing (hw _ (by simp [SessionNames.keys])))
  · refine Protocol.wp_seq (wp_database hA hw fun w hw _ => ?_)
    rw [hpending]
    exact wp_loginUser hc ⟨fun _ => by simp, fun _ => by simp⟩ hheld hw (known_userByEmail _ _) hQ

/-! ## Multi-factor authentication -/

/-- A context later in a transaction whose writes concern no session. -/
structure Tidier (c c' : Ctx AuthWorld AuthKey) : Prop where
  tidy : Tidy c'
  base : c'.base = c.base
  held : c.held ⊆ c'.held

/-- Writes that concern no session. -/
def TidyWrite (u : AuthWorld → AuthWorld) : Prop :=
  ∀ w : AuthWorld, w.Elsewhere (u w)

theorem tidier_refl (hc : Tidy c) : Tidier c c := ⟨hc, rfl, fun _ h => h⟩

theorem Tidier.trans {c' c'' : Ctx AuthWorld AuthKey} (h : Tidier c c') (h' : Tidier c' c'') : Tidier c c'' :=
  ⟨h'.tidy, h'.base.trans h.base, fun _ hx => h'.held (h.held hx)⟩

theorem tidier_of_grows {c' : Ctx AuthWorld AuthKey} (hc : Tidy c) (h : c.Grows TidyWrite c') : Tidier c c' where
  tidy w := (hc w).trans (h.relate (fun w => .refl w) (fun _ _ _ h h' => h.trans h') (fun _ hu w => hu w) w)
  base := h.base
  held := h.held

theorem tidyWrite_events (id : UUID) (action : String) :
    TidyWrite fun w => { w with securityEvents := w.securityEvents ++ [(id, action)] } :=
  fun _ => ⟨rfl, rfl, fun _ row hrow => ⟨row, hrow, rfl, rfl⟩⟩

theorem local_verifyRecoveryCode (id : UUID) (code : String) :
    (verifyRecoveryCode host id code).Local TidyWrite := by
  refine Code.local_bind (Code.local_select _ _) fun rows => ?_
  split
  · exact Code.local_pure _
  · refine Code.local_bind (Code.local_select _ _) fun now => Code.local_bind (Code.local_write _ ?_) fun _ =>
      Code.local_pure _
    exact fun _ => ⟨rfl, rfl, fun _ row hrow => ⟨row, hrow, rfl, rfl⟩⟩

theorem local_verifyStep (id : UUID) (user : User) : (verifyStep host id user).Local TidyWrite := by
  refine Code.local_bind (Code.local_select _ _) fun now => Code.local_ite (Code.local_pure _) ?_
  refine Code.local_bind (Code.local_write _ fun w => ⟨rfl, rfl, fun id' row hrow => ?_⟩) fun _ =>
    Code.local_pure _
  show ∃ row', (w.users.update id _).get? id' = some row' ∧ _
  rw [Table.get?_update, hrow]
  split
  · exact ⟨_, rfl, rfl, rfl⟩
  · exact ⟨row, rfl, rfl, rfl⟩

theorem local_verifyUserCode (id : UUID) (user : User) (code : String) :
    (verifyUserCode host id user code).Local TidyWrite := by
  unfold verifyUserCode
  split
  · exact local_verifyRecoveryCode id _
  · exact Code.local_bind (Code.local_orRaise _ _) fun secret => Code.local_bind (Code.local_select _ _) fun now =>
      Code.local_ite (local_verifyStep id user) (local_verifyRecoveryCode id _)

theorem wp_mfaAudit {id : UUID} {action : String} {Q : Unit → Ctx AuthWorld AuthKey → AuthWorld → Prop}
    (hc : Tidy c) (hA : (authProtocol R).Stable c.held A) (hs : A s)
    (hQ : ∀ c' w, Tidier c c' → A w → Q () c' w) :
    (authProtocol R).wp (mfaAudit id action) Q (fun _ _ _ => True) c s := by
  refine Protocol.wp_write hA hs (fun w hw _ _ => hQ _ w ?_ hw) fun _ _ _ => trivial
  exact tidier_of_grows hc (.buffer .refl (tidyWrite_events id action))

/-- What is known while a ticket is completed. -/
def Completing (R : AuthRegime) (names : SessionNames) (id : UUID) (user : User) (n : Nat) (w : AuthWorld) :
    Prop :=
  w.Unissued names.keys ∧ (R = .password → w.Stamp id user.tokenVersion n)

theorem stable_completing {H : Rights AuthKey} {names : SessionNames} {id : UUID} {user : User} {n : Nat}
    (h : ∀ name ∈ names.keys, (name, LockMode.exclusive) ∈ H) :
    (authProtocol R).Stable H (Completing R names id user n) :=
  (stable_unissuedAll h).and (stable_stamp _ _ _)

theorem Completing.execute {names : SessionNames} {id : UUID} {user : User} {n : Nat} {w : AuthWorld}
    {cmd : Command} (h : Completing R names id user n w) (hnames : cmd.names = []) :
    Completing R names id user n (w.execute cmd) :=
  ⟨h.1.execute (by simp [hnames]), fun hR => (h.2 hR).execute cmd⟩

theorem Completing.nothing {names : SessionNames} {id : UUID} {user : User} {n : Nat} {w : AuthWorld}
    (h : Completing R names id user n w) : LoginResult names .nothing w :=
  .nothing (h.1 _ (by simp [SessionNames.keys]))

theorem wp_concludeMfa {ticket : Nat} {names : SessionNames} {id : UUID} {user : User} {attempts n : Nat}
    {verified : Bool} {Q : AuthAnswer → Ctx AuthWorld AuthKey → AuthWorld → Prop} (hc : Tidy c)
    (hheld : ∀ name ∈ names.keys, (name, LockMode.exclusive) ∈ c.held) (hs : Completing R names id user n s)
    (hQ : ∀ a c' w, Tidier c c' → LoginResult names a w → Q a c' w) :
    (authProtocol R).wp (concludeMfa ticket names id user attempts n verified) Q (fun _ _ _ => True) c s := by
  have hduty : ∀ w, Command.Duty R w (.delete [.mfa ticket, .mfaAttempts ticket]) :=
    fun w => ⟨by simp, by simp⟩
  unfold concludeMfa
  split
  · refine Protocol.wp_seq (wp_mfaAudit hc (stable_completing hheld) hs fun c' w hc' hw => ?_)
    have hA : (authProtocol R).Stable c'.held (Completing R names id user n) :=
      stable_completing fun name hn => hc'.held (hheld name hn)
    refine Protocol.wp_seq (wp_sendIf hc'.tidy hA hw rfl hduty (fun _ h => h.execute rfl) fun w hw => ?_)
    exact hQ _ c' w hc' hw.nothing
  · refine Protocol.wp_seq (wp_mfaAudit hc (stable_completing hheld) hs fun c' w hc' hw => ?_)
    have hheld' := fun name hn => hc'.held (hheld name hn)
    refine Protocol.wp_seq (wp_sendQuiet hc'.tidy (stable_completing hheld') hw rfl hduty fun w hw _ => ?_)
    have hw : Completing R names id user n (w.execute (.delete [.mfa ticket, .mfaAttempts ticket])) :=
      hw.execute rfl
    exact wp_createSession hc'.tidy hheld' hw.1 hw.2 fun a w h => hQ a c' w hc' h

theorem wp_completeMfaFor {ticket : Nat} {code : String} {names : SessionNames} {id : UUID} {attempts : Nat}
    {found : Option User × Nat} {Q : AuthAnswer → Ctx AuthWorld AuthKey → AuthWorld → Prop} (hc : Tidy c)
    (hheld : ∀ name ∈ names.keys, (name, LockMode.exclusive) ∈ c.held) (hnew : s.Unissued names.keys)
    (hstamp : ∀ user, found.1 = some user → R = .password → s.Stamp id user.tokenVersion found.2)
    (hQ : ∀ a c' w, Tidier c c' → LoginResult names a w → Q a c' w) :
    (authProtocol R).wp (completeMfaFor host ticket code names id attempts found) Q (fun _ _ _ => True)
      c s := by
  obtain ⟨user, n⟩ := found
  have nothing : Q .nothing c s :=
    hQ _ c s (tidier_refl hc) (.nothing (hnew _ (by simp [SessionNames.keys])))
  unfold completeMfaFor
  cases user with
  | none => exact nothing
  | some user =>
      simp only
      split
      · exact nothing
      · refine Protocol.wp_seq (Protocol.wp_local (local_verifyUserCode id user code)
          (stable_completing hheld) ⟨hnew, hstamp user rfl⟩ (fun verified c' w hgrows hw => ?_)
          fun _ _ _ _ _ => trivial)
        have hc' := tidier_of_grows hc hgrows
        exact wp_concludeMfa hc'.tidy (fun name hn => hc'.held (hheld name hn)) hw
          fun a c'' w hc'' h => hQ a c'' w (hc'.trans hc'') h

theorem authInv_elsewhere {w w' : AuthWorld} (h : (authProtocol R).inv w) (he : w.Elsewhere w') :
    (authProtocol R).inv w' :=
  ⟨he.inv h.1, fun hR => he.indexed (h.2.1 hR), fun hR => (h.2.2 hR).congr
    (fun _ _ hran => (he.ran_iff _).1 hran) fun _ _ _ hs => he.stamp hs⟩

theorem LoginResult.elsewhere {names : SessionNames} {a : AuthAnswer} {w w' : AuthWorld}
    (h : LoginResult names a w) (he : w.Elsewhere w') : LoginResult names a w' := by
  refine ⟨h.accepted, fun st n hran hid => ?_, fun r hr => ?_⟩
  · exact (he.ran_iff _).2 (h.index st n ((he.ran_iff _).1 hran) hid)
  · exact ⟨(h.loggedIn r hr).1, he.later.issued (h.loggedIn r hr).2⟩

/-- The transaction that completes a ticket. In the password regime the user has the password that the
    ticket was issued for. -/
theorem wp_completeMfaOf {ticket : Nat} {code : String} {names : SessionNames} {attempts : Nat}
    {user : Option UUID} {Q : AuthAnswer → Ctx AuthWorld AuthKey → AuthWorld → Prop}
    {base : Rights AuthKey} (hheld : ∀ name ∈ names.keys, (name, LockMode.exclusive) ∈ base)
    (hnew : s.Unissued names.keys) (hQ : ∀ a w, LoginResult names a w → Q a (.start base) w) :
    (authProtocol R).wp (completeMfaOf host ticket code names attempts user) Q (fun _ _ _ => True)
      (.start base) s := by
  unfold completeMfaOf
  cases user with
  | none => exact hQ _ s (.nothing (hnew _ (by simp [SessionNames.keys])))
  | some id =>
      refine Protocol.wp_transaction (D := fun _ _ => True) (fun _ h => h)
        (fun _ => Protocol.stable_const _ _) (fun _ _ _ _ => trivial) (Protocol.wp_seq ?_)
      -- After the lock, whether there is a user or not.
      have next : ∀ c' (w : AuthWorld), Tidier (.start base) c' → w.Unissued names.keys →
          authCond R (.completing ticket id) w →
          (authProtocol R).wp
            (completeMfaFor host ticket code names id attempts (w.users.get? id, w.ticketChecked ticket) >>=
              fun answer => pure (answer, AuthPoint.plain))
            (fun r c s => (authProtocol R).CommitsAt r.2 (fun _ => True) (Q r.1) c s) (fun _ _ _ => True)
            c' w := by
        intro c' w hc' hw hcond
        refine Protocol.wp_seq (wp_completeMfaFor hc'.tidy (fun name hn => hc'.held (hheld name hn)) hw ?_ ?_)
        · rintro user hrow rfl
          exact ⟨user, hrow, Int.le_refl _, Nat.le_of_eq hcond, fun _ => hcond⟩
        · intro a c'' w hc'' hresult
          have hc'' := hc'.trans hc''
          have hsession : (AuthKey.session names.session, LockMode.exclusive) ∈ c''.held :=
            hc''.held (hheld _ (by simp [SessionNames.keys]))
          refine Protocol.commitsAt_of (stable_loginResult hsession a) hresult (fun _ _ => trivial)
            fun w hw hinv _ => ?_
          have he := hc''.tidy w
          refine ⟨authInv_elsewhere hinv he, he, ?_, fun _ => trivial⟩
          have hreset : c''.reset = .start base := by
            unfold Ctx.reset Ctx.start
            rw [hc''.base]
            rfl
          rw [hreset]
          exact hQ a _ (hw.elsewhere he)
      refine Protocol.wp_selectLocking (stable_unissuedAll hheld) hnew (fun w hw _ hcond _ => ?_)
        (fun w row hw _ hcond _ => ?_) fun _ _ _ => trivial
      · exact next _ w (tidier_refl (tidy_start base)) hw hcond
      · exact next _ w ⟨fun w => .refl w, rfl, fun _ h => List.mem_cons_of_mem _ h⟩ hw hcond

theorem wp_completeMfaChallenge {ticket : Nat} {code : String} {names : SessionNames}
    {Q : AuthAnswer → Ctx AuthWorld AuthKey → AuthWorld → Prop} {base : Rights AuthKey}
    (hheld : ∀ name ∈ names.keys, (name, LockMode.exclusive) ∈ base) (hnames : s.Unissued names.keys)
    (hQ : ∀ a w, LoginResult names a w → Q a (.start base) w) :
    (authProtocol R).wp (completeMfaChallenge host ticket code names) Q (fun _ _ _ => True)
      (.start base) s := by
  have hA : (authProtocol R).Stable (Ctx.start base : Ctx AuthWorld AuthKey).held _ := stable_unissuedAll hheld
  have hc := tidy_start base
  refine Protocol.wp_seq (wp_sendQuiet hc hA hnames rfl (fun _ => trivial) fun w hw _ => ?_)
  refine Protocol.wp_seq (wp_sendIf hc hA (hw.execute (by simp [Command.names])) rfl (fun _ => trivial)
    (fun _ h => h.execute (by simp [Command.names])) fun w hw => ?_)
  split
  · refine Protocol.wp_seq (wp_sendQuiet hc hA hw rfl (fun _ => ⟨by simp, by simp⟩) fun w hw _ => ?_)
    have hw : (w.execute (.delete [.mfa ticket, .mfaAttempts ticket])).Unissued names.keys :=
      hw.execute (by simp [Command.names])
    exact hQ _ _ (.nothing (hw _ (by simp [SessionNames.keys])))
  · refine Protocol.wp_seq (wp_fetch hc hA hw fun w hw _ => ?_)
    exact wp_completeMfaOf hheld hw hQ

end Host

end Rubrica
