import Mathlib.Data.List.Dedup
import Mathlib.Data.List.Sort
import Rubrica.Sessions.Authenticity
import Rubrica.Sessions.Rotation
import Rubrica.Transactions.Ownership
import Rubrica.Transactions.Scripts

set_option autoImplicit false

/-! # Who is admitted

The core service asks the auth service, for every request, whom the token of the request belongs to. `uiContext` is
the answer of the auth service, `authenticatedContext` what an endpoint of the core service makes of it. Whatever else
runs, an endpoint goes on only for a session that was earned, and with the rights of its user
(`admitted_authorized`). -/

namespace Rubrica

open Transactions

/-! ## The context of a session -/

/-- `ROLE_PERMISSIONS`. -/
def rolePermissions (role : String) : List String :=
  if role = "signature_admin" then ["*"]
  else if role = "signature_operator" then
    ["documents:read", "documents:write", "signature_requests:read", "signature_requests:write", "audit:read"]
  else if role = "signature_signer" then ["signing:read", "signing:write"]
  else if role = "signature_auditor" then ["documents:read", "signature_requests:read", "audit:read"]
  else []

/-- `SUPPORTED_LOCALES`. -/
def supportedLocales : List String :=
  ["pt-BR", "en", "es", "ja-JP"]

/-- `sorted` of a set. -/
def sortedSet (l : List String) : List String :=
  l.dedup.insertionSort (· ≤ ·)

/-- What the database has of a user besides, as a call finds it: nothing that is modelled here writes it. -/
structure UserDetails where
  /-- The rows of `user_roles`, ordered by role. -/
  roles : UUID → List String
  publicSlug : UUID → String
  preferredLocale : UUID → String
  mfaExempt : UUID → Bool

/-- `UiContextResponse`. -/
structure UiContext where
  subject : String
  userId : UUID
  email : String
  accountPublicSlug : String
  preferredLocale : String
  mfaEnabled : Bool
  mfaSetupRequired : Bool
  roles : List String
  permissionKeys : List String
  capabilityHash : String
  deriving DecidableEq, Repr

/-- The functions that the services call besides. -/
structure AccessHost where
  auth : AuthHost
  /-- `sha256` of the subject and the session id. -/
  fingerprint : String → Nat → String
  /-- The digest of a token. -/
  digest : String → Nat
  /-- The token that arrives in a header `Authorization: Bearer <token>`; `none` where `urlopen` does not send it. -/
  carried : String → Option String
  /-- `urlsplit`, the scheme and the netloc; `none` where it raises `ValueError`. -/
  urlsplit : String → Option (String × String)

section Context

variable (host : AccessHost) (details : UserDetails)

/-- `context_for_user`. -/
def contextForUser (user : UUID) : AuthTx (List String × List String) := do
  let roles ← database fun _ => details.roles user
  pure (roles, sortedSet (roles.flatMap rolePermissions))

/-- `bool(user.mfa_enabled or user.mfa_exempt)`. -/
def UserDetails.secured (id : UUID) (user : User) : Bool :=
  user.mfaEnabled || details.mfaExempt id

/-- The response of `ui_context`. -/
def uiContextResponse (read : SessionRead) (id : UUID) (user : User) (roles permissionKeys : List String) :
    UiContext where
  subject := read.subject
  userId := id
  email := user.email
  accountPublicSlug := details.publicSlug id
  preferredLocale := details.preferredLocale id
  mfaEnabled := user.mfaEnabled
  mfaSetupRequired := !details.secured id user
  roles := if details.secured id user then roles else []
  permissionKeys := if details.secured id user then permissionKeys else []
  capabilityHash := host.fingerprint read.subject read.sessionId

/-- `ui_context`, once the token has been accepted, and found a second time. -/
def uiContextFor (read : SessionRead) (st : SessionState) : AuthTx (Option UiContext) := do
  let (roles, permissionKeys) ← contextForUser details st.userId
  let found ← database fun w => w.users.get? st.userId
  let user ← Code.orRaise found (.other "AttributeError")
  Code.require (details.preferredLocale st.userId ∈ supportedLocales) (.other "ValidationError")
  pure (some (uiContextResponse host details read st.userId user roles permissionKeys))

/-- `ui_context`; `none` for `None`. -/
def uiContext (token : Nat) : AuthTx (Option UiContext) := do
  let session ← currentSession token
  match session with
  | .session read => do
    let state ← stateForToken .access token
    match state with
    | none => pure none
    | some st => uiContextFor host details read st
  | _ => pure none

end Context

/-! ## Requests to the core service -/

structure CoreSettings where
  publicWebUrl : String
  environment : String

/-- What is read of a request. -/
structure CoreRequest where
  method : String
  /-- What `HTTPBearer` gives. -/
  credentials : Option String
  /-- The cookie `access_token`. -/
  cookie : Option String
  origin : Option String
  referer : Option String

/-- How the answer of the auth service comes back. -/
inductive Delivery where
  | whole
  /-- `URLError`, `TimeoutError` or `JSONDecodeError`. -/
  | unavailable
  /-- Another exception. -/
  | broken (name : String)
  deriving DecidableEq, Repr

structure AuthContext where
  subject : String
  roles : List String
  permissionKeys : List String
  userId : Option UUID
  email : String
  deriving DecidableEq, Repr

/-- `AuthContext.allows`. -/
def AuthContext.allows (context : AuthContext) (permission : String) : Bool :=
  "*" ∈ context.permissionKeys || permission ∈ context.permissionKeys

/-- `_is_administrator`. -/
def AuthContext.isAdministrator (context : AuthContext) : Bool :=
  "signature_admin" ∈ context.roles || "*" ∈ context.permissionKeys

/-- `_token`. -/
def CoreRequest.token (request : CoreRequest) : String :=
  (present request.credentials).getD (request.cookie.getD "")

/-- The origin that `require_same_origin` looks at. -/
def CoreRequest.source (request : CoreRequest) : String :=
  (present request.origin).getD (request.referer.getD "")

def authenticationRequired : Failure :=
  .error "Authentication required" 401

def authUnavailable : Failure :=
  .error "Auth service is unavailable" 503

section Core

variable (host : AccessHost) (settings : CoreSettings) (details : UserDetails)

/-- `require_same_origin`. -/
def requireSameOrigin (request : CoreRequest) : AuthTx Unit :=
  if host.auth.lower settings.environment ∉ ["production", "prod"] then pure ()
  else do
    let expected ← Code.orRaise (host.urlsplit settings.publicWebUrl) (.other "ValueError")
    let actual ← Code.orRaise (host.urlsplit request.source) (.other "ValueError")
    Code.require (actual = expected) (.error "Cross-origin cookie request is forbidden" 403)

/-- What `_resolve_context` makes of the answer. -/
def AuthContext.ofPayload (payload : UiContext) : AuthContext where
  subject := payload.subject
  roles := payload.roles
  permissionKeys := payload.permissionKeys
  userId := some payload.userId
  email := if payload.email = "" then payload.subject else payload.email

/-- `_resolve_context`, once the answer is there, or not: `None` is a 401 of the auth service. -/
def resolvePayload (delivery : Delivery) (payload : Option UiContext) : AuthTx AuthContext :=
  match delivery with
  | .unavailable => Code.raise authUnavailable
  | .broken name => Code.raise (.other name)
  | .whole => do
    let payload ← Code.orRaise payload authenticationRequired
    Code.require (payload.mfaSetupRequired = false) (.error "Configure MFA before accessing Rubrica" 403)
    pure (.ofPayload payload)

/-- `_resolve_context`. An exception in the auth service is a 500 of it. -/
def resolveContext (token : String) (delivery : Delivery) : AuthTx AuthContext := do
  Code.require (token ≠ "") authenticationRequired
  let sent ← Code.orRaise (host.carried token) (.other "ValueError")
  let payload ← (uiContext host details (host.digest sent)).tryCatch fun _ => Code.raise authUnavailable
  resolvePayload delivery payload

/-- `authenticated_context`. -/
def authenticatedContext (request : CoreRequest) (delivery : Delivery) : AuthTx AuthContext := do
  Code.onlyIf (request.credentials = none ∧ request.method ∉ ["GET", "HEAD", "OPTIONS"])
    (requireSameOrigin host settings request)
  resolveContext host details request.token delivery

/-- `require_permission`. -/
def requirePermission (permission : String) (request : CoreRequest) (delivery : Delivery) : AuthTx AuthContext := do
  let context ← authenticatedContext host settings details request delivery
  Code.require (context.allows permission = true) (.error "Permission denied" 403)
  pure context

/-- `administrator_context`. -/
def administratorContext (request : CoreRequest) (delivery : Delivery) : AuthTx AuthContext := do
  let context ← authenticatedContext host settings details request delivery
  Code.require (context.isAdministrator = true) (.error "Administrator access required" 403)
  pure context

end Core

/-- What an endpoint depends on. -/
inductive Dependency where
  | authenticated
  | permission (key : String)
  | administrator

def Dependency.run (host : AccessHost) (settings : CoreSettings) (details : UserDetails) (request : CoreRequest)
    (delivery : Delivery) : Dependency → AuthTx AuthContext
  | authenticated => authenticatedContext host settings details request delivery
  | permission key => requirePermission host settings details key request delivery
  | administrator => administratorContext host settings details request delivery

/-- What the endpoint may take for granted. -/
def Dependency.Met (context : AuthContext) : Dependency → Prop
  | authenticated => True
  | permission key => context.allows key = true
  | administrator => context.isAdministrator = true

/-! ## Who may call -/

/-- A call of the auth service, the context of a session, or a request to an endpoint of the core service. -/
inductive AccessCall where
  | auth (call : AuthCall)
  | context (details : UserDetails) (token : Nat)
  | core (details : UserDetails) (request : CoreRequest) (dependency : Dependency) (delivery : Delivery)

inductive AccessAnswer where
  | auth (a : AuthAnswer)
  | context (payload : Option UiContext)
  /-- The endpoint goes on. -/
  | admitted (context : AuthContext)
  deriving DecidableEq, Repr

/-- The context with which the endpoint goes on. -/
def AccessAnswer.admission : AccessAnswer → Option AuthContext
  | admitted found => some found
  | _ => none

abbrev AccessSystem := System AuthWorld AuthKey AuthPoint Failure AccessAnswer
abbrev AccessStep := AccessSystem × Label AuthWorld AuthKey AuthPoint Failure AccessAnswer

namespace AccessCall

def rights : AccessCall → Rights AuthKey
  | auth call => call.rights
  | _ => []

def run (host : AccessHost) (settings : CoreSettings) : AccessCall → AuthTx AccessAnswer
  | auth call => do
    let a ← call.run host.auth
    pure (.auth a)
  | context details token => do
    let payload ← uiContext host details token
    pure (.context payload)
  | core details request dependency delivery => do
    let context ← dependency.run host settings details request delivery
    pure (.admitted context)

end AccessCall

/-- Any calls at once, each with names of its own. The rest of the world may change any table, and may let keys of
    Redis lapse. -/
def accessRuns (host : AccessHost) (settings : CoreSettings) :
    Setting AuthWorld AuthKey AuthPoint Failure AccessAnswer where
  starts base code _ := ∃ call : AccessCall, base = call.rights ∧ code = call.run host settings
  env w w' := w'.redis = w.redis ∨ ∃ keys, w'.redis = w.redis.delete keys
  lossy := True

/-- The session of the run makes the call. -/
def Calls (host : AccessHost) (settings : CoreSettings) (steps : List AccessStep) (i : Nat) (call : AccessCall) :
    Prop :=
  ∃ x ∈ steps, x.2 = .start call.rights (call.run host settings) ∧ x.1.sessions.length = i

/-- What the run tells. -/
def evidenceOf (host : AccessHost) (settings : CoreSettings) (steps : List AccessStep) : Evidence where
  called i call := Calls host settings steps i (.auth call)
  seen i w := ∃ x ∈ steps, x.2.session = some i ∧ x.1.shared = w
  sent i c := ∃ x ∈ steps, x.2.session = some i ∧ x.1.publishes x.2 = some (.command c)

/-! ## What the calls know -/

namespace Evidence

variable {host : AccessHost} {settings : CoreSettings} {V : Evidence} {i : Nat} {details : UserDetails}
  {l : List AuthDeed}

/-- The context is the one of a session whose token was accepted, and of the user that a session has which was found
    under the token. -/
def Describes (host : AccessHost) (V : Evidence) (i : Nat) (details : UserDetails) (token : Nat)
    (payload : UiContext) : Prop :=
  ∃ st st' w user, V.Accepts host.auth i token st ∧ V.Earned host.auth st' ∧ st'.accessKey = token ∧ V.seen i w ∧
    w.users.get? st'.userId = some user ∧
    payload = uiContextResponse host details ⟨st.sessionId, st.subject⟩ st'.userId user (details.roles st'.userId)
      (sortedSet ((details.roles st'.userId).flatMap rolePermissions))

theorem keeps_uiContext {token : Nat} :
    V.Keeps host.auth i (uiContext host details token)
      (fun payload _ _ => ∀ context, payload = some context → V.Describes host i details token context) id l := by
  refine Code.abides_bind.2 (keeps_currentSession (by intro c hc; exact absurd hc (by simp)) fun st hst => ?_)
  refine Code.abides_bind.2 (keeps_stateForToken leavesRedis_id (by intro c hc; exact absurd hc (by simp))
    fun st' hearned hkey => ?_)
  refine Code.abides_bind.2 (Code.abides_bind.2 (Code.abides_select (fun _ _ => ?_) trivial))
  refine Code.abides_bind.2 (Code.abides_select (fun w hw => ?_) trivial)
  refine Code.abides_bind.2 (Code.abides_orRaise (fun user huser => ?_) fun _ => trivial)
  refine Code.abides_bind.2 (Code.abides_require (fun _ => ?_) fun _ => trivial)
  rintro context hcontext
  exact ⟨st, st', w, user, hst, hearned, hkey, hw.2, huser, (Option.some.inj hcontext).symm⟩

/-- The endpoint goes on with the context of the token, for a user with a second factor or without need of one, and
    not on the word of a cookie from elsewhere. -/
structure Admits (host : AccessHost) (settings : CoreSettings) (V : Evidence) (i : Nat) (details : UserDetails)
    (request : CoreRequest) (sent : String) (payload : UiContext) : Prop where
  carried : host.carried request.token = some sent
  described : V.Describes host i details (host.digest sent) payload
  secured : payload.mfaSetupRequired = false
  sameOrigin : request.credentials = none → request.method ∉ ["GET", "HEAD", "OPTIONS"] →
    host.auth.lower settings.environment ∈ ["production", "prod"] →
      ∃ place, host.urlsplit settings.publicWebUrl = some place ∧ host.urlsplit request.source = some place

theorem keeps_requireSameOrigin {request : CoreRequest}
    {Q : Unit → (AuthWorld → AuthWorld) → List AuthDeed → Prop}
    (hQ : (host.auth.lower settings.environment ∈ ["production", "prod"] →
      ∃ place, host.urlsplit settings.publicWebUrl = some place ∧ host.urlsplit request.source = some place) →
        Q () id l) : V.Keeps host.auth i (requireSameOrigin host settings request) Q id l := by
  unfold requireSameOrigin
  split
  · next hother => exact hQ fun hproduction => absurd hproduction hother
  · refine Code.abides_bind.2 (Code.abides_orRaise (fun expected hexpected => ?_) fun _ => trivial)
    refine Code.abides_bind.2 (Code.abides_orRaise (fun actual hactual => ?_) fun _ => trivial)
    refine Code.abides_require (fun hsame => ?_) fun _ => trivial
    exact hQ fun _ => ⟨expected, hexpected, hsame ▸ hactual⟩

theorem keeps_authenticatedContext {request : CoreRequest} {delivery : Delivery} :
    V.Keeps host.auth i (authenticatedContext host settings details request delivery)
      (fun context _ _ => ∃ sent payload, V.Admits host settings i details request sent payload ∧
        context = .ofPayload payload) id l := by
  have hgo : (request.credentials = none → request.method ∉ ["GET", "HEAD", "OPTIONS"] →
      host.auth.lower settings.environment ∈ ["production", "prod"] →
        ∃ place, host.urlsplit settings.publicWebUrl = some place ∧ host.urlsplit request.source = some place) →
      V.Keeps host.auth i (resolveContext host details request.token delivery) (fun context _ _ => ∃ sent payload,
          V.Admits host settings i details request sent payload ∧ context = .ofPayload payload) id l := by
    intro horigin
    refine Code.abides_bind.2 (Code.abides_require (fun _ => ?_) fun _ => trivial)
    refine Code.abides_bind.2 (Code.abides_orRaise (fun sent hsent => ?_) fun _ => trivial)
    refine Code.abides_bind.2 (Code.abides_tryCatch.2 (Code.abides_mono keeps_uiContext (fun found u l hfound => ?_)
      fun _ _ _ _ => trivial))
    cases delivery with
    | unavailable => trivial
    | broken name => trivial
    | whole =>
        refine Code.abides_bind.2 (Code.abides_orRaise (fun payload hpayload => ?_) fun _ => trivial)
        refine Code.abides_bind.2 (Code.abides_require (fun hsecured => ?_) fun _ => trivial)
        exact ⟨sent, payload, ⟨hsent, hfound payload hpayload, hsecured, horigin⟩, rfl⟩
  refine Code.abides_bind.2 ?_
  unfold Code.onlyIf
  split
  · next hunsafe => exact keeps_requireSameOrigin fun horigin => hgo fun _ _ => horigin
  · next hsafe => exact hgo fun hcookie hmethod => absurd ⟨hcookie, hmethod⟩ hsafe

/-- An endpoint goes on with a context that meets what it depends on. -/
theorem keeps_dependency {request : CoreRequest} {dependency : Dependency} {delivery : Delivery} :
    V.Keeps host.auth i (dependency.run host settings details request delivery)
      (fun context _ _ => dependency.Met context ∧ ∃ sent payload,
        V.Admits host settings i details request sent payload ∧ context = .ofPayload payload) id l := by
  cases dependency with
  | authenticated =>
      exact Code.abides_mono keeps_authenticatedContext (fun _ _ _ h => ⟨trivial, h⟩) fun _ _ _ h => h
  | permission key =>
      refine Code.abides_bind.2 (Code.abides_mono keeps_authenticatedContext (fun context u l h => ?_)
        fun _ _ _ h => h)
      exact Code.abides_bind.2 (Code.abides_require (fun hallowed => ⟨hallowed, h⟩) fun _ => trivial)
  | administrator =>
      refine Code.abides_bind.2 (Code.abides_mono keeps_authenticatedContext (fun context u l h => ?_)
        fun _ _ _ h => h)
      exact Code.abides_bind.2 (Code.abides_require (fun hadministrator => ⟨hadministrator, h⟩) fun _ => trivial)

/-- What an access call has returned. -/
def Replies (host : AccessHost) (settings : CoreSettings) (V : Evidence) (i : Nat) : AccessCall → AccessAnswer → Prop
  | .auth call, .auth a => V.Answers host.auth i call a
  | .context details token, .context payload =>
      ∀ context, payload = some context → V.Describes host i details token context
  | .core details request dependency _, .admitted context => dependency.Met context ∧ ∃ sent payload,
      V.Admits host settings i details request sent payload ∧ context = .ofPayload payload
  | _, _ => True

theorem keeps_accessCall {call : AccessCall} (hcalled : ∀ c, call = .auth c → V.called i c) :
    V.Keeps host.auth i (call.run host settings) (fun a _ _ => V.Replies host settings i call a) id [] := by
  cases call with
  | auth call =>
      have hl : Unstored ([] : List AuthDeed) := fun d hd => absurd hd (by simp)
      exact Code.abides_bind.2 (Code.abides_mono (keeps_authCall (hcalled call rfl) hl) (fun _ _ _ h => h)
        fun _ _ _ h => h)
  | context details token =>
      exact Code.abides_bind.2 (Code.abides_mono keeps_uiContext (fun _ _ _ h => h) fun _ _ _ h => h)
  | core details request dependency delivery =>
      exact Code.abides_bind.2 (Code.abides_mono keeps_dependency (fun _ _ _ h => h) fun _ _ _ h => h)

/-- A session that was earned has its tokens from a call that drew them, and that stored it under them. -/
theorem Earned.source {host : AuthHost} {st : SessionState} (h : V.Earned host st) (kind : TokenKind) :
    ∃ j call c, V.called j call ∧ AuthKey.token kind (st.key kind) ∈ call.names ∧ V.sent j c ∧ c.stores = some st := by
  cases h with
  | opened j st n hopens hsent =>
      cases hopens with
      | password payload names ticket user row hcalled =>
          refine ⟨j, _, _, hcalled, ?_, hsent, rfl⟩
          cases kind <;> simp [AuthCall.names, SessionNames.keys, SessionNames.state, SessionState.key]
      | code ticket code names user row hcalled =>
          refine ⟨j, _, _, hcalled, ?_, hsent, rfl⟩
          cases kind <;> simp [AuthCall.names, SessionNames.keys, SessionNames.state, SessionState.key]
  | renewed j st access next w hearned hcalled hseen hcurrent hsent =>
      refine ⟨j, _, _, hcalled, ?_, hsent, rfl⟩
      cases kind <;> simp [AuthCall.names, SessionState.under, SessionState.key]

end Evidence

/-! ## Runs -/

section Runs

variable {host : AccessHost} {settings : CoreSettings} {Y Z : AccessSystem} {steps : List AccessStep}

/-- Every call of a run keeps to what the run tells. -/
theorem keeps_started (hrun : Run (accessRuns host settings) Y steps Z) {x : AccessStep} (hx : x ∈ steps)
    {base : Rights AuthKey} {code : AuthTx AccessAnswer} (hstart : x.2 = .start base code) {i : Nat}
    (hi : x.1.sessions.length = i) :
    (evidenceOf host settings steps).Keeps host.auth i code (fun _ _ _ => True) id [] := by
  have hallow := (hrun.allows hx).1
  rw [hstart] at hallow
  obtain ⟨call, rfl, rfl⟩ := hallow
  refine Code.abides_mono (Evidence.keeps_accessCall fun c hc => ⟨x, hx, ?_, hi⟩) (fun _ _ _ _ => trivial)
    fun _ _ _ h => h
  rw [← hc]
  exact hstart

/-- In every state of a run, the evidence bears out what Redis has. -/
theorem known_of_access (hrun : Run (accessRuns host settings) Y steps Z) (hidle : Y.sessions = [])
    (hempty : Y.shared.redis = .empty) :
    (∀ x ∈ steps, (evidenceOf host settings steps).Known host.auth x.1.shared.redis) ∧
      (evidenceOf host settings steps).Known host.auth Z.shared.redis := by
  refine hrun.abided_invariant (K := fun w => (evidenceOf host settings steps).Known host.auth w.redis)
    (V := fun i => (evidenceOf host settings steps).Permits host.auth i) (Q := fun _ _ _ _ => True) hidle ?_ ?_ ?_ ?_
  · rw [hempty]
    exact Evidence.known_empty
  · intro x hx s hs hknown
    have hallow := (hrun.allows hx).1
    rw [hs] at hallow
    rcases hallow with hsame | ⟨keys, hlapsed⟩
    · rw [hsame]
      exact hknown
    · rw [hlapsed]
      exact hknown.delete keys
  · intro i x hx base code hstart hi
    exact keeps_started hrun hx hstart hi
  · intro i x hx hi pt hpt l s' hpermits hknown
    cases pt with
    | command c =>
        obtain ⟨hafter, hdue, -⟩ := hpermits
        obtain rfl : s' = x.1.shared.execute c := hafter
        exact hknown.run hdue ⟨x, hx, hi, hpt⟩
    | plain => exact (show s'.redis = _ from hpermits) ▸ hknown
    | completing ticket user => exact (show s'.redis = _ from hpermits) ▸ hknown
    | passwordChange user loaded => exact (show s'.redis = _ from hpermits) ▸ hknown

/-- A call stores one session. -/
theorem stores_once (hrun : Run (accessRuns host settings) Y steps Z) (hidle : Y.sessions = [])
    (hempty : Y.shared.redis = .empty) {i : Nat} {c c' : Command}
    (hsent : (evidenceOf host settings steps).sent i c) (hsent' : (evidenceOf host settings steps).sent i c')
    (hc : c.stores ≠ none) (hc' : c'.stores ≠ none) : c = c' := by
  obtain ⟨x, hx, hxi, hxc⟩ := hsent
  obtain ⟨y, hy, hyi, hyc⟩ := hsent'
  have hknown := (known_of_access hrun hidle hempty).1
  -- Neither of two steps stores a session after the other has.
  have hnever : ∀ past z future, steps = past ++ z :: future → z.2.session = some i → ∀ d, z.1.publishes z.2 =
      some (.command d) → d.stores ≠ none → ∀ q ∈ past, q.2.session = some i → ∀ e, q.1.publishes q.2 =
        some (.command e) → e.stores = none := by
    intro past z future hsteps hz d hd hstores q hq hqi e he
    have hsplit := hsteps ▸ hrun
    obtain ⟨hbefore, -, X', hstep, -⟩ := hsplit.split
    have hseen : ∀ before t after, past ++ z :: future = before ++ t :: after → t.2.session = some i →
        (evidenceOf host settings steps).Knows host.auth i t.1.shared := by
      intro before t after ht hti
      have hmem : t ∈ steps := by simp [hsteps, ht]
      exact ⟨hknown t hmem, t, hmem, hti, rfl⟩
    have habided := hsplit.abided hidle hseen
      (fun t ht base code hstart hi => keeps_started hrun (hsteps ▸ ht) hstart hi) hstep hz hd
    obtain ⟨-, X'', hstep'⟩ := hbefore.allows hq
    exact habided.2.2 hstores _ (deed_mem_deedsOf hq hqi hstep' he)
  obtain ⟨past, future, hsteps⟩ := List.append_of_mem hx
  have hmem : y ∈ past ∨ y = x ∨ y ∈ future := by
    rw [hsteps] at hy
    simpa using hy
  rcases hmem with hy | rfl | hy
  · exact absurd (hnever past x future hsteps hxi c hxc hc y hy hyi c' hyc) hc'
  · exact (AuthPoint.command.inj (Option.some.inj (hxc.symm.trans hyc)))
  · obtain ⟨between, later, rfl⟩ := List.append_of_mem hy
    have hsteps' : steps = (past ++ x :: between) ++ y :: later := by
      rw [hsteps, List.append_assoc, List.cons_append]
    exact absurd (hnever _ y later hsteps' hyi c' hyc hc' x (by simp) hxi c hxc) hc

/-- No two sessions have been earned with one token. -/
theorem earned_unique (hrun : Run (accessRuns host settings) Y steps Z) (hidle : Y.sessions = [])
    (hempty : Y.shared.redis = .empty) {st st' : SessionState} {kind : TokenKind}
    (h : (evidenceOf host settings steps).Earned host.auth st)
    (h' : (evidenceOf host settings steps).Earned host.auth st') (hkey : st.key kind = st'.key kind) : st = st' := by
  obtain ⟨i, call, c, ⟨x, hx, hstart, rfl⟩, hname, hsent, hstores⟩ := h.source kind
  obtain ⟨j, call', c', ⟨y, hy, hstart', rfl⟩, hname', hsent', hstores'⟩ := h'.source kind
  rw [← hkey] at hname'
  have hsame := hrun.drawn_once hidle hx hy hstart hstart' (AuthCall.held hname) (AuthCall.held hname')
  rw [← hsame] at hsent'
  obtain rfl := stores_once hrun hidle hempty hsent hsent' (by simp [hstores]) (by simp [hstores'])
  exact Option.some.inj (hstores.symm.trans hstores')

/-- What a call has returned. -/
theorem replies_of_returned (hrun : Run (accessRuns host settings) Y steps Z) (hidle : Y.sessions = [])
    (hempty : Y.shared.redis = .empty) {i : Nat} {call : AccessCall} (hcall : Calls host settings steps i call)
    {a : AccessAnswer} (h : Z.returned i = some a) :
    (evidenceOf host settings steps).Replies host settings i call a := by
  have hknown := (known_of_access hrun hidle hempty).1
  obtain ⟨x, hx, hstart, hi⟩ := hcall
  obtain ⟨u, hreplies⟩ := hrun.abided_returned (J := fun _ => (evidenceOf host settings steps).Knows host.auth i)
    (V := (evidenceOf host settings steps).Permits host.auth i)
    (Q := fun a _ _ => (evidenceOf host settings steps).Replies host settings i call a) hidle
    (fun _ y _ hsplit hyi =>
      have hy : y ∈ steps := by simp [hsplit]
      ⟨hknown y hy, y, hy, hyi, rfl⟩) (fun y hy base code hstart' hi' => by
      obtain rfl := hrun.started_once hx hy hstart hstart' (hi.trans hi'.symm)
      obtain ⟨rfl, rfl⟩ := Label.start.inj (hstart.symm.trans hstart')
      refine Evidence.keeps_accessCall fun c hc => ⟨x, hx, ?_, hi⟩
      rw [← hc]
      exact hstart) h
  exact hreplies

/-- **Who a session belongs to.** In every state of every run, whatever interleaves and whatever else happens to the
    tables, each stored session goes back to a call that checked the password of its user, and a code where the user
    had a second factor; each ticket goes back to a login; a token is accepted for one session, which it was drawn
    for; and no two sessions have been earned with one token. -/
theorem sessions_earned (hrun : Run (accessRuns host settings) Y steps Z) (hidle : Y.sessions = [])
    (hempty : Y.shared.redis = .empty) :
    (∀ id st, Z.shared.redis.sessions id = some st →
      st.sessionId = id ∧ (evidenceOf host settings steps).Earned host.auth st) ∧
    (∀ ticket id, Z.shared.redis.mfa ticket = some id →
      (evidenceOf host settings steps).TicketEarned host.auth ticket id) ∧
    (∀ i token read, Calls host settings steps i (.auth (.currentSession token)) →
      Z.returned i = some (.auth (.session read)) →
        ∃ st, (evidenceOf host settings steps).Accepts host.auth i token st ∧ read = ⟨st.sessionId, st.subject⟩) ∧
    ∀ kind st st', (evidenceOf host settings steps).Earned host.auth st →
      (evidenceOf host settings steps).Earned host.auth st' → st.key kind = st'.key kind → st = st' := by
  obtain ⟨hsessions, htickets⟩ := (known_of_access hrun hidle hempty).2
  refine ⟨hsessions, htickets, ?_, fun kind st st' h h' hkey => earned_unique hrun hidle hempty h h' hkey⟩
  intro i token read hcall hreturned
  exact replies_of_returned hrun hidle hempty hcall hreturned token read rfl rfl

/-- The context is the one of the session whose token was accepted, and of its user. -/
theorem describes_one (hrun : Run (accessRuns host settings) Y steps Z) (hidle : Y.sessions = [])
    (hempty : Y.shared.redis = .empty) {i token : Nat} {details : UserDetails} {payload : UiContext}
    (h : (evidenceOf host settings steps).Describes host i details token payload) :
    ∃ st w user, (evidenceOf host settings steps).Accepts host.auth i token st ∧
      (evidenceOf host settings steps).seen i w ∧ w.users.get? st.userId = some user ∧
      payload = uiContextResponse host details ⟨st.sessionId, st.subject⟩ st.userId user
        (details.roles st.userId) (sortedSet ((details.roles st.userId).flatMap rolePermissions)) := by
  obtain ⟨st, st', w, user, haccepts, hearned, hkey, hseen, huser, rfl⟩ := h
  have hsame : st.key .access = st'.key .access := haccepts.2.1.trans hkey.symm
  obtain rfl := earned_unique hrun hidle hempty haccepts.1 hearned hsame
  exact ⟨st, w, user, haccepts, hseen, huser, rfl⟩

theorem mem_permissionKeys {context : AuthContext} {roles : List String}
    (h : context.permissionKeys = sortedSet (roles.flatMap rolePermissions)) (p : String) :
    p ∈ context.permissionKeys ↔ ∃ role ∈ roles, p ∈ rolePermissions role := by
  rw [h, sortedSet, List.mem_insertionSort, List.mem_dedup, List.mem_flatMap]

/-- What a role permits is what the user is permitted. -/
theorem allows_iff {context : AuthContext} {roles : List String}
    (h : context.permissionKeys = sortedSet (roles.flatMap rolePermissions)) (p : String) :
    context.allows p = true ↔ ∃ role ∈ roles, "*" ∈ rolePermissions role ∨ p ∈ rolePermissions role := by
  simp only [AuthContext.allows, Bool.or_eq_true, decide_eq_true_eq, mem_permissionKeys h]
  constructor
  · rintro (⟨role, hrole, hq⟩ | ⟨role, hrole, hq⟩)
    · exact ⟨role, hrole, Or.inl hq⟩
    · exact ⟨role, hrole, Or.inr hq⟩
  · rintro ⟨role, hrole, hq | hq⟩
    · exact Or.inl ⟨role, hrole, hq⟩
    · exact Or.inr ⟨role, hrole, hq⟩

/-- One role permits everything. -/
theorem star_mem_rolePermissions {role : String} : "*" ∈ rolePermissions role ↔ role = "signature_admin" := by
  unfold rolePermissions
  split
  · next hadmin => simp [hadmin]
  · next hother =>
      refine iff_of_false ?_ hother
      split
      · simp
      · split
        · simp
        · split <;> simp

theorem isAdministrator_iff_role {context : AuthContext} {roles : List String} (hroles : context.roles = roles)
    (h : context.permissionKeys = sortedSet (roles.flatMap rolePermissions)) :
    context.isAdministrator = true ↔ "signature_admin" ∈ roles := by
  simp only [AuthContext.isAdministrator, Bool.or_eq_true, decide_eq_true_eq, mem_permissionKeys h, hroles,
    star_mem_rolePermissions]
  constructor
  · rintro (hadmin | ⟨role, hrole, rfl⟩)
    · exact hadmin
    · exact hrole
  · exact Or.inl

/-- **Who is admitted.** Whatever else runs, an endpoint of the core service goes on only for a token that was
    accepted at some moment of the request, of a session that was earned; for a user who had then a second factor, or
    needs none; with that user's roles, of which one permits what the endpoint requires; and, in production, not on
    the word of a cookie that comes with an unsafe request from elsewhere. -/
theorem admitted_authorized (hrun : Run (accessRuns host settings) Y steps Z) (hidle : Y.sessions = [])
    (hempty : Y.shared.redis = .empty) {i : Nat} {details : UserDetails} {request : CoreRequest}
    {dependency : Dependency} {delivery : Delivery}
    (hcall : Calls host settings steps i (.core details request dependency delivery)) {context : AuthContext}
    (h : Z.returned i = some (.admitted context)) :
    ∃ st sent w user, host.carried request.token = some sent ∧
      (evidenceOf host settings steps).Accepts host.auth i (host.digest sent) st ∧
      (evidenceOf host settings steps).seen i w ∧ w.users.get? st.userId = some user ∧
      (user.mfaEnabled = true ∨ details.mfaExempt st.userId = true) ∧
      context.subject = st.subject ∧ context.userId = some st.userId ∧
      context.email = (if user.email = "" then st.subject else user.email) ∧
      context.roles = details.roles st.userId ∧
      (∀ p, context.allows p = true ↔
        ∃ role ∈ details.roles st.userId, "*" ∈ rolePermissions role ∨ p ∈ rolePermissions role) ∧
      (context.isAdministrator = true ↔ "signature_admin" ∈ details.roles st.userId) ∧ dependency.Met context ∧
      (request.credentials = none → request.method ∉ ["GET", "HEAD", "OPTIONS"] →
        host.auth.lower settings.environment ∈ ["production", "prod"] →
          ∃ place, host.urlsplit settings.publicWebUrl = some place ∧ host.urlsplit request.source = some place) := by
  obtain ⟨hmet, sent, payload, hadmits, rfl⟩ := replies_of_returned hrun hidle hempty hcall h
  obtain ⟨st, w, user, haccepts, hseen, huser, rfl⟩ := describes_one hrun hidle hempty hadmits.described
  have hsecured : details.secured st.userId user = true := by simpa [uiContextResponse] using hadmits.secured
  have hroles : (AuthContext.ofPayload (uiContextResponse host details ⟨st.sessionId, st.subject⟩ st.userId user
      (details.roles st.userId) (sortedSet ((details.roles st.userId).flatMap rolePermissions)))).roles =
        details.roles st.userId := by
    simp [AuthContext.ofPayload, uiContextResponse, hsecured]
  have hkeys : (AuthContext.ofPayload (uiContextResponse host details ⟨st.sessionId, st.subject⟩ st.userId user
      (details.roles st.userId) (sortedSet ((details.roles st.userId).flatMap rolePermissions)))).permissionKeys =
        sortedSet ((details.roles st.userId).flatMap rolePermissions) := by
    simp [AuthContext.ofPayload, uiContextResponse, hsecured]
  refine ⟨st, sent, w, user, hadmits.carried, haccepts, hseen, huser, by simpa [UserDetails.secured] using hsecured,
    rfl, rfl, rfl, hroles, fun p => allows_iff hkeys p, isAdministrator_iff_role hroles hkeys, hmet, hadmits.sameOrigin⟩

end Runs

/-! ## A request to compute with -/

/-- Tokens are as long as the number that stands for them. -/
def sampleAccess : AccessHost where
  auth := sampleAuthHost
  fingerprint subject _ := subject
  digest := String.length
  carried := some
  urlsplit url := some ("https", url)

def sampleCore : CoreSettings where
  publicWebUrl := "rubrica"
  environment := "production"

/-- Everyone is an operator, and needs no second factor. -/
def operators : UserDetails where
  roles _ := ["signature_operator"]
  publicSlug _ := "slug"
  preferredLocale _ := "en"
  mfaExempt _ := true

/-- A request with the cookie of the first login, from the pages of the service. -/
def cookieRequest : CoreRequest where
  method := "POST"
  credentials := none
  cookie := some "access-ten"
  origin := some "rubrica"
  referer := none

def accessCalling : Calling AuthWorld AuthKey AuthPoint Failure AccessAnswer AccessCall where
  rights := AccessCall.rights
  run := AccessCall.run sampleAccess sampleCore
  fresh _ _ := true

/-- A login, and a request with the token that it gave out. -/
def loginAndRequest : List (AccessCall × Nat) :=
  [(.auth (.login ⟨"a", "p"⟩ ⟨1, 10, 20⟩ 1), 9), (.core operators cookieRequest (.permission "documents:write") .whole, 7)]

def oneAccess : AccessSystem :=
  ⟨oneUser.shared, []⟩

theorem sessions_earned_oneUser :
    ∃ steps Z st, Run (accessRuns sampleAccess sampleCore) oneAccess steps Z ∧
      Z.shared.redis.sessions 1 = some st ∧ (evidenceOf sampleAccess sampleCore steps).Earned sampleAuthHost st := by
  obtain ⟨steps, Z, hrun, hp⟩ := accessCalling.exists_run (W := accessRuns sampleAccess sampleCore) (Y := oneAccess)
    (fun call _ _ => ⟨call, rfl, rfl⟩) (Calling.inTurn loginAndRequest)
    (p := fun _ Z => (Z.shared.redis.sessions 1).isSome) (by decide +kernel)
  obtain ⟨st, hst⟩ := Option.isSome_iff_exists.1 hp
  exact ⟨steps, Z, st, hrun, hst, ((sessions_earned hrun rfl rfl).1 1 st hst).2⟩

theorem admitted_authorized_oneUser :
    ∃ steps Z context st, Run (accessRuns sampleAccess sampleCore) oneAccess steps Z ∧
      Z.returned 1 = some (.admitted context) ∧ context.allows "documents:write" = true ∧
      (evidenceOf sampleAccess sampleCore steps).Accepts sampleAuthHost 1 10 st ∧ context.subject = st.subject := by
  obtain ⟨steps, Z, hrun, hlabels, hp⟩ := accessCalling.exists_labelled_run (W := accessRuns sampleAccess sampleCore)
    (Y := oneAccess) (fun call _ _ => ⟨call, rfl, rfl⟩) (Calling.inTurn loginAndRequest)
    (p := fun steps Z => (steps[10]?.map fun x => x.1.sessions.length) = some 1 &&
      ((Z.returned 1).bind AccessAnswer.admission).isSome) (by decide +kernel)
  obtain ⟨hlength, hadmitted⟩ := Bool.and_eq_true_iff.1 hp
  obtain ⟨x, hx, hi⟩ := Option.map_eq_some_iff.1 (of_decide_eq_true hlength)
  have hstart : x.2 = .start [] ((AccessCall.core operators cookieRequest (.permission "documents:write") .whole).run
      sampleAccess sampleCore) := by
    have hlabel := congrArg (fun labels => labels[10]?) hlabels
    simp only [List.getElem?_map, hx, Option.map_some] at hlabel
    exact Option.some.inj hlabel
  obtain ⟨context, hcontext⟩ := Option.isSome_iff_exists.1 hadmitted
  obtain ⟨a, hreturned, ha⟩ := Option.bind_eq_some_iff.1 hcontext
  obtain rfl : a = .admitted context := by
    cases a with
    | admitted context' => exact congrArg AccessAnswer.admitted (Option.some.inj ha)
    | auth a => exact absurd ha (by simp [AccessAnswer.admission])
    | context payload => exact absurd ha (by simp [AccessAnswer.admission])
  obtain ⟨st, sent, w, user, hsent, haccepts, -, -, -, hsubject, -, -, -, -, -, hmet, -⟩ :=
    admitted_authorized hrun rfl rfl ⟨x, List.mem_of_getElem? hx, hstart, hi⟩ hreturned
  obtain rfl := Option.some.inj hsent
  exact ⟨steps, Z, context, st, hrun, hreturned, hmet, haccepts, hsubject⟩

end Rubrica
