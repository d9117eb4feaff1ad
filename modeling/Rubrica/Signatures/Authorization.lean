import Rubrica.Signatures.Lifecycle
import Rubrica.Transactions.Parts

set_option autoImplicit false

/-! # Serpro ID

Where a request asks for a certificate, the signer is sent to Serpro ID and comes back with a code. What was to
be signed waits in Redis meanwhile, under a state that is good for one return: the callback takes it, asks
Serpro ID who has authorized what, and only then signs. -/

namespace Rubrica

open Transactions

variable {B Page α : Type}

/-! ## Serpro ID -/

/-- What `/token` answers. -/
structure TokenAnswer where
  scope : Option String
  identificationType : Option String
  /-- `authorized_identification`, or the empty text. -/
  identification : String
  accessToken : Option String

/-- What is read of a certificate. -/
structure Certificate where
  notBefore : Int
  notAfter : Int
  fingerprint : String

/-- Serpro ID, the identity check of the authentication service, and the reader of certificates. -/
structure SerproServices where
  /-- Of a code and a verifier. -/
  token : String → String → Except Failure TokenAnswer
  /-- `identity_matches_certificate`, of a subject, a type and an identifier. -/
  identityMatches : String → String → String → Bool
  /-- `/certificate-discovery`, with an access token. -/
  certificates : String → Except Failure (List String)
  readCertificate : String → Except Failure Certificate

/-! ## Attempts -/

/-- What `start_authorization` puts into Redis; the command has the address and the agent of the call. -/
structure Attempt where
  token : String
  subject : String
  requestId : UUID
  signerId : UUID
  documentSha256 : String
  command : SignCommand
  verifier : String

/-- The tables, and the keys under `rubrica:serproid:state:` beside them. -/
structure SerproWorld (B : Type) where
  world : World B
  attempts : String → Option Attempt

/-- The tables are a part of it. -/
def SerproWorld.tables : Part (World B) (SerproWorld B) where
  get := SerproWorld.world
  set s w := ⟨s, w.attempts⟩
  get_set _ _ := rfl
  set_get _ := rfl
  set_set _ _ _ := rfl

/-- `SET`, with `nx=True`. -/
def SerproWorld.store (state : String) (a : Attempt) (w : SerproWorld B) : SerproWorld B :=
  if (w.attempts state).isSome then w
  else { w with attempts := Function.update w.attempts state (some a) }

/-- `GETDEL`. -/
def SerproWorld.take (state : String) (w : SerproWorld B) : SerproWorld B :=
  { w with attempts := Function.update w.attempts state none }

inductive SerproPoint (B : Type) where
  | workflow (point : WorkflowPoint B)
  | storing (state : String) (a : Attempt)
  /-- Takes what waits under the state, for a callback that will ask these. -/
  | taking (state : String) (serpro : SerproServices)

/-- A program of the Serpro ID service. -/
abbrev Authorizing (B α : Type) := Code (SerproWorld B) RowKey (SerproPoint B) Failure α

/-- A call of the workflow service. -/
def within (x : Workflow B α) : Authorizing B α :=
  x.zoom SerproWorld.tables id .workflow

/-- Whether the state was free. -/
def storeAttempt (state : String) (a : Attempt) : Authorizing B Bool :=
  Code.effect (.storing state a) (SerproWorld.store state a) fun w => (w.attempts state).isNone

def takeAttempt (state : String) (serpro : SerproServices) : Authorizing B (Option Attempt) :=
  Code.effect (.taking state serpro) (SerproWorld.take state) fun w => w.attempts state

/-! ## Grants -/

/-- The type of an identifier, as the authentication service has it. -/
def identityTypeOf (t : Option String) : Option String :=
  if t = some "CPF" then some "BR_CPF" else if t = some "CNPJ" then some "BR_CNPJ" else none

/-- `identifier[-4:]`. -/
def lastFour (s : String) : String :=
  String.ofList (s.toList.drop (s.toList.length - 4))

/-- The permission, by the identity it was given to, and the access token. -/
def tokenGrant (serpro : SerproServices) (subject : String) (answer : TokenAnswer) :
    Except Failure (String × String) :=
  if answer.scope ≠ some "single_signature" then
    .error (.error "Serpro ID did not grant signing permission" 403)
  else match identityTypeOf answer.identificationType with
    | none => .error (.error "Certificate identity does not match the Rubrica signer" 403)
    | some type =>
      if serpro.identityMatches subject type answer.identification then
        match present answer.accessToken with
        | none => .error (.error "Serpro ID did not return a signing token" 502)
        | some token => .ok (type, token)
      else .error (.error "Certificate identity does not match the Rubrica signer" 403)

/-- The one certificate that an access token is good for. -/
def soleCertificate (serpro : SerproServices) (token : String) : Except Failure Certificate :=
  match serpro.certificates token with
  | .error e => .error e
  | .ok [encoded] => serpro.readCertificate encoded
  | .ok _ => .error (.error "Serpro ID returned an unexpected certificate set" 502)

/-- What `sign` is handed. -/
def certificateInfo (type identifier : String) (certificate : Certificate) : List (String × String) :=
  [("provider", "serproid"), ("format", "PAdES-CMS"), ("certificate_sha256", certificate.fingerprint),
    ("identifier_type", type), ("identifier_last4", lastFour identifier)]

section Host

variable (host : Host B Page) (cfg : Settings) (services : SigningServices B) (serpro : SerproServices)
  (caller : Caller)

/-- The middle of `finish_authorization`, from the code to the grant. -/
def obtainGrant (subject code verifier : String) : Authorizing B CertificateGrant := do
  let answer ← within (serviceResult (serpro.token code verifier))
  let permission ← within (serviceResult (tokenGrant serpro subject answer))
  let certificate ← within (serviceResult (soleCertificate serpro permission.2))
  let now ← within utcNow
  Code.require (certificate.notBefore ≤ now ∧ now ≤ certificate.notAfter)
    (.error "Serpro ID certificate is outside its validity period" 403)
  pure ⟨permission.2, certificateInfo permission.1 answer.identification certificate⟩

/-! ## The two halves -/

/-- `start_authorization`, with the state and the verifier that it draws; it returns the state, which goes
    into the URL. -/
def startAuthorization (token subject : String) (command : SignCommand) (state verifier : String) :
    Authorizing B String :=
  if cfg.serproIdConfigured = false then Code.raise (.error "Serpro ID is not configured" 503)
  else if command.consent = false then Code.raise (.error "Explicit consent is required" 400)
  else if (services.identitySummary subject).identifierType ≠ some "BR_CPF" ∧
      (services.identitySummary subject).identifierType ≠ some "BR_CNPJ" then
    Code.raise (.error "A Brazilian CPF or CNPJ is required for Serpro ID signing" 409)
  else do
    let context ← within (signingContext host caller token subject false)
    Code.require (context.request.signatureMode = .serproId) (.error "This request does not use Serpro ID" 409)
    Code.require (context.request.status = .open ∧ (context.signer.status = .pending ∨ context.signer.status = .viewed))
      (.error "Signature request is not open" 409)
    Code.require (context.request.signerCount = context.request.signedCount + 1)
      (.error "Certificate signing must be the final signature on this PDF" 409)
    let free ← storeAttempt state ⟨token, subject, context.request.id, context.signer.id,
      context.request.documentSha256, { command with userAgent := leading 1000 command.userAgent }, verifier⟩
    Code.require (free = true) (.error "Unable to begin Serpro ID authorization" 503)
    pure state

/-- What `finish_authorization` calls `sign` with. -/
def Attempt.call (a : Attempt) (subject : String) (grant : CertificateGrant) : SignCall :=
  ⟨a.token, subject, { a.command with consent := true }, some grant⟩

/-- `finish_authorization`; `names` are the identifiers that `sign` draws. -/
def finishAuthorization (state : String) (code error : Option String) (subject : String) (names : SigningNames) :
    Authorizing B String :=
  if cfg.serproIdConfigured = false then Code.raise (.error "Serpro ID is not configured" 503)
  else do
    let found ← takeAttempt state serpro
    let attempt ← Code.orRaise found (.error "Serpro ID authorization expired or was already used" 400)
    Code.require (attempt.subject = subject) (.error "Serpro ID authorization belongs to another user" 403)
    match present error, present code with
    | none, some code => do
      let context ← within (signingContext host caller attempt.token subject false)
      Code.require (context.request.id = attempt.requestId ∧ context.signer.id = attempt.signerId ∧
          context.request.documentSha256 = attempt.documentSha256)
        (.error "The document or signer changed during authorization" 409)
      let grant ← obtainGrant serpro subject code attempt.verifier
      let _ ← within (sign host cfg services caller (attempt.call subject grant) names)
      pure attempt.token
    | _, _ => pure attempt.token

/-- What the callback answers where Serpro ID cannot be understood. -/
def callbackFailure : Failure → Failure
  | .other name =>
    if name ∈ ["HTTPError", "ValueError", "KeyError", "TypeError"] then
      .error "Serpro ID returned an invalid or unavailable response" 502
    else .other name
  | e => e

/-- `serproid_callback`, up to the redirect. -/
def serproidCallback (state : String) (code error : Option String) (subject : String) (names : SigningNames) :
    Authorizing B String :=
  if state.length < 32 ∨ 128 < state.length then Code.raise (.error "Invalid Serpro ID state" 400)
  else (finishAuthorization host cfg services serpro caller state code error subject names).tryCatch fun e =>
    Code.raise (callbackFailure e)

end Host

/-! ## Calls -/

/-- A call of the routers brings no certificate. -/
def WorkflowCall.Plain (x : WorkflowCall B) : Prop :=
  ∀ caller call names, x = .sign caller call names → call.certificate = none

inductive SerproCall (B : Type) where
  | workflow (x : {x : WorkflowCall B // x.Plain})
  | start (caller : Caller) (token subject : String) (command : SignCommand) (state verifier : String)
  | callback (caller : Caller) (serpro : SerproServices) (state : String) (code error : Option String) (subject : String)
      (names : SigningNames)

namespace SerproCall

def rows : SerproCall B → List UUID
  | .workflow x => x.1.rows
  | .start .. => []
  | .callback _ _ _ _ _ _ names => [names.signature]

def objects : SerproCall B → List UUID
  | .workflow x => x.1.objects
  | .start .. => []
  | .callback _ _ _ _ _ _ names => [names.object]

/-- What it draws is its own. -/
def rights (x : SerproCall B) : Rights RowKey :=
  (x.rows ++ x.objects).map fun id => (.name id, .exclusive)

/-- What it draws is new. -/
structure Fresh (x : SerproCall B) (w : World B) : Prop where
  rows : ∀ id ∈ x.rows, w.toArchive.Unused id
  objects : ∀ name ∈ x.objects, w.toArchive.Unreferenced name

section Host

variable (host : Host B Page) (cfg : Settings) (services : SigningServices B)

def run : SerproCall B → Authorizing B Unit
  | .workflow x => within (x.1.run host cfg services)
  | .start caller token subject command state verifier =>
      startAuthorization host cfg services caller token subject command state verifier >>= fun _ => pure ()
  | .callback caller serpro state code error subject names =>
      serproidCallback host cfg services serpro caller state code error subject names >>= fun _ => pure ()

end Host

end SerproCall

/-! ## Runs -/

abbrev SerproSystem (B : Type) : Type :=
  System (SerproWorld B) RowKey (SerproPoint B) Failure Unit

abbrev SerproLabel (B : Type) : Type :=
  Label (SerproWorld B) RowKey (SerproPoint B) Failure Unit

abbrev SerproStep (B : Type) : Type :=
  SerproSystem B × SerproLabel B

/-- The signing that a step commits. -/
def signedBy (x : SerproStep B) : Option (Signing B) :=
  match x.1.publishes x.2 with
  | some (.workflow (.made m)) => m.signing
  | _ => none

/-- The attempt that a step stores, with its state. -/
def storedBy (x : SerproStep B) : Option (String × Attempt) :=
  match x.1.publishes x.2 with
  | some (.storing state a) => if (x.1.shared.attempts state).isSome then none else some (state, a)
  | _ => none

/-- The attempt that a step takes, with its state. -/
def takenBy (x : SerproStep B) : Option (String × Attempt) :=
  match x.1.publishes x.2 with
  | some (.taking state _) => (x.1.shared.attempts state).map fun a => (state, a)
  | _ => none

/-- Whom the callback will ask that takes an attempt. -/
def askedBy (x : SerproStep B) : Option SerproServices :=
  match x.1.publishes x.2 with
  | some (.taking _ serpro) => some serpro
  | _ => none

/-- Attempts lapse, at any time. -/
def SerproWorld.Lapses (w w' : SerproWorld B) : Prop :=
  ∀ state a, w'.attempts state = some a → w.attempts state = some a

/-- Runs of the workflow with Serpro ID beside it. Nothing is assumed of the store, of accounts, or of
    acknowledgements. -/
def serproRuns (host : Host B Page) (cfg : Settings) (services : SigningServices B) :
    Setting (SerproWorld B) RowKey (SerproPoint B) Failure Unit where
  starts base code w := ∃ x : SerproCall B, base = x.rights ∧ code = x.run host cfg services ∧ x.Fresh w.world
  env w w' := (workflowProtocol host cfg services (anyCircumstances B)).env w.world w'.world ∧ w.Lapses w'
  lossy := True

end Rubrica
