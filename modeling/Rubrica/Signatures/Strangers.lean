import Rubrica.Signatures.Decisions
import Rubrica.Signatures.Memory

set_option autoImplicit false

/-! # Strangers

What becomes of a call with a valid token by a subject who is no signer of the request. Both services
put the refusal on record; the database workflow does so in the transaction that the refusal then rolls
back (`strangers_unrecorded`). -/

namespace Rubrica

open Transactions

variable {B Page α : Type} (host : Host B Page)

/-! ## The law -/

/-- How a stranger is refused. -/
def notASigner : Failure :=
  .error "Authenticated user does not match a signer for this request" 403

/-- A call in `w` that ended so was refused with 403, put one event about the request and the subject on
    record, and changed nothing else. -/
def RecordedRefusal (w : World B) (request : UUID) (subject : String)
    (ended : Ended (World B) Failure α) : Prop :=
  ended.result = .error notASigner ∧ ∃ e : AuditEvent, ended.shared = w.record e ∧
    e.signatureRequestId = some request ∧ e.actorId = subject ∧ e.action = "authorization.failed"

/-- A call in `w` that ended so was refused with 403 and changed nothing at all. -/
def UnrecordedRefusal (w : World B) (ended : Ended (World B) Failure α) : Prop :=
  ended.result = .error notASigner ∧ ended.shared = w

/-- The law for the in-memory workflow, which lists events under the request. -/
def RecordedRefusalInMemory (m : Memory B) (request : UUID) (subject : String)
    (ended : Ended (Memory B) Failure α) : Prop :=
  ended.result = .error notASigner ∧ ∃ e : AuditEventRead, ended.shared = m.record request e ∧
    e.actorId = subject ∧ e.action = "authorization.failed"

/-- A valid token, and a subject who is no signer of its request. -/
structure Stranger (w : World B) (request : UUID × SignatureRequest) (token subject : String) : Prop where
  token : w.requestOfHash (host.sha256 (host.encode token)) = some request
  none : w.signerOf request.1 (host.lower subject) = none

structure StrangerInMemory (m : Memory B) (request : SignatureRequestRead) (token subject : String) :
    Prop where
  token : (m.requestTokenIndex.get? (host.sha256 (host.encode token))).bind m.requests.get? = some request
  none : ∀ s ∈ m.signersOf request.id, s.authUserId ≠ host.lower subject

/-! ## The database workflow -/

variable {host} {w : World B} {request : UUID × SignatureRequest} {token subject : String}

/-- A refusal that changes nothing records nothing. -/
theorem UnrecordedRefusal.not_recorded {ended : Ended (World B) Failure α} {id : UUID}
    (h : UnrecordedRefusal w ended) : ¬RecordedRefusal w id subject ended := by
  rintro ⟨-, e, he, -⟩
  have hlength := congrArg (fun v : World B => v.audits.length) (h.2.symm.trans he)
  simp [World.record] at hlength

theorem unrecordedRefusal {x : Workflow B α} (h : x.alone id w = ⟨.error notASigner, id, w⟩) :
    UnrecordedRefusal w (x.alone id w) := by
  rw [h]
  exact ⟨rfl, rfl⟩

theorem alone_requestFromToken (lock : Bool) {u : World B → World B}
    (h : (u w).requestOfHash (host.sha256 (host.encode token)) = some request) :
    (requestFromToken host token lock).alone u w = ⟨.ok request, u, w⟩ := by
  unfold requestFromToken
  rw [Code.alone_bind_of (alone_selectRow _ _ _), h]
  rfl

theorem asHeld_self {γ : Type} (x : UUID × γ) : asHeld (some x) x = x := if_pos rfl

/-- The refusal, with its event not committed yet. -/
theorem alone_resolveRequest (h : Stranger host w request token subject) (lock allowCompleted : Bool)
    (held : Option (UUID × SignatureRequest)) (hheld : asHeld held request = request) :
    ∃ u, (resolveRequest host token subject lock allowCompleted held none).alone id w =
      ⟨.error notASigner, u, w⟩ := by
  unfold resolveRequest
  rw [Code.alone_bind_of (alone_requestFromToken lock (u := id) h.token)]
  dsimp only
  rw [hheld, Code.alone_bind_of (alone_selectRow _ _ _)]
  have hnone : (id w).signerOf request.1 (host.lower subject) = none := h.none
  rw [hnone]
  exact ⟨_, rfl⟩

theorem viewDocument_stranger (h : Stranger host w request token subject) :
    (viewDocument host token subject).alone id w = ⟨.error notASigner, id, w⟩ := by
  obtain ⟨u, hu⟩ := alone_resolveRequest h true false none rfl
  exact Code.alone_transaction_error (Code.alone_bind_error hu _)

theorem decline_stranger (h : Stranger host w request token subject) :
    (decline host token subject).alone id w = ⟨.error notASigner, id, w⟩ := by
  obtain ⟨u, hu⟩ := alone_resolveRequest h true false none rfl
  exact Code.alone_transaction_error (Code.alone_bind_error hu _)

theorem sign_stranger (cfg : Settings) (services : SigningServices B) (caller : Caller) {call : SignCall}
    (names : SigningNames) (h : Stranger host w request call.token call.authUserId)
    (hconsent : call.command.consent = true) :
    (sign host cfg services caller call names).alone id w = ⟨.error notASigner, id, w⟩ := by
  obtain ⟨u, hu⟩ := alone_resolveRequest h true false none rfl
  unfold sign
  rw [if_neg (by simp [hconsent])]
  exact Code.alone_bind_error (Code.alone_rollingBack_error (Code.alone_bind_error hu _)) _

theorem signingContext_stranger (caller : Caller) (h : Stranger host w request token subject) :
    (signingContext host caller token subject false).alone id w = ⟨.error notASigner, id, w⟩ := by
  obtain ⟨u, hu⟩ := alone_resolveRequest h false true (some request) (asHeld_self request)
  unfold signingContext reading
  refine Code.alone_rollingBack_error (Code.alone_bind_error (v := u) ?_ _)
  rw [Code.alone_bind_of (alone_requestFromToken false (u := id) h.token)]
  have hown : (id w).signerOf request.1 (host.lower subject) = none := h.none
  show ((shownSigner host caller token subject false request
    ((id w).signerOf request.1 (host.lower subject))) >>= _).alone id w = _
  rw [hown]
  exact Code.alone_bind_error hu _

/-! ## The in-memory workflow -/

section Memory

variable {m : Memory B} {r : SignatureRequestRead}

/-- The event the refusal puts on record. -/
def refusalEvent (m : Memory B) (r : SignatureRequestRead) (subject : String) : AuditEventRead :=
  ⟨m.clock, subject, "authorization.failed", "signature_request", r.id, []⟩

theorem alone_memoryResolve (h : StrangerInMemory host m r token subject) (allowCompleted : Bool) :
    (memoryResolve host token subject allowCompleted).alone id m =
      ⟨.error notASigner, id, m.record r.id (refusalEvent m r subject)⟩ := by
  obtain ⟨hindex, hnone⟩ := h
  obtain ⟨id', hid, hr⟩ := Option.bind_eq_some_iff.1 hindex
  unfold memoryResolve look
  rw [Code.alone_select_bind]
  have hindex' : (id m).requestTokenIndex.get? (host.sha256 (host.encode token)) = some id' := hid
  rw [hindex', Code.alone_bind_of (a := id') rfl]
  have hrequest : (memoryRequest id' : InMemory B _).alone id m = ⟨.ok r, id, m⟩ := by
    unfold memoryRequest look
    rw [Code.alone_select_bind, show (id m).requests.get? id' = some r from hr]
    rfl
  rw [Code.alone_bind_of hrequest, Code.alone_select_bind]
  have hfind : ((id m).signersOf r.id).find? (fun s => s.authUserId = host.lower subject) = none :=
    List.find?_eq_none.2 fun s hs => by simpa using hnone s hs
  rw [hfind]
  rfl

theorem recordedRefusalInMemory {x : InMemory B α}
    (h : x.alone id m = ⟨.error notASigner, id, m.record r.id (refusalEvent m r subject)⟩) :
    RecordedRefusalInMemory m r.id subject (x.alone id m) := by
  rw [h]
  exact ⟨rfl, _, rfl, rfl, rfl⟩

theorem memory_stranger (h : StrangerInMemory host m r token subject) (stamp : StampPosition) :
    RecordedRefusalInMemory m r.id subject ((memoryView host token subject).alone id m) ∧
      RecordedRefusalInMemory m r.id subject ((memorySign host token subject true stamp).alone id m) ∧
      RecordedRefusalInMemory m r.id subject ((memoryDecline host token subject).alone id m) ∧
      RecordedRefusalInMemory m r.id subject ((memorySigningContext host token subject).alone id m) :=
  ⟨recordedRefusalInMemory (Code.alone_bind_error (alone_memoryResolve h false) _),
    recordedRefusalInMemory (Code.alone_bind_error (alone_memoryResolve h false) _),
    recordedRefusalInMemory (Code.alone_bind_error (alone_memoryResolve h false) _),
    recordedRefusalInMemory (Code.alone_bind_error (alone_memoryResolve h true) _)⟩

end Memory

/-! ## Both -/

/-- The four calls of a subject with a token, where they sign with consent. -/
structure SigningCallsEnd (P : (α : Type) → Ended (World B) Failure α → Prop) (host : Host B Page)
    (cfg : Settings) (services : SigningServices B) (caller : Caller) (names : SigningNames) (call : SignCall)
    (w : World B) : Prop where
  view : P _ ((viewDocument host call.token call.authUserId).alone id w)
  sign : P _ ((sign host cfg services caller call names).alone id w)
  decline : P _ ((decline host call.token call.authUserId).alone id w)
  context : P _ ((signingContext host caller call.token call.authUserId false).alone id w)

/-- **A stranger leaves no record in the database workflow**: each of the four calls is refused with 403
    and changes nothing, so none obeys the law. The calls of the in-memory workflow do. -/
theorem strangers_unrecorded (host : Host B Page) (cfg : Settings) (services : SigningServices B)
    (caller : Caller) (names : SigningNames) (w : World B) (request : UUID × SignatureRequest)
    (call : SignCall) (h : Stranger host w request call.token call.authUserId)
    (hconsent : call.command.consent = true) (m : Memory B) (r : SignatureRequestRead)
    (hm : StrangerInMemory host m r call.token call.authUserId) :
    SigningCallsEnd (fun _ ended => UnrecordedRefusal w ended ∧
        ¬RecordedRefusal w request.1 call.authUserId ended) host cfg services caller names call w ∧
      RecordedRefusalInMemory m r.id call.authUserId ((memoryView host call.token call.authUserId).alone id m) ∧
      RecordedRefusalInMemory m r.id call.authUserId
        ((memorySign host call.token call.authUserId true call.command.stamp).alone id m) ∧
      RecordedRefusalInMemory m r.id call.authUserId
        ((memoryDecline host call.token call.authUserId).alone id m) ∧
      RecordedRefusalInMemory m r.id call.authUserId
        ((memorySigningContext host call.token call.authUserId).alone id m) := by
  refine ⟨?_, memory_stranger hm call.command.stamp⟩
  have hview := unrecordedRefusal (viewDocument_stranger h)
  have hsign := unrecordedRefusal (sign_stranger cfg services caller names h hconsent)
  have hdecline := unrecordedRefusal (decline_stranger h)
  have hcontext := unrecordedRefusal (signingContext_stranger caller h)
  exact ⟨⟨hview, hview.not_recorded⟩, ⟨hsign, hsign.not_recorded⟩, ⟨hdecline, hdecline.not_recorded⟩,
    ⟨hcontext, hcontext.not_recorded⟩⟩

/-! ### At a workspace -/

def strangerWorkspace : World SampleBytes :=
  sampleWorkspace (sampleRequest .open) (sampleSigner "signer@x" .pending)

def strangerCall : SignCall :=
  ⟨"token", "stranger@x", sampleCommand, none⟩

theorem stranger_workspace : Stranger sampleHost strangerWorkspace (20, sampleRequest .open) "token" "stranger@x" where
  token := rfl
  none := rfl

theorem strangerWorkspace_unrecorded : ¬RecordedRefusal strangerWorkspace 20 "stranger@x"
    ((viewDocument sampleHost "token" "stranger@x").alone id strangerWorkspace) := by
  rintro ⟨-, e, he, -⟩
  have hlength := congrArg (fun w : World SampleBytes => w.audits.length) he
  have hnow : ((viewDocument sampleHost "token" "stranger@x").alone id strangerWorkspace).shared.audits.length
      = 0 := by decide
  rw [hnow] at hlength
  exact absurd hlength (by simp [World.record])

def strangerRequestRead : SignatureRequestRead :=
  ⟨20, 10, 1, samplePdf.digest, .open, 100, "author@x", none, 0, 0, "", "", .evidence, none⟩

def strangerMemory : Memory SampleBytes :=
  { Memory.empty SampleBytes with
    requests := (∅ : Table UUID SignatureRequestRead).insert 20 strangerRequestRead,
    requestSigners := (∅ : Table UUID (List UUID)).insert 20 [30],
    signers := (∅ : Table UUID SignerRead).insert 30 ((sampleSigner "signer@x" .pending).read 30),
    requestTokenIndex := (∅ : Table String UUID).insert (sampleHost.sha256 (sampleHost.encode "token")) 20 }

theorem strangers_unrecorded_workspace :
    (viewDocument sampleHost "token" "stranger@x").result id strangerWorkspace = .error notASigner ∧
      ((viewDocument sampleHost "token" "stranger@x").alone id strangerWorkspace).shared = strangerWorkspace ∧
      RecordedRefusalInMemory strangerMemory 20 "stranger@x"
        ((memoryView sampleHost "token" "stranger@x").alone id strangerMemory) := by
  obtain ⟨hdatabase, hmemory, -⟩ := strangers_unrecorded sampleHost sampleSettings sampleServices none
    ⟨41, 42, 43⟩ strangerWorkspace (20, sampleRequest .open) strangerCall stranger_workspace rfl
    strangerMemory strangerRequestRead ⟨rfl, by decide⟩
  exact ⟨hdatabase.view.1.1, hdatabase.view.1.2, hmemory⟩

end Rubrica
