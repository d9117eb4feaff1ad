import Rubrica.Signatures.Storing
import Rubrica.Transactions.Shown

set_option autoImplicit false

/-! # The audit trail

Every operation of the workflow records what it does with `_audit`, in the transaction that does it. So a move
and its entries in the trail are committed together or not at all: whatever fails, dies or loses an
acknowledgement, the trail has the entries of the moves that were made, in their order, and no others. -/

namespace Rubrica

open Transactions

variable {B Page α β : Type}

/-! ## Entries -/

/-- What an audit event says: what happened, to which row, and for which request. -/
structure TrailEntry where
  request : Option UUID
  action : String
  entityType : String
  entityId : UUID
  deriving DecidableEq, Repr

def TrailEntry.ofDocument (id : UUID) (action : String) : TrailEntry :=
  ⟨none, action, "document", id⟩

def TrailEntry.ofRequest (id : UUID) (action : String) : TrailEntry :=
  ⟨some id, action, "signature_request", id⟩

def TrailEntry.ofSigner (request id : UUID) (action : String) : TrailEntry :=
  ⟨some request, action, "signer", id⟩

def AuditEvent.entry (e : AuditEvent) : TrailEntry :=
  ⟨e.signatureRequestId, e.action, e.entityType, e.entityId⟩

/-- The event is about a document, a request or a signer; tenants have events of their own. -/
def AuditEvent.OfWorkflow (e : AuditEvent) : Prop :=
  e.entityType = "document" ∨ e.entityType = "signature_request" ∨ e.entityType = "signer"

instance (e : AuditEvent) : Decidable e.OfWorkflow :=
  inferInstanceAs (Decidable (_ ∨ _ ∨ _))

/-- What the audit events say about documents, requests and signers, in order. -/
def World.trail (w : World B) : List TrailEntry :=
  (w.audits.filter fun e => e.OfWorkflow).map AuditEvent.entry

/-- What a move is recorded as. -/
def Move.trail : Move B → List TrailEntry
  | .createDocument id _ _ => [.ofDocument id "document.uploaded"]
  | .addVersion id _ _ => [.ofDocument id "document.version_created"]
  | .deleteDocument id cancelled _ =>
      (cancelled.map fun request => .ofRequest request "signature_request.cancelled") ++
        [.ofDocument id "document.deleted"]
  | .createRequest id _ => [.ofRequest id "signature_request.created"]
  | .addSigner id signer => [.ofSigner signer.signatureRequestId id "signer.link_created"]
  | .createLink id _ _ => [.ofRequest id "signature_request.link_created"]
  | .revokeLink request id _ => [.ofSigner request id "signer.link_revoked"]
  | .openRequest id _ => [.ofRequest id "signature_request.opened"]
  | .cancelRequest id => [.ofRequest id "signature_request.cancelled"]
  | .view request id => [.ofSigner request id "document.viewed"]
  | .sign x => .ofSigner x.request x.signature.signerId "signature.completed" ::
      if x.completes then [.ofRequest x.request "signature_request.completed"] else []
  | .decline request id => [.ofSigner request id "signature.declined"]

/-- What a step is recorded as that others see at the point. -/
def WorkflowPoint.trail : WorkflowPoint B → List TrailEntry
  | .made m => m.trail
  | _ => []

/-- The writes add the entries to the trail. -/
def Adds (l : List TrailEntry) (u : World B → World B) : Prop :=
  ∀ w, (u w).trail = w.trail ++ l

/-! ## What programs record -/

section Rules

variable {C : Signing B → Prop} {l : List TrailEntry} {u v : World B → World B}
  {Q : α → (World B → World B) → Prop}

theorem adds_nil : Adds [] (id : World B → World B) :=
  fun _ => (List.append_nil _).symm

theorem Keeps.adds {f : World B → World B} (h : Keeps World.trail f) : Adds [] f :=
  fun w => (h w).trans (List.append_nil _).symm

theorem Adds.keeps {f : World B → World B} (hu : Adds l u) (hf : Keeps World.trail f) : Adds l (f ∘ u) :=
  fun w => (hf _).trans (hu w)

theorem trail_record {e : AuditEvent} (he : e.OfWorkflow) (w : World B) :
    (w.record e).trail = w.trail ++ [e.entry] := by
  simp [World.trail, World.record, he]

/-- An event about a tenant is none of the workflow. -/
theorem keeps_record_tenant {e : AuditEvent} (he : e.entityType = "tenant") :
    Keeps World.trail fun w : World B => w.record e := by
  intro w
  have hnot : ¬e.OfWorkflow := by simp [AuditEvent.OfWorkflow, he]
  simp [World.trail, World.record, hnot]

/-- The signing that is committed at a point. -/
def WorkflowPoint.signing : WorkflowPoint B → Option (Signing B)
  | .made m => m.signing
  | _ => none

/-- A signing that is committed at the point is as told. -/
def WorkflowPoint.Signs (C : Signing B → Prop) (pt : WorkflowPoint B) : Prop :=
  ∀ x, pt.signing = some x → C x

/-- The program commits with each move the entries of the move, and signings with `C`, and leaves writes
    with `Q`. -/
abbrev Trails (C : Signing B → Prop) (x : Workflow B α) (Q : α → (World B → World B) → Prop)
    (u : World B → World B) : Prop :=
  x.shows (fun pt u => Adds (WorkflowPoint.trail pt) u ∧ pt.Signs C) Q (fun _ _ => True) u

theorem signs_of_none {C : Signing B → Prop} {pt : WorkflowPoint B} (h : pt.signing = none) : pt.Signs C :=
  fun _ hx => nomatch h.symm.trans hx

/-- What a body leaves to be committed at the point it ends with. -/
abbrev Leaves (C : Signing B → Prop) (r : α × WorkflowPoint B) (u : World B → World B) : Prop :=
  Adds r.2.trail u ∧ r.2.Signs C

/-- The call, from its start. -/
abbrev KeepsTrail (C : Signing B → Prop) (x : Workflow B α) : Prop :=
  Trails C x (fun _ _ => True) id

/-- Statements that record nothing, and the program after them. -/
theorem trails_beside {x : Workflow B α} {f : α → Workflow B β} {Q : β → (World B → World B) → Prop}
    (hx : x.Local (Keeps World.trail)) (hu : Adds l u) (hf : ∀ a v, Adds l v → Trails C (f a) Q v) :
    Trails C (x >>= f) Q u :=
  Code.shows_quiet hx hu (fun _ _ hf hv => hv.keeps hf) hf fun _ _ => trivial

/-- An event is recorded, and the program after it. -/
theorem trails_audit {request : Option UUID} {actorId action entityType : String} {entityId : UUID} {metadata : Dict}
    {f : Unit → Workflow B β} {Q : β → (World B → World B) → Prop} (hu : Adds l u)
    (he : entityType = "document" ∨ entityType = "signature_request" ∨ entityType = "signer")
    (hf : ∀ v, Adds (l ++ [⟨request, action, entityType, entityId⟩]) v → Trails C (f ()) Q v) :
    Trails C (audit request actorId action entityType entityId metadata >>= f) Q u := by
  refine Code.shows_bind.2 (Code.shows_bind.2 ⟨trivial, fun s => ⟨trivial, fun _ => hf _ fun w => ?_⟩⟩)
  have hevent : AuditEvent.OfWorkflow ⟨request, s.clock, actorId, action, entityType, entityId, metadata⟩ := he
  exact (trail_record hevent (u w)).trans (by rw [hu, List.append_assoc]; rfl)

/-- A transaction whose body ends with the entries of its point. -/
theorem trails_transaction {body : Workflow B (α × WorkflowPoint B)}
    (hbody : Trails C body (Leaves C) u) :
    Trails C (Code.transaction .plain body) (fun _ v => v = id) u :=
  Code.shows_transaction trivial (Code.shows_mono hbody (fun _ _ h => ⟨h, rfl⟩) fun _ _ _ => trivial)

theorem keepsTrail_transaction {body : Workflow B (α × WorkflowPoint B)}
    (hbody : Trails C body (Leaves C) id) : KeepsTrail C (Code.transaction .plain body) :=
  Code.shows_mono (trails_transaction hbody) (fun _ _ _ => trivial) fun _ _ h => h

theorem keepsTrail_forget {x : Workflow B α} (h : KeepsTrail C x) : KeepsTrail C (forget x) :=
  Code.shows_bind.2 (Code.shows_mono h (fun _ _ _ => trivial) fun _ _ h => h)

/-- Storing an object records nothing. -/
theorem trails_putObject {key : StorageKey} {content : B} {f : Unit → Workflow B β}
    {Q : β → (World B → World B) → Prop} (hf : Trails C (f ()) Q u) : Trails C (putObject key content >>= f) Q u := by
  refine Code.shows_bind.2 (Code.shows_bind.2
    (Code.shows_effect ⟨Keeps.adds fun w => ?_, signs_of_none rfl⟩ (fun taken => ?_) trivial))
  · show (w.put key content).trail = w.trail
    unfold World.put
    split <;> rfl
  · unfold Code.require
    split
    · exact hf
    · trivial

/-- An operation that stores an object on its way. -/
theorem keepsTrail_storing {before : Workflow B β} {key : β → StorageKey}
    {after : β → Workflow B (α × WorkflowPoint B)}
    (hbefore : Trails C before (fun x => Trails C (after x) (Leaves C)) id) :
    KeepsTrail C (storing before key after) := by
  refine Code.shows_bind.2 (Code.shows_rollingBack (Code.shows_mono hbefore (fun x v h => ?_) fun _ _ h => h))
  refine Code.shows_tryCatch.2 (Code.shows_transaction ?_ (Code.shows_mono h (fun r v hv => ⟨hv, trivial⟩) fun _ _ _ => ?_))
  · exact ⟨trivial, fun _ => ⟨⟨Keeps.adds fun _ => rfl, signs_of_none rfl⟩, trivial⟩⟩
  · exact ⟨trivial, fun _ => ⟨⟨Keeps.adds fun _ => rfl, signs_of_none rfl⟩, trivial⟩⟩

end Rules

/-! ## Documents -/

section Host

variable {host : Host B Page} {cfg : Settings} {services : SigningServices B} {caller : Caller}
  {C : Signing B → Prop}

theorem keepsTrail_createDocument (payload : DocumentCreate) (content : B) (id name : UUID) :
    KeepsTrail C (createDocument host caller payload content id name) := by
  unfold createDocument
  split
  · trivial
  refine keepsTrail_storing (trails_beside (local_query _) adds_nil fun _ v1 h1 => ?_)
  refine trails_beside (Code.local_orRaise _ _) h1 fun tenant v2 h2 => ?_
  refine trails_beside (local_requireSeat host caller _ _ _) h2 fun member v3 h3 => ?_
  refine trails_beside (local_consumeDocument (fun _ _ _ => rfl) (fun _ _ _ => rfl) _ _) h3 fun _ v4 h4 => ?_
  refine trails_putObject ?_
  refine trails_beside (local_referTo _ _) h4 fun _ v5 h5 => ?_
  refine trails_beside (local_save fun _ => rfl) h5 fun _ v6 h6 => ?_
  refine trails_beside (local_save fun _ => rfl) h6 fun _ v7 h7 => ?_
  refine trails_audit h7 (Or.inl rfl) fun v8 h8 => ?_
  exact trails_beside (local_documentRead _ _) h8 fun _ v9 h9 => ⟨h9, signs_of_none rfl⟩

theorem keepsTrail_addVersion (identifier : String) (upload : VersionUpload B) (name : UUID) :
    KeepsTrail C (addVersion host caller identifier upload name) := by
  unfold addVersion
  split
  · trivial
  refine keepsTrail_storing (trails_beside (local_documentOf host _ _) adds_nil fun item v1 h1 => ?_)
  refine trails_beside (local_requireSeat host caller _ _ _) h1 fun member v2 h2 => ?_
  refine trails_beside (local_query _) h2 fun frozen v3 h3 => ?_
  refine trails_beside (Code.local_require _ _) h3 fun _ v4 h4 => ?_
  refine trails_putObject ?_
  refine trails_beside (local_claim _ _) h4 fun _ v5 h5 => ?_
  refine trails_beside (local_save fun _ => rfl) h5 fun _ v6 h6 => ?_
  refine trails_beside (local_save fun _ => rfl) h6 fun _ v7 h7 => ?_
  refine trails_audit h7 (Or.inl rfl) fun v8 h8 => ?_
  exact trails_beside (local_documentRead _ _) h8 fun _ v9 h9 => ⟨h9, signs_of_none rfl⟩

theorem local_lockInProgress {W : (World B → World B) → Prop} (document : UUID) (ids : List UUID) :
    (lockInProgress document ids : Workflow B _).Local W := by
  induction ids with
  | nil => exact Code.local_pure _
  | cons id rest ih =>
      exact Code.local_bind (local_queryForUpdate _ _) fun _ => Code.local_bind ih fun _ => Code.local_pure _

/-- Each request that is cancelled with its document gets its entry. -/
theorem trails_auditCancelled {l : List TrailEntry} {u : World B → World B} {f : Unit → Workflow B β}
    {Q : β → (World B → World B) → Prop} (actorId : String) (ids : List UUID) (hu : Adds l u)
    (hf : ∀ v, Adds (l ++ ids.map fun id => .ofRequest id "signature_request.cancelled") v → Trails C (f ()) Q v) :
    Trails C (auditCancelled actorId ids >>= f) Q u := by
  refine Code.shows_bind.2 ?_
  induction ids generalizing l u with
  | nil =>
      refine hf u ?_
      rw [List.map_nil, List.append_nil]
      exact hu
  | cons id rest ih =>
      refine trails_audit hu (Or.inr (Or.inl rfl)) fun v hv => ih hv fun v' hv' => hf v' ?_
      rw [List.append_assoc] at hv'
      exact hv'

theorem keepsTrail_deleteDocument (identifier actorId : String) (force : Bool) :
    KeepsTrail C (deleteDocument host caller identifier actorId force) := by
  refine keepsTrail_transaction ?_
  refine trails_beside (local_documentOf host _ _) adds_nil fun item v1 h1 => ?_
  refine trails_beside (local_requireSeat host caller _ _ _) h1 fun _ v2 h2 => ?_
  refine trails_beside (local_query _) h2 fun ids v3 h3 => ?_
  refine trails_beside (local_lockInProgress _ _) h3 fun active v4 h4 => ?_
  refine trails_beside (Code.local_require _ _) h4 fun _ v5 h5 => ?_
  refine trails_auditCancelled actorId active h5 fun v6 h6 => ?_
  refine trails_beside (local_query _) h6 fun now v7 h7 => ?_
  refine trails_audit h7 (Or.inl rfl) fun v8 h8 => ?_
  refine trails_beside (local_save fun _ => rfl) h8 fun _ v9 h9 => ?_
  exact trails_beside (local_save fun _ => rfl) h9 fun _ v10 h10 => ⟨h10, signs_of_none rfl⟩

/-! ## Requests -/

theorem keepsTrail_createRequest (payload : SignatureRequestCreate) (id : UUID) :
    KeepsTrail C (createRequest host caller payload id) := by
  refine trails_beside (local_query _) adds_nil fun now v1 h1 => ?_
  refine trails_beside (Code.local_require _ _) h1 fun _ v2 h2 => ?_
  refine Code.shows_mono (trails_transaction ?_) (fun _ _ _ => trivial) fun _ _ h => h
  refine trails_beside (local_liveDocument _ _) h2 fun document v3 h3 => ?_
  refine trails_beside (local_requireSeat host caller _ _ _) h3 fun _ v4 h4 => ?_
  refine trails_beside (local_query _) h4 fun found v5 h5 => ?_
  refine trails_beside (Code.local_orRaise _ _) h5 fun tenant v6 h6 => ?_
  refine trails_beside (local_referTo _ _) h6 fun _ v7 h7 => ?_
  refine trails_beside (local_save fun _ => rfl) h7 fun _ v8 h8 => ?_
  refine trails_audit h8 (Or.inr (Or.inl rfl)) fun v9 h9 => ?_
  exact trails_beside (local_requestRead _ _ _) h9 fun _ v10 h10 => ⟨h10, signs_of_none rfl⟩

theorem local_insertSigner {W : (World B → World B) → Prop} {id : UUID} {row : Signer}
    (hW : W (World.insertSigner id row)) : (insertSigner id row : Workflow B Unit).Local W :=
  Code.local_tryCatch (Code.local_bind (local_claim _ _) fun _ => Code.local_bind (local_claim _ _) fun _ =>
    Code.local_bind (Code.local_onlyIf _ fun _ => local_referTo _ _) fun _ => local_save hW) fun _ => ⟨_, rfl⟩

theorem keepsTrail_addSigner (identifier : String) (payload : SignerCreate) (actorId : String) (id : UUID)
    (token : String) : KeepsTrail C (addSigner host caller identifier payload actorId id token) := by
  refine keepsTrail_transaction ?_
  refine trails_beside (local_requestOf host _ _) adds_nil fun request v1 h1 => ?_
  refine trails_beside (local_requireRequestAccess host caller _ _ _) h1 fun access v2 h2 => ?_
  refine trails_beside (Code.local_require _ _) h2 fun _ v3 h3 => ?_
  refine trails_beside (Code.local_require _ _) h3 fun _ v4 h4 => ?_
  refine trails_beside (local_snapshotFor _ _ _) h4 fun snapshot v5 h5 => ?_
  refine trails_beside (local_query _) h5 fun now v6 h6 => ?_
  refine trails_beside (local_insertSigner fun _ => rfl) h6 fun _ v7 h7 => ?_
  exact trails_audit h7 (Or.inr (Or.inr rfl)) fun v8 h8 => ⟨h8, signs_of_none rfl⟩

theorem keepsTrail_revokeSignerLink (identifier signerIdentifier actorId : String) :
    KeepsTrail C (revokeSignerLink host caller identifier signerIdentifier actorId) := by
  refine keepsTrail_transaction ?_
  refine trails_beside (local_requestOf host _ _) adds_nil fun request v1 h1 => ?_
  refine trails_beside (local_requireRequestAccess host caller _ _ _) h1 fun _ v2 h2 => ?_
  refine trails_beside (local_signerOf host _ _) h2 fun signer v3 h3 => ?_
  refine trails_beside (Code.local_require _ _) h3 fun _ v4 h4 => ?_
  unfold revokeSigner
  split
  · -- A link that is revoked already is left as it is, and so is the trail.
    exact ⟨h4, signs_of_none rfl⟩
  · refine trails_beside (local_query _) h4 fun now v5 h5 => ?_
    refine trails_audit h5 (Or.inr (Or.inr rfl)) fun v6 h6 => ?_
    exact trails_beside (local_save fun _ => rfl) h6 fun _ v7 h7 => ⟨h7, signs_of_none rfl⟩

theorem local_sendInvitations {W : (World B → World B) → Prop} (invitations : List SignatureInvitation) :
    (sendInvitations host cfg services invitations : Workflow B Unit).Local W := by
  induction invitations with
  | nil => exact Code.local_pure _
  | cons x rest ih =>
      unfold sendInvitations
      split
      · exact Code.local_raise _
      · exact ih

theorem keepsTrail_createSigningLink (identifier actorId nonce : String) :
    KeepsTrail C (createSigningLink host cfg services caller identifier actorId nonce) := by
  refine Code.shows_bind.2 (Code.shows_mono (trails_transaction ?_) (fun issued v hv => ?_) fun _ _ h => h)
  · refine trails_beside (local_requestOf host _ _) adds_nil fun request v1 h1 => ?_
    refine trails_beside (local_requireRequestAccess host caller _ _ _) h1 fun access v2 h2 => ?_
    refine trails_beside (Code.local_require _ _) h2 fun _ v3 h3 => ?_
    refine trails_audit h3 (Or.inr (Or.inl rfl)) fun v4 h4 => ?_
    refine trails_beside (local_liveDocument _ _) h4 fun _ v5 h5 => ?_
    refine trails_beside (local_query _) h5 fun signers v6 h6 => ?_
    refine trails_beside (local_emailInvitationsEnabled _ _) h6 fun send v7 h7 => ?_
    refine trails_beside (local_claim _ _) h7 fun _ v8 h8 => ?_
    refine trails_beside (local_claim _ _) h8 fun _ v9 h9 => ?_
    exact trails_beside (local_save fun _ => rfl) h9 fun _ v10 h10 => ⟨h10, signs_of_none rfl⟩
  · -- The e-mails go out after the commit, and leave no trace.
    subst hv
    exact trails_beside (local_sendInvitations _) adds_nil fun _ _ _ => trivial

theorem keepsTrail_openRequest (identifier actorId : String) (mode : SignatureMode) :
    KeepsTrail C (openRequest host cfg services caller identifier actorId mode) := by
  refine keepsTrail_transaction ?_
  refine trails_beside (local_requestOf host _ _) adds_nil fun request v1 h1 => ?_
  refine trails_beside (local_requireRequestAccess host caller _ _ _) h1 fun access v2 h2 => ?_
  refine trails_beside (Code.local_require _ _) h2 fun _ v3 h3 => ?_
  refine trails_beside (local_query _) h3 fun signerCount v4 h4 => ?_
  refine trails_beside (Code.local_require _ _) h4 fun _ v5 h5 => ?_
  refine trails_beside (local_requireMode _ _ _) h5 fun _ v6 h6 => ?_
  refine trails_beside (local_liveDocument _ _) h6 fun _ v7 h7 => ?_
  refine trails_beside (Code.local_require _ _) h7 fun _ v8 h8 => ?_
  refine trails_audit h8 (Or.inr (Or.inl rfl)) fun v9 h9 => ?_
  refine trails_beside (local_save fun _ => rfl) h9 fun _ v10 h10 => ?_
  exact trails_beside (local_requestRead _ _ _) h10 fun _ v11 h11 => ⟨h11, signs_of_none rfl⟩

theorem keepsTrail_cancelRequest (identifier actorId : String) :
    KeepsTrail C (cancelRequest host caller identifier actorId) := by
  refine keepsTrail_transaction ?_
  refine trails_beside (local_requestOf host _ _) adds_nil fun request v1 h1 => ?_
  refine trails_beside (local_requireRequestAccess host caller _ _ _) h1 fun access v2 h2 => ?_
  refine trails_beside (Code.local_require _ _) h2 fun _ v3 h3 => ?_
  refine trails_audit h3 (Or.inr (Or.inl rfl)) fun v4 h4 => ?_
  refine trails_beside (local_save fun _ => rfl) h4 fun _ v5 h5 => ?_
  exact trails_beside (local_requestRead _ _ _) h5 fun _ v6 h6 => ⟨h6, signs_of_none rfl⟩

/-! ## Answers -/

/-- A stranger is put on record in a transaction that is rolled back. -/
theorem trails_resolveRequest {token authUserId : String}
    {f : (UUID × Signer) × (UUID × SignatureRequest) → Workflow B β} {Q : β → (World B → World B) → Prop}
    (hf : ∀ found v, Adds [] v → Trails C (f found) Q v) :
    Trails C (resolveRequest host token authUserId true false none none >>= f) Q id := by
  refine Code.shows_bind.2 ?_
  refine trails_beside (local_requestFromToken host _ _) adds_nil fun request v1 h1 => ?_
  refine trails_beside (local_selectRow _ _ _) h1 fun found v2 h2 => ?_
  cases found with
  | none => exact trails_audit h2 (Or.inr (Or.inl rfl)) fun _ _ => trivial
  | some signer => exact trails_beside (local_admitSigner _ _ _) h2 fun _ v3 h3 => hf _ v3 h3

theorem keepsTrail_viewDocument (token authUserId : String) : KeepsTrail C (viewDocument host token authUserId) := by
  refine keepsTrail_transaction (trails_resolveRequest fun found v1 h1 => ?_)
  unfold markViewed
  split
  · refine trails_audit h1 (Or.inr (Or.inr rfl)) fun v2 h2 => ?_
    exact trails_beside (local_save fun _ => rfl) h2 fun _ v3 h3 => ⟨h3, signs_of_none rfl⟩
  · exact ⟨h1, signs_of_none rfl⟩

theorem keepsTrail_decline (token authUserId : String) : KeepsTrail C (decline host token authUserId) := by
  refine keepsTrail_transaction (trails_resolveRequest fun found v1 h1 => ?_)
  refine trails_beside (Code.local_require _ _) h1 fun _ v2 h2 => ?_
  refine trails_audit h2 (Or.inr (Or.inr rfl)) fun v3 h3 => ?_
  exact trails_beside (local_save fun _ => rfl) h3 fun _ v4 h4 => ⟨h4, signs_of_none rfl⟩

/-- The end of `sign`: one entry, and one more where it completes the request. -/
theorem trails_recordSignature (x : PreparedSignature B) {u : World B → World B} (hu : Adds [] u)
    (hC : ∀ y, y.certificate = x.signing.certificate → C y) : Trails C (recordSignature x) (Leaves C) u := by
  refine trails_beside (local_query _) hu fun taken v1 h1 => ?_
  refine trails_beside (Code.local_require _ _) h1 fun _ v2 h2 => ?_
  refine trails_beside (local_save fun _ => rfl) h2 fun _ v3 h3 => ?_
  refine trails_beside (local_save fun _ => rfl) h3 fun _ v4 h4 => ?_
  refine trails_audit h4 (Or.inr (Or.inr rfl)) fun v5 h5 => ?_
  refine trails_beside (local_query _) h5 fun pending v6 h6 => ?_
  unfold Code.onlyIf
  by_cases hpending : pending = 0
  · rw [if_pos hpending]
    refine Code.shows_bind.2 (trails_audit h6 (Or.inr (Or.inl rfl)) fun v7 h7 => ?_)
    refine Code.shows_local (W := Keeps World.trail) (local_save fun _ => rfl) h7 (fun _ _ hf hv => hv.keeps hf) (fun _ v8 h8 => ?_)
      fun _ _ => trivial
    refine ⟨?_, fun y hy => hC y (Option.some.inj hy ▸ rfl)⟩
    show Adds (Move.trail (.sign _)) v8
    rw [Move.trail, decide_eq_true hpending, if_pos rfl]
    exact h8
  · rw [if_neg hpending]
    refine ⟨?_, fun y hy => hC y (Option.some.inj hy ▸ rfl)⟩
    show Adds (Move.trail (.sign _)) v6
    rw [Move.trail, decide_eq_false hpending, if_neg Bool.false_ne_true]
    exact h6

theorem keepsTrail_sign (call : SignCall) (names : SigningNames)
    (hC : ∀ y : Signing B, y.certificate = call.certificate → C y) : KeepsTrail C (sign host cfg services caller call names) := by
  unfold sign
  split
  · trivial
  refine keepsTrail_storing (trails_resolveRequest fun found v1 h1 => ?_)
  refine trails_beside (Code.local_require _ _) h1 fun _ v2 h2 => ?_
  refine trails_beside (local_requireCertificate _ _ _) h2 fun _ v3 h3 => ?_
  refine trails_beside (local_frozenVersion _) h3 fun frozen v4 h4 => ?_
  refine trails_beside (local_query _) h4 fun tenant v5 h5 => ?_
  refine trails_beside (local_requireRepresentation _ _) h5 fun _ v6 h6 => ?_
  refine trails_beside (local_consumeSignature (fun _ _ _ => rfl) (fun _ _ _ => rfl) _) h6 fun countedAt v7 h7 => ?_
  refine trails_beside (local_originalOf host _ _ _) h7 fun original v8 h8 => Code.shows_bind.2 ?_
  refine trails_beside (local_query _) h8 fun now v9 h9 => ?_
  refine trails_beside (local_query _) h9 fun existing v10 h10 => ?_
  refine trails_beside (local_serviceResult _) h10 fun generated v11 h11 => ?_
  refine trails_beside (local_serviceResult _) h11 fun finished v12 h12 => ?_
  refine trails_beside (local_documentOwnerStorageId host _) h12 fun owner v13 h13 => ?_
  exact trails_putObject (trails_recordSignature _ h13 hC)

/-! ## Deliveries -/

/-- What applying a billing event writes is no entry of the trail. -/
theorem appliesWith_trail : AppliesWith (Keeps (World.trail : World B → List TrailEntry)) :=
  ⟨fun _ he => keeps_record_tenant he, fun _ _ => rfl, fun _ _ _ => rfl, fun _ _ _ => rfl, fun _ _ _ => rfl,
    fun _ _ _ => rfl, fun _ _ _ => rfl⟩

/-- A part of a delivery that records nothing, wherever it commits. -/
def Silent {γ : Type} (x : Tx B BillingPoint γ) : Prop :=
  ∀ u, Adds [] u → x.shows (fun _ => Adds []) (fun _ => Adds []) (fun _ _ => True) u

section Silent

variable {γ δ : Type} {x : Tx B BillingPoint γ}

theorem silent_local (hx : x.Local (Keeps World.trail)) : Silent x :=
  fun _ hu => Code.shows_local hx hu (fun _ _ hf hv => hv.keeps hf) (fun _ _ hv => hv) fun _ _ => trivial

theorem silent_bind {f : γ → Tx B BillingPoint δ} (hx : Silent x) (hf : ∀ a, Silent (f a)) : Silent (x >>= f) :=
  fun u hu => Code.shows_bind.2 (Code.shows_mono (hx u hu) (fun a v hv => hf a v hv) fun _ _ h => h)

/-- A transaction and its handler, which finds nothing uncommitted. -/
theorem silent_handled {body : Tx B BillingPoint (γ × BillingPoint)} {h : Failure → Tx B BillingPoint γ}
    (hbody : body.Local (Keeps World.trail)) (hh : ∀ e, Silent (h e)) :
    Silent ((Code.transaction .plain body).tryCatch h) := by
  intro u hu
  refine Code.shows_tryCatch.2 (Code.shows_transaction (hh _ id adds_nil) ?_)
  exact Code.shows_local hbody hu (fun _ _ hf hv => hv.keeps hf) (fun _ v hv => ⟨hv, adds_nil⟩)
    fun e _ => hh e id adds_nil

theorem silent_transaction {body : Tx B BillingPoint (γ × BillingPoint)}
    (hbody : body.Local (Keeps World.trail)) : Silent (Code.transaction .plain body) := by
  intro u hu
  refine Code.shows_transaction trivial ?_
  exact Code.shows_local hbody hu (fun _ _ hf hv => hv.keeps hf) (fun _ v hv => ⟨hv, adds_nil⟩) fun _ _ => trivial

end Silent

theorem local_lockEvent {W : (World B → World B) → Prop} (id : String) :
    (lockEvent id : Tx B BillingPoint _).Local W :=
  local_queryForUpdate _ _

theorem silent_insertEvent (id : String) (row : BillingEventRow) :
    Silent (insertEvent id row : Tx B BillingPoint Bool) := by
  refine silent_handled ?_ fun e => ?_
  · exact Code.local_bind (local_claimAt _ _ _) fun _ => Code.local_bind (local_referToTenant _ _) fun _ =>
      Code.local_bind (local_save fun _ => rfl) fun _ => Code.local_pure _
  · exact silent_local (Code.local_ite (Code.local_pure _) (Code.local_raise _))

theorem silent_applyUnderLock (tenant : Option UUID) (e : BillingEvent) (identity : Option BusinessIdentity)
    {h : Failure → Tx B BillingPoint WebhookRead} (hh : ∀ exc, Silent (h exc)) :
    Silent ((applyUnderLock host cfg.billing tenant e identity).tryCatch h) := by
  refine silent_handled (Code.local_bind (local_lockEvent _) fun _ => Code.local_bind (Code.local_orRaise _ _)
    fun row => Code.local_ite (Code.local_pure _) ?_) hh
  exact Code.local_bind (local_applyToTenant_of host cfg.billing appliesWith_trail _ _ _) fun _ =>
    Code.local_bind (local_query _) fun _ => Code.local_bind (local_save fun _ => rfl) fun _ => Code.local_pure _

theorem silent_markFailed (id : String) (exc : Failure) : Silent (markFailed id exc : Tx B BillingPoint Unit) := by
  refine silent_transaction (Code.local_bind (local_lockEvent _) fun row => ?_)
  cases row with
  | none => exact Code.local_pure _
  | some row => exact Code.local_bind (local_save fun _ => rfl) fun _ => Code.local_pure _

theorem silent_deliverEvent (provider : BillingProvider B) (event : ProviderEvent) (payload : B) :
    Silent (deliverEvent host cfg.billing provider event payload) := by
  refine silent_bind (silent_local (local_query _)) fun existing => ?_
  split
  · exact silent_local (Code.local_pure _)
  refine silent_bind (silent_local (Code.local_of_reads (reads_tenantOfEvent host _))) fun tenant => ?_
  refine silent_bind (silent_local (Code.local_of_reads (reads_eventCreatedAt _))) fun createdAt => ?_
  refine silent_bind (silent_local (Code.local_of_reads (reads_identityOfEvent cfg.billing _ _ _ _))) fun identity => ?_
  refine silent_bind ?_ fun isNew => ?_
  · cases existing with
    | none => exact silent_insertEvent _ _
    | some status => exact silent_local (Code.local_pure _)
  · cases isNew with
    | false => exact silent_local (Code.local_pure _)
    | true =>
        exact silent_applyUnderLock _ _ _ fun exc => silent_bind (silent_markFailed _ exc) fun _ =>
          silent_local (Code.local_raise _)

theorem keepsTrail_receiveWebhook (provider : BillingProvider B) (payload : B) (signature : String) :
    KeepsTrail C ((receiveWebhook host cfg.billing provider payload signature).mapPoint WorkflowPoint.billing) := by
  refine Code.shows_mapPoint.2 ?_
  unfold receiveWebhook
  cases verifiedEvent provider payload signature with
  | error exc => trivial
  | ok event =>
      exact Code.shows_imp (Code.shows_mono (silent_deliverEvent provider event payload id adds_nil)
        (fun _ _ _ => trivial) fun _ _ h => h) fun _ _ h => ⟨h, signs_of_none rfl⟩

/-! ## Calls -/

theorem keepsTrail_management (actor : String) (x : Management B) :
    KeepsTrail C (x.run host cfg services caller actor) := by
  cases x with
  | createDocument payload content id name => exact keepsTrail_forget (keepsTrail_createDocument _ content id name)
  | addVersion identifier upload name => exact keepsTrail_forget (keepsTrail_addVersion identifier _ name)
  | deleteDocument identifier force => exact keepsTrail_forget (keepsTrail_deleteDocument identifier actor force)
  | createRequest payload id => exact keepsTrail_forget (keepsTrail_createRequest _ id)
  | addSigner identifier payload id token =>
      exact keepsTrail_forget (keepsTrail_addSigner identifier payload actor id token)
  | createSigningLink identifier nonce => exact keepsTrail_forget (keepsTrail_createSigningLink identifier actor nonce)
  | revokeSignerLink identifier signer =>
      exact keepsTrail_forget (keepsTrail_revokeSignerLink identifier signer actor)
  | openRequest identifier mode => exact keepsTrail_forget (keepsTrail_openRequest identifier actor mode)
  | cancelRequest identifier => exact keepsTrail_forget (keepsTrail_cancelRequest identifier actor)

/-- What is asked of every signing with the certificate that the call brings. -/
def WorkflowCall.Signs (C : Signing B → Prop) (x : WorkflowCall B) : Prop :=
  ∀ caller call names, x = .sign caller call names → ∀ y : Signing B, y.certificate = call.certificate → C y

theorem keepsTrail_workflowCall (x : WorkflowCall B) (hx : x.Signs C) : KeepsTrail C (x.run host cfg services) := by
  cases x with
  | manage caller actor x => exact keepsTrail_management actor x
  | view token authUserId => exact keepsTrail_forget (keepsTrail_viewDocument token authUserId)
  | sign caller call names => exact keepsTrail_forget (keepsTrail_sign call names (hx _ _ _ rfl))
  | decline token authUserId => exact keepsTrail_forget (keepsTrail_decline token authUserId)
  | webhook provider payload signature =>
      exact keepsTrail_forget (keepsTrail_receiveWebhook provider payload signature)

end Host

/-! ## Runs -/

/-- Runs of the workflow in which nobody else records anything about documents, requests and signers. -/
def auditedRuns (host : Host B Page) (cfg : Settings) (services : SigningServices B) (z : Circumstances B) :
    Setting (World B) RowKey (WorkflowPoint B) Failure Unit :=
  { workflowRuns host cfg services z with
    env := fun w w' => (workflowRuns host cfg services z).env w w' ∧ w'.trail = w.trail }

/-- The entries of the move that a step commits. -/
def entriesOf (x : WorkflowStep B) : List TrailEntry :=
  ((movedBy x).map Move.trail).getD []

section Runs

variable {host : Host B Page} {cfg : Settings} {services : SigningServices B} {z : Circumstances B}
  {Y Z : WorkflowSystem B} {steps : List (WorkflowStep B)}

theorem run_of_audited (hrun : Run (auditedRuns host cfg services z) Y steps Z) :
    Run (workflowRuns host cfg services z) Y steps Z := by
  refine hrun.allowed ?_
  rintro ⟨X, l⟩ - hallow
  cases l with
  | env s => exact hallow.1
  | _ => exact hallow

/-- A step records the move it commits, and nothing else. -/
theorem trail_step (hrun : Run (auditedRuns host cfg services z) Y steps Z) (hidle : Y.sessions = [])
    {x : WorkflowStep B} (hx : x ∈ steps) {X' : WorkflowSystem B} (hstep : x.1.step x.2 = some X') :
    X'.shared.trail = x.1.shared.trail ++ entriesOf x := by
  have hshown := hrun.shown (G := fun pt => Adds (WorkflowPoint.trail pt)) hidle (fun base code w h => by
    obtain ⟨call, rfl, rfl, -⟩ := h
    exact Code.shows_imp (keepsTrail_workflowCall (C := fun _ => True) call fun _ _ _ _ _ _ => trivial)
      fun _ _ h => h.1) hx hstep
  unfold entriesOf movedBy
  rcases hshown with hshown | ⟨henv, hquiet⟩
  · unfold System.Showed at hshown
    cases hp : x.1.publishes x.2 with
    | none =>
        rw [hp] at hshown
        simp [hshown]
    | some pt =>
        rw [hp] at hshown
        obtain ⟨f, hadds, hf⟩ := hshown
        rw [hf, hadds]
        cases pt <;> rfl
  · rw [henv.2, hquiet]
    simp

theorem trail_of_run (hrun : Run (auditedRuns host cfg services z) Y steps Z) (hidle : Y.sessions = []) :
    Z.shared.trail = Y.shared.trail ++ (movesOf steps).flatMap Move.trail := by
  have hsteps : ∀ x ∈ steps, ∀ X', x.1.step x.2 = some X' → X'.shared.trail = x.1.shared.trail ++ entriesOf x :=
    fun x hx X' hstep => trail_step hrun hidle hx hstep
  induction hrun with
  | nil => simp [movesOf]
  | @snoc past X X' l before allowed taken ih =>
      have hlast := hsteps (X, l) (by simp) X' taken
      have hpast := ih fun x hx => hsteps x (List.mem_append_left _ hx)
      have hmoves : movesOf (past ++ [(X, l)]) = movesOf past ++ (movedBy (X, l)).toList := by
        rw [movesOf, List.filterMap_append]
        cases hmoved : movedBy (X, l) <;> simp [movesOf, hmoved]
      rw [hlast, hpast, hmoves, List.flatMap_append, List.append_assoc]
      unfold entriesOf
      cases movedBy (X, l) <;> simp

/-- **The audit trail.** Whatever fails, dies or loses an acknowledgement, a step of the workflow commits no move,
    and then changes and records nothing, or makes one permitted move and records just that; only a link that is
    made again is recorded without a change. The trail of a run has the entries of its moves, in order. -/
theorem trail_recorded (hrun : Run (auditedRuns host cfg services (anyCircumstances B)) Y steps Z)
    (hidle : Y.sessions = []) :
    (∀ x ∈ steps, ∀ X', x.1.step x.2 = some X' →
        (movedBy x = none ∧ X'.shared.toArchive = x.1.shared.toArchive ∧ X'.shared.trail = x.1.shared.trail) ∨
        ∃ m : Move B, movedBy x = some m ∧
          x.1.shared.MovesTo host cfg services (anyCircumstances B) m X'.shared ∧
          X'.shared.trail = x.1.shared.trail ++ m.trail ∧
          (X'.shared.toArchive = x.1.shared.toArchive → m.RepeatsLink x.1.shared.toArchive)) ∧
      Z.shared.trail = Y.shared.trail ++ (movesOf steps).flatMap Move.trail := by
  refine ⟨fun x hx X' hstep => ?_, trail_of_run hrun hidle⟩
  have htrail := trail_step hrun hidle hx hstep
  unfold entriesOf at htrail
  rcases workflow_step (run_of_audited hrun) hidle (fun _ _ _ _ _ => trivial) hx hstep with
    ⟨hnone, hrests⟩ | ⟨m, hsome, hmoves⟩
  · refine Or.inl ⟨hnone, hrests.archive, ?_⟩
    rw [htrail, hnone]
    exact List.append_nil _
  · obtain ⟨H, hallowed, -⟩ := hmoves.allowed
    refine Or.inr ⟨m, hsome, hmoves, ?_, fun hsame => hallowed.repeatsLink (hmoves.archive.symm.trans hsame)⟩
    rw [htrail, hsome]
    rfl

/-- A script that replays is a run in which nobody else does anything. -/
theorem exists_audited (z : Circumstances B) (script : Script B)
    {p : List (WorkflowStep B) → WorkflowSystem B → Bool}
    (h : ((Y.replay (script.map (labelOf host cfg services))).any fun r =>
      drawsFresh script r.1 && p r.1 r.2) = true) :
    ∃ steps Z, Run (auditedRuns host cfg services z) Y steps Z ∧ p steps Z = true := by
  obtain ⟨steps, Z, hrun, hlabels, hp⟩ := exists_labelled host cfg services z script h
  refine ⟨steps, Z, hrun.allowed fun x hx hallow => ?_, hp⟩
  have hlabel : x.2 ∈ script.map (labelOf host cfg services) := hlabels ▸ List.mem_map_of_mem hx
  obtain ⟨next, -, hnext⟩ := List.mem_map.1 hlabel
  rw [← hnext] at hallow ⊢
  cases next with
  | inl x => exact hallow
  | inr i => trivial

end Runs

/-- The trail of a request from its document to its completion, and the step that signs. -/
theorem trail_recorded_leaseSigned :
    ∃ steps Z, Run (auditedRuns sampleHost sampleSettings sampleServices (anyCircumstances SampleBytes))
        emptyWorkspace steps Z ∧ Z.shared.trail.map TrailEntry.action = ["document.uploaded",
          "signature_request.created", "signer.link_created", "signature_request.opened",
          "signature_request.link_created", "signature.completed", "signature_request.completed"] ∧
      Z.shared.trail = (movesOf steps).flatMap Move.trail ∧
      ∃ x ∈ steps, ∃ X' m y, x.1.step x.2 = some X' ∧ movedBy x = some m ∧ m.signing = some y ∧
        X'.shared.trail = x.1.shared.trail ++ m.trail := by
  obtain ⟨steps, Z, hrun, hp⟩ := @exists_audited _ _ sampleHost sampleSettings sampleServices emptyWorkspace
    (anyCircumstances SampleBytes) (serial leaseSigned)
    (fun steps Z => (steps.any fun x => ((movedBy x).bind Move.signing).isSome) &&
      Z.shared.trail.map TrailEntry.action = ["document.uploaded", "signature_request.created",
        "signer.link_created", "signature_request.opened", "signature_request.link_created", "signature.completed",
        "signature_request.completed"]) (by decide +kernel)
  obtain ⟨hsigns, htrail⟩ := Bool.and_eq_true_iff.1 hp
  obtain ⟨hsteps, hall⟩ := trail_recorded hrun rfl
  refine ⟨steps, Z, hrun, of_decide_eq_true htrail, hall, ?_⟩
  obtain ⟨x, hx, hsigned⟩ := List.any_eq_true.1 hsigns
  obtain ⟨y, hy⟩ := Option.isSome_iff_exists.1 hsigned
  obtain ⟨m, hm, hy⟩ := Option.bind_eq_some_iff.1 hy
  obtain ⟨-, X', hstep⟩ := hrun.allows hx
  obtain ⟨hnone, -⟩ | ⟨m', hm', -, hrecords, -⟩ := hsteps x hx X' hstep
  · exact absurd (hnone.symm.trans hm) (by simp)
  · obtain rfl := Option.some.inj (hm'.symm.trans hm)
    exact ⟨x, hx, X', m', y, hstep, hm, hy, hrecords⟩

end Rubrica
