import Rubrica.Signatures.Calls
import Rubrica.Signatures.Links

set_option autoImplicit false

/-! # Auditors

An auditor of a tenant is refused by every operation that names the roles it admits. The operations on a
request go by `_require_request_access` instead, which admits whoever created the document or is a signer:
what an auditor of one of these kinds can still change is exactly `World.Changeable`. -/

namespace Rubrica

open Transactions

variable {B Page α : Type}

/-! ## Tenants of calls -/

section Host

variable (host : Host B Page) (cfg : Settings) (services : SigningServices B) (caller : Caller) (actor : String)

/-- The tenant that has the slug. -/
def World.tenantOfSlug (slug : String) (w : World B) : Option UUID :=
  (w.tenants.select fun _ t => t.slug = slug && t.deletedAt.isNone).head?.map Prod.fst

def World.documentTenant (identifier : String) (w : World B) : Option UUID :=
  (host.parseUuid identifier).bind fun id => (w.liveDocument id).map Document.tenantId

def World.requestTenant (identifier : String) (w : World B) : Option UUID :=
  (host.parseUuid identifier).bind fun id => (w.liveRequest id).bind fun r =>
    (w.documents.get? r.documentId).map Document.tenantId

/-- The tenant whose rows the call is about. -/
def Management.tenant (w : World B) : Management B → Option UUID
  | .createDocument payload _ _ _ => w.tenantOfSlug payload.organizationId
  | .addVersion identifier _ _ => w.documentTenant host identifier
  | .deleteDocument identifier _ => w.documentTenant host identifier
  | .createRequest payload _ => (w.liveDocument payload.documentId).map Document.tenantId
  | .addSigner identifier _ _ _ => w.requestTenant host identifier
  | .createSigningLink identifier _ => w.requestTenant host identifier
  | .revokeSignerLink identifier _ => w.requestTenant host identifier
  | .openRequest identifier _ => w.requestTenant host identifier
  | .cancelRequest identifier => w.requestTenant host identifier

/-! ## Auditors -/

/-- Every active membership of the tenant that identifies the actor is an auditor's, and there is one. -/
structure World.Audits (tenant : UUID) (w : World B) : Prop where
  member : ∃ m, w.activeMember host caller actor tenant = some m
  role : ∀ m ∈ w.members.select fun _ m => m.isIdentity host caller actor && m.isActive tenant, m.2.role = .auditor

/-- No call of the actor about the tenant changes a document, a version, a request, a signer or a
    signature. -/
def ReadOnly (tenant : UUID) (w : World B) : Prop :=
  ∀ call : Management B, call.tenant host w = some tenant →
    ((call.run host cfg services caller actor).alone id w).shared.toArchive = w.toArchive

/-- A link under the nonce cannot be given to the request, or is the one it has. -/
def World.LinkTaken (request : UUID) (r : SignatureRequest) (nonce : String) (w : World B) : Prop :=
  w.nonceTaken request nonce = true ∨ w.hashTaken request (linkHash host cfg request nonce) = true ∨
    r.linked nonce (linkHash host cfg request nonce) = r

/-- What whoever is admitted to a request can change of it: it is in progress, or can get a link, or has a
    signer to be revoked. -/
inductive World.Changeable (request : UUID) (r : SignatureRequest) (w : World B) : Prop where
  | inProgress (status : r.status = .draft ∨ r.status = .open)
  | completed (status : r.status = .completed) (document : w.liveDocument r.documentId ≠ none) (nonce : String)
      (free : ¬w.LinkTaken host cfg request r nonce)
  | revocable (identifier : String) (id : UUID) (signer : Signer) (parsed : host.parseUuid identifier = some id)
      (row : w.signers.get? id = some signer) (own : signer.signatureRequestId = request)
      (status : signer.status ≠ .signed) (link : signer.linkRevokedAt = none)

/-- The actor is related to a request of the tenant that can be changed, and the team has its seats. -/
structure World.Reaches (tenant : UUID) (w : World B) (identifier : String) (x : UUID × SignatureRequest)
    (d : Document) : Prop where
  seats : w.WithinSeats tenant
  parsed : host.parseUuid identifier = some x.1
  request : w.liveRequest x.1 = some x.2
  document : w.documents.get? x.2.documentId = some d
  tenant : d.tenantId = tenant
  related : host.lower d.createdBy = host.lower actor ∨
    w.invited x.2.documentId (some x.1) (host.lower actor) = true
  changeable : w.Changeable host cfg x.1 x.2

end Host

/-! ## Refusals -/

section Refusals

variable {w : World B}

theorem shared_forget (x : Workflow B α) : ((forget x).alone id w).shared = (x.alone id w).shared := by
  unfold forget
  show ((x.bind fun _ => pure ()).alone id w).shared = _
  rw [Code.alone_bind]
  cases (x.alone id w).result <;> rfl

variable {host : Host B Page} {cfg : Settings} {services : SigningServices B} {caller : Caller} {actor : String}
  {tenant : UUID}

theorem World.Audits.not_role {roles : List MemberRole} {m : UUID × TenantMember}
    (h : w.Audits host caller actor tenant) (hroles : MemberRole.auditor ∉ roles) :
    ¬Seat host caller tenant actor (some roles) w m := by
  intro hseat
  have hrole := h.role m (List.mem_of_mem_head? hseat.member)
  exact hroles (hrole ▸ hseat.role roles rfl)

theorem World.Audits.refused {roles : List MemberRole} {f : _ → Workflow B α}
    (h : w.Audits host caller actor tenant) (hroles : MemberRole.auditor ∉ roles) :
    (requireSeat host caller tenant actor (some roles) >>= f).Refused id w :=
  Code.refused_bind (local_requireSeat host caller _ _ _) fun _ hx =>
    absurd (requireSeat_ok.1 hx).1 (h.not_role hroles)

theorem World.documentTenant_of {identifier : String} {x : UUID × Document}
    (h : (documentOf host identifier true).result id w = .ok x) :
    w.documentTenant host identifier = some x.2.tenantId := by
  obtain ⟨hid, hlive⟩ := documentOf_ok.1 h
  have hlive : w.liveDocument x.1 = some x.2 := hlive
  rw [World.documentTenant, hid, Option.bind_some, hlive, Option.map_some]

theorem World.Audits.createDocument {payload : DocumentCreate} {content : B} {document name : UUID}
    (h : w.Audits host caller actor tenant) (ht : w.tenantOfSlug payload.organizationId = some tenant) :
    (Rubrica.createDocument host caller { payload with createdBy := actor } content document name).Refused
      id w := by
  unfold Rubrica.createDocument
  split
  · exact Code.refused_raise _
  · refine (Code.Refused.rollingBack (Code.refused_bind (local_query _) fun found hfound =>
      Code.refused_orRaise fun t htenant => ?_)).bind _
    have hslug : found.map Prod.fst = some tenant :=
      (congrArg (Option.map Prod.fst) (Except.ok.inj hfound)).symm.trans ht
    rw [htenant, Option.map_some] at hslug
    obtain rfl := Option.some.inj hslug
    exact h.refused (by decide)

theorem World.Audits.addVersion {identifier : String} {upload : VersionUpload B} {name : UUID}
    (h : w.Audits host caller actor tenant) (ht : w.documentTenant host identifier = some tenant) :
    (Rubrica.addVersion host caller identifier { upload with actorId := actor } name).Refused id w := by
  unfold Rubrica.addVersion
  split
  · exact Code.refused_raise _
  · refine (Code.Refused.rollingBack (Code.refused_bind (local_documentOf host _ _) fun x hx => ?_)).bind _
    obtain rfl := Option.some.inj ((World.documentTenant_of hx).symm.trans ht)
    exact h.refused (by decide)

theorem World.Audits.deleteDocument {identifier : String} {force : Bool}
    (h : w.Audits host caller actor tenant) (ht : w.documentTenant host identifier = some tenant) :
    (Rubrica.deleteDocument host caller identifier actor force).Refused id w := by
  unfold Rubrica.deleteDocument
  refine (Code.refused_bind (local_documentOf host _ _) fun x hx => ?_).transaction
  obtain rfl := Option.some.inj ((World.documentTenant_of hx).symm.trans ht)
  exact h.refused (by decide)

theorem World.Audits.createRequest {payload : SignatureRequestCreate} {request : UUID}
    (h : w.Audits host caller actor tenant)
    (ht : (w.liveDocument payload.documentId).map Document.tenantId = some tenant) :
    (Rubrica.createRequest host caller { payload with createdBy := actor } request).Refused id w := by
  unfold Rubrica.createRequest recordRequest
  refine Code.refused_bind (local_query _) fun now _ => Code.refused_require fun _ =>
    (Code.refused_bind (local_liveDocument _ _) fun d hd => ?_).transaction
  have hd : w.liveDocument payload.documentId = some d := liveDocument_ok.1 hd
  rw [hd, Option.map_some] at ht
  obtain rfl := Option.some.inj ht
  exact h.refused (by decide)

theorem World.Audits.not_admin {m : UUID × TenantMember} {roles : Option (List MemberRole)}
    (h : w.Audits host caller actor tenant) (hm : Seat host caller tenant actor roles w m) : m.2.role ≠ .admin := by
  rw [h.role m (List.mem_of_mem_head? hm.member)]
  decide

/-- Where no request can be changed, an auditor who is admitted to one finds it settled. -/
theorem World.Audits.settled {identifier : String} {x : UUID × SignatureRequest}
    {a : Document × Option BillingAccount} (h : w.Audits host caller actor tenant)
    (ht : w.requestTenant host identifier = some tenant)
    (hidle : ∀ identifier x d, ¬w.Reaches host cfg actor tenant identifier x d)
    (hx : (requestOf host identifier true).result id w = .ok x)
    (ha : (requireRequestAccess host caller x.1 x.2 actor).result id w = .ok a) :
    ¬w.Changeable host cfg x.1 x.2 := by
  obtain ⟨hid, hlive⟩ := requestOf_ok.1 hx
  obtain ⟨hd, ⟨m, hsee⟩, -⟩ := requireRequestAccess_ok.1 ha
  have hlive : w.liveRequest x.1 = some x.2 := hlive
  have hd : w.documents.get? x.2.documentId = some a.1 := hd
  rw [World.requestTenant, hid, Option.bind_some, hlive, Option.bind_some, hd, Option.map_some] at ht
  obtain rfl := Option.some.inj ht
  exact fun hchange => hidle identifier x a.1
    ⟨hsee.seat.seats, hid, hlive, hd, rfl, hsee.sees.resolve_left (h.not_admin hsee.seat), hchange⟩

section Idle

variable {identifier : String} (h : w.Audits host caller actor tenant)
  (ht : w.requestTenant host identifier = some tenant)
  (hidle : ∀ identifier x d, ¬w.Reaches host cfg actor tenant identifier x d)

include h ht hidle

theorem World.Audits.addSigner (payload : SignerCreate) (signer : UUID) (token : String) :
    (Rubrica.addSigner host caller identifier payload actor signer token).Refused id w :=
  (Code.refused_bind (local_requestOf host _ _) fun _ hx =>
    Code.refused_bind (local_requireRequestAccess host caller _ _ _) fun _ ha =>
      Code.refused_require fun hdraft =>
        absurd (.inProgress (Or.inl hdraft)) (h.settled ht hidle hx ha)).transaction

theorem World.Audits.openRequest (mode : SignatureMode) :
    (Rubrica.openRequest host cfg services caller identifier actor mode).Refused id w :=
  (Code.refused_bind (local_requestOf host _ _) fun _ hx =>
    Code.refused_bind (local_requireRequestAccess host caller _ _ _) fun _ ha =>
      Code.refused_require fun hdraft =>
        absurd (.inProgress (Or.inl hdraft)) (h.settled ht hidle hx ha)).transaction

theorem World.Audits.cancelRequest :
    (Rubrica.cancelRequest host caller identifier actor).Refused id w :=
  (Code.refused_bind (local_requestOf host _ _) fun _ hx =>
    Code.refused_bind (local_requireRequestAccess host caller _ _ _) fun _ ha =>
      Code.refused_require fun hstatus =>
        absurd (.inProgress hstatus) (h.settled ht hidle hx ha)).transaction

theorem World.Audits.revokeSignerLink (signer : String) :
    ((Rubrica.revokeSignerLink host caller identifier signer actor).alone id w).shared = w :=
  (Code.idle_bind (local_requestOf host _ _) fun x hx =>
    Code.idle_bind (local_requireRequestAccess host caller _ _ _) fun _ ha =>
      Code.idle_bind (local_signerOf host _ _) fun y hy => Code.idle_require fun hstatus => by
        obtain ⟨hid, hrow, hown⟩ := signerOf_ok.1 hy
        unfold revokeSigner
        cases hlink : y.2.linkRevokedAt with
        | some now => exact Or.inr ⟨_, rfl⟩
        | none =>
            exact absurd (.revocable signer y.1 y.2 hid hrow hown hstatus hlink)
              (h.settled ht hidle hx ha)).transaction

theorem World.Audits.createSigningLink (nonce : String) :
    ((Rubrica.createSigningLink host cfg services caller identifier actor nonce).alone id
      w).shared.toArchive = w.toArchive := by
  by_cases hlink : ∃ x d, Linkable host cfg caller identifier actor nonce w x d
  · obtain ⟨x, d, hlink⟩ := hlink
    rw [createSigningLink_shared hlink]
    have hget := Option.filter_eq_some_iff.1 hlink.document
    have hsettled := h.settled ht hidle (requestOf_ok.2 ⟨hlink.parsed, hlink.request⟩)
      ((requireRequestAccess_ok (x := (d, w.liveAccount d.tenantId))).2 ⟨hget.1, hlink.sees, rfl⟩)
    have hstatus : x.2.status = .completed :=
      hlink.status.resolve_left fun hopen => hsettled (.inProgress (Or.inr hopen))
    have htaken : w.LinkTaken host cfg x.1 x.2 nonce := by
      by_contra hfree
      exact hsettled (.completed hstatus (by rw [hlink.document]; simp) nonce hfree)
    obtain hnonce | hhash | hsame := htaken
    · exact absurd (hlink.freeNonce.symm.trans hnonce) (by simp)
    · exact absurd (hlink.freeHash.symm.trans hhash) (by simp)
    · have hrequests : w.requests.update x.1 (.linked nonce (linkHash host cfg x.1 nonce)) = w.requests := by
        refine Table.update_eq_self fun r hr => ?_
        obtain rfl := Option.some.inj ((Option.filter_eq_some_iff.1 hlink.request).1.symm.trans hr)
        exact hsame
      exact congrArg (fun t => { w.toArchive with requests := t }) hrequests
  · have hrefused : (Rubrica.createSigningLink host cfg services caller identifier actor nonce).Refused id w :=
      (issueLink_refused fun x d h => hlink ⟨x, d, h⟩).bind _
    rw [hrefused.shared]

end Idle

/-- Where an auditor reaches nothing that can be changed, no call of the auditor changes anything. -/
theorem World.Audits.readOnly (h : w.Audits host caller actor tenant)
    (hidle : ∀ identifier x d, ¬w.Reaches host cfg actor tenant identifier x d) :
    ReadOnly host cfg services caller actor tenant w := by
  intro call ht
  cases call with
  | createDocument payload content document name =>
      exact congrArg World.toArchive ((shared_forget _).trans (h.createDocument ht).shared)
  | addVersion identifier upload name =>
      exact congrArg World.toArchive ((shared_forget _).trans (h.addVersion ht).shared)
  | deleteDocument identifier force =>
      exact congrArg World.toArchive ((shared_forget _).trans (h.deleteDocument ht).shared)
  | createRequest payload request =>
      exact congrArg World.toArchive ((shared_forget _).trans (h.createRequest ht).shared)
  | addSigner identifier payload signer token =>
      exact congrArg World.toArchive ((shared_forget _).trans (h.addSigner ht hidle payload signer token).shared)
  | createSigningLink identifier nonce =>
      exact (congrArg World.toArchive (shared_forget _)).trans (h.createSigningLink ht hidle nonce)
  | revokeSignerLink identifier signer =>
      exact congrArg World.toArchive ((shared_forget _).trans (h.revokeSignerLink ht hidle signer))
  | openRequest identifier mode =>
      exact congrArg World.toArchive ((shared_forget _).trans (h.openRequest ht hidle mode).shared)
  | cancelRequest identifier =>
      exact congrArg World.toArchive ((shared_forget _).trans (h.cancelRequest ht hidle).shared)

/-! ## Changes -/

section Reached

variable {identifier : String} {x : UUID × SignatureRequest} {d : Document}

theorem World.Reaches.sees (hr : w.Reaches host cfg actor tenant identifier x d)
    (h : w.Audits host caller actor tenant) :
    ∃ m, MaySee host caller x.2.documentId d actor (some x.1) w m := by
  obtain ⟨m, hm⟩ := h.member
  obtain rfl := hr.tenant
  exact ⟨m, ⟨hm, fun _ hn => absurd hn (by simp), hr.seats⟩, Or.inr hr.related⟩

theorem World.Reaches.found (hr : w.Reaches host cfg actor tenant identifier x d) (lock : Bool) :
    (requestOf host identifier lock).result id w = .ok x :=
  requestOf_ok.2 ⟨hr.parsed, hr.request⟩

theorem World.Reaches.access (hr : w.Reaches host cfg actor tenant identifier x d)
    (h : w.Audits host caller actor tenant) :
    (requireRequestAccess host caller x.1 x.2 actor).result id w = .ok (d, w.liveAccount d.tenantId) :=
  requireRequestAccess_ok.2 ⟨hr.document, hr.sees h, rfl⟩

theorem World.Reaches.addressed (hr : w.Reaches host cfg actor tenant identifier x d) :
    w.requestTenant host identifier = some tenant := by
  rw [World.requestTenant, hr.parsed, Option.bind_some, hr.request, Option.bind_some, hr.document,
    Option.map_some, hr.tenant]

theorem World.Reaches.cancelled (hr : w.Reaches host cfg actor tenant identifier x d)
    (h : w.Audits host caller actor tenant) (hstatus : x.2.status = .draft ∨ x.2.status = .open) :
    ((Rubrica.cancelRequest host caller identifier actor).alone id w).shared.requests =
      w.requests.update x.1 .cancelled := by
  unfold Rubrica.cancelRequest
  refine (congrArg (fun e : Ended (World B) Failure _ => e.shared.requests) (Code.alone_transaction_ok (by
    rw [Code.alone_bind_looks_ok (local_requestOf host _ _) (hr.found true),
      Code.alone_bind_looks_ok (local_requireRequestAccess host caller _ _ _) (hr.access h),
      Code.alone_require_bind hstatus]
    rfl))).trans ?_
  rfl

theorem World.Reaches.revoked {signerIdentifier : String} {y : UUID × Signer}
    (hr : w.Reaches host cfg actor tenant identifier x d) (h : w.Audits host caller actor tenant)
    (hy : (Rubrica.signerOf host signerIdentifier x.1).result id w = .ok y) (hstatus : y.2.status ≠ .signed)
    (hlink : y.2.linkRevokedAt = none) :
    ((Rubrica.revokeSignerLink host caller identifier signerIdentifier actor).alone id w).shared.signers =
      w.signers.update y.1 (.revoked w.clock) := by
  unfold Rubrica.revokeSignerLink
  refine (congrArg (fun e : Ended (World B) Failure _ => e.shared.signers) (Code.alone_transaction_ok (by
    rw [Code.alone_bind_looks_ok (local_requestOf host _ _) (hr.found true),
      Code.alone_bind_looks_ok (local_requireRequestAccess host caller _ _ _) (hr.access h),
      Code.alone_bind_looks_ok (local_signerOf host _ _) hy, Code.alone_require_bind hstatus, revokeSigner, hlink]
    rfl))).trans ?_
  rfl

/-- Whatever of a request can be changed, some call of an auditor who is related to it changes. -/
theorem World.Reaches.changed (hr : w.Reaches host cfg actor tenant identifier x d)
    (h : w.Audits host caller actor tenant) : ¬ReadOnly host cfg services caller actor tenant w := by
  intro hkept
  obtain ⟨hget, -⟩ := Option.filter_eq_some_iff.1 hr.request
  cases hr.changeable with
  | inProgress hstatus =>
      have hsame : w.requests.update x.1 .cancelled = w.requests :=
        (hr.cancelled h hstatus).symm.trans ((congrArg (fun w : World B => w.requests)
          (shared_forget _).symm).trans
            (congrArg Archive.requests (hkept (.cancelRequest identifier) hr.addressed)))
      have hrow : x.2.cancelled = x.2 := by
        have hrow := congrArg (fun t => t.get? x.1) hsame
        simpa [hget] using hrow
      rw [← hrow] at hstatus
      simp [SignatureRequest.cancelled] at hstatus
  | completed hstatus hdocument nonce hfree =>
      obtain ⟨d', hd'⟩ := Option.ne_none_iff_exists'.1 hdocument
      obtain rfl := Option.some.inj (hr.document.symm.trans (Option.filter_eq_some_iff.1 hd').1)
      obtain ⟨hnonce, hrest⟩ := not_or.1 hfree
      obtain ⟨hhash, hnew⟩ := not_or.1 hrest
      have hlink : Linkable host cfg caller identifier actor nonce w x d :=
        ⟨hr.parsed, hr.request, hd', hr.sees h, Or.inr hstatus, Bool.eq_false_iff.2 hnonce,
          Bool.eq_false_iff.2 hhash⟩
      have hsame : w.requests.update x.1 (.linked nonce (linkHash host cfg x.1 nonce)) = w.requests :=
        (congrArg (fun w : World B => w.requests) ((shared_forget _).trans (createSigningLink_shared hlink)).symm).trans
          (congrArg Archive.requests (hkept (.createSigningLink identifier nonce) hr.addressed))
      refine hnew ?_
      have hrow := congrArg (fun t => t.get? x.1) hsame
      simpa [hget] using hrow
  | revocable signerIdentifier row signer hid hsigner hown hstatus hlink =>
      have hy : (Rubrica.signerOf host signerIdentifier x.1).result (fun v => v) w =
          .ok (row, signer) :=
        signerOf_ok.2 ⟨hid, hsigner, hown⟩
      have hsame : w.signers.update row (.revoked w.clock) = w.signers :=
        (hr.revoked h hy hstatus hlink).symm.trans ((congrArg (fun w : World B => w.signers)
          (shared_forget _).symm).trans
            (congrArg Archive.signers (hkept (.revokeSignerLink identifier signerIdentifier) hr.addressed)))
      have hrow : signer.revoked w.clock = signer := by
        have hrow := congrArg (fun t => t.get? row) hsame
        simpa [hsigner] using hrow
      rw [← hrow] at hlink
      simp [Signer.revoked] at hlink

end Reached

/-- An auditor is read-only exactly where no request that the auditor is related to can be changed. -/
theorem auditor_readOnly_iff (host : Host B Page) (cfg : Settings) (services : SigningServices B)
    (caller : Caller) (actor : String) (tenant : UUID) (w : World B) (h : w.Audits host caller actor tenant) :
    ReadOnly host cfg services caller actor tenant w ↔
      ∀ identifier x d, ¬w.Reaches host cfg actor tenant identifier x d :=
  ⟨fun hkept _ _ _ hr => hr.changed h hkept, h.readOnly⟩

end Refusals

theorem sampleWorkspace_audits (request : SignatureRequest) (signer : Signer) :
    (sampleWorkspace request signer).Audits sampleHost none "auditor@x" 1 :=
  ⟨⟨(4, sampleMember "auditor@x" .auditor), rfl⟩, by
    show ∀ m ∈ [(4, sampleMember "auditor@x" .auditor)], m.2.role = .auditor
    simp [sampleMember]⟩

/-- An auditor who is no signer leaves an open request as it is. -/
theorem auditor_readOnly_workspace :
    ReadOnly sampleHost sampleSettings sampleServices none "auditor@x" 1
      (sampleWorkspace (sampleRequest .open) (sampleSigner "signer@x" .pending)) := by
  refine (auditor_readOnly_iff sampleHost sampleSettings sampleServices none "auditor@x" 1 _
    (sampleWorkspace_audits _ _)).2 ?_
  rintro identifier ⟨request, r⟩ d hr
  obtain hnone | ⟨rfl, rfl⟩ := Table.get?_insert_eq_some (Option.filter_eq_some_iff.1 hr.request).1
  · exact absurd hnone (by simp)
  · obtain rfl := Option.some.inj (hr.document.symm.trans rfl)
    exact absurd hr.related (by decide)

/-- An auditor who is invited to sign can cancel the request. -/
theorem auditor_cancels : ¬∀ w : World SampleBytes, w.Audits sampleHost none "auditor@x" 1 →
    ReadOnly sampleHost sampleSettings sampleServices none "auditor@x" 1 w := by
  intro h
  have hkept := h (sampleWorkspace (sampleRequest .open) (sampleSigner "auditor@x" .pending))
    (sampleWorkspace_audits _ _) (.cancelRequest "20") rfl
  have hstatus := congrArg (fun a => (a.requests.get? 20).map SignatureRequest.status) hkept
  exact absurd hstatus (by decide)

end Rubrica
