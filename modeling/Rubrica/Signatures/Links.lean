import Rubrica.Signatures.Decisions

set_option autoImplicit false

/-! # Signing links

`create_signing_link` commits the new link, and then sends it. When a delivery fails the call raises, and
the link that it does not return is the one that resolves from then on. -/

namespace Rubrica

open Transactions

variable {B Page α : Type}

section Host

variable (host : Host B Page) (cfg : Settings) (services : SigningServices B) (caller : Caller)
  (identifier actor nonce : String)

/-- Another request has the nonce. -/
def World.nonceTaken (request : UUID) (nonce : String) (w : World B) : Bool :=
  w.requests.any fun id r => id ≠ request && r.signingTokenNonce = some nonce

/-- Another request has the hash. -/
def World.hashTaken (request : UUID) (hash : String) (w : World B) : Bool :=
  w.requests.any fun id r => id ≠ request && r.signingTokenHash = some hash

/-- What `create_signing_link` checks before it commits. -/
structure Linkable (w : World B) (x : UUID × SignatureRequest) (d : Document) : Prop where
  parsed : host.parseUuid identifier = some x.1
  request : w.liveRequest x.1 = some x.2
  document : w.liveDocument x.2.documentId = some d
  sees : ∃ m, MaySee host caller x.2.documentId d actor (some x.1) w m
  status : x.2.status = .open ∨ x.2.status = .completed
  freeNonce : w.nonceTaken x.1 nonce = false
  freeHash : w.hashTaken x.1 (linkHash host cfg x.1 nonce) = false

/-- The e-mails that go out with a link. -/
def World.invitations (x : UUID × SignatureRequest) (d : Document) (w : World B) : List SignatureInvitation :=
  if (w.liveAccount d.tenantId).any fun a => a.businessFeaturesEnabled w.clock then
    (w.awaited x.1).map
      (invitationTo host d x.1 nonce (signingUrl cfg (requestToken host cfg x.1 nonce)))
  else []

/-- What is put on record about a new link. -/
def linkEvent (actor : String) (request : UUID) (now : Int) : AuditEvent :=
  ⟨some request, now, actor, "signature_request.link_created", "signature_request", request, []⟩

/-- The database once the link is committed. -/
def World.issued (request : UUID) (w : World B) : World B :=
  (w.record (linkEvent actor request w.clock)).updateRequest request
    (.linked nonce (linkHash host cfg request nonce))

variable {host cfg services caller identifier actor nonce} {w : World B}

theorem emailInvitationsEnabled_alone {u : World B → World B} {tenant : UUID} {a : Option BillingAccount}
    (ha : (u w).liveAccount tenant = a) : (emailInvitationsEnabled tenant a).alone u w =
      ⟨.ok (a.any fun a => a.businessFeaturesEnabled (u w).clock), u, w⟩ := by
  unfold emailInvitationsEnabled
  rw [alone_query_bind, alone_utcNow_bind, ha]
  cases a <;> rfl

theorem issueLink_alone {x : UUID × SignatureRequest} {d : Document}
    (h : Linkable host cfg caller identifier actor nonce w x d) :
    (issueLink host cfg caller identifier actor nonce).alone id w =
      ⟨.ok (signingUrl cfg (requestToken host cfg x.1 nonce), w.invitations host cfg nonce x d), id,
        w.issued host cfg actor nonce x.1⟩ := by
  have hrequest : (requestOf host identifier true).result id w = .ok x := requestOf_ok.2 ⟨h.parsed, h.request⟩
  have haccess : (requireRequestAccess host caller x.1 x.2 actor).result id w =
      .ok (d, w.liveAccount d.tenantId) :=
    requireRequestAccess_ok.2 ⟨(Option.filter_eq_some_iff.1 h.document).1, h.sees, rfl⟩
  unfold issueLink
  refine Code.alone_transaction_ok (r := ((_, _), .made (.createLink x.1 nonce (linkHash host cfg x.1 nonce))))
    (v := World.updateRequest x.1 (.linked nonce (linkHash host cfg x.1 nonce)) ∘ fun v =>
      v.record (linkEvent actor x.1 w.clock)) ?_
  rw [Code.alone_bind_looks_ok (local_requestOf host _ _) hrequest,
    Code.alone_bind_looks_ok (local_requireRequestAccess host caller _ _ _) haccess,
    Code.alone_require_bind h.status, alone_audit_bind,
    Code.alone_bind_looks_ok (local_liveDocument _ _) (liveDocument_ok.2 h.document), alone_query_bind]
  refine (Code.alone_bind_of (emailInvitationsEnabled_alone ?_)).trans ?_
  · rfl
  · exact (Code.alone_bind_of (alone_claim h.freeNonce)).trans (Code.alone_bind_of (alone_claim h.freeHash))

/-- Without what it checks, the transaction raises. -/
theorem issueLink_refused (h : ∀ x d, ¬Linkable host cfg caller identifier actor nonce w x d) :
    (issueLink host cfg caller identifier actor nonce).Refused id w := by
  unfold issueLink
  refine (Code.refused_bind (local_requestOf host _ _) fun x hx =>
    Code.refused_bind (local_requireRequestAccess host caller _ _ _) fun a ha =>
      Code.refused_require fun hstatus => ?_).transaction
  obtain ⟨hid, hlive⟩ := requestOf_ok.1 hx
  obtain ⟨hd, hsees, -⟩ := requireRequestAccess_ok.1 ha
  refine Code.refused_bind_of (alone_audit _ _ _ _ _ _) ?_
  refine Code.refused_bind (local_liveDocument _ _) fun d' hd' => ?_
  have hdocument : w.liveDocument x.2.documentId = some d' := liveDocument_ok.1 hd'
  obtain rfl := Option.some.inj (hd.symm.trans (Option.filter_eq_some_iff.1 hdocument).1)
  refine Code.refused_bind (local_query _) fun _ _ =>
    Code.refused_bind (local_emailInvitationsEnabled _ _) fun _ _ => ?_
  refine Code.refused_bind (local_claim _ _) fun _ hnonce =>
    Code.refused_bind (local_claim _ _) fun _ hhash => ?_
  exact absurd ⟨hid, hlive, hdocument, hsees, hstatus, claim_ok.1 hnonce, claim_ok.1 hhash⟩ (h x a.1)

/-! ## Delivery -/

theorem sendInvitations_delivered {u : World B → World B} {rows : List SignatureInvitation}
    (h : ∀ x ∈ rows, sendSignatureInvitation host cfg services x = .ok ()) :
    (sendInvitations host cfg services rows).alone u w = ⟨.ok (), u, w⟩ := by
  induction rows with
  | nil => rfl
  | cons x rest ih =>
      obtain ⟨hx, hrest⟩ := List.forall_mem_cons.1 h
      unfold sendInvitations
      rw [hx]
      exact ih hrest

theorem sendInvitations_undelivered {u : World B → World B} {rows : List SignatureInvitation}
    (h : ∃ x ∈ rows, ∃ e, sendSignatureInvitation host cfg services x = .error e) :
    ∃ e, (sendInvitations host cfg services rows).alone u w = ⟨.error e, u, w⟩ := by
  induction rows with
  | nil =>
      obtain ⟨x, hx, -⟩ := h
      exact absurd hx List.not_mem_nil
  | cons x rest ih =>
      unfold sendInvitations
      cases hx : sendSignatureInvitation host cfg services x with
      | error e => exact ⟨e, rfl⟩
      | ok a =>
          obtain ⟨y, hy, e, he⟩ := h
          obtain rfl | hy := List.mem_cons.1 hy
          · exact absurd (hx.symm.trans he) (by simp)
          · exact ih ⟨y, hy, e, he⟩

/-! ## What resolves -/

/-- `_request_from_token` finds the request by the token. -/
def Resolves (host : Host B Page) (token : String) (request : UUID) (w : World B) : Prop :=
  ∃ x, (requestFromToken host token false).result id w = .ok x ∧ x.1 = request

/-- Once a link is committed, a token resolves to the request when it has the hash of the link's. -/
theorem resolves_issued {x : UUID × SignatureRequest} {d : Document}
    (h : Linkable host cfg caller identifier actor nonce w x d) (token : String) :
    Resolves host token x.1 (w.issued host cfg actor nonce x.1) ↔
      host.sha256 (host.encode token) = host.sha256 (host.encode (requestToken host cfg x.1 nonce)) := by
  obtain ⟨hget, hlive⟩ := Option.filter_eq_some_iff.1 h.request
  have hrow : (w.issued host cfg actor nonce x.1).requests.get? x.1 =
      some (x.2.linked nonce (linkHash host cfg x.1 nonce)) := by
    show (w.requests.update x.1 _).get? x.1 = _
    rw [Table.get?_update_self, hget, Option.map_some]
  unfold Resolves
  simp only [requestFromToken_ok, id_eq]
  constructor
  · rintro ⟨y, hy, hrequest⟩
    obtain ⟨hfound, hp⟩ := Table.mem_select_iff.1 (List.mem_of_mem_head? hy)
    rw [hrequest, hrow] at hfound
    obtain ⟨hhash, -⟩ := Bool.and_eq_true_iff.1 hp
    rw [← Option.some.inj hfound] at hhash
    exact (Option.some.inj (of_decide_eq_true hhash)).symm
  · intro hhash
    have hmem : (x.1, x.2.linked nonce (linkHash host cfg x.1 nonce)) ∈
        (w.issued host cfg actor nonce x.1).requests.select fun _ r =>
          r.signingTokenHash = some (host.sha256 (host.encode token)) && r.deletedAt.isNone :=
      Table.mem_select_iff.2 ⟨hrow, Bool.and_eq_true_iff.2 ⟨decide_eq_true (by rw [hhash]; rfl), hlive⟩⟩
    obtain ⟨y, hy⟩ := Option.ne_none_iff_exists'.1
      fun hnone => List.ne_nil_of_mem hmem (List.head?_eq_none_iff.1 hnone)
    refine ⟨y, hy, ?_⟩
    obtain ⟨hfound, hp⟩ := Table.mem_select_iff.1 (List.mem_of_mem_head? hy)
    by_contra hne
    have hother : w.requests.get? y.1 = some y.2 :=
      (Table.get?_update_of_ne w.requests hne _).symm.trans hfound
    refine Bool.false_ne_true (h.freeHash.symm.trans (Table.any_iff.2 ⟨y.1, y.2, hother, ?_⟩))
    have hy : y.2.signingTokenHash = some (host.sha256 (host.encode token)) :=
      of_decide_eq_true (Bool.and_eq_true_iff.1 hp).1
    rw [hy, hhash]
    exact Bool.and_eq_true_iff.2 ⟨decide_eq_true hne, decide_eq_true rfl⟩

/-! ## All or nothing -/

section Atomic

variable (host cfg services caller identifier actor nonce) (w : World B)

/-- What issuing a link is to keep: a call that raises changes nothing, and after one that returns no token
    resolves to the request but the one of the link, as far as the hash tells tokens apart. -/
structure LinkIssued : Prop where
  raised : ∀ e, (createSigningLink host cfg services caller identifier actor nonce).result id w = .error e →
    ((createSigningLink host cfg services caller identifier actor nonce).alone id w).shared = w
  returned : ∀ url, (createSigningLink host cfg services caller identifier actor nonce).result id w = .ok url →
    ∃ request, host.parseUuid identifier = some request ∧
      url = signingUrl cfg (requestToken host cfg request nonce) ∧
      ∀ token, Resolves host token request
          ((createSigningLink host cfg services caller identifier actor nonce).alone id w).shared ↔
        host.sha256 (host.encode token) = host.sha256 (host.encode (requestToken host cfg request nonce))

/-- A link can be issued, and one of the e-mails about it cannot be delivered. -/
def Undelivered : Prop :=
  ∃ x d, Linkable host cfg caller identifier actor nonce w x d ∧
    ∃ i ∈ w.invitations host cfg nonce x d, ∃ e, sendSignatureInvitation host cfg services i = .error e

variable {host cfg services caller identifier actor nonce w}

/-- After the transaction, the call is the deliveries. -/
theorem createSigningLink_alone {x : UUID × SignatureRequest} {d : Document}
    (h : Linkable host cfg caller identifier actor nonce w x d) :
    (createSigningLink host cfg services caller identifier actor nonce).alone id w =
      (sendInvitations host cfg services (w.invitations host cfg nonce x d) >>= fun _ =>
        pure (signingUrl cfg (requestToken host cfg x.1 nonce))).alone id (w.issued host cfg actor nonce x.1) := by
  unfold createSigningLink
  rw [Code.alone_bind_of (issueLink_alone h)]

theorem createSigningLink_shared {x : UUID × SignatureRequest} {d : Document}
    (h : Linkable host cfg caller identifier actor nonce w x d) :
    ((createSigningLink host cfg services caller identifier actor nonce).alone id w).shared =
      w.issued host cfg actor nonce x.1 := by
  rw [createSigningLink_alone h]
  by_cases hfails : ∃ i ∈ w.invitations host cfg nonce x d, ∃ e,
      sendSignatureInvitation host cfg services i = .error e
  · obtain ⟨e, he⟩ := sendInvitations_undelivered hfails
    rw [Code.alone_bind_error he]
  · have hsent : ∀ i ∈ w.invitations host cfg nonce x d,
        sendSignatureInvitation host cfg services i = .ok () := by
      intro i hi
      cases hi' : sendSignatureInvitation host cfg services i with
      | ok a => rfl
      | error e => exact absurd ⟨i, hi, e, hi'⟩ hfails
    rw [Code.alone_bind_of (sendInvitations_delivered hsent)]
    rfl

/-- A link is issued, or not, as a whole exactly when every e-mail about it is delivered. -/
theorem linkIssued_iff (host : Host B Page) (cfg : Settings) (services : SigningServices B) (caller : Caller)
    (identifier actor nonce : String) (w : World B) :
    LinkIssued host cfg services caller identifier actor nonce w ↔
      ¬Undelivered host cfg services caller identifier actor nonce w := by
  constructor
  · rintro hissued ⟨x, d, h, hfails⟩
    obtain ⟨e, he⟩ := sendInvitations_undelivered (u := id) (w := w.issued host cfg actor nonce x.1) hfails
    have hended : (createSigningLink host cfg services caller identifier actor nonce).alone id w =
        ⟨.error e, id, w.issued host cfg actor nonce x.1⟩ :=
      (createSigningLink_alone h).trans (Code.alone_bind_error he _)
    have hshared := hissued.raised e (congrArg Ended.result hended)
    rw [hended] at hshared
    have hlength : (w.audits ++ [linkEvent actor x.1 w.clock]).length = w.audits.length :=
      congrArg (fun w => w.audits.length) hshared
    simp at hlength
  · intro hdelivered
    by_cases hlink : ∃ x d, Linkable host cfg caller identifier actor nonce w x d
    · obtain ⟨x, d, h⟩ := hlink
      have hsent : ∀ i ∈ w.invitations host cfg nonce x d, sendSignatureInvitation host cfg services i = .ok () := by
        intro i hi
        cases hi' : sendSignatureInvitation host cfg services i with
        | ok a => rfl
        | error e => exact absurd ⟨x, d, h, i, hi, e, hi'⟩ hdelivered
      have hended : (createSigningLink host cfg services caller identifier actor nonce).alone id w =
          ⟨.ok (signingUrl cfg (requestToken host cfg x.1 nonce)), id, w.issued host cfg actor nonce x.1⟩ :=
        (createSigningLink_alone h).trans (Code.alone_bind_of (sendInvitations_delivered hsent))
      refine ⟨fun e he => ?_, fun url hurl => ⟨x.1, h.parsed, ?_, ?_⟩⟩
      · exact absurd ((congrArg Ended.result hended).symm.trans he) (by simp)
      · exact (Except.ok.inj ((congrArg Ended.result hended).symm.trans hurl)).symm
      · rw [hended]
        exact resolves_issued h
    · have hrefused : (createSigningLink host cfg services caller identifier actor nonce).Refused id w :=
        (issueLink_refused fun x d h => hlink ⟨x, d, h⟩).bind _
      refine ⟨fun _ _ => hrefused.shared, fun url hurl => ?_⟩
      obtain ⟨e, w', he⟩ := hrefused
      exact absurd ((congrArg Ended.result he).symm.trans hurl) (by simp)

end Atomic

end Host

/-- Services whose e-mails are not accepted. -/
def rejectingServices : SigningServices SampleBytes :=
  { sampleServices with acceptEmail := fun _ => false }

/-- The administrator is told that the link was not issued, and the one sent out before no longer is the
    request's. -/
theorem linkIssued_rejected : ¬∀ w : World SampleBytes,
    LinkIssued sampleHost sampleSettings rejectingServices none "20" "admin@x" "fresh" w := by
  intro h
  have hshared := (h (sampleWorkspace (sampleRequest .open) (sampleSigner "signer@x" .pending))).raised _ rfl
  have hnonce := congrArg (fun w => (w.requests.get? 20).bind SignatureRequest.signingTokenNonce) hshared
  exact absurd hnonce (by decide)

end Rubrica
