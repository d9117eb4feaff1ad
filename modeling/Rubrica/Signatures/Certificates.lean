import Rubrica.Signatures.Serpro
import Rubrica.Signatures.Trail
import Rubrica.Transactions.Abiding
import Rubrica.Transactions.Scripts

set_option autoImplicit false

/-! # Who has authorized a certificate

Between the two halves of an authorization anything may happen to the request, in the second half the context
is read in one transaction and the signature is recorded in another, and the state comes back from the browser.
All the same a signing with a certificate is the one that was authorized: of the request, the signer and the
document that were shown, by the holder of a certificate that is the signer's, and once. -/

namespace Rubrica

open Transactions

variable {B Page α β : Type}

/-! ## What the calls find -/

section Calls

variable {host : Host B Page} {cfg : Settings} {services : SigningServices B} {caller : Caller} {A : Archive}
  {V : List (WorkflowDeed B) → WorkflowDeed B → Prop} {l : List (WorkflowDeed B)}
  {Q : β → (World B → World B) → List (WorkflowDeed B) → Prop}
  {E : Failure → (World B → World B) → List (WorkflowDeed B) → Prop} {token subject : String}

/-- The tables of a run, seen from the archive that it ends with. -/
def Archive.Known (host : Host B Page) (cfg : Settings) (A : Archive) (w : World B) : Prop :=
  w.toArchive.Foretells A ∧ w.toArchive.Identified host cfg

/-- The request that a token leads to. -/
def Archive.Leads (host : Host B Page) (cfg : Settings) (A : Archive) (token : String)
    (x : UUID × SignatureRequest) : Prop :=
  (∃ r, A.requests.get? x.1 = some r ∧ r.documentSha256 = x.2.documentSha256) ∧
    ∃ nonce, host.sha256 (host.encode token) = linkHash host cfg x.1 nonce

theorem Archive.Known.leads {w : World B} (hw : A.Known host cfg w) {x : UUID × SignatureRequest}
    (hx : w.requestOfHash (host.sha256 (host.encode token)) = some x) : A.Leads host cfg token x := by
  obtain ⟨hrow, hp⟩ := Table.mem_select_iff.1 (List.mem_of_mem_head? hx)
  have hhash := of_decide_eq_true (Bool.and_eq_true_iff.1 hp).1
  obtain ⟨r, hr, hpin⟩ := hw.1.pins _ _ hrow
  have hsha : r.documentSha256 = x.2.documentSha256 := congrArg (fun p => p.2.2) hpin
  exact ⟨⟨r, hr, hsha⟩, hw.2.links _ _ _ hrow hhash⟩

theorem abides_selectRow {J : List (WorkflowDeed B) → World B → Prop} {lock : Bool} {row : World B → Option RowKey}
    {find : World B → α} {u : World B → World B} {Q : α → (World B → World B) → List (WorkflowDeed B) → Prop}
    (hQ : ∀ w, J l w → Q (find (u w)) u l) (hE : ∀ e v, E e v l) :
    (selectRow lock row find : Workflow B α).abides J V Q E u l := by
  unfold selectRow
  split
  · exact Code.abides_selectLocking hQ (hE _ _)
  · exact Code.abides_select hQ (hE _ _)

theorem abides_requestFromToken {lock : Bool} {f : UUID × SignatureRequest → Workflow B β}
    (hE : ∀ e v, E e v l) (hf : ∀ x, A.Leads host cfg token x → (f x).abides (fun _ => A.Known host cfg) V Q E id l) :
    (requestFromToken host token lock >>= f).abides (fun _ => A.Known host cfg) V Q E id l := by
  refine Code.abides_bind.2 (Code.abides_bind.2 (abides_selectRow (fun w hw => ?_) hE))
  exact Code.abides_orRaise (fun x hx => hf x (hw.leads hx)) fun _ => hE _ _

theorem asHeld_fst {γ : Type} (held : Option (UUID × γ)) (found : UUID × γ) : (asHeld held found).1 = found.1 := by
  cases held with
  | none => rfl
  | some x =>
      unfold asHeld
      by_cases hx : x.1 = found.1
      · simp [hx]
      · simp [hx]

/-- What a session shows of a request is of the token's too, if what it holds is. -/
theorem Archive.Leads.asHeld {held : Option (UUID × SignatureRequest)} {x : UUID × SignatureRequest}
    (hx : A.Leads host cfg token x) (hheld : ∀ y, held = some y → A.Leads host cfg token y) :
    A.Leads host cfg token (asHeld held x) := by
  cases held with
  | none => exact hx
  | some y =>
      unfold Rubrica.asHeld
      by_cases hy : y.1 = x.1
      · simp only [hy, if_true]
        exact hheld y rfl
      · simp only [hy, if_false]
        exact hx

theorem Archive.Known.signerFor {w : World B} (hw : A.Known host cfg w) {request : UUID} {subject : String}
    {x : UUID × Signer} (hx : w.signerOf request subject = some x) :
    ∃ s, A.signers.get? x.1 = some s ∧ s.signatureRequestId = request ∧ s.authUserId = subject := by
  obtain ⟨hrow, hrequest, huser⟩ := signerOf_eq_some hx
  obtain ⟨s, hs, hr, hu⟩ := hw.1.signers _ _ hrow
  exact ⟨s, hs, hr.trans hrequest, hu.trans huser⟩

/-- A token and a subject lead to what the archive tells. -/
theorem abides_resolveRequest {lock allowCompleted : Bool} {heldRequest : Option (UUID × SignatureRequest)}
    {heldSigner : Option (UUID × Signer)} {f : (UUID × Signer) × (UUID × SignatureRequest) → Workflow B β}
    (hheld : ∀ x, heldRequest = some x → A.Leads host cfg token x) (hE : ∀ e v, E e v l)
    (hf : ∀ found v, A.Tells host cfg token subject found.2.1 found.1.1 found.2.2.documentSha256 →
      (f found).abides (fun _ => A.Known host cfg) V Q E v l) :
    (resolveRequest host token subject lock allowCompleted heldRequest heldSigner >>= f).abides
      (fun _ => A.Known host cfg) V Q E id l := by
  refine Code.abides_bind.2 (abides_requestFromToken hE fun selected hselected => ?_)
  have hrequest := hselected.asHeld hheld
  refine Code.abides_bind.2 (abides_selectRow (fun w hw => ?_) hE)
  cases hrow : w.signerOf (asHeld heldRequest selected).1 (host.lower subject) with
  | none =>
      simp only [id_eq, hrow]
      exact Code.abides_quiet (W := fun _ => True) (local_audit (fun _ => trivial) _ _ _ _ _ _) (fun _ v => hE _ v) hE
  | some row =>
      simp only [id_eq, hrow]
      refine Code.abides_quiet (W := fun _ => True) (local_admitSigner _ _ _) (fun _ v => ?_) hE
      refine hf _ v ⟨hrequest.1, hrequest.2, ?_⟩
      rw [asHeld_fst heldSigner row]
      exact hw.signerFor hrow

/-- The context that is shown is what the archive tells. -/
theorem abides_signingContext (hE : ∀ e v, E e v l)
    {Q : SigningRead → (World B → World B) → List (WorkflowDeed B) → Prop}
    (hQ : ∀ context, A.Tells host cfg token subject context.request.id context.signer.id
      context.request.documentSha256 → Q context id l) :
    (signingContext host caller token subject false).abides (fun _ => A.Known host cfg) V Q E id l := by
  refine Code.abides_rollingBack (Code.abides_bind.2 (abides_requestFromToken (fun e _ => hE e _)
    fun request hrequest => Code.abides_bind.2 (Code.abides_select (fun w _ => ?_) (hE _ _))))
  refine abides_resolveRequest (fun x hx => Option.some.inj hx ▸ hrequest) (fun e _ => hE e _) fun found v htells => ?_
  refine Code.abides_quiet (W := fun _ => True) (local_liveDocument _ _) (fun document v => ?_) fun e _ => hE e _
  refine Code.abides_quiet (W := fun _ => True) (local_query _) (fun tenant v => ?_) fun e _ => hE e _
  refine Code.abides_quiet (W := fun _ => True) (local_query _) (fun signature v => ?_) fun e _ => hE e _
  unfold requestRead
  refine Code.abides_bind.2 (Code.abides_bind.2 (Code.abides_select (fun w1 _ => ?_) (hE _ _)))
  refine Code.abides_bind.2 (Code.abides_select (fun w2 _ => ?_) (hE _ _))
  exact ⟨hE _ _, fun _ _ => hQ _ htells⟩

end Calls

/-! ## What is signed -/

section Signing

variable {host : Host B Page} {cfg : Settings} {services : SigningServices B} {caller : Caller} {A : Archive}
  {C : Signing B → Prop} {J : List (WorkflowDeed B) → World B → Prop} {u : World B → World B}
  {l : List (WorkflowDeed B)}

/-- Signings that are committed are as told. -/
abbrev SignsAs (C : Signing B → Prop) (_ : List (WorkflowDeed B)) (d : WorkflowDeed B) : Prop :=
  d.point.Signs C

/-- An operation that stores an object on its way. -/
theorem abides_storing {before : Workflow B β} {key : β → StorageKey} {after : β → Workflow B (α × WorkflowPoint B)}
    (hbefore : before.abides J (SignsAs C) (fun x u l => (after x).abides J (SignsAs C) (fun r _ _ => r.2.Signs C)
      (fun _ _ _ => True) u l) (fun _ _ _ => True) id l) :
    (storing before key after).abides J (SignsAs C) (fun _ _ _ => True) (fun _ _ _ => True) id l := by
  refine Code.abides_bind.2 (Code.abides_rollingBack (Code.abides_mono hbefore (fun x v l h => ?_) fun _ _ _ h => h))
  -- Where the object is discarded nothing is signed any more.
  have hdiscard : ∀ (e : Failure) (v : World B → World B) (l : List (WorkflowDeed B)),
      Code.abides J (SignsAs C) (discardObject (key x) >>= fun _ => (.raise e : Workflow B α)) (fun _ _ _ => True)
        (fun _ _ _ => True) v l :=
    fun e v l => Code.abides_bind.2 (Code.abides_effect (fun _ _ => ⟨signs_of_none rfl, trivial⟩) trivial)
  refine Code.abides_tryCatch.2 (Code.abides_transaction (Code.abides_mono h (fun r v l hr => ?_)
    fun e _ l _ => hdiscard e id l))
  exact ⟨hdiscard _ id l, fun w _ => ⟨hr, trivial, hdiscard _ id _⟩⟩

theorem abides_recordSignature (x : PreparedSignature B)
    (hC : ∀ y : Signing B, y.certificate = x.signing.certificate → y.request = x.signing.request →
      y.signature = x.signing.signature → C y) :
    (recordSignature x).abides J (SignsAs C) (fun r _ _ => r.2.Signs C) (fun _ _ _ => True) u l := by
  refine Code.abides_quiet (W := fun _ => True) (local_query _) (fun taken v => ?_) fun _ _ => trivial
  refine Code.abides_quiet (W := fun _ => True) (Code.local_require _ _) (fun _ v => ?_) fun _ _ => trivial
  refine Code.abides_quiet (W := fun _ => True) (local_save trivial) (fun _ v => ?_) fun _ _ => trivial
  refine Code.abides_quiet (W := fun _ => True) (local_save trivial) (fun _ v => ?_) fun _ _ => trivial
  refine Code.abides_quiet (W := fun _ => True) (local_audit (fun _ => trivial) _ _ _ _ _ _) (fun _ v => ?_)
    fun _ _ => trivial
  refine Code.abides_quiet (W := fun _ => True) (local_query _) (fun pending v => ?_) fun _ _ => trivial
  refine Code.abides_quiet (W := fun _ => True) (Code.local_onlyIf _ fun _ =>
    Code.local_bind (local_audit (fun _ => trivial) _ _ _ _ _ _) fun _ => local_save trivial) (fun _ v => ?_)
    fun _ _ => trivial
  intro y hy
  obtain rfl := Option.some.inj hy
  exact hC _ rfl rfl rfl

/-- `sign` signs for the request, the signer and the document that its token and its subject tell, with the
    certificate it is called with. -/
theorem abides_sign (call : SignCall) (names : SigningNames)
    (hC : ∀ y : Signing B, y.certificate = call.certificate → y.signature.authUserId = call.authUserId →
      A.Tells host cfg call.token call.authUserId y.request y.signature.signerId y.signature.documentSha256 → C y) :
    (sign host cfg services caller call names).abides (fun _ => A.Known host cfg) (SignsAs C) (fun _ _ _ => True)
      (fun _ _ _ => True) id l := by
  unfold sign
  split
  · trivial
  refine abides_storing (abides_resolveRequest (fun x hx => nomatch hx) (fun _ _ => trivial) fun found v htells => ?_)
  refine Code.abides_quiet (W := fun _ => True) (Code.local_require _ _) (fun _ v => ?_) fun _ _ => trivial
  refine Code.abides_quiet (W := fun _ => True) (local_requireCertificate _ _ _) (fun _ v => ?_) fun _ _ => trivial
  refine Code.abides_quiet (W := fun _ => True) (local_frozenVersion _) (fun frozen v => ?_) fun _ _ => trivial
  refine Code.abides_quiet (W := fun _ => True) (local_query _) (fun tenant v => ?_) fun _ _ => trivial
  refine Code.abides_quiet (W := fun _ => True) (local_requireRepresentation _ _) (fun _ v => ?_) fun _ _ => trivial
  refine Code.abides_quiet (W := fun _ => True) (local_consumeSignature (fun _ _ => trivial) (fun _ _ => trivial) _)
    (fun countedAt v => ?_) fun _ _ => trivial
  refine Code.abides_quiet (W := fun _ => True) (local_originalOf host _ _ _) (fun original v => ?_) fun _ _ => trivial
  refine Code.abides_bind.2 ?_
  refine Code.abides_quiet (W := fun _ => True) (local_query _) (fun now v => ?_) fun _ _ => trivial
  refine Code.abides_quiet (W := fun _ => True) (local_query _) (fun existing v => ?_) fun _ _ => trivial
  refine Code.abides_quiet (W := fun _ => True) (local_serviceResult _) (fun generated v => ?_) fun _ _ => trivial
  refine Code.abides_quiet (W := fun _ => True) (local_serviceResult _) (fun finished v => ?_) fun _ _ => trivial
  refine Code.abides_quiet (W := fun _ => True) (local_documentOwnerStorageId host _) (fun owner v => ?_)
    fun _ _ => trivial
  refine Code.abides_bind.2 (Code.abides_bind.2 (Code.abides_effect (fun w _ => ⟨signs_of_none rfl, ?_⟩) trivial))
  refine Code.abides_require (fun _ => ?_) fun _ => trivial
  refine abides_recordSignature _ fun y hcertificate hrequest hsignature => ?_
  exact hC y hcertificate (by rw [hsignature]) (by rw [hrequest, hsignature]; exact htells)

end Signing

/-! ## What the two halves do -/

abbrev SerproDeed (B : Type) : Type :=
  Deed (SerproWorld B) (SerproPoint B)

/-- What a grant stands for: Serpro ID has answered a code that goes with the verifier, with permission for one
    signature, given by the holder of an identity that is the subject's, whose one certificate is valid now. -/
inductive Granted (serpro : SerproServices) (now : Int) (subject verifier : String) : CertificateGrant → Prop where
  | intro {code token type encoded : String} {answer : TokenAnswer} {certificate : Certificate}
      (answered : serpro.token code verifier = .ok answer) (permitted : answer.scope = some "single_signature")
      (typed : identityTypeOf answer.identificationType = some type)
      (matched : serpro.identityMatches subject type answer.identification = true)
      (access : present answer.accessToken = some token) (sole : serpro.certificates token = .ok [encoded])
      (reads : serpro.readCertificate encoded = .ok certificate)
      (valid : certificate.notBefore ≤ now ∧ now ≤ certificate.notAfter) :
      Granted serpro now subject verifier ⟨token, certificateInfo type answer.identification certificate⟩

/-- The signing is the one that the attempt was for. -/
structure Attempt.Covers (a : Attempt) (y : Signing B) : Prop where
  request : y.request = a.requestId
  signer : y.signature.signerId = a.signerId
  document : y.signature.documentSha256 = a.documentSha256
  subject : y.signature.authUserId = a.subject

/-- An attempt for just this signing was taken, and those whom the callback asked have granted it since: `T` are the
    times after a deed. -/
def Preceded (T : SerproDeed B → Int → Prop) (l : List (SerproDeed B)) (y : Signing B) (g : CertificateGrant) : Prop :=
  ∃ state serpro v a now, (⟨.taking state serpro, v, v.take state⟩ : SerproDeed B) ∈ l ∧ v.attempts state = some a ∧
    a.Covers y ∧ T ⟨.taking state serpro, v, v.take state⟩ now ∧ Granted serpro now a.subject a.verifier g

/-- A signing with a certificate comes after its attempt was taken. -/
def Authorized (T : SerproDeed B → Int → Prop) (l : List (SerproDeed B)) (d : SerproDeed B) : Prop :=
  ∀ pt, d.point = .workflow pt → pt.Signs fun y => ∀ g, y.certificate = some g → Preceded T l y g

section Halves

variable {host : Host B Page} {cfg : Settings} {services : SigningServices B} {serpro : SerproServices}
  {caller : Caller} {A : Archive} {T : SerproDeed B → Int → Prop} {l : List (SerproDeed B)} {C : Signing B → Prop}
  {P : List (SerproDeed B) → Prop}

/-- The state of a run, seen from its end, after what a session has done. -/
def Archive.KnownAt (host : Host B Page) (cfg : Settings) (A : Archive) (T : SerproDeed B → Int → Prop)
    (l : List (SerproDeed B)) (v : SerproWorld B) : Prop :=
  A.Known host cfg v.world ∧ ∀ d ∈ l, T d v.world.clock

theorem tokenGrant_eq_ok {subject : String} {answer : TokenAnswer} {p : String × String}
    (h : tokenGrant serpro subject answer = .ok p) : answer.scope = some "single_signature" ∧
      identityTypeOf answer.identificationType = some p.1 ∧
      serpro.identityMatches subject p.1 answer.identification = true ∧ present answer.accessToken = some p.2 := by
  unfold tokenGrant at h
  split at h
  · exact absurd h (by simp)
  next hscope =>
  split at h
  · exact absurd h (by simp)
  next type htype =>
  split at h
  next hmatches =>
    split at h
    · exact absurd h (by simp)
    next token htoken =>
    obtain rfl := Except.ok.inj h
    exact ⟨not_not.1 hscope, htype, hmatches, htoken⟩
  · exact absurd h (by simp)

theorem soleCertificate_eq_ok {token : String} {certificate : Certificate}
    (h : soleCertificate serpro token = .ok certificate) :
    ∃ encoded, serpro.certificates token = .ok [encoded] ∧ serpro.readCertificate encoded = .ok certificate := by
  unfold soleCertificate at h
  split at h
  · exact absurd h (by simp)
  next encoded hsole => exact ⟨encoded, hsole, h⟩
  · exact absurd h (by simp)

/-- A call of the workflow service within the program. -/
theorem abides_within {x : Workflow B α} {Q : α → (World B → World B) → Prop}
    {Q' : α → (SerproWorld B → SerproWorld B) → List (SerproDeed B) → Prop}
    (hx : x.abides (fun _ => A.Known host cfg) (SignsAs C) (fun a u _ => Q a u) (fun _ _ _ => True) id [])
    (hC : ∀ l y, P l → C y → ∀ g, y.certificate = some g → Preceded T l y g)
    (hP : ∀ l d, P l → P (l ++ [d])) (hQ : ∀ a v l, P l → Q a v → Q' a (SerproWorld.tables.lift v) l) (hl : P l) :
    (within x).abides (A.KnownAt host cfg T) (Authorized T) Q' (fun _ _ _ => True) id l := by
  rw [← SerproWorld.tables.lift_id]
  refine Code.abides_zoom (P := P) (D := fun d => d.point.Signs C) hx (fun _ _ hv => hv.1) (fun l pt v w hl hd => ?_) hQ
    (fun _ _ _ _ _ => trivial) hl
  refine ⟨fun pt' hpt' y hy => ?_, hP _ _ hl⟩
  obtain rfl := SerproPoint.workflow.inj hpt'
  exact hC l y hl (hd y hy)

theorem abides_within_result {x : Except Failure α} {f : α → Authorizing B β}
    {Q : β → (SerproWorld B → SerproWorld B) → List (SerproDeed B) → Prop}
    (hf : ∀ a, x = .ok a → (f a).abides (A.KnownAt host cfg T) (Authorized T) Q (fun _ _ _ => True) id l) :
    (within (serviceResult x) >>= f).abides (A.KnownAt host cfg T) (Authorized T) Q (fun _ _ _ => True) id l := by
  cases x with
  | error e => trivial
  | ok a => exact hf a rfl

theorem abides_obtainGrant {subject code verifier : String} {f : CertificateGrant → Authorizing B β}
    {Q : β → (SerproWorld B → SerproWorld B) → List (SerproDeed B) → Prop} {d : SerproDeed B} (hd : d ∈ l)
    (hf : ∀ g now, T d now → Granted serpro now subject verifier g →
      (f g).abides (A.KnownAt host cfg T) (Authorized T) Q (fun _ _ _ => True) id l) :
    (obtainGrant serpro subject code verifier >>= f).abides (A.KnownAt host cfg T) (Authorized T) Q
      (fun _ _ _ => True) id l := by
  refine Code.abides_bind.2 (abides_within_result fun answer hanswer => ?_)
  refine abides_within_result fun permission hpermission => abides_within_result fun certificate hcertificate => ?_
  obtain ⟨hscope, htype, hmatches, htoken⟩ := tokenGrant_eq_ok hpermission
  obtain ⟨encoded, hsole, hread⟩ := soleCertificate_eq_ok hcertificate
  refine Code.abides_bind.2 ⟨trivial, fun v hv => ?_⟩
  refine Code.abides_bind.2 (Code.abides_require (fun hvalid => ?_) fun _ => trivial)
  exact hf _ _ (hv.2 d hd) (.intro hanswer hscope htype hmatches htoken hsole hread hvalid)

theorem abides_finishAuthorization (htext : host.uuidText = uuidString) (hfree : CollisionFree host)
    (hA : A.Identified host cfg) (state : String) (code error : Option String) (subject : String)
    (names : SigningNames) :
    (finishAuthorization host cfg services serpro caller state code error subject names).abides
      (A.KnownAt host cfg T) (Authorized T) (fun _ _ _ => True) (fun _ _ _ => True) id l := by
  unfold finishAuthorization
  split
  · trivial
  refine Code.abides_bind.2 (Code.abides_effect (fun v _ => ⟨fun pt hpt => absurd hpt (by simp), ?_⟩) trivial)
  refine Code.abides_bind.2 (Code.abides_orRaise (fun attempt hattempt => ?_) fun _ => trivial)
  refine Code.abides_bind.2 (Code.abides_require (fun hsubject => ?_) fun _ => trivial)
  split
  next code hcode =>
    have hkeeps : ∀ (l : List (SerproDeed B)) d, (⟨.taking state serpro, v, v.take state⟩ : SerproDeed B) ∈ l →
        (⟨.taking state serpro, v, v.take state⟩ : SerproDeed B) ∈ l ++ [d] := fun l d h => List.mem_append_left _ h
    refine Code.abides_bind.2 (abides_within (C := fun _ => False) (P := fun l => _ ∈ l)
      (Q := fun context u => u = id ∧ A.Tells host cfg attempt.token subject context.request.id context.signer.id
        context.request.documentSha256) ?_ (fun _ _ _ h => h.elim) hkeeps ?_ ?_)
    · exact abides_signingContext (fun _ _ => trivial) fun _ h => ⟨rfl, h⟩
    · rintro context u l hl ⟨rfl, hcontext⟩
      rw [SerproWorld.tables.lift_id]
      refine Code.abides_bind.2 (Code.abides_require (fun hsame => ?_) fun _ => trivial)
      refine abides_obtainGrant hl fun g now hnow hg => Code.abides_bind.2 ?_
      refine abides_within (P := fun l => _ ∈ l) (Q := fun _ _ => True) (C := fun y => y.certificate = some g ∧
        y.signature.authUserId = subject ∧ A.Tells host cfg attempt.token subject y.request y.signature.signerId
          y.signature.documentSha256) ?_ (fun l y hl hy g' hg' => ?_) hkeeps (fun _ _ _ _ _ => trivial) hl
      · exact abides_sign _ names fun y hcertificate huser htells => ⟨hcertificate, huser, htells⟩
      · obtain ⟨hcertificate, huser, htells⟩ := hy
        obtain rfl := Option.some.inj (hcertificate.symm.trans hg')
        obtain ⟨hrequest, hsigner, hdocument⟩ := hcontext.unique htext hfree hA htells
        refine ⟨state, serpro, v, attempt, now, hl, hattempt, ⟨?_, ?_, ?_, ?_⟩, hnow, hsubject ▸ hg⟩
        · exact hrequest.trans hsame.1
        · exact hsigner.trans hsame.2.1
        · exact hdocument.trans hsame.2.2
        · exact huser.trans hsubject.symm
    · exact List.mem_append_right _ (List.mem_singleton.2 rfl)
  next => trivial

theorem abides_startAuthorization (token subject : String) (command : SignCommand) (state verifier : String) :
    (startAuthorization host cfg services caller token subject command state verifier).abides
      (A.KnownAt host cfg T) (Authorized T) (fun _ _ _ => True) (fun _ _ _ => True) id l := by
  unfold startAuthorization
  split
  · trivial
  split
  · trivial
  split
  · trivial
  refine Code.abides_bind.2 (abides_within (C := fun _ => False) (P := fun _ => True) (Q := fun _ _ => True)
    (abides_signingContext (fun _ _ => trivial) fun _ _ => trivial) (fun _ _ _ h => h.elim) (fun _ _ _ => trivial)
      (fun context v l _ _ => ?_) trivial)
  refine Code.abides_bind.2 (Code.abides_require (fun _ => ?_) fun _ => trivial)
  refine Code.abides_bind.2 (Code.abides_require (fun _ => ?_) fun _ => trivial)
  refine Code.abides_bind.2 (Code.abides_require (fun _ => ?_) fun _ => trivial)
  refine Code.abides_bind.2 (Code.abides_effect (fun w _ => ⟨fun pt hpt => absurd hpt (by simp), ?_⟩) trivial)
  exact Code.abides_bind.2 (Code.abides_require (fun _ => trivial) fun _ => trivial)

theorem abides_serproCall (htext : host.uuidText = uuidString) (hfree : CollisionFree host)
    (hA : A.Identified host cfg) (x : SerproCall B) :
    (x.run host cfg services).abides (A.KnownAt host cfg T) (Authorized T) (fun _ _ _ => True) (fun _ _ _ => True) id
      [] := by
  cases x with
  | workflow x =>
      refine abides_within (C := fun y => y.certificate = none) (P := fun _ => True) (Q := fun _ _ => True) ?_
        (fun _ _ _ h g hg => absurd (h.symm.trans hg) (by simp)) (fun _ _ _ => trivial) (fun _ _ _ _ _ => trivial)
        trivial
      refine Code.abides_mono (Code.abides_of_shows (keepsTrail_workflowCall x.1 ?_) fun _ _ _ _ h => h.2)
        (fun _ _ _ _ => trivial) fun _ _ _ _ => trivial
      intro caller call names hx y hy
      exact hy.trans (x.2 caller call names hx)
  | start caller token subject command state verifier =>
      exact Code.abides_bind.2 (Code.abides_mono (abides_startAuthorization token subject command state verifier)
        (fun _ _ _ _ => trivial) fun _ _ _ h => h)
  | callback caller serpro state code error subject names =>
      refine Code.abides_bind.2 ?_
      unfold serproidCallback
      split
      · trivial
      exact Code.abides_tryCatch.2 (Code.abides_mono (abides_finishAuthorization htext hfree hA state code error subject
        names) (fun _ _ _ _ => trivial) fun _ _ _ _ => trivial)

end Halves

/-! ## Runs -/

section Runs

variable {host : Host B Page} {cfg : Settings} {services : SigningServices B} {serpro : SerproServices}
  {Y Z : SerproSystem B} {steps : List (SerproStep B)}

/-- The state has been stored, and neither stored nor taken since. -/
def StoredSince (state : String) (a : Attempt) (past : List (SerproStep B)) : Prop :=
  ∃ before p between, past = before ++ p :: between ∧ storedBy p = some (state, a) ∧
    ∀ t ∈ between, ∀ b, storedBy t ≠ some (state, b) ∧ takenBy t ≠ some (state, b)

theorem StoredSince.snoc {state : String} {a : Attempt} {past : List (SerproStep B)} {x : SerproStep B}
    (h : StoredSince state a past) (hx : ∀ b, storedBy x ≠ some (state, b) ∧ takenBy x ≠ some (state, b)) :
    StoredSince state a (past ++ [x]) := by
  obtain ⟨before, p, between, rfl, hp, hbetween⟩ := h
  refine ⟨before, p, between ++ [x], by simp, hp, fun t ht => ?_⟩
  rcases List.mem_append.1 ht with ht | ht
  · exact hbetween t ht
  · obtain rfl := List.mem_singleton.1 ht
    exact hx

/-- It is later than the deed of the session. -/
def LaterThan (i : Nat) (steps : List (SerproStep B)) (d : SerproDeed B) (now : Int) : Prop :=
  ∃ before q between t after, steps = before ++ q :: (between ++ t :: after) ∧ deedOf i q = some d ∧
    t.2.session = some i ∧ t.1.shared.world.clock = now

theorem laterThan_deedsOf {i : Nat} {before after : List (SerproStep B)} {t : SerproStep B}
    (ht : t.2.session = some i) : ∀ d ∈ deedsOf i before, LaterThan i (before ++ t :: after) d t.1.shared.world.clock := by
  intro d hd
  obtain ⟨q, hq, hqd⟩ := List.mem_filterMap.1 hd
  obtain ⟨first, between, rfl⟩ := List.append_of_mem hq
  exact ⟨first, q, between, t, after, by simp, hqd, ht, rfl⟩

theorem meets_serpro (x : SerproStep B) : (serproProtocol host cfg services).Meets x.1 x.2 :=
  fun _ _ _ => trivial

/-- What waits in Redis has been stored, and not been taken since. -/
theorem storedSince_of_run (hrun : Run (serproRuns host cfg services) Y steps Z) (hidle : Y.sessions = [])
    (hnone : ∀ state, Y.shared.attempts state = none) :
    ∀ state a, Z.shared.attempts state = some a → StoredSince state a steps := by
  refine (serpro_governed host cfg services).induct
    (motive := fun past v => ∀ state a, v.attempts state = some a → StoredSince state a past)
    ((serproProtocol host cfg services).good_of_idle trivial hidle) hrun (fun x _ => meets_serpro x) ?_ ?_
  · intro state a ha
    exact absurd ((hnone state).symm.trans ha) (by simp)
  · intro past X l v ih _ _ _ hmoves state a ha
    unfold Protocol.Moves at hmoves
    cases hp : X.publishes l with
    | none =>
        simp only [hp] at hmoves
        have hold : X.shared.attempts state = some a := by
          rcases hmoves with rfl | henv
          · exact ha
          · exact henv.2 state a ha
        exact (ih state a hold).snoc fun b => by simp [storedBy, takenBy, hp]
    | some pt =>
        simp only [hp] at hmoves
        obtain ⟨H, hg⟩ := hmoves
        cases pt with
        | workflow pt =>
            rw [hg.2] at ha
            exact (ih state a ha).snoc fun b => by simp [storedBy, takenBy, hp]
        | storing other b =>
            obtain rfl : v = X.shared.store other b := hg
            unfold SerproWorld.store at ha
            split at ha
            next htaken => exact (ih state a ha).snoc fun b => by simp [storedBy, takenBy, hp, htaken]
            next hfree =>
              by_cases hstate : state = other
              · subst hstate
                obtain rfl : b = a := by simpa using ha
                exact ⟨past, (X, l), [], rfl, by simp [storedBy, hp, hfree], by simp⟩
              · have hold : X.shared.attempts state = some a := by simpa [Function.update_of_ne hstate] using ha
                exact (ih state a hold).snoc fun b => by simp [storedBy, takenBy, hp, hfree, Ne.symm hstate]
        | taking other serpro =>
            obtain rfl : v = X.shared.take other := hg
            by_cases hstate : state = other
            · subst hstate
              simp [SerproWorld.take] at ha
            · have hold : X.shared.attempts state = some a := by
                simpa [SerproWorld.take, Function.update_of_ne hstate] using ha
              exact (ih state a hold).snoc fun b => by simp [storedBy, takenBy, hp, Ne.symm hstate]

/-- The archive of each state foretells the one of the end, and identifies requests and signers. -/
theorem known_of_run (hrun : Run (serproRuns host cfg services) Y steps Z) (hidle : Y.sessions = [])
    (hempty : Y.shared.world.toArchive = .empty) : Z.shared.world.toArchive.Identified host cfg ∧
      ∀ x ∈ steps, Z.shared.world.toArchive.Known host cfg x.1.shared.world := by
  refine (serpro_governed host cfg services).induct
    (motive := fun past v => v.world.toArchive.Identified host cfg ∧
      ∀ x ∈ past, v.world.toArchive.Known host cfg x.1.shared.world)
    ((serproProtocol host cfg services).good_of_idle trivial hidle) hrun (fun x _ => meets_serpro x) ?_ ?_
  · refine ⟨⟨fun id r hash hr => ?_, fun id id' s s' hs => ?_⟩, by simp⟩
    · rw [hempty] at hr
      exact absurd hr (by simp [Archive.empty])
    · rw [hempty] at hs
      exact absurd hs (by simp [Archive.empty])
  · intro past X l v ih _ _ hmeets hmoves
    obtain ⟨hforetells, hidentified⟩ := foretells_of_rely
      (embeds_workflow.rely (hmoves.rely trivial trivial (meets_serpro (X, l))))
    refine ⟨hidentified ih.1, fun x hx => ?_⟩
    rcases List.mem_append.1 hx with hx | hx
    · exact ⟨(ih.2 x hx).1.trans hforetells, (ih.2 x hx).2⟩
    · obtain rfl := List.mem_singleton.1 hx
      exact ⟨hforetells, ih.1⟩

/-- A step leaves the archive, or makes the move that it commits. -/
theorem archive_of_moves {x : SerproStep B} {v : SerproWorld B}
    (h : (serproProtocol host cfg services).Moves x.1 x.2 v) :
    (signedBy x = none ∧ v.world.toArchive = x.1.shared.world.toArchive) ∨ ∃ H, ∃ m : Move B, signedBy x = m.signing ∧
      m.Allowed host cfg services (anyCircumstances B).reliable H x.1.shared.world ∧
      v.world.toArchive = m.apply x.1.shared.world.toArchive := by
  unfold Protocol.Moves at h
  unfold signedBy
  cases hp : x.1.publishes x.2 with
  | none =>
      simp only [hp] at h
      rcases h with rfl | henv
      · exact Or.inl ⟨rfl, rfl⟩
      · exact Or.inl ⟨rfl, henv.1.1⟩
  | some pt =>
      simp only [hp] at h
      obtain ⟨H, hg⟩ := h
      cases pt with
      | storing state a =>
          obtain rfl : v = x.1.shared.store state a := hg
          exact Or.inl ⟨rfl, congrArg World.toArchive (world_store state a _)⟩
      | taking state serpro =>
          obtain rfl : v = x.1.shared.take state := hg
          exact Or.inl ⟨rfl, rfl⟩
      | workflow pt =>
          obtain ⟨hg, -⟩ := hg
          cases pt with
          | plain => exact Or.inl ⟨rfl, toArchive_of_estate hg⟩
          | billing pt => exact Or.inl ⟨rfl, hg.1⟩
          | made m => exact Or.inr ⟨H, m, rfl, hg.1, hg.2.1⟩
          | putting key b => exact Or.inl ⟨rfl, (congrArg World.toArchive hg.2).trans (toArchive_put key b)⟩
          | discarding key =>
              obtain ⟨-, -, hw⟩ := hg
              exact Or.inl ⟨rfl, (congrArg World.toArchive hw).trans rfl⟩

/-- Only a signing completes a request. -/
theorem Move.completes_of_apply {m : Move B} {a : Archive} {id : UUID} {r r' : SignatureRequest}
    (hr : a.requests.get? id = some r) (hr' : (m.apply a).requests.get? id = some r')
    (hstatus : r'.status = .completed) : r.status = .completed ∨ ∃ y, m = .sign y ∧ y.request = id := by
  have hupdate : ∀ (other : UUID) (f : SignatureRequest → SignatureRequest),
      ((f r).status = .completed → r.status = .completed) → (a.requests.update other f).get? id = some r' →
      r.status = .completed := by
    intro other f hf h
    rw [Table.get?_update, hr] at h
    split at h
    · obtain rfl := Option.some.inj h
      exact hf hstatus
    · obtain rfl := Option.some.inj h
      exact hstatus
  cases m with
  | deleteDocument document ids now =>
      simp only [Move.apply, Move.onRequests, Table.get?_map, hr, Option.map_some] at hr'
      obtain rfl := Option.some.inj hr'
      split at hstatus
      · exact absurd hstatus (by simp [SignatureRequest.cancelled])
      · exact Or.inl hstatus
  | createRequest other request =>
      obtain rfl := Option.some.inj ((Table.get?_insert_of_some hr).symm.trans hr')
      exact Or.inl hstatus
  | createLink other nonce hash => exact Or.inl (hupdate other (.linked nonce hash) (fun h => h) hr')
  | openRequest other mode =>
      exact Or.inl (hupdate other (.opened mode) (fun h => absurd h (by simp [SignatureRequest.opened])) hr')
  | cancelRequest other =>
      exact Or.inl (hupdate other .cancelled (fun h => absurd h (by simp [SignatureRequest.cancelled])) hr')
  | sign y =>
      by_cases hid : y.request = id
      · exact Or.inr ⟨y, rfl, hid⟩
      · simp only [Move.apply, Move.onRequests_sign] at hr'
        split at hr'
        · rw [Table.get?_update_of_ne _ (Ne.symm hid), hr] at hr'
          obtain rfl := Option.some.inj hr'
          exact Or.inl hstatus
        · obtain rfl := Option.some.inj (hr.symm.trans hr')
          exact Or.inl hstatus
  | _ =>
      obtain rfl := Option.some.inj (hr.symm.trans hr')
      exact Or.inl hstatus

/-- **Who has authorized a certificate.** In every run, only a signing completes a request; a signing has a
    certificate where its request asks for one and only there; and then an attempt for just that signing was stored,
    taken by the session that signs, and by nobody else since it was stored, and when it had been taken Serpro ID has
    granted it to the signer, with a certificate that was valid at that time. -/
theorem certificate_authorized (htext : host.uuidText = uuidString) (hfree : CollisionFree host)
    (hrun : Run (serproRuns host cfg services) Y steps Z) (hidle : Y.sessions = [])
    (hempty : Y.shared.world.toArchive = .empty) (hnone : ∀ state, Y.shared.attempts state = none) :
    (∀ x ∈ steps, ∀ X', x.1.step x.2 = some X' → ∀ id r r', x.1.shared.world.requests.get? id = some r →
      X'.shared.world.requests.get? id = some r' → r'.status = .completed →
      r.status = .completed ∨ ∃ y, signedBy x = some y ∧ y.request = id) ∧
    ∀ past x future, steps = past ++ x :: future → ∀ y, signedBy x = some y →
      (∃ r, x.1.shared.world.requests.get? y.request = some r ∧
        (r.signatureMode = .serproId ↔ y.certificate.isSome = true)) ∧
      ∀ g, y.certificate = some g → ∃ before q after state a serpro, past = before ++ q :: after ∧
        StoredSince state a before ∧ takenBy q = some (state, a) ∧ askedBy q = some serpro ∧
        q.2.session = x.2.session ∧ a.Covers y ∧ ∃ t ∈ after ++ [x], t.2.session = x.2.session ∧
          Granted serpro t.1.shared.world.clock a.subject a.verifier g := by
  have hmoved : ∀ x ∈ steps, ∀ X', x.1.step x.2 = some X' →
      (serproProtocol host cfg services).Moves x.1 x.2 X'.shared := fun x hx X' hstep =>
    (serpro_governed host cfg services).moves ((serproProtocol host cfg services).good_of_idle trivial hidle) hrun
      (fun x _ => meets_serpro x) hx hstep
  refine ⟨fun x hx X' hstep id r r' hr hr' hstatus => ?_, fun past x future hsteps y hy => ?_⟩
  · rcases archive_of_moves (hmoved x hx X' hstep) with ⟨-, hsame⟩ | ⟨H, m, hm, -, hmove⟩
    · have hkept := congrArg (fun a : Archive => a.requests.get? id) hsame
      obtain rfl := Option.some.inj (hr.symm.trans (hkept.symm.trans hr'))
      exact Or.inl hstatus
    · have hmoved := congrArg (fun a : Archive => a.requests.get? id) hmove
      refine (Move.completes_of_apply hr (hmoved.symm.trans hr') hstatus).imp_right ?_
      rintro ⟨y, rfl, hid⟩
      exact ⟨y, hm, hid⟩
  subst hsteps
  obtain ⟨hbefore, hallow, X', hstep, -⟩ := hrun.split
  constructor
  · rcases archive_of_moves (hmoved x (by simp) X' hstep) with ⟨hnobody, -⟩ | ⟨H, m, hm, hallowed, -⟩
    · exact absurd (hnobody.symm.trans hy) (by simp)
    · cases hallowed with
      | @sign y' r s allowed =>
          obtain rfl := Option.some.inj (hm.symm.trans hy)
          exact ⟨r, allowed.request, allowed.composed.mode⟩
      | _ => exact absurd (hm.symm.trans hy) (by simp [Move.signing])
  · intro g hg
    have hprefixed : Run (serproRuns host cfg services) Y (past ++ [x]) X' := hbefore.snoc hallow hstep
    obtain ⟨pt, hpt, hsigns⟩ : ∃ pt, x.1.publishes x.2 = some (.workflow pt) ∧ pt.signing = some y := by
      unfold signedBy at hy
      split at hy
      next m hp => exact ⟨.made m, hp, hy⟩
      · exact absurd hy (by simp)
    obtain ⟨hidentified, hknown⟩ := known_of_run hprefixed hidle hempty
    obtain ⟨i, hi⟩ := System.session_of_publishes hpt
    obtain ⟨state, serpro, v, a, now, -, ha, hcovers, hlater, hgranted⟩ := hprefixed.abided
      (J := X'.shared.world.toArchive.KnownAt host cfg (LaterThan i (past ++ [x])))
      (V := Authorized (LaterThan i (past ++ [x]))) (Q := fun _ _ _ => True) hidle
      (fun before t after hsplit ht => by
        rw [hsplit]
        exact ⟨hknown t (by simp [hsplit]), laterThan_deedsOf ht⟩) (fun t ht base code hcode _ => by
        have hstarted := (hprefixed.allows ht).1
        rw [hcode] at hstarted
        obtain ⟨call, -, rfl, -⟩ := hstarted
        exact abides_serproCall htext hfree hidentified call) hstep hi hpt _ rfl y hsigns g hg
    obtain ⟨before, q, between, t, after, hsplit, hqd, ht, rfl⟩ := hlater
    obtain ⟨-, hqi, -, hqpt, hqv, -⟩ := deedOf_eq_some hqd
    -- The step at which the time is read comes after the one that takes the attempt, and is at most the last.
    obtain ⟨rest, last, hrest⟩ : ∃ rest last, between ++ t :: after = rest ++ [last] :=
      (List.eq_nil_or_concat' _).resolve_left (by simp)
    rw [hrest, ← List.cons_append, ← List.append_assoc] at hsplit
    obtain ⟨rfl, hlast⟩ := List.append_inj' hsplit rfl
    obtain rfl := List.head_eq_of_cons_eq hlast
    have hqrun := (hbefore.split).1
    obtain rfl : q.1.shared = v := hqv
    refine ⟨before, q, rest, state, a, serpro, rfl, storedSince_of_run hqrun hidle hnone state a ha, ?_, ?_,
      hqi.trans hi.symm, hcovers, t, by simp [← hrest], ht.trans hi.symm, hgranted⟩
    · simp [takenBy, hqpt, ha]
    · simp [askedBy, hqpt]

end Runs

/-! ## A certificate to compute with -/

/-- Services of a signer with a CPF. -/
def certifiedServices : SigningServices SampleBytes :=
  { sampleServices with
    identitySummary := fun _ => ⟨some "BR_CPF", some "BR", none⟩ }

def sampleSerpro : SerproServices where
  token _ _ := .ok ⟨some "single_signature", some "CPF", "12345678909", some "access"⟩
  identityMatches _ _ _ := true
  certificates _ := .ok ["certificate"]
  readCertificate _ := .ok ⟨-10, 10, "fingerprint"⟩

def serproCalling : Calling (SerproWorld SampleBytes) RowKey (SerproPoint SampleBytes) Failure Unit
    (SerproCall SampleBytes) where
  rights := SerproCall.rights
  run := SerproCall.run uuidHost sampleSettings certifiedServices
  fresh x v := (x.rows.all fun id => decide (v.world.toArchive.Unused id)) &&
    x.objects.all fun name => decide (v.world.toArchive.Unreferenced name)

def plainly (x : Management SampleBytes) : SerproCall SampleBytes :=
  .workflow ⟨managed x, by
    intro caller call names h
    exact absurd h (by simp [managed])⟩

/-- A document, a request for it with one signer who has to bring a certificate, and its link; the signer goes to
    Serpro ID, comes back, and comes back again. -/
def leaseCertified : List (SerproCall SampleBytes × Nat) :=
  [(plainly (.createDocument ⟨"workspace", "Lease", "lease.pdf", "application/pdf", "author@x"⟩ samplePdf 10 11), 18),
    (plainly (.createRequest ⟨10, 100, "author@x"⟩ 20), 14),
    (plainly (.addSigner "20" leaseSigner 30 "unused"), 13),
    (plainly (.openRequest "20" .serproId), 15), (plainly (.createSigningLink "20" "nonce"), 16),
    (.start none (requestToken uuidHost sampleSettings 20 "nonce") "signer@x" sampleCommand
      "state-state-state-state-state-state" "verifier", 12),
    (.callback none sampleSerpro "state-state-state-state-state-state" (some "code") none "signer@x" ⟨40, 41, 42⟩, 38),
    (.callback none sampleSerpro "state-state-state-state-state-state" (some "code") none "signer@x" ⟨43, 44, 45⟩, 1)]

def emptySerpro : SerproSystem SampleBytes :=
  ⟨⟨emptyWorkspace.shared, fun _ => none⟩, []⟩

/-- The signer comes back and signs, once. -/
theorem certificate_authorized_leaseCertified :
    ∃ steps Z, Run (serproRuns uuidHost sampleSettings certifiedServices) emptySerpro steps Z ∧
      (Z.shared.world.requests.get? 20).map SignatureRequest.status = some .completed ∧
      ∃ past x future y, steps = past ++ x :: future ∧ signedBy x = some y ∧ ∃ g, y.certificate = some g ∧
        ∃ before q after state a serpro, past = before ++ q :: after ∧ StoredSince state a before ∧
          takenBy q = some (state, a) ∧ askedBy q = some serpro ∧ q.2.session = x.2.session ∧ a.Covers y ∧
          ∃ t ∈ after ++ [x], t.2.session = x.2.session ∧
            Granted serpro t.1.shared.world.clock a.subject a.verifier g := by
  have hstarts : ∀ (x : SerproCall SampleBytes) v, serproCalling.fresh x v = true →
      (serproRuns uuidHost sampleSettings certifiedServices).starts (serproCalling.rights x)
        (serproCalling.run x) v := by
    intro x v h
    obtain ⟨hrows, hobjects⟩ := Bool.and_eq_true_iff.1 h
    exact ⟨x, rfl, rfl, fun id hid => of_decide_eq_true (List.all_eq_true.1 hrows id hid),
      fun name hname => of_decide_eq_true (List.all_eq_true.1 hobjects name hname)⟩
  obtain ⟨steps, Z, hrun, hp⟩ := Calling.exists_run (Y := emptySerpro) hstarts (Calling.inTurn leaseCertified)
    (p := fun steps Z => (steps.any fun x => (signedBy x).any fun y => y.certificate.isSome) &&
      (Z.shared.world.requests.get? 20).map SignatureRequest.status = some .completed) (by decide +kernel)
  obtain ⟨hsigned, hstatus⟩ := Bool.and_eq_true_iff.1 hp
  obtain ⟨x, hx, hy⟩ := List.any_eq_true.1 hsigned
  obtain ⟨y, hy, hcertificate⟩ := (Option.any_eq_true _ _).1 hy
  obtain ⟨g, hg⟩ := Option.isSome_iff_exists.1 hcertificate
  obtain ⟨past, future, rfl⟩ := List.append_of_mem hx
  obtain ⟨-, hsignings⟩ := certificate_authorized rfl uuidHost_collisionFree hrun rfl rfl fun _ => rfl
  obtain ⟨-, hauthorized⟩ := hsignings past x future rfl y hy
  exact ⟨_, Z, hrun, of_decide_eq_true hstatus, past, x, future, y, rfl, hy, g, hg, hauthorized g hg⟩

end Rubrica
