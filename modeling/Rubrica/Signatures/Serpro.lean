import Rubrica.Signatures.Authorization
import Rubrica.Signatures.LinkTokens
import Rubrica.Transactions.Embedding

set_option autoImplicit false

/-! # Serpro ID in any interleaving

Calls of the workflow run beside the two halves of authorizations, and each may fail or die between any two
statements; attempts may lapse. Whatever happens meanwhile, a token and a subject lead to the same request, the
same signer and the same document. -/

namespace Rubrica

open Transactions

variable {B Page α β : Type}

/-! ## The protocol -/

section Protocol

variable (host : Host B Page) (cfg : Settings) (services : SigningServices B)

/-- What the workflow promises, and that Redis is written by the two commands only. -/
def serproProtocol : Protocol (SerproWorld B) RowKey (SerproPoint B) where
  inv _ := True
  guar pt H w w' :=
    match pt with
    | .workflow point => workflowGuarantee host cfg services (anyCircumstances B) point H w.world w'.world ∧
        w'.attempts = w.attempts
    | .storing state a => w' = w.store state a
    | .taking state _ => w' = w.take state
  env w w' := (workflowProtocol host cfg services (anyCircumstances B)).env w.world w'.world ∧ w.Lapses w'
  cond _ _ := True
  lossy := True

end Protocol

section Calls

variable {host : Host B Page} {cfg : Settings} {services : SigningServices B} {serpro : SerproServices}
  {caller : Caller} {base : Rights RowKey} {w : World B}

theorem world_store (state : String) (a : Attempt) (w : SerproWorld B) : (w.store state a).world = w.world := by
  unfold SerproWorld.store
  split <;> rfl

theorem embeds_workflow : (workflowProtocol host cfg services (anyCircumstances B)).Embeds SerproWorld.tables
    SerproPoint.workflow (serproProtocol host cfg services) where
  inv _ _ := trivial
  set _ _ _ _ := trivial
  guar pt H w s h := ⟨h, rfl⟩
  interferes := by
    rintro H w w' ⟨-, -, henv | ⟨pt, K, hcompat, -, hg⟩⟩
    · exact Relation.ReflTransGen.single ⟨trivial, trivial, Or.inl henv.1⟩
    · cases pt with
      | workflow pt =>
          exact Relation.ReflTransGen.single ⟨trivial, trivial, Or.inr ⟨pt, K, hcompat, trivial, hg.1⟩⟩
      | storing state a =>
          obtain rfl : w' = w.store state a := hg
          rw [show SerproWorld.tables.get (w.store state a) = w.world from world_store state a w]
          exact Relation.ReflTransGen.refl
      | taking state serpro =>
          obtain rfl : w' = w.take state := hg
          exact Relation.ReflTransGen.refl
  cond _ _ _ := trivial
  lossy h := h

/-- A transaction that only looks leaves the session as it was, and what is stable. -/
theorem wp_reading {A : World B → Prop} {W : (World B → World B) → Prop} {x : Workflow B α} (hx : x.Local W)
    (hA : (workflowProtocol host cfg services (anyCircumstances B)).Stable base A) (hw : A w) :
    (workflowProtocol host cfg services (anyCircumstances B)).wp (reading x)
      (fun _ c w => c = .start base ∧ A w) (fun _ _ _ => True) (.start base) w := by
  refine Protocol.wp_rollingBack (D := fun _ _ => True) (fun _ h => h) (fun _ => Protocol.stable_const _ _)
    (fun _ _ _ _ => trivial) (Protocol.wp_seq (Protocol.wp_local hx hA hw (fun a c' w' hgrows hw' => ?_)
      fun _ _ _ _ _ => trivial))
  intro w'' hr _
  refine ⟨trivial, fun _ => ⟨hgrows.reset, ?_⟩⟩
  exact (hA.anti (hgrows.held)).rely hr hw'

theorem wp_signingContext {A : World B → Prop} (token subject : String) (administrator : Bool)
    (hA : (workflowProtocol host cfg services (anyCircumstances B)).Stable base A) (hw : A w) :
    (workflowProtocol host cfg services (anyCircumstances B)).wp (signingContext host caller token subject administrator)
      (fun _ c w => c = .start base ∧ A w) (fun _ _ _ => True) (.start base) w := by
  refine wp_reading (W := fun _ => True) ?_ hA hw
  refine Code.local_bind (local_requestFromToken host _ _) fun request => Code.local_bind (local_query _) fun own => ?_
  refine Code.local_bind ?_ fun found => Code.local_bind (local_liveDocument _ _) fun _ =>
    Code.local_bind (local_query _) fun _ => Code.local_bind (local_query _) fun _ =>
      Code.local_bind (local_requestRead _ _ _) fun _ => Code.local_pure _
  unfold shownSigner
  refine Code.local_ite ?_ (local_resolveRequest host (fun _ => trivial) _ _ _ _ _ _)
  exact Code.local_bind (local_requireRequestAccess host caller _ _ _) fun _ => Code.local_bind (local_query _)
    fun _ => Code.local_bind (Code.local_orRaise _ _) fun _ => Code.local_pure _

/-- A call of the workflow service, from its start. -/
theorem wp_within {x : Workflow B α} {v : SerproWorld B} {Q : α → Ctx (World B) RowKey → World B → Prop}
    {E : Failure → Ctx (World B) RowKey → World B → Prop} {Q' : α → Ctx (SerproWorld B) RowKey → SerproWorld B → Prop}
    (hx : (workflowProtocol host cfg services (anyCircumstances B)).wp x Q E (.start base) v.world)
    (hQ : ∀ a c v, Q a c v.world → Q' a (c.along SerproWorld.tables) v) :
    (serproProtocol host cfg services).wp (within x) Q' (fun _ _ _ => True) (.start base) v := by
  rw [← Ctx.along_start SerproWorld.tables base]
  exact Protocol.wp_zoom embeds_workflow hx hQ fun _ _ _ _ => trivial

/-- A call that looks at the tables, and the program after it. -/
theorem wp_within_beside {A : World B → Prop} {x : Workflow B α} {f : α → Authorizing B β} {v : SerproWorld B}
    {Q : β → Ctx (SerproWorld B) RowKey → SerproWorld B → Prop}
    (hx : (workflowProtocol host cfg services (anyCircumstances B)).wp x (fun _ c w => c = .start base ∧ A w)
      (fun _ _ _ => True) (.start base) v.world)
    (hf : ∀ a v, A v.world → (serproProtocol host cfg services).wp (f a) Q (fun _ _ _ => True) (.start base) v) :
    (serproProtocol host cfg services).wp (within x >>= f) Q (fun _ _ _ => True) (.start base) v := by
  refine Protocol.wp_seq (wp_within hx fun a c v h => ?_)
  obtain ⟨rfl, hA⟩ := h
  rw [Ctx.along_start]
  exact hf a v hA

theorem wp_within_result {x : Except Failure α} {f : α → Authorizing B β} {v : SerproWorld B}
    {Q : β → Ctx (SerproWorld B) RowKey → SerproWorld B → Prop}
    (hf : ∀ a, (serproProtocol host cfg services).wp (f a) Q (fun _ _ _ => True) (.start base) v) :
    (serproProtocol host cfg services).wp (within (serviceResult x) >>= f) Q (fun _ _ _ => True) (.start base) v := by
  cases x with
  | error e => trivial
  | ok a => exact hf a

theorem wp_obtainGrant {A : World B → Prop} {v : SerproWorld B} (subject code verifier : String)
    (hA : (workflowProtocol host cfg services (anyCircumstances B)).Stable base A) (hv : A v.world) :
    (serproProtocol host cfg services).wp (obtainGrant serpro subject code verifier)
      (fun _ c v => c = .start base ∧ A v.world) (fun _ _ _ => True) (.start base) v := by
  refine wp_within_result fun answer => wp_within_result fun permission => wp_within_result fun certificate => ?_
  have hnow : (workflowProtocol host cfg services (anyCircumstances B)).wp (utcNow : Workflow B Int)
      (fun _ c w => c = .start base ∧ A w) (fun _ _ _ => True) (.start base) v.world :=
    Protocol.wp_select hA hv (fun _ h _ _ => ⟨rfl, h⟩) fun _ _ _ => trivial
  refine wp_within_beside hnow fun now v hv => ?_
  exact Protocol.wp_seq (Protocol.wp_require (fun _ => ⟨rfl, hv⟩) fun _ => trivial)

theorem wp_startAuthorization {v : SerproWorld B} (token subject : String) (command : SignCommand)
    (state verifier : String) :
    (serproProtocol host cfg services).wp
      (startAuthorization host cfg services caller token subject command state verifier) (fun _ _ _ => True)
      (fun _ _ _ => True) (.start base) v := by
  unfold startAuthorization
  split
  · trivial
  split
  · trivial
  split
  · trivial
  refine wp_within_beside (wp_signingContext token subject false (Protocol.stable_const base True) trivial)
    fun context v _ => ?_
  refine Protocol.wp_seq (Protocol.wp_require (fun _ => ?_) fun _ => trivial)
  refine Protocol.wp_seq (Protocol.wp_require (fun _ => ?_) fun _ => trivial)
  refine Protocol.wp_seq (Protocol.wp_require (fun _ => ?_) fun _ => trivial)
  refine Protocol.wp_seq (Protocol.wp_effect (Protocol.stable_const _ True) trivial (fun v _ _ _ => ?_)
    fun _ _ _ => trivial)
  exact ⟨trivial, rfl, Protocol.wp_seq (Protocol.wp_require (fun _ => trivial) fun _ => trivial)⟩

theorem wp_finishAuthorization {v : SerproWorld B} (state : String) (code error : Option String) (subject : String)
    (names : SigningNames) (hid : (RowKey.name names.signature, LockMode.exclusive) ∈ base)
    (hname : (RowKey.name names.object, LockMode.exclusive) ∈ base)
    (hunused : v.world.toArchive.Unused names.signature)
    (hunreferenced : v.world.toArchive.Unreferenced names.object) :
    (serproProtocol host cfg services).wp
      (finishAuthorization host cfg services serpro caller state code error subject names) (fun _ _ _ => True)
      (fun _ _ _ => True) (.start base) v := by
  -- What is drawn stays new until `sign` begins.
  have hA : (workflowProtocol host cfg services (anyCircumstances B)).Stable base _ :=
    (stable_unused hid).and (stable_unreferenced hname)
  unfold finishAuthorization
  split
  · trivial
  refine Protocol.wp_seq (Protocol.wp_effect (embeds_workflow.stable hA) ⟨hunused, hunreferenced⟩
    (fun v hv _ _ => ⟨trivial, rfl, ?_⟩) fun _ _ _ => trivial)
  refine Protocol.wp_seq (Protocol.wp_orRaise (fun attempt _ => ?_) fun _ => trivial)
  refine Protocol.wp_seq (Protocol.wp_require (fun _ => ?_) fun _ => trivial)
  split
  · refine wp_within_beside (wp_signingContext attempt.token subject false hA hv) fun context v hv => ?_
    refine Protocol.wp_seq (Protocol.wp_require (fun _ => ?_) fun _ => trivial)
    refine Protocol.wp_seq (Protocol.wp_mono (wp_obtainGrant subject _ _ hA hv) (fun _ h => h)
      (fun grant c v _ h => ?_) fun _ _ _ _ _ => trivial)
    obtain ⟨rfl, hv⟩ := h
    refine Protocol.wp_seq (wp_within (wp_sign _ names hid hname hv.1 hv.2) fun _ _ _ _ => trivial)
  · trivial

theorem wp_serproCall {v : SerproWorld B} (x : SerproCall B) (hv : x.Fresh v.world) :
    (serproProtocol host cfg services).wp (x.run host cfg services) (fun _ _ _ => True) (fun _ _ _ => True)
      (.start x.rights) v := by
  cases x with
  | workflow x => exact wp_within (wp_workflowCall x.1 ⟨hv.rows, hv.objects⟩) fun _ _ _ _ => trivial
  | start caller token subject command state verifier =>
      refine Protocol.wp_seq (Protocol.wp_mono (wp_startAuthorization token subject command state verifier)
        (fun _ h => h) (fun _ _ _ _ _ => trivial) fun _ _ _ _ _ => trivial)
  | callback caller serpro state code error subject names =>
      refine Protocol.wp_seq ?_
      unfold serproidCallback
      split
      · trivial
      refine Protocol.wp_try (Protocol.wp_mono (wp_finishAuthorization state code error subject names ?_ ?_
        (hv.rows _ List.mem_cons_self) (hv.objects _ List.mem_cons_self)) (fun _ h => h) (fun _ _ _ _ _ => trivial)
          fun _ _ _ _ _ => trivial)
      · exact List.mem_map_of_mem (List.mem_append_left _ List.mem_cons_self)
      · exact List.mem_map_of_mem (List.mem_append_right _ List.mem_cons_self)

variable (host cfg services) in
theorem serpro_governed :
    (serproProtocol host cfg services).Governs (fun _ _ _ => True) (fun _ _ _ => True)
      (serproRuns host cfg services) where
  lasting := Protocol.lasting_true
  lasting_raise := Protocol.lasting_true
  starts := by
    rintro base code w - ⟨x, rfl, rfl, hfresh⟩
    exact wp_serproCall x hfresh
  env _ _ _ h := ⟨h, trivial⟩
  lossy h := h
  fault _ _ _ := trivial

end Calls

/-! ## What never changes -/

/-- What requests pin and whom signers are for stays as it is. -/
structure Archive.Foretells (a b : Archive) : Prop where
  pins : ∀ id r, a.requests.get? id = some r → ∃ r', b.requests.get? id = some r' ∧ r'.pin = r.pin
  signers : ∀ id s, a.signers.get? id = some s → ∃ s', b.signers.get? id = some s' ∧
    s'.signatureRequestId = s.signatureRequestId ∧ s'.authUserId = s.authUserId

theorem Archive.Foretells.refl (a : Archive) : a.Foretells a :=
  ⟨fun _ r hr => ⟨r, hr, rfl⟩, fun _ s hs => ⟨s, hs, rfl, rfl⟩⟩

theorem Archive.Foretells.trans {a b c : Archive} (h : a.Foretells b) (h' : b.Foretells c) : a.Foretells c := by
  refine ⟨fun id r hr => ?_, fun id s hs => ?_⟩
  · obtain ⟨r', hr', hpin⟩ := h.pins id r hr
    obtain ⟨r'', hr'', hpin'⟩ := h'.pins id r' hr'
    exact ⟨r'', hr'', hpin'.trans hpin⟩
  · obtain ⟨s', hs', hrequest, huser⟩ := h.signers id s hs
    obtain ⟨s'', hs'', hrequest', huser'⟩ := h'.signers id s' hs'
    exact ⟨s'', hs'', hrequest'.trans hrequest, huser'.trans huser⟩

theorem Move.foretells (m : Move B) (a : Archive) : a.Foretells (m.apply a) := by
  refine ⟨fun id r hr => ?_, fun id s hs => ?_⟩
  · cases m with
    | deleteDocument document ids now =>
        refine ⟨if id ∈ ids then r.cancelled else r, ?_, ?_⟩
        · simp [Move.apply, Move.onRequests, hr]
        · split <;> rfl
    | createRequest => exact ⟨r, Table.get?_insert_of_some hr, rfl⟩
    | createLink => exact Table.get?_update_later (fun _ => rfl) hr
    | openRequest => exact Table.get?_update_later (fun _ => rfl) hr
    | cancelRequest => exact Table.get?_update_later (fun _ => rfl) hr
    | sign x =>
        show ∃ r', ((Move.sign x).onRequests a.requests).get? id = some r' ∧ r'.pin = r.pin
        rw [Move.onRequests_sign]
        split
        · exact Table.get?_update_later (fun _ => rfl) hr
        · exact ⟨r, hr, rfl⟩
    | _ => exact ⟨r, hr, rfl⟩
  · have hupdate : ∀ (other : UUID) (f : Signer → Signer),
        (∀ s, ((f s).signatureRequestId, (f s).authUserId) = (s.signatureRequestId, s.authUserId)) →
        ∃ s', (a.signers.update other f).get? id = some s' ∧ s'.signatureRequestId = s.signatureRequestId ∧
          s'.authUserId = s.authUserId := by
      intro other f hf
      obtain ⟨s', hs', heq⟩ : ∃ s', (a.signers.update other f).get? id = some s' ∧
          (s'.signatureRequestId, s'.authUserId) = (s.signatureRequestId, s.authUserId) :=
        Table.get?_update_later hf hs
      exact ⟨s', hs', Prod.mk.inj heq⟩
    cases m with
    | addSigner => exact ⟨s, Table.get?_insert_of_some hs, rfl, rfl⟩
    | revokeLink => exact hupdate _ _ fun _ => rfl
    | view => exact hupdate _ _ fun _ => rfl
    | decline => exact hupdate _ _ fun _ => rfl
    | sign => exact hupdate _ _ fun _ => rfl
    | _ => exact ⟨s, hs, rfl, rfl⟩

/-- Whoever is found by a hash or a subject is the one it was made for. -/
structure Archive.Identified (host : Host B Page) (cfg : Settings) (a : Archive) : Prop where
  links : ∀ id r hash, a.requests.get? id = some r → r.signingTokenHash = some hash →
    ∃ nonce, hash = linkHash host cfg id nonce
  single : ∀ id id' s s', a.signers.get? id = some s → a.signers.get? id' = some s' →
    s'.signatureRequestId = s.signatureRequestId → s'.authUserId = s.authUserId → id' = id

section Moves

variable {host : Host B Page} {cfg : Settings} {services : SigningServices B} {reliable : Prop} {m : Move B}
  {H : Rights RowKey} {w : World B}

/-- The hash of a request is the one it had, none, or the one of a link to it. -/
theorem Move.Allowed.hashOf (h : m.Allowed host cfg services reliable H w) {id : UUID} {r' : SignatureRequest}
    (hr' : (m.apply w.toArchive).requests.get? id = some r') :
    (∃ r, w.requests.get? id = some r ∧ r'.signingTokenHash = r.signingTokenHash) ∨ r'.signingTokenHash = none ∨
      ∃ nonce, r'.signingTokenHash = some (linkHash host cfg id nonce) := by
  have hupdate : ∀ (other : UUID) (f : SignatureRequest → SignatureRequest),
      (∀ r, (f r).signingTokenHash = r.signingTokenHash) → (w.requests.update other f).get? id = some r' →
      ∃ r, w.requests.get? id = some r ∧ r'.signingTokenHash = r.signingTokenHash :=
    fun other f hf h => Table.get?_update_earlier hf h
  cases h with
  | deleteDocument =>
      simp only [Move.apply, Move.onRequests, Table.get?_map] at hr'
      obtain ⟨r, hr, rfl⟩ := Option.map_eq_some_iff.1 hr'
      refine Or.inl ⟨r, hr, ?_⟩
      split <;> rfl
  | createRequest name fresh reference status evidence unfinished unlinked =>
      rcases Table.get?_insert_eq_some hr' with hold | ⟨-, rfl⟩
      · exact Or.inl ⟨r', hold, rfl⟩
      · exact Or.inr (Or.inl unlinked)
  | @createLink other nonce hash r lock row status token =>
      by_cases hid : id = other
      · subst hid
        simp only [Move.apply, Move.onRequests, Table.get?_update_self, row] at hr'
        obtain rfl := Option.some.inj hr'
        exact Or.inr (Or.inr ⟨nonce, congrArg some token⟩)
      · exact Or.inl ⟨r', (Table.get?_update_of_ne _ hid _).symm.trans hr', rfl⟩
  | openRequest => exact Or.inl (hupdate _ (.opened _) (fun _ => rfl) hr')
  | cancelRequest => exact Or.inl (hupdate _ .cancelled (fun _ => rfl) hr')
  | @sign x r s allowed =>
      simp only [Move.apply, Move.onRequests_sign] at hr'
      split at hr'
      · exact Or.inl (hupdate _ (.completed _) (fun _ => rfl) hr')
      · exact Or.inl ⟨r', hr', rfl⟩
  | _ => exact Or.inl ⟨r', hr', rfl⟩

/-- A signer was there before, or is the first of its subject. -/
theorem Move.Allowed.signerFrom (h : m.Allowed host cfg services reliable H w) {id : UUID} {s' : Signer}
    (hs' : (m.apply w.toArchive).signers.get? id = some s') :
    (∃ s, w.signers.get? id = some s ∧ s'.signatureRequestId = s.signatureRequestId ∧ s'.authUserId = s.authUserId) ∨
      m = .addSigner id s' ∧ w.signerOf s'.signatureRequestId s'.authUserId = none := by
  have hupdate : ∀ (other : UUID) (f : Signer → Signer),
      (∀ s, ((f s).signatureRequestId, (f s).authUserId) = (s.signatureRequestId, s.authUserId)) →
      (w.signers.update other f).get? id = some s' → ∃ s, w.signers.get? id = some s ∧
        s'.signatureRequestId = s.signatureRequestId ∧ s'.authUserId = s.authUserId := by
    intro other f hf h
    obtain ⟨s, hs, heq⟩ := Table.get?_update_earlier (g := fun s : Signer => (s.signatureRequestId, s.authUserId)) hf h
    exact ⟨s, hs, Prod.mk.inj heq⟩
  cases h with
  | addSigner lock name fresh request status pending unsigned subject =>
      rcases Table.get?_insert_eq_some hs' with hold | ⟨rfl, rfl⟩
      · exact Or.inl ⟨s', hold, rfl, rfl⟩
      · exact Or.inr ⟨rfl, subject⟩
  | revokeLink => exact Or.inl (hupdate _ (.revoked _) (fun _ => rfl) hs')
  | view => exact Or.inl (hupdate _ (.answered .viewed) (fun _ => rfl) hs')
  | decline => exact Or.inl (hupdate _ (.answered .declined) (fun _ => rfl) hs')
  | sign => exact Or.inl (hupdate _ (.hasSigned _) (fun _ => rfl) hs')
  | _ => exact Or.inl ⟨s', hs', rfl, rfl⟩

theorem signerOf_ne_none {request id : UUID} {subject : String} {s : Signer} (hs : w.signers.get? id = some s)
    (hrequest : s.signatureRequestId = request) (hsubject : s.authUserId = subject) :
    w.signerOf request subject ≠ none := by
  have hmem : (id, s) ∈ w.signers.select fun _ s => s.signatureRequestId = request && s.authUserId = subject :=
    Table.mem_select_iff.2 ⟨hs, by simp [hrequest, hsubject]⟩
  intro hnone
  exact List.ne_nil_of_mem hmem (List.head?_eq_none_iff.1 hnone)

theorem Move.Allowed.identified (h : m.Allowed host cfg services reliable H w)
    (hw : w.toArchive.Identified host cfg) : (m.apply w.toArchive).Identified host cfg := by
  refine ⟨fun id r hash hr hhash => ?_, fun id id' s s' hs hs' hrequest huser => ?_⟩
  · rcases h.hashOf hr with ⟨r0, hr0, heq⟩ | hnone | ⟨nonce, heq⟩
    · exact hw.links id r0 hash hr0 (heq.symm.trans hhash)
    · exact absurd (hnone.symm.trans hhash) (by simp)
    · exact ⟨nonce, (Option.some.inj (heq.symm.trans hhash)).symm⟩
  · rcases h.signerFrom hs with ⟨s0, hs0, hr0, hu0⟩ | ⟨hm, hfirst⟩
    · rcases h.signerFrom hs' with ⟨s1, hs1, hr1, hu1⟩ | ⟨hm', hfirst'⟩
      · exact hw.single id id' s0 s1 hs0 hs1 (hr1.symm.trans (hrequest.trans hr0)) (hu1.symm.trans (huser.trans hu0))
      · exact absurd hfirst' (signerOf_ne_none hs0 (hr0.symm.trans hrequest.symm) (hu0.symm.trans huser.symm))
    · rcases h.signerFrom hs' with ⟨s1, hs1, hr1, hu1⟩ | ⟨hm', -⟩
      · exact absurd hfirst (signerOf_ne_none hs1 (hr1.symm.trans hrequest) (hu1.symm.trans huser))
      · -- One move adds one signer.
        have heq := hm.symm.trans hm'
        simp only [Move.addSigner.injEq] at heq
        exact heq.1.symm

/-- What others do leaves it. -/
theorem foretells_of_rely {w w' : World B} {K : Rights RowKey}
    (hr : (workflowProtocol host cfg services (anyCircumstances B)).Rely K w w') :
    w.toArchive.Foretells w'.toArchive ∧
      (w.toArchive.Identified host cfg → w'.toArchive.Identified host cfg) := by
  induction hr with
  | refl => exact ⟨.refl _, fun h => h⟩
  | @tail v v' before hi ih =>
      rcases interferes_archive hi with hsame | ⟨H, m, -, hallowed, hmove⟩
      · rw [hsame]
        exact ih
      · rw [hmove]
        exact ⟨ih.1.trans (m.foretells _), fun h => hallowed.identified (ih.2 h)⟩

end Moves

/-! ## What a token and a subject tell -/

/-- The request, the signer and the document that a token and a subject lead to. -/
structure Archive.Tells (host : Host B Page) (cfg : Settings) (a : Archive) (token subject : String)
    (request signer : UUID) (sha : String) : Prop where
  pinned : ∃ r, a.requests.get? request = some r ∧ r.documentSha256 = sha
  link : ∃ nonce, host.sha256 (host.encode token) = linkHash host cfg request nonce
  listed : ∃ s, a.signers.get? signer = some s ∧ s.signatureRequestId = request ∧ s.authUserId = host.lower subject

/-- They lead to one. -/
theorem Archive.Tells.unique {host : Host B Page} {cfg : Settings} {a : Archive} {token subject sha sha' : String}
    {request request' signer signer' : UUID} (htext : host.uuidText = uuidString) (hfree : CollisionFree host)
    (ha : a.Identified host cfg) (h : a.Tells host cfg token subject request signer sha)
    (h' : a.Tells host cfg token subject request' signer' sha') :
    request' = request ∧ signer' = signer ∧ sha' = sha := by
  obtain ⟨nonce, hlink⟩ := h.link
  obtain ⟨nonce', hlink'⟩ := h'.link
  have hpair := requestToken_injective htext hfree (x := (request, nonce)) (y := (request', nonce'))
    (hfree.sha256 (hlink.symm.trans hlink'))
  obtain ⟨rfl, -⟩ := Prod.mk.inj hpair
  obtain ⟨r, hr, rfl⟩ := h.pinned
  obtain ⟨r', hr', rfl⟩ := h'.pinned
  obtain rfl := Option.some.inj (hr.symm.trans hr')
  obtain ⟨s, hs, hrequest, huser⟩ := h.listed
  obtain ⟨s', hs', hrequest', huser'⟩ := h'.listed
  exact ⟨rfl, ha.single _ _ s s' hs hs' (hrequest'.trans hrequest.symm) (huser'.trans huser.symm), rfl⟩

end Rubrica
