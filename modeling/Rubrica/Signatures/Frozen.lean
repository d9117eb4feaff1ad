import Rubrica.Signatures.Lifecycle

set_option autoImplicit false

/-! # Documents under a request

A request pins its document: identifier, version and hash. The pins never change; that the document does not
move on under an open request rests on two guards, each of which reads what the other one writes. -/

namespace Rubrica

open Transactions

variable {B Page : Type}

/-! ## Pins -/

/-- What a request pins: the document, its version and its hash. -/
def SignatureRequest.pin (r : SignatureRequest) : UUID × Nat × String :=
  (r.documentId, r.documentVersion, r.documentSha256)

/-- How the row of a request changes in one step. -/
inductive SignatureRequest.Becomes (id : UUID) (r : SignatureRequest) : Move B → SignatureRequest → Prop where
  | same {m : Move B} : Becomes id r m r
  | linked {nonce hash : String} : Becomes id r (.createLink id nonce hash) (r.linked nonce hash)
  | opened {mode : SignatureMode} (status : r.status = .draft) : Becomes id r (.openRequest id mode) (r.opened mode)
  | cancelled {m : Move B} (status : r.status = .draft ∨ r.status = .open) : Becomes id r m r.cancelled
  | completed {x : Signing B} (about : x.request = id) (status : r.status = .open) (completes : x.completes = true) :
      Becomes id r (.sign x) (r.completed x.signature.signedAt)

section Machine

variable {id : UUID} {σ σ' : Slice} {m : Move B} {r r' : SignatureRequest}

/-- A request that is there was created, or was there before. -/
theorem Slice.Step.request (h : σ.Step id m σ') (hr' : σ'.request = some r') :
    (σ.request = none ∧ m = .createRequest id r' ∧ r'.status = .draft) ∨
      ∃ r, σ.request = some r ∧ r.Becomes id m r' := by
  cases h with
  | other => exact Or.inr ⟨r', hr', .same⟩
  | created none status =>
      obtain rfl := Option.some.inj hr'
      exact Or.inl ⟨none, rfl, status⟩
  | signerAdded request => exact Or.inr ⟨_, request, Option.some.inj hr' ▸ .same⟩
  | linked request => exact Or.inr ⟨_, request, Option.some.inj hr' ▸ .linked⟩
  | revoked => exact Or.inr ⟨r', hr', .same⟩
  | opened request status => exact Or.inr ⟨_, request, Option.some.inj hr' ▸ .opened status⟩
  | cancelled elsewhere request status => exact Or.inr ⟨_, request, Option.some.inj hr' ▸ .cancelled status⟩
  | viewed request => exact Or.inr ⟨_, request, Option.some.inj hr' ▸ .same⟩
  | declined request => exact Or.inr ⟨_, request, Option.some.inj hr' ▸ .same⟩
  | @signed x r s about request status =>
      refine Or.inr ⟨_, request, ?_⟩
      obtain rfl := Option.some.inj hr'
      cases hc : x.completes with
      | true => exact .completed about status hc
      | false => exact .same

/-- What is pinned stays. -/
theorem SignatureRequest.Becomes.pin (h : r.Becomes id m r') : r'.pin = r.pin := by
  cases h <;> rfl

end Machine

/-! ## The guards -/

/-- The document of the request is as the request pinned it. -/
def World.asPinned (r : SignatureRequest) (w : World B) : Bool :=
  (w.documents.get? r.documentId).any fun d => d.version = r.documentVersion && d.sha256 = r.documentSha256

/-- What the guard of a commit read is still so: an opened request finds its document as it pinned it, and a
    document that gets a version has no request that holds it. -/
def skewFree (x : WorkflowStep B) : Bool :=
  match x.1.executes x.2 with
  | some (.made (.openRequest id _), _) => (x.1.shared.requests.get? id).all fun r => x.1.shared.asPinned r
  | some (.made (.addVersion id _ _), _) => !x.1.shared.frozen id
  | _ => true

/-- The same, of the point at which a statement is executed. -/
def Guarded (point : WorkflowPoint B) (w : World B) : Prop :=
  match point with
  | .made (.openRequest id _) => ∀ r, w.requests.get? id = some r → w.asPinned r = true
  | .made (.addVersion id _ _) => w.frozen id = false
  | _ => True

/-- The document of a request that is open or completed is as it was pinned, and it is not deleted while
    the request is open. -/
def World.Pinned (w : World B) (r : SignatureRequest) : Prop :=
  r.status = .open ∨ r.status = .completed →
    ∃ d, w.documents.get? r.documentId = some d ∧ d.version = r.documentVersion ∧ d.sha256 = r.documentSha256 ∧
      (r.status = .open → d.deletedAt = none)

section Runs

variable {host : Host B Page} {cfg : Settings} {services : SigningServices B} {reliable : Prop} {m : Move B}
  {H : Rights RowKey} {z : Circumstances B} {Y Z : WorkflowSystem B} {steps : List (WorkflowStep B)} {w w' : World B}

/-- What a move makes of a document. -/
theorem Move.Allowed.documents (h : m.Allowed host cfg services reliable H w) {id : UUID} {d : Document}
    (hd : w.documents.get? id = some d) :
    ∃ d', (m.apply w.toArchive).documents.get? id = some d' ∧
      (d' = d ∨ (∃ number v, m = .addVersion id number v) ∨
        ∃ ids now, m = .deleteDocument id ids now ∧ d' = d.deleted now) := by
  cases h with
  | createDocument => exact ⟨d, Table.get?_insert_of_some hd, Or.inl rfl⟩
  | @addVersion other number v =>
      by_cases hid : id = other
      · subst hid
        refine ⟨d.revised number v, ?_, Or.inr (Or.inl ⟨number, v, rfl⟩)⟩
        show (w.documents.update _ _).get? _ = _
        rw [Table.get?_update_self, hd, Option.map_some]
      · exact ⟨d, (Table.get?_update_of_ne _ hid _).trans hd, Or.inl rfl⟩
  | @deleteDocument other ids now =>
      by_cases hid : id = other
      · subst hid
        refine ⟨d.deleted now, ?_, Or.inr (Or.inr ⟨ids, now, rfl, rfl⟩)⟩
        show (w.documents.update _ _).get? _ = _
        rw [Table.get?_update_self, hd, Option.map_some]
      · exact ⟨d, (Table.get?_update_of_ne _ hid _).trans hd, Or.inl rfl⟩
  | _ => exact ⟨d, hd, Or.inl rfl⟩

theorem World.frozen_of {id : UUID} {r : SignatureRequest} (hr : w.requests.get? id = some r)
    (hstatus : r.status = .open ∨ r.status = .completed) : w.frozen r.documentId = true :=
  Table.any_iff.2 ⟨id, r, hr, by simpa using hstatus⟩

/-- A document that is held by a request stays as it is, if the guards are kept. -/
theorem World.MovesTo.document (h : w.MovesTo host cfg services z m w') (hguarded : Guarded (.made m) w)
    {id : UUID} {r r' : SignatureRequest} (hr : w.requests.get? id = some r) (hr' : w'.requests.get? id = some r')
    (hstatus : r.status = .open ∨ r.status = .completed) (hpinned : w.Pinned r) :
    ∃ d, w'.documents.get? r.documentId = some d ∧ d.version = r.documentVersion ∧ d.sha256 = r.documentSha256 ∧
      (r.status = .open → r'.status ≠ .cancelled → d.deletedAt = none) := by
  obtain ⟨H, hallowed, -⟩ := h.allowed
  obtain ⟨d, hd, hversion, hsha, hlive⟩ := hpinned hstatus
  obtain ⟨d', hd', hcase⟩ := hallowed.documents hd
  have hget : w'.documents.get? r.documentId = some d' :=
    (congrArg (fun a : Archive => a.documents.get? r.documentId) h.archive).trans hd'
  refine ⟨d', hget, ?_⟩
  rcases hcase with rfl | ⟨number, v, rfl⟩ | ⟨ids, now, rfl, rfl⟩
  · exact ⟨hversion, hsha, fun ho _ => hlive ho⟩
  · -- A request holds the document.
    have hfrozen : w.frozen r.documentId = false := hguarded
    rw [World.frozen_of hr hstatus] at hfrozen
    exact absurd hfrozen (by simp)
  · refine ⟨hversion, hsha, fun ho hne => ?_⟩
    cases hallowed with
    | deleteDocument lock hdoc active =>
        have hactive : w.inProgress r.documentId id = true := by simp [World.inProgress, hr, ho]
        have hrequest : w'.requests.get? id = some r.cancelled := by
          refine (congrArg (fun a : Archive => a.requests.get? id) h.archive).trans ?_
          simp [Move.apply, Move.onRequests, hr, (active id).2 hactive]
        obtain rfl := Option.some.inj (hr'.symm.trans hrequest)
        exact absurd rfl hne

/-- One move. -/
theorem World.MovesTo.pinned (h : w.MovesTo host cfg services z m w') (hguarded : Guarded (.made m) w)
    (hw : ∀ id r, w.requests.get? id = some r → w.Pinned r) {id : UUID} {r' : SignatureRequest}
    (hr' : w'.requests.get? id = some r') : w'.Pinned r' := by
  rcases (h.sliceStep id).request hr' with ⟨-, -, hdraft⟩ | ⟨r, hr, hbecomes⟩
  · rintro (hstatus | hstatus) <;> rw [hdraft] at hstatus <;> exact absurd hstatus (by simp)
  · have hr : w.requests.get? id = some r := hr
    have held := h.document hguarded hr hr'
    cases hbecomes with
    | same =>
        intro hstatus
        obtain ⟨d, hd, hversion, hsha, hlive⟩ := held hstatus (hw id _ hr)
        exact ⟨d, hd, hversion, hsha, fun ho => hlive ho (by simp [ho])⟩
    | linked =>
        intro hstatus
        obtain ⟨d, hd, hversion, hsha, hlive⟩ := held hstatus (hw id r hr)
        exact ⟨d, hd, hversion, hsha, fun ho => hlive ho (by rw [ho]; simp)⟩
    | opened hdraft =>
        intro _
        obtain ⟨H, hallowed, -⟩ := h.allowed
        cases hallowed with
        | openRequest lock request status signers document =>
            obtain rfl := Option.some.inj (hr.symm.trans request)
            obtain ⟨d, hd⟩ := Option.ne_none_iff_exists'.1 document
            obtain ⟨hget, hdeleted⟩ := liveDocument_eq_some.1 hd
            have hpinned := hguarded r hr
            simp only [World.asPinned, hget, Option.any_some, Bool.and_eq_true, decide_eq_true_eq] at hpinned
            refine ⟨d, ?_, hpinned.1, hpinned.2, fun _ => hdeleted⟩
            exact (congrArg (fun a : Archive => a.documents.get? r.documentId) h.archive).trans hget
    | cancelled => rintro (hstatus | hstatus) <;> exact absurd hstatus (by simp [SignatureRequest.cancelled])
    | completed about status completes =>
        intro _
        obtain ⟨d, hd, hversion, hsha, -⟩ := held (Or.inl status) (hw id r hr)
        exact ⟨d, hd, hversion, hsha, fun ho => absurd ho (by simp [SignatureRequest.completed])⟩

theorem guarded_of_skewFree (h : ∀ x ∈ steps, skewFree x = true) :
    ∀ x ∈ steps, (workflowProtocol host cfg services ⟨False, False, True, Guarded⟩).Meets x.1 x.2 := by
  intro x hx point act hex
  have hfree := h x hx
  unfold skewFree at hfree
  rw [hex] at hfree
  show Guarded point x.1.shared
  cases point with
  | made m =>
      cases m with
      | openRequest id mode =>
          intro r hr
          simpa [hr] using hfree
      | addVersion id number v => simpa [Guarded] using hfree
      | _ => trivial
  | _ => trivial

/-- **A request freezes its document.** In every state that the workflow reaches from an empty archive, as
    long as no commit finds that what its guard read is no longer so. -/
theorem document_pinned (hrun : Run (workflowRuns host cfg services (anyCircumstances B)) Y steps Z)
    (hstart : Y.sessions = []) (hempty : Y.shared.toArchive = .empty) (hfree : ∀ x ∈ steps, skewFree x = true)
    (id : UUID) (r : SignatureRequest) (hr : Z.shared.requests.get? id = some r) : Z.shared.Pinned r := by
  refine workflow_induct (z := ⟨False, False, True, Guarded⟩) hrun hstart (guarded_of_skewFree hfree)
    (motive := fun _ w => ∀ id r, w.requests.get? id = some r → w.Pinned r) ?_ ?_ ?_ id r hr
  · intro id r hr
    have hrequests : Y.shared.requests = ∅ := congrArg Archive.requests hempty
    rw [hrequests] at hr
    exact absurd hr (by simp)
  · intro _ w w' ih hrests id r hr
    have hrequests : w'.requests = w.requests := congrArg Archive.requests hrests.archive
    have hdocuments : w'.documents = w.documents := congrArg Archive.documents hrests.archive
    rw [hrequests] at hr
    unfold World.Pinned
    rw [hdocuments]
    exact ih id r hr
  · intro _ w w' m ih hmoves id r hr
    exact hmoves.pinned hmoves.cond ih hr

end Runs

/-- A request is signed, one statement after the other. -/
theorem document_pinned_leaseSigned :
    ∃ steps Z, Run (workflowRuns sampleHost sampleSettings sampleServices (anyCircumstances SampleBytes))
        emptyWorkspace steps Z ∧ (Z.shared.requests.get? 20).map SignatureRequest.status = some .completed ∧
      ∀ id r, Z.shared.requests.get? id = some r → Z.shared.Pinned r := by
  obtain ⟨steps, Z, hrun, hp⟩ := exists_script sampleHost sampleSettings sampleServices (Y := emptyWorkspace)
    (anyCircumstances SampleBytes) (serial leaseSigned)
    (p := fun steps Z => steps.all skewFree &&
      (Z.shared.requests.get? 20).map SignatureRequest.status = some .completed) (by decide +kernel)
  obtain ⟨hfree, hstatus⟩ := Bool.and_eq_true_iff.1 hp
  exact ⟨steps, Z, hrun, of_decide_eq_true hstatus, document_pinned hrun rfl rfl (List.all_eq_true.1 hfree)⟩

/-- The author uploads another version. -/
def reviseLease : WorkflowCall SampleBytes :=
  managed (.addVersion "10" ⟨"lease.pdf", "application/pdf", "author@x", .pdf ⟨["page", "page"], []⟩⟩ 50)

/-- The request is about to be opened when another version is added. -/
def leaseRevisedUnderway : Script SampleBytes :=
  serial (leaseOpened.take 3) ++ .inl (managed (.openRequest "20" .evidence)) :: List.replicate 13 (.inr 3) ++
    .inl reviseLease :: List.replicate 16 (.inr 4) ++ [.inr 3]

/-- Without the condition an open request can be left behind by its document. -/
theorem not_document_pinned :
    ¬∀ steps Z, Run (workflowRuns sampleHost sampleSettings sampleServices (anyCircumstances SampleBytes))
        emptyWorkspace steps Z → ∀ id r, Z.shared.requests.get? id = some r → Z.shared.Pinned r := by
  intro hall
  obtain ⟨steps, Z, hrun, hp⟩ := exists_script sampleHost sampleSettings sampleServices (Y := emptyWorkspace)
    (anyCircumstances SampleBytes) leaseRevisedUnderway
    (p := fun _ Z => (Z.shared.requests.get? 20).any fun r => r.status = .open && !Z.shared.asPinned r)
    (by decide +kernel)
  obtain ⟨r, hr, hp⟩ := (Option.any_eq_true _ _).1 hp
  obtain ⟨hopen, hmoved⟩ := Bool.and_eq_true_iff.1 hp
  obtain ⟨d, hd, hversion, hsha, -⟩ := hall steps Z hrun 20 r hr (Or.inl (of_decide_eq_true hopen))
  simp [World.asPinned, hd, hversion, hsha] at hmoved

end Rubrica
