import Rubrica.Signatures.Frozen
import Rubrica.Signatures.Storing

set_option autoImplicit false

/-! # What is signed is what was pinned

A request pins a document, a version of it and a hash, a signature records a hash, and the bytes that are
stamped come from the store. All of them agree for every signature on record (`Signing.Faithful`), in any
interleaving and whatever happens to the store: a signing whose version or bytes do not agree with the pin is
not made, and leaves nothing. -/

namespace Rubrica

open Transactions

variable {B Page β : Type}

/-! ## Recorded signatures -/

/-- The request of a signing, the version it pins, the signature and the bytes that were stamped all have one
    hash. -/
structure Signing.Faithful (host : Host B Page) (x : Signing B) (r : SignatureRequest) (v : DocumentVersion)
    (w : World B) : Prop where
  request : w.requests.get? x.request = some r
  version : w.versions.get? (r.documentId, r.documentVersion) = some v
  signature : x.signature.documentSha256 = r.documentSha256
  hash : v.sha256 = r.documentSha256
  original : host.sha256 x.original = r.documentSha256
  generated : generateSignedPdf host x.original x.stamps x.metadata = .ok x.generated

section Runs

variable {host : Host B Page} {cfg : Settings} {services : SigningServices B} {z : Circumstances B}
  {Y Z : WorkflowSystem B} {steps : List (WorkflowStep B)} {w w' : World B} {m : Move B} {id : UUID}
  {r : SignatureRequest}

/-- A move keeps what a request pins. -/
theorem World.MovesTo.pin (h : w.MovesTo host cfg services z m w') (hr : w.requests.get? id = some r) :
    ∃ r', w'.requests.get? id = some r' ∧ r'.pin = r.pin := by
  have hstep := h.sliceStep id
  obtain ⟨r', hr', -⟩ := hstep.keeps.status r hr
  refine ⟨r', hr', ?_⟩
  rcases hstep.request hr' with ⟨hnone, -, -⟩ | ⟨r0, hr0, hbecomes⟩
  · exact absurd (hnone.symm.trans hr) (by simp)
  · obtain rfl := Option.some.inj (hr0.symm.trans hr)
    exact hbecomes.pin

theorem World.MovesTo.version (h : w.MovesTo host cfg services z m w') {k : UUID × Nat} {v : DocumentVersion}
    (hv : w.versions.get? k = some v) : w'.versions.get? k = some v :=
  (congrArg (fun a : Archive => a.versions.get? k) h.archive).trans (Move.version_apply hv)

/-- A step keeps what requests pin, and the versions. -/
theorem pinned_step (hrun : Run (workflowRuns host cfg services z) Y steps Z) (hidle : Y.sessions = [])
    (hmeets : ∀ x ∈ steps, (workflowProtocol host cfg services z).Meets x.1 x.2) {x : WorkflowStep B}
    (hx : x ∈ steps) {X' : WorkflowSystem B} (hstep : x.1.step x.2 = some X') :
    (∀ id r, x.1.shared.requests.get? id = some r → ∃ r', X'.shared.requests.get? id = some r' ∧ r'.pin = r.pin) ∧
      ∀ k v, x.1.shared.versions.get? k = some v → X'.shared.versions.get? k = some v := by
  rcases workflow_step hrun hidle hmeets hx hstep with ⟨-, hrests⟩ | ⟨m, -, hmoves⟩
  · refine ⟨fun id r hr => ⟨r, ?_, rfl⟩, fun k v hv => ?_⟩
    · exact (congrArg (fun a : Archive => a.requests.get? id) hrests.archive).trans hr
    · exact (congrArg (fun a : Archive => a.versions.get? k) hrests.archive).trans hv
  · exact ⟨fun id r hr => hmoves.pin hr, fun k v hv => hmoves.version hv⟩

/-- What a request pins at any time of a run it pins at its end, and the versions of that time are there. -/
theorem pinned_later (hrun : Run (workflowRuns host cfg services z) Y steps Z) (hidle : Y.sessions = [])
    (hmeets : ∀ x ∈ steps, (workflowProtocol host cfg services z).Meets x.1 x.2) :
    ∀ x ∈ steps, (∀ id r, x.1.shared.requests.get? id = some r →
        ∃ r', Z.shared.requests.get? id = some r' ∧ r'.pin = r.pin) ∧
      ∀ k v, x.1.shared.versions.get? k = some v → Z.shared.versions.get? k = some v := by
  induction hrun with
  | nil => simp
  | @snoc steps X X' l before allowed taken ih =>
      have hlast := pinned_step (before.snoc allowed taken) hidle hmeets (x := (X, l)) (by simp) taken
      intro x hx
      rcases List.mem_append.1 hx with hx | hx
      · obtain ⟨hrequests, hversions⟩ := ih (fun x hx => hmeets x (List.mem_append_left _ hx)) x hx
        refine ⟨fun id r hr => ?_, fun k v hv => hlast.2 k v (hversions k v hv)⟩
        obtain ⟨r', hr', hpin'⟩ := hrequests id r hr
        obtain ⟨r'', hr'', hpin''⟩ := hlast.1 id r' hr'
        exact ⟨r'', hr'', hpin''.trans hpin'⟩
      · obtain rfl := List.mem_singleton.1 hx
        exact hlast

/-- A faithful signing stays so. -/
theorem Signing.Faithful.later {x : Signing B} {v : DocumentVersion} (h : x.Faithful host r v w)
    (hrequest : ∃ r', w'.requests.get? x.request = some r' ∧ r'.pin = r.pin)
    (hversion : ∀ k v, w.versions.get? k = some v → w'.versions.get? k = some v) :
    ∃ r', x.Faithful host r' v w' := by
  obtain ⟨r', hr', hpin⟩ := hrequest
  obtain ⟨hdocument, hnumber, hsha⟩ : r'.documentId = r.documentId ∧ r'.documentVersion = r.documentVersion ∧
      r'.documentSha256 = r.documentSha256 := by simpa [SignatureRequest.pin] using hpin
  refine ⟨r', hr', ?_, ?_, ?_, ?_, h.generated⟩
  · rw [hdocument, hnumber]
    exact hversion _ _ h.version
  · rw [hsha, h.signature]
  · rw [hsha, h.hash]
  · rw [hsha, h.original]

/-- Every signature on record comes from a faithful signing. -/
def Recorded (host : Host B Page) (ms : List (Move B)) (w : World B) : Prop :=
  ∀ id signature, w.signatures.get? id = some signature →
    ∃ x r v, Move.sign x ∈ ms ∧ x.id = id ∧ x.signature = signature ∧ x.Faithful host r v w

theorem recorded_of_run (hrun : Run (workflowRuns host cfg services z) Y steps Z) (hidle : Y.sessions = [])
    (hmeets : ∀ x ∈ steps, (workflowProtocol host cfg services z).Meets x.1 x.2)
    (hempty : Y.shared.toArchive = .empty) : Recorded host (movesOf steps) Z.shared := by
  refine workflow_induct hrun hidle hmeets (motive := Recorded host) ?_ (fun ms w w' ih hrests => ?_)
    fun ms w w' m ih hmoves => ?_
  · intro id signature hsignature
    have hnone : Y.shared.signatures = ∅ := congrArg Archive.signatures hempty
    rw [hnone] at hsignature
    exact absurd hsignature (by simp)
  · intro id signature hsignature
    have hold : w.signatures.get? id = some signature :=
      (congrArg (fun a : Archive => a.signatures.get? id) hrests.archive).symm.trans hsignature
    obtain ⟨x, r, v, hx, hid, hsig, hfaithful⟩ := ih id signature hold
    obtain ⟨r', hr'⟩ : ∃ r', x.Faithful host r' v w' := hfaithful.later
      ⟨r, (congrArg (fun a : Archive => a.requests.get? x.request) hrests.archive).trans hfaithful.request, rfl⟩
      fun k v hv => (congrArg (fun a : Archive => a.versions.get? k) hrests.archive).trans hv
    exact ⟨x, r', v, hx, hid, hsig, hr'⟩
  · intro id signature hsignature
    have hnow : (m.onSignatures w.signatures).get? id = some signature :=
      (congrArg (fun a : Archive => a.signatures.get? id) hmoves.archive).symm.trans hsignature
    have hlater : ∀ (x : Signing B) r v, x.Faithful host r v w → ∃ r', x.Faithful host r' v w' :=
      fun x r v hx => hx.later (hmoves.pin hx.request) fun _ _ => hmoves.version
    have hold : w.signatures.get? id = some signature → ∃ x r v, Move.sign x ∈ ms ++ [m] ∧ x.id = id ∧
        x.signature = signature ∧ x.Faithful host r v w' := by
      intro hs
      obtain ⟨x, r, v, hx, hid, hsig, hfaithful⟩ := ih id signature hs
      obtain ⟨r', hr'⟩ := hlater x r v hfaithful
      exact ⟨x, r', v, List.mem_append_left _ hx, hid, hsig, hr'⟩
    cases m with
    | sign x =>
        rcases Table.get?_insert_eq_some hnow with hs | ⟨rfl, rfl⟩
        · exact hold hs
        · obtain ⟨H, hallowed, -⟩ := hmoves.allowed
          cases hallowed with
          | @sign _ r s allowed =>
              obtain ⟨v, hv, hhash⟩ := allowed.version
              have hcomposed := allowed.composed
              obtain ⟨r', hr'⟩ := hlater x r v ⟨allowed.request, hv, hcomposed.document, hhash, hcomposed.original,
                hcomposed.generated⟩
              exact ⟨x, r', v, by simp, rfl, rfl, hr'⟩
    | _ => exact hold hnow

end Runs

/-! ## Damage -/

/-- There is nothing to sign: the version that is pinned is not on record, or has another hash, or its bytes
    are not in the store, or have another digest. `row` is the version's row. -/
def Damaged (host : Host B Page) (r : SignatureRequest) (row : Option DocumentVersion) (w : World B) : Prop :=
  ∀ v, row = some v → v.sha256 = r.documentSha256 → ∀ content, w.objects v.storageKey = some content →
    host.sha256 content ≠ r.documentSha256

/-- The session has signed another request, and done nothing else. -/
inductive SignedOther (id : UUID) : List (WorkflowDeed B) → Prop where
  | signed {put : WorkflowDeed B} {x : Signing B} {v v' : World B} (other : x.request ≠ id) :
      SignedOther id [put, ⟨.made (.sign x), v, v'⟩]

section Ensures

variable {host : Host B Page} {cfg : Settings} {services : SigningServices B} {caller : Caller}
  {J : World B → Prop} {F : WorkflowPoint B → Prop} {id : UUID} {r : SignatureRequest}
  {row : Option DocumentVersion} {u : World B → World B} {l : List (WorkflowDeed B)}
  {Q : β → (World B → World B) → List (WorkflowDeed B) → Prop}
  {E : Failure → (World B → World B) → List (WorkflowDeed B) → Prop}

/-- What the originals of requests are read from. -/
def World.sources (w : World B) : Archive × (StorageKey → Option B) :=
  (w.toArchive, w.objects)

theorem Keeps.archive (h : Keeps World.sources u) (w : World B) : (u w).toArchive = w.toArchive :=
  congrArg Prod.fst (h w)

theorem Keeps.objects (h : Keeps World.sources u) (w : World B) : (u w).objects = w.objects :=
  congrArg Prod.snd (h w)

/-- A token leads to a request that is there. -/
theorem ensures_resolveRequest {token authUserId : String} {allowCompleted : Bool}
    {f : (UUID × Signer) × (UUID × SignatureRequest) → Workflow B β} (hu : Keeps World.sources u)
    (hE : ∀ e v, E e v l)
    (hf : ∀ found v w, Keeps World.sources v → J w → w.requests.get? found.2.1 = some found.2.2 →
      (f found).ensures J F Q E v l) :
    (resolveRequest host token authUserId true allowCompleted none none >>= f).ensures J F Q E u l := by
  refine Code.ensures_bind.2 (Code.ensures_bind.2 (Code.ensures_bind.2
    (Code.ensures_selectLocking (fun w hw => ?_) (hE _ _))))
  refine Code.ensures_orRaise (fun request hrequest => ?_) fun _ => hE _ _
  have hrow : w.requests.get? request.1 = some request.2 := by
    have hmem := (Table.mem_select_iff.1 (List.mem_of_mem_head? hrequest)).1
    rwa [congrArg Archive.requests (hu.archive w)] at hmem
  refine ensures_beside (local_selectRow _ _ _) hu hE fun found v1 h1 => ?_
  cases found with
  | none =>
      show (refuseStranger request.1 authUserId : Workflow B _).ensures J F _ E v1 l
      exact ⟨fun _ => hE _ _, fun _ _ => ⟨fun _ => hE _ _, fun _ _ => hE _ _⟩⟩
  | some signer =>
      refine ensures_beside (local_admitSigner _ _ _) h1 hE fun _ v2 h2 => ?_
      exact hf _ v2 w h2 hw hrow

/-- The version that is frozen is on record, with the hash of the request. -/
theorem ensures_frozenVersion {request : SignatureRequest} {f : DocumentVersion × Document → Workflow B β}
    (hu : Keeps World.sources u) (hE : ∀ e v, E e v l)
    (hf : ∀ found v w, Keeps World.sources v → J w →
      w.versions.get? (request.documentId, request.documentVersion) = some found.1 →
      found.1.sha256 = request.documentSha256 → (f found).ensures J F Q E v l) :
    (frozenVersion request >>= f).ensures J F Q E u l := by
  refine Code.ensures_bind.2 (Code.ensures_bind.2 (Code.ensures_select (fun w hw => ?_) (hE _ _)))
  refine Code.ensures_bind.2 (Code.ensures_orRaise (fun version hversion => ?_) fun _ => hE _ _)
  obtain ⟨hrow, hsha⟩ := Option.filter_eq_some_iff.1 hversion
  have hrow : w.versions.get? (request.documentId, request.documentVersion) = some version := by
    rwa [congrArg Archive.versions (hu.archive w)] at hrow
  refine ensures_beside (local_query _) hu hE fun found v1 h1 => ?_
  refine ensures_beside (Code.local_orRaise _ _) h1 hE fun document v2 h2 => ?_
  exact hf _ v2 w h2 hw hrow (of_decide_eq_true hsha)

/-- The original is what the store has under the key of its version. -/
theorem ensures_originalOf {request : SignatureRequest} {version : DocumentVersion}
    {certificate : Option CertificateGrant} {f : B → Workflow B β} (hu : Keeps World.sources u)
    (hE : ∀ e v, E e v l)
    (hf : ∀ original v w, Keeps World.sources v → J w → w.objects version.storageKey = some original →
      host.sha256 original = request.documentSha256 → (f original).ensures J F Q E v l) :
    (originalOf host request version certificate >>= f).ensures J F Q E u l := by
  refine Code.ensures_bind.2 (Code.ensures_bind.2 (Code.ensures_bind.2
    (Code.ensures_select (fun w hw => ?_) (hE _ _))))
  refine Code.ensures_orRaise (fun original horiginal => ?_) fun _ => hE _ _
  rw [hu.objects w] at horiginal
  refine Code.ensures_bind.2 (Code.ensures_require (fun hhash => ?_) fun _ => hE _ _)
  cases host.validatePdf original version.originalFilename with
  | some e => exact hE _ _
  | none =>
      refine Code.ensures_bind.2 (Code.ensures_require (fun _ => ?_) fun _ => hE _ _)
      exact hf original u w hu hw horiginal hhash

/-- A call that finds the request pinned as it is, and nothing to sign for it, signs another one or leaves
    nothing. -/
theorem ensures_sign_damaged (hF : ∀ key, ¬F (.discarding key))
    (hpin : ∀ w, J w → ∀ r', w.requests.get? id = some r' → r'.pin = r.pin)
    (hrow : ∀ w, J w → ∀ v, w.versions.get? (r.documentId, r.documentVersion) = some v → row = some v)
    (hdamaged : ∀ w, J w → Damaged host r row w) (call : SignCall) (names : SigningNames) :
    (sign host cfg services caller call names).ensures J F (fun _ _ l => SignedOther id l)
      (fun _ _ l => LeavesNothing l) (fun w => w) [] := by
  unfold sign
  split
  · exact .nothing fun d hd => nomatch hd
  have none : HasDoneNothing ([] : List (WorkflowDeed B)) := fun d hd => nomatch hd
  refine Code.ensures_mono (ensures_storingMove (P := fun _ m => ∃ y, m = .sign y ∧ y.request ≠ id) hF
    (ensures_resolveRequest (fun _ => rfl) (fun _ _ => none) fun found v1 w1 h1 hw1 hrequest => ?_)) ?_
    fun _ _ _ h => h
  · refine ensures_beside (Code.local_require _ _) h1 (fun _ _ => none) fun _ v2 h2 => ?_
    refine ensures_beside (local_requireCertificate _ _ _) h2 (fun _ _ => none) fun _ v3 h3 => ?_
    refine ensures_frozenVersion h3 (fun _ _ => none) fun frozen v4 w4 h4 hw4 hversion hsha => ?_
    refine ensures_beside (local_query _) h4 (fun _ _ => none) fun tenant v5 h5 => ?_
    refine ensures_beside (local_requireRepresentation _ _) h5 (fun _ _ => none) fun _ v6 h6 => ?_
    refine ensures_beside (local_consumeSignature (fun _ _ _ => rfl) (fun _ _ _ => rfl) _) h6 (fun _ _ => none)
      fun countedAt v7 h7 => ?_
    refine ensures_originalOf h7 (fun _ _ => none) fun original v8 w8 h8 hw8 hcontent hhash => ?_
    have hother : found.2.1 ≠ id := by
      intro hid
      rw [hid] at hrequest
      -- The pins of the request are those that are damaged.
      obtain ⟨hdocument, hnumber, hpinned⟩ : found.2.2.documentId = r.documentId ∧
          found.2.2.documentVersion = r.documentVersion ∧ found.2.2.documentSha256 = r.documentSha256 := by
        simpa [SignatureRequest.pin] using hpin w1 hw1 _ hrequest
      rw [hdocument, hnumber] at hversion
      rw [hpinned] at hsha hhash
      exact hdamaged w8 hw8 frozen.1 (hrow w4 hw4 _ hversion) hsha original hcontent hhash
    refine Code.ensures_mono (ensures_composed (fun w => h8.objects w) _ _ _ _ _ _ _ _) ?_ fun _ _ _ h => h
    rintro x v l ⟨hstored, hafter⟩
    refine ⟨hstored, Code.ensures_mono hafter ?_ fun _ _ _ h => h⟩
    rintro a v' l' ⟨hl, y, hmade, hy, -⟩
    exact ⟨hl, _, hmade, y, rfl, hy ▸ hother⟩
  · rintro a v l ⟨key, content, w, m, t, t', -, ⟨y, rfl, hy⟩, rfl⟩
    exact .signed hy

end Ensures

/-! ## Runs -/

/-- Pins never change, every signature on record is faithful to them, and what is damaged is not signed. -/
structure OriginalsPinned (host : Host B Page) (cfg : Settings) (services : SigningServices B)
    (steps : List (WorkflowStep B)) (Z : WorkflowSystem B) : Prop where
  pins : ∀ x ∈ steps, ∀ id r, x.1.shared.requests.get? id = some r →
    ∃ r', Z.shared.requests.get? id = some r' ∧ r'.pin = r.pin
  recorded : Recorded host (movesOf steps) Z.shared
  damaged : ∀ i, (∀ x ∈ steps, ∀ base code, x.2 = .start base code → x.1.sessions.length = i →
      ∃ caller call names, code = (WorkflowCall.sign caller call names).run host cfg services) →
    ∀ id r, Z.shared.requests.get? id = some r →
      Undisturbed (Damaged host r (Z.shared.versions.get? (r.documentId, r.documentVersion)))
        (fun point => ∀ key, point ≠ .discarding key) i steps →
      (Z.hasReturned i = true → SignedOther id (deedsOf i steps)) ∧
        (Z.hasRaised i = true → LeavesNothing (deedsOf i steps))

section Runs

variable {host : Host B Page} {cfg : Settings} {services : SigningServices B} {Y Z : WorkflowSystem B}
  {steps : List (WorkflowStep B)}

/-- **What is signed is what was pinned**, in every run of the workflow from an empty archive. -/
theorem originals_pinned (hrun : Run (workflowRuns host cfg services (anyCircumstances B)) Y steps Z)
    (hidle : Y.sessions = []) (hempty : Y.shared.toArchive = .empty) :
    OriginalsPinned host cfg services steps Z := by
  have hmeets : ∀ x ∈ steps, (workflowProtocol host cfg services (anyCircumstances B)).Meets x.1 x.2 :=
    fun _ _ _ _ _ => trivial
  have hlater := pinned_later hrun hidle hmeets
  refine ⟨fun x hx => (hlater x hx).1, recorded_of_run hrun hidle hmeets hempty, fun i hcall id r hr hi => ?_⟩
  -- In every state of the run the request has the pins of the end, and the versions are among those of the end.
  have hknown : Undisturbed (fun w => (∀ r', w.requests.get? id = some r' → r'.pin = r.pin) ∧
      (∀ v, w.versions.get? (r.documentId, r.documentVersion) = some v →
        Z.shared.versions.get? (r.documentId, r.documentVersion) = some v) ∧
      Damaged host r (Z.shared.versions.get? (r.documentId, r.documentVersion)) w)
      (fun point => ∀ key, point ≠ .discarding key) i steps := by
    refine ⟨fun x hx hrun => ⟨fun r' hr' => ?_, fun v => (hlater x hx).2 _ v, hi.holds x hx hrun⟩, hi.fails, hi.lives⟩
    obtain ⟨r'', hr'', hpin⟩ := (hlater x hx).1 id r' hr'
    obtain rfl := Option.some.inj (hr''.symm.trans hr)
    exact hpin.symm
  refine hrun.ended hidle hknown (Q := SignedOther id) (E := LeavesNothing) fun x hx base code hcode hlen => ?_
  obtain ⟨caller, call, names, rfl⟩ := hcall x hx base code hcode hlen
  exact Code.ensures_seq (ensures_sign_damaged (fun key h => h key rfl) (fun w h => h.1) (fun w h => h.2.1)
    (fun w h => h.2.2) call names) (fun _ _ _ h => h) fun _ _ _ h => h

end Runs

/-! ### Runs of a lease -/

instance (host : Host B Page) (r : SignatureRequest) (row : Option DocumentVersion) (w : World B) :
    Decidable (Damaged host r row w) :=
  decidable_of_iff ((row.all fun v => v.sha256 = r.documentSha256 → (w.objects v.storageKey).all fun content =>
    host.sha256 content ≠ r.documentSha256) = true) (by simp only [Damaged, Option.all_eq_true, decide_eq_true_eq])

/-- Other bytes are in the place of the objects. -/
def World.forged (content : B) (w : World B) : World B :=
  { w with objects := fun _ => some content }

/-- The signer calls once. -/
def signForged : Script SampleBytes :=
  .inl signLease :: List.replicate 11 (.inr 5)

/-- The signer signs, and the signature is on record; or the bytes in the store are replaced before the signer
calls, and the call leaves nothing. -/
theorem originals_pinned_leaseSigned :
    (∃ steps Z, Run (workflowRuns sampleHost sampleSettings sampleServices (anyCircumstances SampleBytes))
        emptyWorkspace steps Z ∧ (Z.shared.signatures.get? 40).isSome = true ∧
      OriginalsPinned sampleHost sampleSettings sampleServices steps Z) ∧
    ∃ steps Z, Run (workflowRuns sampleHost sampleSettings sampleServices (anyCircumstances SampleBytes))
        emptyWorkspace steps Z ∧ (Z.shared.requests.get? 20).isSome = true ∧ Z.hasRaised 5 = true ∧
      LeavesNothing (deedsOf 5 steps) := by
  constructor
  · obtain ⟨steps, Z, hrun, hp⟩ := exists_script sampleHost sampleSettings sampleServices (Y := emptyWorkspace)
      (anyCircumstances SampleBytes) (serial leaseSigned)
      (p := fun _ Z => (Z.shared.signatures.get? 40).isSome) (by decide +kernel)
    exact ⟨steps, Z, hrun, hp, originals_pinned hrun rfl rfl⟩
  · let forged : World SampleBytes → World SampleBytes := World.forged (.text "forged")
    obtain ⟨past, X, hbefore, hp⟩ := exists_script sampleHost sampleSettings sampleServices (Y := emptyWorkspace)
      (anyCircumstances SampleBytes) (serial leaseOpened)
      (p := fun past X => past.all (spares 5) &&
        ((System.mk (forged X.shared) X.sessions).replay (signForged.map
          (labelOf sampleHost sampleSettings sampleServices))).any fun y => drawsFresh signForged y.1 &&
            (y.2.hasRaised 5 && (y.2.shared.requests.get? 20).any fun r => y.1.all fun x =>
              Damaged sampleHost r (y.2.shared.versions.get? (r.documentId, r.documentVersion)) x.1.shared))
      (by decide +kernel)
    obtain ⟨hspares, hreplay⟩ := Bool.and_eq_true_iff.1 hp
    obtain ⟨future, Z, hafter, hlabels, hp⟩ := exists_labelled sampleHost sampleSettings sampleServices
      (anyCircumstances SampleBytes) signForged (p := fun future Z => Z.hasRaised 5 &&
        (Z.shared.requests.get? 20).any fun r => future.all fun x =>
          Damaged sampleHost r (Z.shared.versions.get? (r.documentId, r.documentVersion)) x.1.shared) hreplay
    obtain ⟨hraised, hp⟩ := Bool.and_eq_true_iff.1 hp
    obtain ⟨r, hr, hdamaged⟩ := (Option.any_eq_true _ _).1 hp
    have hpast : ∀ x ∈ past ++ [(X, .env (forged X.shared))], spares 5 x = true := by
      intro x hx
      rcases List.mem_append.1 hx with hx | hx
      · exact List.all_eq_true.1 hspares x hx
      · obtain rfl := List.mem_singleton.1 hx
        rfl
    have hrun := (hbefore.snoc (l := .env (forged X.shared)) ⟨rfl, le_rfl, fun h => h.elim, fun _ => rfl⟩ rfl).append
      hafter
    have hpinned := originals_pinned hrun rfl rfl
    refine ⟨_, Z, hrun, by rw [hr, Option.isSome_some], hraised,
      (hpinned.damaged 5 (fun x hx base code hcode hlen => ?_) 20 r hr ?_).2 hraised⟩
    · have hx : x ∈ future := (List.mem_append.1 hx).resolve_left fun hx =>
        not_start_of_spares (hpast x hx) hcode hlen
      obtain ⟨call, hcall, rfl⟩ := started_of_labels hlabels x hx base code hcode
      obtain rfl : call = signLease := by simpa [signForged] using hcall
      exact ⟨_, _, _, rfl⟩
    · exact Undisturbed.spared hpast (undisturbed_of_labels hlabels fun x hx =>
        of_decide_eq_true (List.all_eq_true.1 hdamaged x hx))

end Rubrica
