import Rubrica.Signatures.Protocol

set_option autoImplicit false

/-! # Steps of the workflow

The beginnings and ends that operations share, as rules of the protocol: what a session knows once it has
locked a request or a document or resolved a token, and what it owes at its commit. -/

namespace Rubrica

open Transactions

variable {B Page α : Type}

/-- The writes of the session come to nothing yet. -/
def Same (w : World B) (x : Estate B) : Prop :=
  x = w.estate

/-- The writes of the session come to `M`, and then to a change of the archive. -/
def Then (f : Archive → Archive) (M : World B → Estate B → Prop) (w : World B) (x : Estate B) : Prop :=
  ∃ x', M w x' ∧ x = { x' with
    archive := f x'.archive }

/-- The writes of the session come to the move. -/
def Makes (m : Move B) (w : World B) (x : Estate B) : Prop :=
  x = { w.estate with
    archive := m.apply w.toArchive }

/-! ## Slices -/

section Slices

variable {v w : World B} {id : UUID}

theorem signerOf_of_slice (h : v.toArchive.slice id = w.toArchive.slice id) (subject : String) :
    v.signerOf id subject = w.signerOf id subject := by
  have hsigners : v.signersOf id = w.signersOf id := congrArg Slice.signers h
  have hfilter : ∀ u : World B, u.signerOf id subject =
      ((u.signersOf id).filter fun x => x.2.authUserId = subject).head? := by
    intro u
    simp only [World.signerOf, Archive.signersOf, Table.select, List.filter_filter]
    refine congrArg List.head? (List.filter_congr fun x _ => ?_)
    rw [Bool.and_comm]
  rw [hfilter, hfilter, hsigners]

theorem signer_of_slice {signer : UUID} {s : Signer} (h : v.toArchive.slice id = w.toArchive.slice id)
    (hown : s.signatureRequestId = id) (hs : w.signers.get? signer = some s) : v.signers.get? signer = some s := by
  have hsigners : v.signersOf id = w.signersOf id := congrArg Slice.signers h
  have hmem : (signer, s) ∈ w.signersOf id := Table.mem_select_iff.2 ⟨hs, by simpa using hown⟩
  rw [← hsigners] at hmem
  exact (Table.mem_select_iff.1 hmem).1

theorem request_of_slice {σ : Slice} {r : SignatureRequest} (h : v.toArchive.slice id = σ)
    (hσ : σ.request = some r) : v.requests.get? id = some r :=
  (congrArg Slice.request h).trans hσ

end Slices

/-! ## Beginnings -/

section Rules

variable {host : Host B Page} {cfg : Settings} {services : SigningServices B} {z : Circumstances B}
  {D : World B → Prop} {K : Rights RowKey} {A : World B → Prop} {M : World B → Estate B → Prop}
  {c : Ctx (World B) RowKey} {w : World B} {Q : α → Ctx (World B) RowKey → World B → Prop}

theorem unseen_record (e : AuditEvent) : Protocol.Unseen World.estate fun w : World B => w.record e :=
  fun _ => rfl

theorem estate_pending (h : (workflowProtocol host cfg services z).Knows World.estate D K A Same c w) :
    (c.pending w).estate = w.estate :=
  h.pending w h.now

theorem archive_pending (h : (workflowProtocol host cfg services z).Knows World.estate D K A Same c w) :
    (c.pending w).toArchive = w.toArchive :=
  toArchive_of_estate (estate_pending h)

theorem liveRequest_congr {v : World B} (h : v.toArchive = w.toArchive) (id : UUID) :
    v.liveRequest id = w.liveRequest id := by
  have hrequests : v.requests = w.requests := congrArg Archive.requests h
  rw [World.liveRequest, World.liveRequest, hrequests]

theorem liveDocument_congr {v : World B} (h : v.toArchive = w.toArchive) (id : UUID) :
    v.liveDocument id = w.liveDocument id := by
  have hdocuments : v.documents = w.documents := congrArg Archive.documents h
  rw [World.liveDocument, World.liveDocument, hdocuments]

/-- What is known under the lock of a request. -/
abbrev LockedRequest (z : Circumstances B) (host : Host B Page) (cfg : Settings) (services : SigningServices B)
    (D : World B → Prop) (K : Rights RowKey) (A : World B → Prop) (id : UUID) (σ : Slice)
    (c : Ctx (World B) RowKey) (w : World B) : Prop :=
  (workflowProtocol host cfg services z).Knows World.estate D ((.request id, .exclusive) :: K)
    (fun v => A v ∧ v.toArchive.slice id = σ) Same c w

variable (hknows : (workflowProtocol host cfg services z).Knows World.estate D K A Same c w)

include hknows in
theorem wp_liveRequestLocked {id : UUID} {Q : SignatureRequest → Ctx (World B) RowKey → World B → Prop}
    (hQ : ∀ r σ c' w', r.deletedAt = none → σ.request = some r →
      LockedRequest z host cfg services D K A id σ c' w' → Q r c' w') :
    (workflowProtocol host cfg services z).wp (liveRequest id true) Q (fun _ _ w => D w) c w := by
  refine Protocol.wp_seq (Protocol.wp_knowingLock hknows (fun w1 h1 hrow => ?_) fun w1 k h1 hrow => ?_)
  · rw [Option.map_eq_none_iff.1 hrow]
    exact Protocol.wp_knowingOrRaise h1 fun x hx => absurd hx (by simp)
  obtain ⟨r, hr, rfl⟩ := Option.map_eq_some_iff.1 hrow
  rw [hr]
  rw [liveRequest_congr (archive_pending h1), World.liveRequest, Option.filter_eq_some_iff] at hr
  have hslice : (w1.toArchive.slice id).request = some r := hr.1
  have hnow := h1.take (m := .exclusive) (stable_slice (σ := w1.toArchive.slice id) List.mem_cons_self
    (by rw [hslice]; simp)) rfl
  refine Protocol.wp_knowingOrRaise hnow fun x hx => ?_
  obtain rfl := Option.some.inj hx
  exact hQ r _ _ w1 (by simpa using hr.2) hslice hnow

include hknows in
theorem wp_requestOfLocked {identifier : String}
    {Q : UUID × SignatureRequest → Ctx (World B) RowKey → World B → Prop}
    (hQ : ∀ id r σ c' w', r.deletedAt = none → σ.request = some r →
      LockedRequest z host cfg services D K A id σ c' w' → Q (id, r) c' w') :
    (workflowProtocol host cfg services z).wp (requestOf host identifier true) Q (fun _ _ w => D w) c w := by
  refine Protocol.wp_seq (Protocol.wp_knowingOrRaise hknows fun id _ => ?_)
  exact Protocol.wp_seq (wp_liveRequestLocked hknows fun r σ c' w' hlive hσ h =>
    Protocol.wp_pure (hQ id r σ c' w' hlive hσ h))

include hknows in
theorem wp_documentOfLocked {identifier : String}
    {Q : UUID × Document → Ctx (World B) RowKey → World B → Prop}
    (hQ : ∀ id d c' w', d.deletedAt = none →
      (workflowProtocol host cfg services z).Knows World.estate D ((.document id, .exclusive) :: K)
        (fun v => A v ∧ v.documents.get? id = some d) Same c' w' → Q (id, d) c' w') :
    (workflowProtocol host cfg services z).wp (documentOf host identifier true) Q (fun _ _ w => D w) c w := by
  refine Protocol.wp_seq (Protocol.wp_knowingOrRaise hknows fun id _ => ?_)
  refine Protocol.wp_seq (Protocol.wp_seq (Protocol.wp_knowingLock hknows (fun w1 h1 hrow => ?_)
    fun w1 k h1 hrow => ?_))
  · rw [Option.map_eq_none_iff.1 hrow]
    exact Protocol.wp_knowingOrRaise h1 fun x hx => absurd hx (by simp)
  obtain ⟨d, hd, rfl⟩ := Option.map_eq_some_iff.1 hrow
  rw [hd]
  rw [liveDocument_congr (archive_pending h1), liveDocument_eq_some] at hd
  have hnow := h1.take (m := .exclusive) (stable_document List.mem_cons_self) hd.1
  refine Protocol.wp_knowingOrRaise hnow fun x hx => ?_
  obtain rfl := Option.some.inj hx
  exact Protocol.wp_pure (hQ id d _ w1 hd.2 hnow)

/-- Taking an entry of a unique index: `L` is what lasts of the entry being free. -/
theorem wp_knowingClaim {entry : RowKey} {taken : World B → Bool} {L : World B → Prop}
    {Q : Unit → Ctx (World B) RowKey → World B → Prop}
    (h : (workflowProtocol host cfg services z).Knows World.estate D K A M c w)
    (hL : (workflowProtocol host cfg services z).Stable ((entry, .exclusive) :: K) L)
    (hfree : ∀ v, A v → taken (c.pending v) = false → L v)
    (hQ : ∀ c' w', (workflowProtocol host cfg services z).Knows World.estate D ((entry, .exclusive) :: K)
      (fun v => A v ∧ L v) M c' w' → Q () c' w') :
    (workflowProtocol host cfg services z).wp (claim entry taken) Q (fun _ _ w => D w) c w := by
  refine Protocol.wp_seq (Protocol.wp_knowingLock h (fun w1 h1 hrow => absurd hrow (by simp))
    fun w1 k h1 hrow => ?_)
  obtain rfl := Option.some.inj hrow
  refine Protocol.wp_require (fun hnot => ?_) fun _ => h1.raises w1 h1.now
  exact hQ _ w1 (h1.take hL (hfree w1 h1.now hnot))

/-- Checking a foreign key shares the row. -/
theorem wp_knowingRefer {row : RowKey} {there : World B → Bool}
    {Q : Unit → Ctx (World B) RowKey → World B → Prop}
    (h : (workflowProtocol host cfg services z).Knows World.estate D K A M c w)
    (hQ : ∀ c' w', (workflowProtocol host cfg services z).Knows World.estate D ((row, .shared) :: K) A M c' w' →
      Q () c' w') :
    (workflowProtocol host cfg services z).wp (referTo row there) Q (fun _ _ w => D w) c w := by
  refine Protocol.wp_seq (Protocol.wp_knowingLock h (fun w1 h1 hrow => ?_) fun w1 k h1 hrow => ?_)
  · refine Protocol.wp_require (fun hthere => ?_) fun _ => h1.raises w1 h1.now
    rw [hthere] at hrow
    exact absurd hrow (by simp)
  · refine Protocol.wp_require (fun hthere => ?_) fun _ => h1.raises w1 h1.now
    rw [hthere, if_pos rfl] at hrow
    obtain rfl := Option.some.inj hrow
    exact hQ _ w1 ((h1.take (m := .shared) (Protocol.stable_const _ True) trivial).refine
      (h1.stable.anti (List.subset_cons_self _ _)) h1.now fun v hv => ⟨hv, trivial⟩)

end Rules

/-! ## Transactions and commits -/

section Commits

variable {host : Host B Page} {cfg : Settings} {services : SigningServices B} {z : Circumstances B}
  {K : Rights RowKey} {A : World B → Prop} {c : Ctx (World B) RowKey} {w : World B} {m : Move B}

/-- A transaction of a session that knows `A` of the names it drew. -/
theorem wp_workflowTransaction {base : Rights RowKey} {body : Workflow B (α × WorkflowPoint B)}
    (hA : (workflowProtocol host cfg services z).Stable base A) (hw : A w)
    (hbody : ∀ c, (workflowProtocol host cfg services z).Knows World.estate (fun _ => True) base A Same c w →
      (workflowProtocol host cfg services z).wp body
        (fun r c w => (workflowProtocol host cfg services z).CommitsAt r.2 (fun _ => True) (fun _ _ => True) c w)
        (fun _ _ _ => True) c w) :
    (workflowProtocol host cfg services z).wp (Code.transaction .plain body) (fun _ _ _ => True)
      (fun _ _ _ => True) (.start base) w :=
  Protocol.wp_transaction (D := fun _ _ => True) (fun _ h => h) (fun _ => Protocol.stable_const _ True)
    (fun _ _ _ _ => trivial) (hbody _ ⟨fun _ h => h, hA, hw, fun _ _ => trivial, fun _ _ => rfl⟩)

/-- A commit of nothing. -/
theorem commits_same (h : (workflowProtocol host cfg services z).Knows World.estate (fun _ => True) K A Same c w) :
    (workflowProtocol host cfg services z).CommitsAt .plain (fun _ => True) (fun _ _ => True) c w :=
  Protocol.commits_knowing h fun _ _ _ _ _ hsame => ⟨trivial, hsame, trivial, fun _ => trivial⟩

variable {D : World B → Prop}

/-- The commit of a move that is no signing. -/
theorem commits_move
    (h : (workflowProtocol host cfg services z).Knows World.estate D K A (Makes m) c w)
    (hsigning : m.signing = none) (hlost : z.lossy → ∀ v, D v)
    (hallowed : ∀ v, K ⊆ c.held → A v → m.Allowed host cfg services z.reliable c.held v) :
    (workflowProtocol host cfg services z).CommitsAt (.made m) D (fun _ _ => True) c w := by
  refine Protocol.commits_knowing h fun v v' hA _ _ hmakes => ⟨trivial, ?_, trivial, fun hl => hlost hl v'⟩
  have harchive : v'.toArchive = m.apply v.toArchive := congrArg Estate.archive hmakes
  have haccounts : v'.accounts = v.accounts := congrArg Estate.accounts hmakes
  refine ⟨hallowed v h.held hA, harchive, congrArg Estate.objects hmakes, congrArg Estate.clock hmakes,
    fun _ => ?_⟩
  rw [hsigning]
  exact .same haccounts

/-- A write to the archive. -/
theorem wp_saveThen {u : World B → World B} {f : Archive → Archive} {M : World B → Estate B → Prop}
    {Q : Unit → Ctx (World B) RowKey → World B → Prop}
    (h : (workflowProtocol host cfg services z).Knows World.estate D K A M c w)
    (hu : ∀ v : World B, (u v).estate = { v.estate with
      archive := f v.toArchive })
    (hQ : ∀ c' w', (workflowProtocol host cfg services z).Knows World.estate D K A (Then f M) c' w' → Q () c' w') :
    (workflowProtocol host cfg services z).wp (save u) Q (fun _ _ w => D w) c w :=
  Protocol.wp_knowingWrite h (fun _ v' _ hM => ⟨_, hM, hu v'⟩) hQ

/-- The one write of a move. -/
theorem wp_saveMove {u : World B → World B} {Q : Unit → Ctx (World B) RowKey → World B → Prop}
    (h : (workflowProtocol host cfg services z).Knows World.estate D K A Same c w)
    (hu : ∀ v, Makes m v (u v).estate)
    (hQ : ∀ c' w', (workflowProtocol host cfg services z).Knows World.estate D K A (Makes m) c' w' → Q () c' w') :
    (workflowProtocol host cfg services z).wp (save u) Q (fun _ _ w => D w) c w := by
  refine wp_saveThen h hu fun c' w' h' => hQ c' w' (h'.means fun v x _ hx => ?_)
  obtain ⟨x', rfl, rfl⟩ := hx
  rfl

end Commits

end Rubrica
