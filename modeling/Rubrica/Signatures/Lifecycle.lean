import Rubrica.Signatures.Workflow

set_option autoImplicit false

/-! # The life of a request

A request with its signers and signatures is a machine of its own (`Slice.Step`): whatever the workflow
does, in any interleaving, is a step of it or leaves it alone (`Move.Allowed.sliceStep`). -/

namespace Rubrica

open Transactions

variable {B Page : Type}

/-! ## The machine -/

/-- The signers after a change of one. -/
def changed (signer : UUID) (f : Signer → Signer) (l : List (UUID × Signer)) : List (UUID × Signer) :=
  l.map fun y => (y.1, if y.1 = signer then f y.2 else y.2)

/-- Everybody has signed. -/
def allSigned (l : List (UUID × Signer)) : Prop :=
  ∀ y ∈ l, y.2.status = .signed

instance (l : List (UUID × Signer)) : Decidable (allSigned l) :=
  inferInstanceAs (Decidable (∀ y ∈ l, y.2.status = .signed))

/-- Does the move start or sign the request? -/
def Move.Concerns (id : UUID) : Move B → Prop
  | .openRequest other _ => other = id
  | .sign x => x.request = id
  | _ => False

/-- What a move makes of a request with its signers and signatures. -/
inductive Slice.Step (id : UUID) (σ : Slice) : Move B → Slice → Prop where
  /-- A move that is about something else. -/
  | other {m : Move B} (elsewhere : ¬m.Concerns id) : Step id σ m σ
  | created {r : SignatureRequest} (none : σ.request = none) (status : r.status = .draft) :
      Step id σ (.createRequest id r) ⟨some r, σ.signers, σ.signatures⟩
  | signerAdded {signer : UUID} {s : Signer} {r : SignatureRequest} (request : σ.request = some r)
      (status : r.status = .draft) (pending : s.status = .pending) (fresh : ∀ y ∈ σ.signers, y.1 ≠ signer) :
      Step id σ (.addSigner signer s) ⟨some r, σ.signers ++ [(signer, s)], σ.signatures⟩
  | linked {nonce hash : String} {r : SignatureRequest} (request : σ.request = some r)
      (status : r.status = .open ∨ r.status = .completed) :
      Step id σ (.createLink id nonce hash) ⟨some (r.linked nonce hash), σ.signers, σ.signatures⟩
  | revoked {signer : UUID} {now : Int} {s : Signer} (row : (signer, s) ∈ σ.signers) (status : s.status ≠ .signed) :
      Step id σ (.revokeLink id signer now) ⟨σ.request, changed signer (.revoked now) σ.signers, σ.signatures⟩
  | opened {mode : SignatureMode} {r : SignatureRequest} (request : σ.request = some r) (status : r.status = .draft)
      (signers : σ.signers ≠ []) :
      Step id σ (.openRequest id mode) ⟨some (r.opened mode), σ.signers, σ.signatures⟩
  /-- The request is cancelled, by itself or with its document. -/
  | cancelled {m : Move B} {r : SignatureRequest} (elsewhere : ¬m.Concerns id) (request : σ.request = some r)
      (status : r.status = .draft ∨ r.status = .open) :
      Step id σ m ⟨some r.cancelled, σ.signers, σ.signatures⟩
  | viewed {signer : UUID} {r : SignatureRequest} {s : Signer} (request : σ.request = some r)
      (status : r.status = .open) (row : (signer, s) ∈ σ.signers) (pending : s.status = .pending) :
      Step id σ (.view id signer) ⟨some r, changed signer (.answered .viewed) σ.signers, σ.signatures⟩
  | declined {signer : UUID} {r : SignatureRequest} {s : Signer} (request : σ.request = some r)
      (status : r.status = .open) (row : (signer, s) ∈ σ.signers)
      (unanswered : s.status ≠ .signed ∧ s.status ≠ .declined) :
      Step id σ (.decline id signer) ⟨some r, changed signer (.answered .declined) σ.signers, σ.signatures⟩
  | signed {x : Signing B} {r : SignatureRequest} {s : Signer} (about : x.request = id)
      (request : σ.request = some r) (status : r.status = .open) (row : (x.signature.signerId, s) ∈ σ.signers)
      (unsigned : s.status ≠ .signed) (fresh : ∀ y ∈ σ.signatures, y.2.signerId ≠ x.signature.signerId)
      (completes : x.completes = true ↔
        allSigned (changed x.signature.signerId (.hasSigned x.signature.signedAt) σ.signers)) :
      Step id σ (.sign x)
        ⟨some (if x.completes then r.completed x.signature.signedAt else r),
          changed x.signature.signerId (.hasSigned x.signature.signedAt) σ.signers,
          σ.signatures ++ [(x.id, x.signature)]⟩

/-! ## The workflow is such a machine -/

section Allowed

variable {host : Host B Page} {cfg : Settings} {services : SigningServices B} {reliable : Prop} {m : Move B}
  {H : Rights RowKey} {w : World B}

theorem mem_signersOf {a : Archive} {id signer : UUID} {s : Signer} :
    (signer, s) ∈ a.signersOf id ↔ a.signers.get? signer = some s ∧ s.signatureRequestId = id := by
  simp [Archive.signersOf, Table.mem_select_iff]

theorem mem_slice_signatures {a : Archive} {id k : UUID} {y : Signature} :
    (k, y) ∈ (a.slice id).signatures ↔ a.signatures.get? k = some y ∧ y.signatureRequestId = id := by
  simp [Archive.slice, Table.mem_select_iff]

theorem unsigned_eq_zero_iff {a : Archive} {id : UUID} : a.unsigned id = 0 ↔ allSigned (a.signersOf id) := by
  have hselect : (a.signers.select fun _ s => s.signatureRequestId = id && s.status ≠ .signed) =
      (a.signersOf id).filter fun y => y.2.status ≠ .signed := by
    rw [Archive.signersOf, Table.select, Table.select, List.filter_filter]
    exact List.filter_congr fun y _ => Bool.and_comm _ _
  rw [Archive.unsigned, hselect, List.length_eq_zero_iff, List.filter_eq_nil_iff]
  simp [allSigned]

/-- A change of a signer, as the slice of a request sees it. -/
theorem signersOf_update (t : Table UUID Signer) (id signer : UUID) {f : Signer → Signer}
    (h : ∀ s, (f s).signatureRequestId = s.signatureRequestId) :
    ((t.update signer f).select fun _ s => s.signatureRequestId = id) =
      changed signer f (t.select fun _ s => s.signatureRequestId = id) :=
  Table.select_update t fun s => by rw [h]

theorem changed_of_notMem {signer : UUID} {f : Signer → Signer} {l : List (UUID × Signer)}
    (h : ∀ y ∈ l, y.1 ≠ signer) : changed signer f l = l := by
  refine (List.map_congr_left fun y hy => ?_).trans (List.map_id _)
  rw [if_neg (h y hy)]
  rfl

/-- A signer of another request. -/
theorem changed_elsewhere {a : Archive} {id signer : UUID} {s : Signer} {f : Signer → Signer}
    (hs : a.signers.get? signer = some s) (hne : s.signatureRequestId ≠ id) :
    changed signer f (a.signersOf id) = a.signersOf id := by
  refine changed_of_notMem fun y hy => ?_
  rintro rfl
  obtain ⟨hget, hid⟩ := mem_signersOf.1 hy
  obtain rfl := Option.some.inj (hs.symm.trans hget)
  exact hne hid

/-- A change of the row of one request, as the slice of a request sees it. -/
theorem Slice.Step.update {id other : UUID} {f : SignatureRequest → SignatureRequest} {m : Move B}
    {r : SignatureRequest} (hr : w.requests.get? other = some r)
    (hrequests : m.onRequests w.requests = w.requests.update other f) (hsigners : m.onSigners w.signers = w.signers)
    (hsignatures : m.onSignatures w.signatures = w.signatures)
    (helse : other ≠ id → Slice.Step id (w.toArchive.slice id) m (w.toArchive.slice id))
    (hown : other = id → Slice.Step id (w.toArchive.slice id) m
      ⟨some (f r), w.signersOf id, (w.toArchive.slice id).signatures⟩) :
    Slice.Step id (w.toArchive.slice id) m ((m.apply w.toArchive).slice id) := by
  have hslice : (m.apply w.toArchive).slice id =
      ⟨(w.requests.update other f).get? id, w.signersOf id, (w.toArchive.slice id).signatures⟩ := by
    simp only [Archive.slice, Archive.signersOf, Move.apply, hrequests, hsigners, hsignatures]
  rw [hslice]
  by_cases hid : other = id
  · subst hid
    rw [Table.get?_update_self, hr, Option.map_some]
    exact hown rfl
  · rw [Table.get?_update_of_ne _ (Ne.symm hid)]
    exact helse hid

/-- The same of a change of one signer. -/
theorem Slice.Step.updateSigner {id other signer : UUID} {f : Signer → Signer} {m : Move B} {s : Signer}
    (hs : w.signers.get? signer = some s) (hother : s.signatureRequestId = other)
    (hf : ∀ s, (f s).signatureRequestId = s.signatureRequestId) (hrequests : m.onRequests w.requests = w.requests)
    (hsigners : m.onSigners w.signers = w.signers.update signer f)
    (hsignatures : m.onSignatures w.signatures = w.signatures)
    (helse : other ≠ id → Slice.Step id (w.toArchive.slice id) m (w.toArchive.slice id))
    (hown : other = id → (signer, s) ∈ w.signersOf id → Slice.Step id (w.toArchive.slice id) m
      ⟨w.requests.get? id, changed signer f (w.signersOf id), (w.toArchive.slice id).signatures⟩) :
    Slice.Step id (w.toArchive.slice id) m ((m.apply w.toArchive).slice id) := by
  have hslice : (m.apply w.toArchive).slice id =
      ⟨w.requests.get? id, changed signer f (w.signersOf id), (w.toArchive.slice id).signatures⟩ := by
    simp only [Archive.slice, Archive.signersOf, Move.apply, hrequests, hsigners, hsignatures,
      signersOf_update _ id signer hf]
  rw [hslice]
  by_cases hid : other = id
  · exact hown hid (mem_signersOf.2 ⟨hs, hother.trans hid⟩)
  · rw [changed_elsewhere hs (hother ▸ hid)]
    exact helse hid

/-- Deleting a document cancels the requests of it that are in progress. -/
theorem sliceStep_deleteDocument {document : UUID} {ids : List UUID} {now : Int}
    (active : ∀ request, request ∈ ids ↔ w.inProgress document request = true) (id : UUID) :
    Slice.Step id (w.toArchive.slice id) (.deleteDocument document ids now : Move B)
      (((Move.deleteDocument document ids now : Move B).apply w.toArchive).slice id) := by
  have hget : ((Move.deleteDocument document ids now : Move B).apply w.toArchive).slice id =
      ⟨(w.requests.get? id).map fun r => if id ∈ ids then r.cancelled else r, w.signersOf id,
        (w.toArchive.slice id).signatures⟩ := by
    simp only [Archive.slice, Archive.signersOf, Move.apply, Move.onRequests, Move.onSigners,
      Move.onSignatures, Table.get?_map]
  rw [hget]
  by_cases hid : id ∈ ids
  · obtain ⟨r, hr, hp⟩ := (Option.any_eq_true _ _).1 ((active id).1 hid)
    simp only [Bool.and_eq_true, Bool.or_eq_true, decide_eq_true_eq] at hp
    rw [hr, Option.map_some, if_pos hid]
    exact .cancelled (fun h => h) hr hp.2
  · simp only [hid, if_false, Option.map_id']
    exact .other fun h => h

/-- A signing is a step of the machine of its request, and of no other. -/
theorem Signing.Allowed.sliceStep {x : Signing B} {r : SignatureRequest} {s : Signer}
    (allowed : x.Allowed host cfg services reliable H w r s) (id : UUID) :
    Slice.Step id (w.toArchive.slice id) (.sign x) (((Move.sign x).apply w.toArchive).slice id) := by
  obtain ⟨hs, hown, -⟩ := signerOf_eq_some allowed.signer
  have hsignatures : (w.signatures.insert x.id x.signature).select (fun _ y => y.signatureRequestId = id) =
      (w.toArchive.slice id).signatures ++ [(x.id, x.signature)].filter fun y => y.2.signatureRequestId = id :=
    Table.select_insert_of_free allowed.fresh _ _
  have hsigners := signersOf_update w.signers id x.signature.signerId
    (f := .hasSigned x.signature.signedAt) fun _ => rfl
  have hget : ((Move.sign x).apply w.toArchive).slice id =
      ⟨((Move.sign x).onRequests w.requests).get? id,
        changed x.signature.signerId (.hasSigned x.signature.signedAt) (w.signersOf id),
        (w.toArchive.slice id).signatures ++ [(x.id, x.signature)].filter fun y =>
          y.2.signatureRequestId = id⟩ :=
    congr (congrArg (Slice.mk _) hsigners) hsignatures
  have hof := allowed.composed.signatureOf
  rw [hget, Move.onRequests_sign]
  by_cases hid : x.request = id
  · subst hid
    have hrequest : (if x.completes then w.requests.update x.request (.completed x.signature.signedAt)
        else w.requests).get? x.request = some (if x.completes then r.completed x.signature.signedAt else r) := by
      split
      · rw [Table.get?_update_self, allowed.request, Option.map_some]
      · exact allowed.request
    have hfresh : ∀ y ∈ (w.toArchive.slice x.request).signatures, y.2.signerId ≠ x.signature.signerId := by
      rintro ⟨k, y⟩ hy heq
      obtain ⟨hget, hreq⟩ := mem_slice_signatures.1 hy
      have heq : y.signerId = x.signature.signerId := heq
      have htaken : w.signatureTaken x.signature = true :=
        Table.any_iff.2 ⟨k, y, hget, by simp [heq, hof, hreq]⟩
      rw [allowed.untaken] at htaken
      exact absurd htaken (by simp)
    have hcompletes : x.completes = true ↔ allSigned
        (changed x.signature.signerId (.hasSigned x.signature.signedAt) (w.signersOf x.request)) := by
      rw [allowed.completes, decide_eq_true_eq, unsigned_eq_zero_iff]
      exact iff_of_eq (congrArg allSigned hsigners)
    rw [hrequest, List.filter_cons_of_pos (by simpa using hof), List.filter_nil]
    exact .signed rfl allowed.request allowed.status (mem_signersOf.2 ⟨hs, hown⟩) allowed.unsigned hfresh
      hcompletes
  · have hrequest : (if x.completes then w.requests.update x.request (.completed x.signature.signedAt)
        else w.requests).get? id = w.requests.get? id := by
      split
      · exact Table.get?_update_of_ne _ (Ne.symm hid) _
      · rfl
    rw [hrequest, changed_elsewhere hs (hown ▸ hid), List.filter_cons_of_neg (by simpa [hof] using hid),
      List.filter_nil, List.append_nil]
    exact .other hid

/-- **Refinement.** A permitted move is a step of each request's machine. -/
theorem Move.Allowed.sliceStep (h : m.Allowed host cfg services reliable H w) (id : UUID) :
    Slice.Step id (w.toArchive.slice id) m ((m.apply w.toArchive).slice id) := by
  cases h with
  | createDocument => exact .other fun h => h
  | addVersion => exact .other fun h => h
  | deleteDocument lock document active => exact sliceStep_deleteDocument active id
  | @createRequest other r mode name fresh reference status =>
      by_cases hid : other = id
      · subst hid
        have hget : ((Move.createRequest other r : Move B).apply w.toArchive).slice other =
            ⟨some r, w.signersOf other, (w.toArchive.slice other).signatures⟩ := by
          simp only [Archive.slice, Archive.signersOf, Move.apply, Move.onRequests, Move.onSigners,
            Move.onSignatures, Table.get?_insert_self fresh]
        rw [hget]
        exact .created fresh status
      · have hget : ((Move.createRequest other r : Move B).apply w.toArchive).slice id = w.toArchive.slice id := by
          simp only [Archive.slice, Archive.signersOf, Move.apply, Move.onRequests, Move.onSigners,
            Move.onSignatures, Table.get?_insert_of_ne _ (Ne.symm hid)]
        rw [hget]
        exact .other fun h => h
  | @addSigner signer s r lock name fresh request status pending =>
      have hget : ((Move.addSigner signer s : Move B).apply w.toArchive).slice id =
          ⟨w.requests.get? id, w.signersOf id ++ [(signer, s)].filter fun y => y.2.signatureRequestId = id,
            (w.toArchive.slice id).signatures⟩ := by
        simp only [Archive.slice, Archive.signersOf, Move.apply, Move.onRequests, Move.onSigners,
          Move.onSignatures, Table.select_insert_of_free fresh]
      rw [hget]
      by_cases hid : s.signatureRequestId = id
      · subst hid
        have hnew : ∀ y ∈ w.signersOf s.signatureRequestId, y.1 ≠ signer := by
          rintro ⟨k, s'⟩ hy rfl
          rw [(mem_signersOf.1 hy).1] at fresh
          exact absurd fresh (by simp)
        rw [request, List.filter_cons_of_pos (by simp), List.filter_nil]
        exact .signerAdded request status pending hnew
      · rw [List.filter_cons_of_neg (by simpa using hid), List.filter_nil, List.append_nil]
        exact .other fun h => h
  | createLink lock request status =>
      refine .update request rfl rfl rfl (fun _ => .other fun h => h) fun he => ?_
      subst he
      exact .linked request status
  | openRequest lock request status signers =>
      refine .update request rfl rfl rfl (fun hne => .other hne) fun he => ?_
      subst he
      exact .opened request status signers
  | cancelRequest lock request status =>
      refine .update request rfl rfl rfl (fun _ => .other fun h => h) fun he => ?_
      subst he
      exact .cancelled (fun h => h) request status
  | @revokeLink other signer now s lock row own status =>
      refine .updateSigner (f := .revoked now) row own (fun _ => rfl) rfl rfl rfl (fun _ => .other fun h => h)
        fun he hmem => ?_
      subst he
      exact .revoked hmem status
  | view lock request status row own pending =>
      refine .updateSigner (f := .answered .viewed) row own (fun _ => rfl) rfl rfl rfl (fun _ => .other fun h => h)
        fun he hmem => ?_
      subst he
      rw [request]
      exact .viewed request status hmem pending
  | decline lock request status row own unanswered =>
      refine .updateSigner (f := .answered .declined) row own (fun _ => rfl) rfl rfl rfl
        (fun _ => .other fun h => h) fun he hmem => ?_
      subst he
      rw [request]
      exact .declined request status hmem unanswered
  | sign allowed => exact allowed.sliceStep id

end Allowed

/-! ## What a step keeps -/

/-- Where the status of a request can go in one step. -/
inductive RequestStatus.Leads : RequestStatus → RequestStatus → Prop where
  | opened : Leads .draft .open
  | completed : Leads .open .completed
  | withdrawn : Leads .draft .cancelled
  | cancelled : Leads .open .cancelled

/-- What a step keeps of a request. -/
structure Slice.Keeps (σ σ' : Slice) : Prop where
  born : σ.request = none → ∀ r', σ'.request = some r' → r'.status = .draft
  status : ∀ r, σ.request = some r → ∃ r', σ'.request = some r' ∧ (r'.status = r.status ∨ r.status.Leads r'.status)
  signers : ∀ r, σ.request = some r → r.status ≠ .draft → σ'.signers.map Prod.fst = σ.signers.map Prod.fst

section Machine

variable {id : UUID} {σ σ' : Slice} {m : Move B}

@[simp] theorem changed_fst (signer : UUID) (f : Signer → Signer) (l : List (UUID × Signer)) :
    (changed signer f l).map Prod.fst = l.map Prod.fst := by
  simp [changed, Function.comp_def]

theorem Slice.Keeps.refl (σ : Slice) : σ.Keeps σ :=
  ⟨fun hnone _ hr => absurd (hnone.symm.trans hr) (by simp), fun r hr => ⟨r, hr, Or.inl rfl⟩, fun _ _ _ => rfl⟩

/-- A request that is there. -/
theorem Slice.keeps_of_some {r r' : SignatureRequest} (hr : σ.request = some r) (hr' : σ'.request = some r')
    (hstatus : r'.status = r.status ∨ r.status.Leads r'.status)
    (hsigners : r.status ≠ .draft → σ'.signers.map Prod.fst = σ.signers.map Prod.fst) : σ.Keeps σ' := by
  refine ⟨fun hnone => absurd (hnone.symm.trans hr) (by simp), fun r0 hr0 => ?_, fun r0 hr0 hne => ?_⟩
  · obtain rfl := Option.some.inj (hr.symm.trans hr0)
    exact ⟨r', hr', hstatus⟩
  · obtain rfl := Option.some.inj (hr.symm.trans hr0)
    exact hsigners hne

theorem Slice.Step.keeps (h : σ.Step id m σ') : σ.Keeps σ' := by
  cases h with
  | other => exact .refl σ
  | created none status =>
      refine ⟨fun _ r' hr' => ?_, fun r hr => absurd (none.symm.trans hr) (by simp),
        fun r hr => absurd (none.symm.trans hr) (by simp)⟩
      obtain rfl := Option.some.inj hr'
      exact status
  | signerAdded request status => exact keeps_of_some request rfl (Or.inl rfl) fun hne => absurd status hne
  | linked request => exact keeps_of_some request rfl (Or.inl rfl) fun _ => rfl
  | revoked =>
      exact ⟨fun hnone _ hr => absurd (hnone.symm.trans hr) (by simp), fun r hr => ⟨r, hr, Or.inl rfl⟩,
        fun _ _ _ => changed_fst _ _ _⟩
  | opened request status =>
      exact keeps_of_some request rfl (Or.inr (status ▸ .opened)) fun _ => rfl
  | cancelled elsewhere request status =>
      refine keeps_of_some request rfl (Or.inr ?_) fun _ => rfl
      rcases status with status | status
      · exact status ▸ .withdrawn
      · exact status ▸ .cancelled
  | viewed request => exact keeps_of_some request rfl (Or.inl rfl) fun _ => changed_fst _ _ _
  | declined request => exact keeps_of_some request rfl (Or.inl rfl) fun _ => changed_fst _ _ _
  | signed about request status =>
      refine keeps_of_some request rfl ?_ fun _ => changed_fst _ _ _
      split
      · exact Or.inr (status ▸ .completed)
      · exact Or.inl rfl

/-! ## What holds after any number of steps -/

/-- The request was opened. -/
def Opened (ms : List (Move B)) (id : UUID) : Prop :=
  ∃ mode, Move.openRequest id mode ∈ ms

/-- The signings of a request, in order. -/
def signingsOf (ms : List (Move B)) (id : UUID) : List (Signing B) :=
  (ms.filterMap Move.signing).filter fun x => x.request = id

/-- What the status of a request says about the moves `ms` and its signers. -/
def Progressed (ms : List (Move B)) (id : UUID) (signers : List (UUID × Signer)) (r : SignatureRequest) : Prop :=
  match r.status with
  | .draft => ¬Opened ms id ∧ ∀ y ∈ signers, y.2.status ≠ .signed
  | .open => Opened ms id ∧ signers ≠ [] ∧ ¬allSigned signers
  | .completed => Opened ms id ∧ signers ≠ [] ∧ allSigned signers ∧
      ∃ x, (signingsOf ms id).getLast? = some x ∧ r.completedAt = some x.signature.signedAt
  | .cancelled => Opened ms id → ¬allSigned signers
  | .expired => False

/-- What holds of a request after the moves `ms`. -/
structure Slice.Holds (ms : List (Move B)) (id : UUID) (σ : Slice) : Prop where
  absent : σ.request = none → ¬Opened ms id ∧ σ.signers = [] ∧ σ.signatures = []
  progressed : ∀ r, σ.request = some r → Progressed ms id σ.signers r
  signed : ∀ y ∈ σ.signatures, ∃ s, (y.2.signerId, s) ∈ σ.signers ∧ s.status = .signed
  signature : ∀ y ∈ σ.signers, y.2.status = .signed → ∃ x ∈ σ.signatures, x.2.signerId = y.1
  once : ∀ x ∈ σ.signatures, ∀ y ∈ σ.signatures, x.2.signerId = y.2.signerId → x = y
  nodup : (σ.signers.map Prod.fst).Nodup

variable {ms : List (Move B)}

theorem opened_append : Opened (ms ++ [m]) id ↔ Opened ms id ∨ ∃ mode, m = .openRequest id mode := by
  simp only [Opened, List.mem_append, List.mem_singleton, exists_or, eq_comm]

theorem opened_append_other (h : ¬m.Concerns id) : Opened (ms ++ [m]) id ↔ Opened ms id := by
  rw [opened_append, or_iff_left]
  rintro ⟨mode, rfl⟩
  exact h rfl

theorem signingsOf_append : signingsOf (ms ++ [m]) id =
    signingsOf ms id ++ (m.signing.toList.filter fun x => x.request = id) := by
  cases hm : m.signing <;> simp [signingsOf, hm]

theorem signingsOf_append_other (h : ¬m.Concerns id) : signingsOf (ms ++ [m]) id = signingsOf ms id := by
  rw [signingsOf_append]
  cases m with
  | sign x =>
      have hne : x.request ≠ id := h
      simp [Move.signing, hne]
  | _ => simp [Move.signing]

theorem mem_changed {signer k : UUID} {f : Signer → Signer} {l : List (UUID × Signer)} {s' : Signer} :
    (k, s') ∈ changed signer f l ↔ ∃ s, (k, s) ∈ l ∧ s' = if k = signer then f s else s := by
  simp only [changed, List.mem_map, Prod.exists, Prod.mk.injEq]
  constructor
  · rintro ⟨k', s, hmem, rfl, rfl⟩
    exact ⟨s, hmem, rfl⟩
  · rintro ⟨s, hmem, rfl⟩
    exact ⟨k, s, hmem, rfl, rfl⟩

theorem eq_of_nodup {l : List (UUID × Signer)} (h : (l.map Prod.fst).Nodup) {k : UUID} {s s' : Signer}
    (hs : (k, s) ∈ l) (hs' : (k, s') ∈ l) : s = s' :=
  congrArg Prod.snd (List.inj_on_of_nodup_map h hs hs' rfl)

/-- A change of a signer who has not signed and does not sign. -/
theorem signed_changed_iff {l : List (UUID × Signer)} (h : (l.map Prod.fst).Nodup) {signer : UUID} {s : Signer}
    {f : Signer → Signer} (hs : (signer, s) ∈ l) (hunsigned : s.status ≠ .signed) (hf : (f s).status ≠ .signed)
    {k : UUID} {s' : Signer} :
    (k, s') ∈ changed signer f l ∧ s'.status = .signed ↔ (k, s') ∈ l ∧ s'.status = .signed := by
  rw [mem_changed]
  constructor
  · rintro ⟨⟨s0, hmem, rfl⟩, hsigned⟩
    split at hsigned
    · next hk =>
        subst hk
        obtain rfl := eq_of_nodup h hs hmem
        exact absurd hsigned hf
    · next hk => exact ⟨by rwa [if_neg hk], by rwa [if_neg hk]⟩
  · rintro ⟨hmem, hsigned⟩
    refine ⟨⟨s', hmem, ?_⟩, hsigned⟩
    split
    · next hk =>
        subst hk
        obtain rfl := eq_of_nodup h hs hmem
        exact absurd hsigned hunsigned
    · rfl

theorem not_allSigned_of_mem {l : List (UUID × Signer)} {k : UUID} {s : Signer} (h : (k, s) ∈ l)
    (hs : s.status ≠ .signed) : ¬allSigned l :=
  fun hall => hs (hall _ h)

/-- The moves that do not concern a request leave its progress. -/
theorem Progressed.other {signers : List (UUID × Signer)} {r r' : SignatureRequest}
    (h : Progressed ms id signers r) (hm : ¬m.Concerns id) (hstatus : r'.status = r.status)
    (hcompleted : r'.completedAt = r.completedAt) : Progressed (ms ++ [m]) id signers r' := by
  unfold Progressed at h ⊢
  rw [hstatus, hcompleted, opened_append_other hm, signingsOf_append_other hm]
  exact h

/-- What a row says that is there. -/
theorem Slice.Holds.of_row {signers : List (UUID × Signer)} {signatures : List (UUID × Signature)}
    {r : SignatureRequest} (progressed : Progressed ms id signers r)
    (signed : ∀ y ∈ signatures, ∃ s, (y.2.signerId, s) ∈ signers ∧ s.status = .signed)
    (signature : ∀ y ∈ signers, y.2.status = .signed → ∃ x ∈ signatures, x.2.signerId = y.1)
    (once : ∀ x ∈ signatures, ∀ y ∈ signatures, x.2.signerId = y.2.signerId → x = y)
    (nodup : (signers.map Prod.fst).Nodup) : Slice.Holds ms id ⟨some r, signers, signatures⟩ := by
  refine ⟨fun hnone => absurd hnone (by simp), fun r' hr' => ?_, signed, signature, once, nodup⟩
  obtain rfl := Option.some.inj hr'
  exact progressed

/-- Somebody who has not signed changes, and does not sign. -/
theorem Slice.Holds.unsigned (h : σ.Holds ms id) (hm : ¬m.Concerns id) {signer : UUID} {s : Signer}
    {f : Signer → Signer} (hs : (signer, s) ∈ σ.signers) (hunsigned : s.status ≠ .signed)
    (hf : (f s).status ≠ .signed) :
    Slice.Holds (ms ++ [m]) id ⟨σ.request, changed signer f σ.signers, σ.signatures⟩ := by
  have hsame : ∀ {k : UUID} {s' : Signer}, (k, s') ∈ changed signer f σ.signers ∧ s'.status = .signed ↔
      (k, s') ∈ σ.signers ∧ s'.status = .signed := signed_changed_iff h.nodup hs hunsigned hf
  have hnew : ¬allSigned (changed signer f σ.signers) :=
    not_allSigned_of_mem (mem_changed.2 ⟨s, hs, (if_pos rfl).symm⟩) hf
  have hne : changed signer f σ.signers ≠ [] := List.ne_nil_of_mem (mem_changed.2 ⟨s, hs, rfl⟩)
  constructor
  · intro hnone
    rw [(h.absent hnone).2.1] at hs
    exact absurd hs List.not_mem_nil
  · intro r hr
    have hp := h.progressed r hr
    unfold Progressed at hp ⊢
    rw [opened_append_other hm]
    split
    · next hstatus =>
      rw [hstatus] at hp
      exact ⟨hp.1, fun y hy hsigned => hp.2 _ (hsame.1 ⟨hy, hsigned⟩).1 hsigned⟩
    · next hstatus =>
      rw [hstatus] at hp
      exact ⟨hp.1, hne, hnew⟩
    · next hstatus =>
      rw [hstatus] at hp
      exact absurd (hp.2.2.1 _ hs) hunsigned
    · exact fun _ => hnew
    · next hstatus =>
      rw [hstatus] at hp
      exact hp
  · intro y hy
    obtain ⟨s', hmem, hsigned⟩ := h.signed y hy
    exact ⟨s', (hsame.2 ⟨hmem, hsigned⟩).1, hsigned⟩
  · exact fun y hy hsigned => h.signature _ (hsame.1 ⟨hy, hsigned⟩).1 hsigned
  · exact h.once
  · rw [changed_fst]
    exact h.nodup

/-- The row of the request changes, and not its progress. -/
theorem Slice.Holds.rewritten (h : σ.Holds ms id) (hm : ¬m.Concerns id) {r r' : SignatureRequest}
    (hr : σ.request = some r) (hstatus : r'.status = r.status) (hcompleted : r'.completedAt = r.completedAt) :
    Slice.Holds (ms ++ [m]) id ⟨some r', σ.signers, σ.signatures⟩ :=
  .of_row ((h.progressed r hr).other hm hstatus hcompleted) h.signed h.signature h.once h.nodup

/-- A move that is about something else. -/
theorem Slice.Holds.other (h : σ.Holds ms id) (hm : ¬m.Concerns id) : σ.Holds (ms ++ [m]) id :=
  ⟨fun hnone => ⟨fun ho => (h.absent hnone).1 ((opened_append_other hm).1 ho), (h.absent hnone).2⟩,
    fun r hr => (h.progressed r hr).other hm rfl rfl, h.signed, h.signature, h.once, h.nodup⟩

/-- What is known of a request by its status. -/
theorem Slice.Holds.draft (h : σ.Holds ms id) {r : SignatureRequest} (hr : σ.request = some r)
    (hstatus : r.status = .draft) : ¬Opened ms id ∧ ∀ y ∈ σ.signers, y.2.status ≠ .signed := by
  have := h.progressed r hr
  rwa [Progressed, hstatus] at this

theorem Slice.Holds.isOpen (h : σ.Holds ms id) {r : SignatureRequest} (hr : σ.request = some r)
    (hstatus : r.status = .open) : Opened ms id ∧ σ.signers ≠ [] ∧ ¬allSigned σ.signers := by
  have := h.progressed r hr
  rwa [Progressed, hstatus] at this

/-- Somebody signs. -/
theorem Slice.Holds.sign (h : σ.Holds ms id) {x : Signing B} {r : SignatureRequest} {s : Signer}
    (about : x.request = id) (request : σ.request = some r) (status : r.status = .open)
    (row : (x.signature.signerId, s) ∈ σ.signers)
    (fresh : ∀ y ∈ σ.signatures, y.2.signerId ≠ x.signature.signerId)
    (completes : x.completes = true ↔
      allSigned (changed x.signature.signerId (.hasSigned x.signature.signedAt) σ.signers)) :
    Slice.Holds (ms ++ [.sign x]) id
      ⟨some (if x.completes then r.completed x.signature.signedAt else r),
        changed x.signature.signerId (.hasSigned x.signature.signedAt) σ.signers,
        σ.signatures ++ [(x.id, x.signature)]⟩ := by
  have hopened : Opened (ms ++ [Move.sign x]) id := by
    obtain ⟨mode, hmem⟩ := (h.isOpen request status).1
    exact ⟨mode, List.mem_append_left _ hmem⟩
  have hsignings : (signingsOf (ms ++ [Move.sign x]) id).getLast? = some x := by
    rw [signingsOf_append]
    simp [Move.signing, about]
  have hsigner : (x.signature.signerId, s.hasSigned x.signature.signedAt) ∈
      changed x.signature.signerId (.hasSigned x.signature.signedAt) σ.signers :=
    mem_changed.2 ⟨s, row, (if_pos rfl).symm⟩
  have hne := List.ne_nil_of_mem hsigner
  refine .of_row ?_ (fun y hy => ?_) ?_ (fun y hy z hz heq => ?_) ?_
  · -- The row stays open as long as somebody is left.
    cases hc : x.completes with
    | true => exact ⟨hopened, hne, completes.1 hc, x, hsignings, rfl⟩
    | false =>
        rw [if_neg (by simp), Progressed, status]
        refine ⟨hopened, hne, fun hall => ?_⟩
        rw [completes.2 hall] at hc
        exact absurd hc (by simp)
  · rcases List.mem_append.1 hy with hy | hy
    · obtain ⟨s', hmem, hsigned⟩ := h.signed y hy
      exact ⟨s', mem_changed.2 ⟨s', hmem, (if_neg (fresh y hy)).symm⟩, hsigned⟩
    · obtain rfl := List.mem_singleton.1 hy
      exact ⟨_, hsigner, rfl⟩
  · rintro ⟨k, s'⟩ hy hsigned
    obtain ⟨s0, hmem, rfl⟩ := mem_changed.1 hy
    by_cases hk : k = x.signature.signerId
    · exact ⟨_, List.mem_append_right _ (List.mem_singleton.2 rfl), hk.symm⟩
    · rw [if_neg hk] at hsigned
      obtain ⟨z, hz, hzk⟩ := h.signature _ hmem hsigned
      exact ⟨z, List.mem_append_left _ hz, hzk⟩
  · rcases List.mem_append.1 hy with hy | hy <;> rcases List.mem_append.1 hz with hz | hz
    · exact h.once y hy z hz heq
    · obtain rfl := List.mem_singleton.1 hz
      exact absurd heq (fresh y hy)
    · obtain rfl := List.mem_singleton.1 hy
      exact absurd heq.symm (fresh z hz)
    · rw [List.mem_singleton.1 hy, List.mem_singleton.1 hz]
  · rw [changed_fst]
    exact h.nodup

/-- One step of the machine. -/
theorem Slice.Step.holds (h : σ.Step id m σ') (hσ : σ.Holds ms id) : σ'.Holds (ms ++ [m]) id := by
  cases h with
  | other elsewhere => exact hσ.other elsewhere
  | @created r none status =>
      obtain ⟨hopened, hsigners, hsignatures⟩ := hσ.absent none
      rw [hsigners, hsignatures]
      refine .of_row ?_ (by simp) (by simp) (by simp) (by simp)
      rw [Progressed, status, opened_append_other]
      · exact ⟨hopened, by simp⟩
      · exact fun h => h
  | @signerAdded signer s r request status pending fresh =>
      obtain ⟨hopened, hnot⟩ := hσ.draft request status
      have hunsigned : ∀ y ∈ σ.signers ++ [(signer, s)], y.2.status ≠ .signed := by
        intro y hy
        rcases List.mem_append.1 hy with hy | hy
        · exact hnot y hy
        · obtain rfl := List.mem_singleton.1 hy
          simp [pending]
      refine .of_row ?_ (fun y hy => ?_) (fun y hy hsigned => absurd hsigned (hunsigned y hy)) hσ.once ?_
      · rw [Progressed, status, opened_append_other]
        · exact ⟨hopened, hunsigned⟩
        · exact fun h => h
      · obtain ⟨s', hmem, hsigned⟩ := hσ.signed y hy
        exact ⟨s', List.mem_append_left _ hmem, hsigned⟩
      · rw [List.map_append, List.nodup_append]
        refine ⟨hσ.nodup, by simp, ?_⟩
        rintro k hk k' hk' rfl
        obtain ⟨y, hy, rfl⟩ := List.mem_map.1 hk
        exact fresh y hy (by simpa using hk')
  | linked request =>
      refine hσ.rewritten ?_ request rfl rfl
      exact fun h => h
  | revoked row status =>
      refine hσ.unsigned ?_ row status status
      exact fun h => h
  | @opened mode r request status signers =>
      obtain ⟨-, hnot⟩ := hσ.draft request status
      obtain ⟨y, hy⟩ := List.exists_mem_of_ne_nil _ signers
      refine .of_row ?_ hσ.signed hσ.signature hσ.once hσ.nodup
      exact ⟨⟨mode, by simp⟩, signers, fun hall => hnot y hy (hall y hy)⟩
  | @cancelled m r elsewhere request status =>
      refine .of_row ?_ hσ.signed hσ.signature hσ.once hσ.nodup
      show Opened (ms ++ [m]) id → _
      rw [opened_append_other elsewhere]
      rcases status with status | status
      · exact fun ho => absurd ho (hσ.draft request status).1
      · exact fun _ => (hσ.isOpen request status).2.2
  | viewed request status row pending =>
      rw [← request]
      refine hσ.unsigned ?_ row (by simp [pending]) (by simp [Signer.answered])
      exact fun h => h
  | declined request status row unanswered =>
      rw [← request]
      refine hσ.unsigned ?_ row unanswered.1 (by simp [Signer.answered])
      exact fun h => h
  | signed about request status row unsigned fresh completes =>
      exact hσ.sign about request status row fresh completes

end Machine

/-! ## Requests in runs -/

/-- Nothing is assumed of the store, of accounts, or of acknowledgements. -/
abbrev anyCircumstances (B : Type) : Circumstances B :=
  ⟨False, False, True, fun _ _ => True⟩

def Archive.empty : Archive :=
  ⟨∅, ∅, ∅, ∅, ∅⟩

/-- What is true of a request in a state that the moves `ms` have led to. -/
structure World.Sound (ms : List (Move B)) (w : World B) (id : UUID) (r : SignatureRequest) : Prop where
  completed : r.status = .completed ↔ Opened ms id ∧ w.signersOf id ≠ [] ∧ allSigned (w.signersOf id)
  completedAt : r.status = .completed →
    ∃ x, (signingsOf ms id).getLast? = some x ∧ r.completedAt = some x.signature.signedAt
  signed : ∀ k x, w.signatures.get? k = some x → x.signatureRequestId = id →
    ∃ s, w.signers.get? x.signerId = some s ∧ s.signatureRequestId = id ∧ s.status = .signed
  signature : ∀ signer s, w.signers.get? signer = some s → s.signatureRequestId = id → s.status = .signed →
    ∃! k, ∃ x, w.signatures.get? k = some x ∧ x.signatureRequestId = id ∧ x.signerId = signer

/-- What a step keeps of a request. -/
abbrev World.Keeps (w w' : World B) (id : UUID) : Prop :=
  (w.toArchive.slice id).Keeps (w'.toArchive.slice id)

section Runs

variable {host : Host B Page} {cfg : Settings} {services : SigningServices B} {z : Circumstances B}
  {Y Z : WorkflowSystem B} {steps : List (WorkflowStep B)} {ms : List (Move B)} {w w' : World B} {m : Move B}

theorem Slice.Holds.sound {id : UUID} {r : SignatureRequest} (h : (w.toArchive.slice id).Holds ms id)
    (hr : w.requests.get? id = some r) : w.Sound ms id r := by
  have hp := h.progressed r hr
  unfold Progressed at hp
  refine ⟨⟨fun hstatus => ?_, fun ⟨hopened, hne, hall⟩ => ?_⟩, fun hstatus => ?_, fun k x hx hown => ?_,
    fun signer s hs hown hsigned => ?_⟩
  · rw [hstatus] at hp
    exact ⟨hp.1, hp.2.1, hp.2.2.1⟩
  · have hall : allSigned (w.toArchive.slice id).signers := hall
    split at hp
    · exact absurd hopened hp.1
    · exact absurd hall hp.2.2
    · assumption
    · exact absurd hall (hp hopened)
    · exact hp.elim
  · rw [hstatus] at hp
    exact hp.2.2.2
  · obtain ⟨s, hmem, hsigned⟩ := h.signed _ (mem_slice_signatures.2 ⟨hx, hown⟩)
    obtain ⟨hs, hof⟩ := mem_signersOf.1 hmem
    exact ⟨s, hs, hof, hsigned⟩
  · obtain ⟨⟨k, x⟩, hmem, hsigner⟩ := h.signature _ (mem_signersOf.2 ⟨hs, hown⟩) hsigned
    obtain ⟨hx, hof⟩ := mem_slice_signatures.1 hmem
    refine ⟨k, ⟨x, hx, hof, hsigner⟩, ?_⟩
    rintro k' ⟨x', hx', hof', hsigner'⟩
    have heq := h.once _ (mem_slice_signatures.2 ⟨hx', hof'⟩) _ hmem (hsigner'.trans hsigner.symm)
    exact congrArg Prod.fst heq

theorem World.MovesTo.sliceStep (h : w.MovesTo host cfg services z m w') (id : UUID) :
    Slice.Step id (w.toArchive.slice id) m (w'.toArchive.slice id) := by
  obtain ⟨H, hallowed, -⟩ := h.allowed
  rw [h.archive]
  exact hallowed.sliceStep id

/-- From an empty archive on, what holds of every request. -/
theorem holds_of_run (hrun : Run (workflowRuns host cfg services z) Y steps Z) (hstart : Y.sessions = [])
    (hmeets : ∀ x ∈ steps, (workflowProtocol host cfg services z).Meets x.1 x.2)
    (hempty : Y.shared.toArchive = .empty) (id : UUID) : (Z.shared.toArchive.slice id).Holds (movesOf steps) id := by
  refine workflow_induct hrun hstart hmeets (motive := fun ms w => (w.toArchive.slice id).Holds ms id) ?_
    (fun ms w w' ih hrests => ?_) fun ms w w' m ih hmoves => (hmoves.sliceStep id).holds ih
  · rw [hempty]
    exact ⟨fun _ => ⟨fun ⟨_, ho⟩ => absurd ho List.not_mem_nil, rfl, rfl⟩,
      fun r hr => absurd hr (by simp [Archive.slice, Archive.empty]),
      fun y hy => absurd hy List.not_mem_nil, fun y hy => absurd hy List.not_mem_nil,
      fun y hy => absurd hy List.not_mem_nil, List.nodup_nil⟩
  · rw [hrests.archive]
    exact ih

/-- **The life of a request.** From an empty archive on, in any interleaving, each step moves the status of a
    request as it may and leaves its signers alone once it is no draft; and in every state that is reached,
    it is completed just when it was opened and all its signers have signed. -/
theorem requests_sound (hrun : Run (workflowRuns host cfg services (anyCircumstances B)) Y steps Z)
    (hstart : Y.sessions = []) (hempty : Y.shared.toArchive = .empty) :
    (∀ x ∈ steps, ∀ X', x.1.step x.2 = some X' → ∀ id, x.1.shared.Keeps X'.shared id) ∧
      ∀ id r, Z.shared.requests.get? id = some r → Z.shared.Sound (movesOf steps) id r := by
  have hmeets : ∀ x ∈ steps, (workflowProtocol host cfg services (anyCircumstances B)).Meets x.1 x.2 :=
    fun _ _ _ _ _ => trivial
  refine ⟨fun x hx X' hstep id => ?_, fun id r hr => (holds_of_run hrun hstart hmeets hempty id).sound hr⟩
  rcases workflow_step hrun hstart hmeets hx hstep with ⟨-, hrests⟩ | ⟨m, -, hmoves⟩
  · rw [World.Keeps, hrests.archive]
    exact .refl _
  · exact (hmoves.sliceStep id).keeps

/-- A request from its document to its completion. -/
theorem requests_sound_leaseSigned :
    ∃ steps Z, Run (workflowRuns sampleHost sampleSettings sampleServices (anyCircumstances SampleBytes))
        emptyWorkspace steps Z ∧ (Z.shared.requests.get? 20).map SignatureRequest.status = some .completed ∧
      (∀ x ∈ steps, ∀ X', x.1.step x.2 = some X' → ∀ id, x.1.shared.Keeps X'.shared id) ∧
      ∀ id r, Z.shared.requests.get? id = some r → Z.shared.Sound (movesOf steps) id r := by
  obtain ⟨steps, Z, hrun, hp⟩ := exists_script sampleHost sampleSettings sampleServices (Y := emptyWorkspace)
    (anyCircumstances SampleBytes) (serial leaseSigned)
    (p := fun _ Z => (Z.shared.requests.get? 20).map SignatureRequest.status = some .completed) (by decide +kernel)
  exact ⟨steps, Z, hrun, of_decide_eq_true hp, requests_sound hrun rfl rfl⟩

end Runs

end Rubrica
