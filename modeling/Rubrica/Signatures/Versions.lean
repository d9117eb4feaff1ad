import Rubrica.Signatures.Originals

set_option autoImplicit false

/-! # Documents in runs

A document has its versions without a gap, the newest of them has its hash, and none ever changes; and while a
request is open its document is not deleted, in any interleaving. -/

namespace Rubrica

open Transactions

variable {B Page : Type}

/-! ## Versions -/

/-- The versions of each document are numbered from one up to the version it is at, and that one has the hash of
    the document. -/
structure Archive.Versioned (a : Archive) : Prop where
  numbered : ∀ id k, a.versions.get? (id, k) ≠ none ↔ ∃ d, a.documents.get? id = some d ∧ 1 ≤ k ∧ k ≤ d.version
  newest : ∀ id d v, a.documents.get? id = some d → a.versions.get? (id, d.version) = some v → v.sha256 = d.sha256

section Allowed

variable {host : Host B Page} {cfg : Settings} {services : SigningServices B} {reliable : Prop}
  {H : Rights RowKey} {w : World B} {m : Move B}

theorem Archive.Versioned.missing {a : Archive} (h : a.Versioned) {id : UUID} {k : Nat}
    (hk : ∀ d, a.documents.get? id = some d → d.version < k) : a.versions.get? (id, k) = none := by
  by_contra hsome
  obtain ⟨d, hd, -, hle⟩ := (h.numbered id k).1 hsome
  have := hk d hd
  omega

/-- Documents change in nothing but what is said of deletion. -/
theorem Archive.Versioned.congr {a a' : Archive} (h : a.Versioned) (hversions : a'.versions = a.versions)
    (hdocuments : ∀ id, (a'.documents.get? id).map (fun d => (d.version, d.sha256)) =
      (a.documents.get? id).map fun d => (d.version, d.sha256)) : a'.Versioned := by
  have hold : ∀ id d', a'.documents.get? id = some d' →
      ∃ d, a.documents.get? id = some d ∧ d.version = d'.version ∧ d.sha256 = d'.sha256 := by
    intro id d' hd'
    have heq := hdocuments id
    rw [hd', Option.map_some] at heq
    obtain ⟨d, hd, hsame⟩ := Option.map_eq_some_iff.1 heq.symm
    obtain ⟨hversion, hsha⟩ := Prod.mk.inj hsame
    exact ⟨d, hd, hversion, hsha⟩
  have hnew : ∀ id d, a.documents.get? id = some d → ∃ d', a'.documents.get? id = some d' ∧ d'.version = d.version := by
    intro id d hd
    have heq := hdocuments id
    rw [hd, Option.map_some] at heq
    obtain ⟨d', hd', hsame⟩ := Option.map_eq_some_iff.1 heq
    exact ⟨d', hd', (Prod.mk.inj hsame).1⟩
  refine ⟨fun id k => ?_, fun id d' v hd' hv => ?_⟩
  · rw [hversions, h.numbered]
    constructor
    · rintro ⟨d, hd, hk⟩
      obtain ⟨d', hd', hversion⟩ := hnew id d hd
      exact ⟨d', hd', hversion ▸ hk⟩
    · rintro ⟨d', hd', hk⟩
      obtain ⟨d, hd, hversion, -⟩ := hold id d' hd'
      exact ⟨d, hd, hversion ▸ hk⟩
  · obtain ⟨d, hd, hversion, hsha⟩ := hold id d' hd'
    rw [hversions, ← hversion] at hv
    exact (h.newest id d v hd hv).trans hsha

/-- One move. -/
theorem Move.Allowed.versioned (h : m.Allowed host cfg services reliable H w) (hw : w.toArchive.Versioned) :
    (m.apply w.toArchive).Versioned := by
  cases h with
  | @createDocument id d v name fresh version live hash =>
      have hfree : ∀ k, w.versions.get? (id, k) = none :=
        fun k => hw.missing fun d hd => absurd (fresh.symm.trans hd) (by simp)
      have hversions : ∀ key, (w.versions.insert (id, 1) v).get? key =
          (w.versions.get? key).or (if (id, 1) = key then some v else none) :=
        fun key => Table.get?_insert_of_free (hfree 1) key v
      have hdocuments : ∀ other, (w.documents.insert id d).get? other =
          (w.documents.get? other).or (if id = other then some d else none) :=
        fun other => Table.get?_insert_of_free fresh other d
      refine ⟨fun other k => ?_, fun other d' v' hd' hv' => ?_⟩
      · show (w.versions.insert (id, 1) v).get? (other, k) ≠ none ↔ ∃ d', (w.documents.insert id d).get? other = _ ∧ _
        rw [hversions, hdocuments]
        by_cases hid : id = other
        · subst hid
          rw [hfree, fresh]
          by_cases hk : 1 = k
          · subst hk
            simp [version]
          · simp only [Prod.mk.injEq, true_and, hk, if_false, if_true, Option.none_or, ne_eq, not_true,
              Option.some.injEq, exists_eq_left', version, false_iff]
            omega
        · simpa [hid] using hw.numbered other k
      · have hd' : (w.documents.insert id d).get? other = some d' := hd'
        have hv' : (w.versions.insert (id, 1) v).get? (other, d'.version) = some v' := hv'
        rw [hversions] at hv'
        rw [hdocuments] at hd'
        by_cases hid : id = other
        · subst hid
          rw [fresh, if_pos rfl, Option.none_or] at hd'
          obtain rfl := Option.some.inj hd'
          rw [hfree, version, if_pos rfl, Option.none_or] at hv'
          obtain rfl := Option.some.inj hv'
          exact hash.symm
        · rw [if_neg hid, Option.or_none] at hd'
          rw [if_neg (by simp [hid]), Option.or_none] at hv'
          exact hw.newest other d' v' hd' hv'
  | @addVersion id number v d lock document next =>
      obtain ⟨hd, -⟩ := liveDocument_eq_some.1 document
      have hfree : w.versions.get? (id, number) = none := hw.missing fun d' hd' => by
        obtain rfl := Option.some.inj (hd.symm.trans hd')
        omega
      have hversions : ∀ key, (w.versions.insert (id, number) v).get? key =
          (w.versions.get? key).or (if (id, number) = key then some v else none) :=
        fun key => Table.get?_insert_of_free hfree key v
      refine ⟨fun other k => ?_, fun other d' v' hd' hv' => ?_⟩
      · show (w.versions.insert (id, number) v).get? (other, k) ≠ none ↔
          ∃ d', (w.documents.update id (.revised number v)).get? other = _ ∧ _
        rw [hversions, Table.get?_update]
        by_cases hid : id = other
        · subst hid
          have hold := hw.numbered id k
          rw [hd] at hold ⊢
          simp only [Option.some.injEq, exists_eq_left'] at hold
          simp only [if_true, Option.map_some, Option.some.injEq, exists_eq_left', Document.revised,
            Prod.mk.injEq, true_and]
          by_cases hk : number = k
          · subst hk
            simp only [if_true, hfree, Option.none_or, ne_eq, reduceCtorEq, not_false_eq_true, true_iff]
            omega
          · simp only [hk, if_false, Option.or_none, hold]
            omega
        · simpa [hid, Ne.symm hid] using hw.numbered other k
      · have hd' : (w.documents.update id (.revised number v)).get? other = some d' := hd'
        have hv' : (w.versions.insert (id, number) v).get? (other, d'.version) = some v' := hv'
        rw [hversions] at hv'
        rw [Table.get?_update] at hd'
        by_cases hid : id = other
        · subst hid
          rw [if_pos rfl, hd] at hd'
          obtain rfl := Option.some.inj hd'
          have hnew : (w.versions.get? (id, number)).or (if (id, number) = (id, number) then some v else none) =
              some v' := hv'
          rw [hfree, if_pos rfl, Option.none_or] at hnew
          exact congrArg DocumentVersion.sha256 (Option.some.inj hnew).symm
        · rw [if_neg (Ne.symm hid)] at hd'
          rw [if_neg (by simp [hid]), Option.or_none] at hv'
          exact hw.newest other d' v' hd' hv'
  | @deleteDocument id ids now d lock document =>
      refine hw.congr rfl fun other => ?_
      show ((w.documents.update id (.deleted now)).get? other).map _ = _
      rw [Table.get?_update]
      split
      · rw [Option.map_map]
        rfl
      · rfl
  | _ => exact hw.congr rfl fun _ => rfl

end Allowed

section Runs

variable {host : Host B Page} {cfg : Settings} {services : SigningServices B} {z : Circumstances B}
  {Y Z : WorkflowSystem B} {steps : List (WorkflowStep B)} {w w' : World B} {m : Move B}

/-- **Versions.** In every state that is reached from an empty archive each document has the versions from one
    up to its own, the newest with its hash; and every version of any earlier state is still there, as it was. -/
theorem versions_kept (hrun : Run (workflowRuns host cfg services (anyCircumstances B)) Y steps Z)
    (hidle : Y.sessions = []) (hempty : Y.shared.toArchive = .empty) :
    Z.shared.toArchive.Versioned ∧
      ∀ x ∈ steps, ∀ k v, x.1.shared.versions.get? k = some v → Z.shared.versions.get? k = some v := by
  have hmeets : ∀ x ∈ steps, (workflowProtocol host cfg services (anyCircumstances B)).Meets x.1 x.2 :=
    fun _ _ _ _ _ => trivial
  refine ⟨?_, fun x hx => (pinned_later hrun hidle hmeets x hx).2⟩
  refine workflow_induct hrun hidle hmeets (motive := fun _ w => w.toArchive.Versioned) ?_
    (fun _ w w' ih hrests => ?_) fun _ w w' m ih hmoves => ?_
  · rw [hempty]
    exact ⟨fun _ _ => by simp [Archive.empty], fun _ _ _ hd => absurd hd (by simp [Archive.empty])⟩
  · rw [hrests.archive]
    exact ih
  · obtain ⟨H, hallowed, -⟩ := hmoves.allowed
    rw [hmoves.archive]
    exact hallowed.versioned ih

end Runs

/-- The author uploads another version before anybody is asked to sign. -/
def leaseRevised : List (WorkflowCall SampleBytes × Nat) :=
  leaseOpened.take 1 ++ [(reviseLease, 16)]

theorem versions_kept_leaseRevised :
    ∃ steps Z, Run (workflowRuns sampleHost sampleSettings sampleServices (anyCircumstances SampleBytes))
        emptyWorkspace steps Z ∧ (Z.shared.documents.get? 10).map Document.version = some 2 ∧
      Z.shared.toArchive.Versioned ∧
      ∀ x ∈ steps, ∀ k v, x.1.shared.versions.get? k = some v → Z.shared.versions.get? k = some v := by
  obtain ⟨steps, Z, hrun, hp⟩ := exists_script sampleHost sampleSettings sampleServices (Y := emptyWorkspace)
    (anyCircumstances SampleBytes) (serial leaseRevised)
    (p := fun _ Z => (Z.shared.documents.get? 10).map Document.version = some 2) (by decide +kernel)
  exact ⟨steps, Z, hrun, of_decide_eq_true hp, versions_kept hrun rfl rfl⟩

/-! ## Deleted documents -/

section Runs

variable {host : Host B Page} {cfg : Settings} {services : SigningServices B} {z : Circumstances B}
  {Y Z : WorkflowSystem B} {steps : List (WorkflowStep B)} {w w' : World B} {m : Move B}

/-- The document of every open request is there, and not deleted. -/
def World.OpenLive (w : World B) : Prop :=
  ∀ id r, w.requests.get? id = some r → r.status = .open → w.liveDocument r.documentId ≠ none

/-- The row of a document that is deleted never changes again. -/
theorem World.MovesTo.deleted (h : w.MovesTo host cfg services z m w') {id : UUID} {d : Document}
    (hd : w.documents.get? id = some d) (hdeleted : d.deletedAt ≠ none) : w'.documents.get? id = some d := by
  obtain ⟨H, hallowed, -⟩ := h.allowed
  obtain ⟨d', hd', hcase⟩ := hallowed.documents hd
  have hget : w'.documents.get? id = some d' :=
    (congrArg (fun a : Archive => a.documents.get? id) h.archive).trans hd'
  -- A version is added, and a document deleted, only while it is live.
  have hdead : w.liveDocument id = none := by
    by_contra hlive
    obtain ⟨d0, hd0⟩ := Option.ne_none_iff_exists'.1 hlive
    obtain ⟨hrow, hnot⟩ := liveDocument_eq_some.1 hd0
    obtain rfl := Option.some.inj (hrow.symm.trans hd)
    exact hdeleted hnot
  have hother : ∀ {other : UUID} {d0 : Document}, w.liveDocument other = some d0 → other ≠ id := by
    rintro other d0 hlive rfl
    exact absurd (hdead.symm.trans hlive) (by simp)
  rcases hcase with rfl | ⟨number, v, rfl⟩ | ⟨ids, now, rfl, rfl⟩
  · exact hget
  · cases hallowed with
    | addVersion lock document => exact absurd rfl (hother document)
  · cases hallowed with
    | deleteDocument lock document => exact absurd rfl (hother document)

/-- A live document stays so, unless the move deletes it. -/
theorem World.MovesTo.live (h : w.MovesTo host cfg services z m w') {id : UUID} (hlive : w.liveDocument id ≠ none)
    (hkept : ∀ ids now, m ≠ .deleteDocument id ids now) : w'.liveDocument id ≠ none := by
  obtain ⟨d, hd⟩ := Option.ne_none_iff_exists'.1 hlive
  obtain ⟨hrow, hnot⟩ := liveDocument_eq_some.1 hd
  suffices hsome : ∃ d', (m.onDocuments w.documents).get? id = some d' ∧ d'.deletedAt = none by
    obtain ⟨d', hd', hnot'⟩ := hsome
    have hget := (congrArg (fun a : Archive => a.documents.get? id) h.archive).trans hd'
    exact Option.ne_none_iff_exists'.2 ⟨d', liveDocument_eq_some.2 ⟨hget, hnot'⟩⟩
  cases m with
  | createDocument => exact ⟨d, Table.get?_insert_of_some hrow, hnot⟩
  | addVersion other number v =>
      rw [Move.onDocuments, Table.get?_update]
      split
      · exact ⟨d.revised number v, by rw [hrow, Option.map_some], hnot⟩
      · exact ⟨d, hrow, hnot⟩
  | deleteDocument other ids now =>
      have hne : id ≠ other := by
        rintro rfl
        exact hkept ids now rfl
      exact ⟨d, (Table.get?_update_of_ne _ hne _).trans hrow, hnot⟩
  | _ => exact ⟨d, hrow, hnot⟩

/-- One move. -/
theorem World.MovesTo.openLive (h : w.MovesTo host cfg services z m w') (hw : w.OpenLive) : w'.OpenLive := by
  intro id r' hr' hopen
  rcases (h.sliceStep id).request hr' with ⟨-, -, hdraft⟩ | ⟨r, hr, hbecomes⟩
  · exact absurd (hopen.symm.trans hdraft) (by simp)
  have hr : w.requests.get? id = some r := hr
  obtain ⟨H, hallowed, -⟩ := h.allowed
  have hdocument : r'.documentId = r.documentId := congrArg Prod.fst hbecomes.pin
  rw [hdocument]
  -- The request was open, or is opened now.
  have hlive : w.liveDocument r.documentId ≠ none ∧ (r.status = .open ∨ ∃ mode, m = .openRequest id mode) := by
    cases hbecomes with
    | same => exact ⟨hw id _ hr hopen, Or.inl hopen⟩
    | linked => exact ⟨hw id r hr hopen, Or.inl hopen⟩
    | cancelled => exact absurd hopen (by simp [SignatureRequest.cancelled])
    | completed => exact absurd hopen (by simp [SignatureRequest.completed])
    | @opened mode hdraft =>
        cases hallowed with
        | openRequest lock request status signers document =>
            obtain rfl := Option.some.inj (hr.symm.trans request)
            exact ⟨document, Or.inr ⟨mode, rfl⟩⟩
  refine h.live hlive.1 ?_
  -- A document that is deleted takes its open requests with it.
  rintro ids now rfl
  rcases hlive.2 with hwas | ⟨mode, hm⟩
  · cases hallowed with
    | deleteDocument lock document active =>
        have hactive : w.inProgress r.documentId id = true := by simp [World.inProgress, hr, hwas]
        have hrequest : w'.requests.get? id = some r.cancelled := by
          refine (congrArg (fun a : Archive => a.requests.get? id) h.archive).trans ?_
          simp [Move.apply, Move.onRequests, hr, (active id).2 hactive]
        obtain rfl := Option.some.inj (hr'.symm.trans hrequest)
        exact absurd hopen (by simp [SignatureRequest.cancelled])
  · exact absurd hm (by simp)

theorem openLive_of_run (hrun : Run (workflowRuns host cfg services z) Y steps Z) (hidle : Y.sessions = [])
    (hmeets : ∀ x ∈ steps, (workflowProtocol host cfg services z).Meets x.1 x.2)
    (hempty : Y.shared.toArchive = .empty) : Z.shared.OpenLive := by
  refine workflow_induct hrun hidle hmeets (motive := fun _ w => w.OpenLive) ?_ (fun _ w w' ih hrests => ?_)
    fun _ w w' m ih hmoves => hmoves.openLive ih
  · intro id r hr
    have hrequests : Y.shared.requests = ∅ := congrArg Archive.requests hempty
    rw [hrequests] at hr
    exact absurd hr (by simp)
  · intro id r hr hopen
    have hrequests : w'.requests = w.requests := congrArg Archive.requests hrests.archive
    rw [hrequests] at hr
    rw [liveDocument_congr hrests.archive]
    exact ih id r hr hopen

/-- **Nobody signs what is deleted.** Whatever interleaves, the document of an open request is never deleted, and
    a document that is deleted stays so, row and all; a signing commits only under an open request of a live
    document, and the tenant that it is charged to is the document's. -/
theorem deleted_unsigned (hrun : Run (workflowRuns host cfg services (anyCircumstances B)) Y steps Z)
    (hidle : Y.sessions = []) (hempty : Y.shared.toArchive = .empty) :
    Z.shared.OpenLive ∧ ∀ x ∈ steps, ∀ X', x.1.step x.2 = some X' →
      (∀ id d, x.1.shared.documents.get? id = some d → d.deletedAt ≠ none → X'.shared.documents.get? id = some d) ∧
      ∀ s, movedBy x = some (.sign s) → ∃ r d, x.1.shared.requests.get? s.request = some r ∧ r.status = .open ∧
        x.1.shared.liveDocument r.documentId = some d ∧ d.tenantId = s.tenant := by
  have hmeets : ∀ x ∈ steps, (workflowProtocol host cfg services (anyCircumstances B)).Meets x.1 x.2 :=
    fun _ _ _ _ _ => trivial
  refine ⟨openLive_of_run hrun hidle hmeets hempty, fun x hx X' hstep => ?_⟩
  rcases workflow_step hrun hidle hmeets hx hstep with ⟨hnone, hrests⟩ | ⟨m, hm, hmoves⟩
  · refine ⟨fun id d hd _ => ?_, fun s hs => absurd (hs.symm.trans hnone) (by simp)⟩
    exact (congrArg (fun a : Archive => a.documents.get? id) hrests.archive).trans hd
  · refine ⟨fun id d hd hdeleted => hmoves.deleted hd hdeleted, fun s hs => ?_⟩
    obtain rfl := Option.some.inj (hs.symm.trans hm)
    obtain ⟨past, future, rfl⟩ := List.append_of_mem hx
    obtain ⟨hbefore, -, -⟩ := hrun.split
    have hopen : x.1.shared.OpenLive := openLive_of_run hbefore hidle (fun _ _ _ _ _ => trivial) hempty
    obtain ⟨H, hallowed, -⟩ := hmoves.allowed
    cases hallowed with
    | @sign _ r _ allowed =>
        obtain ⟨d, hd⟩ := Option.ne_none_iff_exists'.1 (hopen s.request r allowed.request allowed.status)
        obtain ⟨d', hd', htenant⟩ := allowed.tenant
        obtain rfl := Option.some.inj (hd'.symm.trans (liveDocument_eq_some.1 hd).1)
        exact ⟨r, d', allowed.request, allowed.status, hd, htenant⟩

end Runs

/-- The administrator deletes the document of a request that is open. -/
def leaseDeleted : List (WorkflowCall SampleBytes × Nat) :=
  leaseOpened ++ [(.manage none "admin@x" (.deleteDocument "10" true), 15)]

theorem deleted_unsigned_leaseDeleted :
    ∃ steps Z, Run (workflowRuns sampleHost sampleSettings sampleServices (anyCircumstances SampleBytes))
        emptyWorkspace steps Z ∧ (Z.shared.requests.get? 20).map SignatureRequest.status = some .cancelled ∧
      Z.shared.OpenLive := by
  obtain ⟨steps, Z, hrun, hp⟩ := exists_script sampleHost sampleSettings sampleServices (Y := emptyWorkspace)
    (anyCircumstances SampleBytes) (serial leaseDeleted)
    (p := fun _ Z => (Z.shared.requests.get? 20).map SignatureRequest.status = some .cancelled) (by decide +kernel)
  exact ⟨steps, Z, hrun, of_decide_eq_true hp, (deleted_unsigned hrun rfl rfl).1⟩

end Rubrica
