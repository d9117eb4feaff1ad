import Rubrica.Signatures.Steps

set_option autoImplicit false

/-! # Managing keeps the protocol

The operations on requests, their signers and their links, and the deletion of documents, whatever the
others do between their statements. -/

namespace Rubrica

open Transactions

variable {B Page α : Type}

section Host

variable {host : Host B Page} {cfg : Settings} {services : SigningServices B} {z : Circumstances B}
  {caller : Caller} {base : Rights RowKey} {w : World B}

/-! ## Opening and cancelling -/

theorem wp_cancelRequest (identifier actorId : String) :
    (workflowProtocol host cfg services z).wp (cancelRequest host caller identifier actorId)
      (fun _ _ _ => True) (fun _ _ _ => True) (.start base) w := by
  refine wp_workflowTransaction (Protocol.stable_const _ True) trivial fun c h => ?_
  refine Protocol.wp_seq (wp_requestOfLocked h fun id r σ c1 w1 _ hσ h1 => ?_)
  refine Protocol.wp_seq (Protocol.wp_knowing (local_requireRequestAccess host caller _ _ _) h1
    fun access c2 w2 h2 => ?_)
  refine Protocol.wp_seq (Protocol.wp_knowingRequire h2 fun hstatus => ?_)
  refine Protocol.wp_seq (Protocol.wp_knowing (local_audit unseen_record _ _ _ _ _ _) h2 fun _ c3 w3 h3 => ?_)
  refine Protocol.wp_seq (wp_saveMove (m := .cancelRequest id) h3 (fun _ => rfl) fun c4 w4 h4 => ?_)
  refine Protocol.wp_seq (Protocol.wp_knowing (local_requestRead _ _ _) h4 fun read c5 w5 h5 => ?_)
  refine Protocol.wp_pure (commits_move h5 rfl (fun _ _ => trivial) fun v hheld hv => ?_)
  exact .cancelRequest (hheld List.mem_cons_self) (request_of_slice hv.2 hσ) hstatus

theorem local_requireMode {W : (World B → World B) → Prop} (request : UUID) (signerCount : Nat)
    (mode : SignatureMode) : (requireMode cfg services request signerCount mode : Workflow B Unit).Local W := by
  cases mode with
  | evidence => exact Code.local_pure _
  | serproTimestamp => exact Code.local_require _ _
  | serproId =>
      exact Code.local_bind (Code.local_require _ _) fun _ => Code.local_bind (Code.local_require _ _) fun _ =>
        Code.local_bind (local_query _) fun _ => Code.local_require _ _

theorem wp_openRequest (identifier actorId : String) (mode : SignatureMode) :
    (workflowProtocol host cfg services z).wp (openRequest host cfg services caller identifier actorId mode)
      (fun _ _ _ => True) (fun _ _ _ => True) (.start base) w := by
  refine wp_workflowTransaction (Protocol.stable_const _ True) trivial fun c h => ?_
  refine Protocol.wp_seq (wp_requestOfLocked h fun id r σ c1 w1 _ hσ h1 => ?_)
  refine Protocol.wp_seq (Protocol.wp_knowing (local_requireRequestAccess host caller _ _ _) h1
    fun access c2 w2 h2 => ?_)
  refine Protocol.wp_seq (Protocol.wp_knowingRequire h2 fun hstatus => ?_)
  refine Protocol.wp_seq (Protocol.wp_knowingSelect h2 fun w3 h3 => ?_)
  refine Protocol.wp_seq (Protocol.wp_knowingRequire h3 fun hsigners => ?_)
  have hcount : ∀ v : World B, v.toArchive.slice id = σ → v.signersOf id ≠ [] := by
    intro v hv hnil
    have hsame : (c2.pending w3).signersOf id = v.signersOf id := by
      rw [archive_pending h3]
      exact congrArg Slice.signers (h3.now.2.trans hv.symm)
    exact hsigners (by rw [hsame, hnil]; rfl)
  refine Protocol.wp_seq (Protocol.wp_knowing (local_requireMode _ _ _) h3 fun _ c4 w4 h4 => ?_)
  refine Protocol.wp_seq (Protocol.wp_seq (Protocol.wp_knowingSelect h4 fun w5 h5 => ?_))
  refine Protocol.wp_knowingOrRaise h5 fun d hd => ?_
  rw [liveDocument_congr (archive_pending h5), liveDocument_eq_some] at hd
  -- The document stays alive as long as the request is locked and in progress.
  have h5 := h5.refine ((Protocol.stable_const _ True).and (stable_live List.mem_cons_self hσ (Or.inl hstatus)))
    ⟨trivial, h5.now.2, d, hd⟩ fun v hv => ⟨trivial, hv.2.1⟩
  refine Protocol.wp_seq (Protocol.wp_knowingRequire h5 fun _ => ?_)
  refine Protocol.wp_seq (Protocol.wp_knowing (local_audit unseen_record _ _ _ _ _ _) h5 fun _ c6 w6 h6 => ?_)
  refine Protocol.wp_seq (wp_saveMove (m := .openRequest id mode) h6 (fun _ => rfl) fun c7 w7 h7 => ?_)
  refine Protocol.wp_seq (Protocol.wp_knowing (local_requestRead _ _ _) h7 fun read c8 w8 h8 => ?_)
  refine Protocol.wp_pure (commits_move h8 rfl (fun _ _ => trivial) fun v hheld hv => ?_)
  obtain ⟨-, hslice, d', hd'⟩ := hv
  have hlive : v.liveDocument r.documentId = some d' := liveDocument_eq_some.2 hd'
  exact .openRequest (hheld List.mem_cons_self) (request_of_slice hslice hσ) hstatus (hcount v hslice)
    (by rw [hlive]; simp)

/-! ## Signers -/

theorem local_representationSnapshot {W : (World B → World B) → Prop} (request : SignatureRequest)
    (payload : SignerCreate) (held : Option BillingAccount) :
    (representationSnapshot host request payload held : Workflow B Dict).Local W :=
  Code.local_bind (local_liveDocument _ _) fun _ => Code.local_bind (Code.local_require _ _) fun _ =>
    Code.local_bind (local_query _) fun _ => Code.local_bind (Code.local_orRaise _ _) fun _ =>
      Code.local_bind (local_query _) fun _ => Code.local_bind (local_query _) fun _ =>
        Code.local_bind (Code.local_require _ _) fun _ => Code.local_bind (local_query _) fun _ =>
          Code.local_bind (Code.local_orRaise _ _) fun _ => Code.local_bind (local_query _) fun _ =>
            Code.local_pure _

theorem local_snapshotFor {W : (World B → World B) → Prop} (request : SignatureRequest)
    (payload : SignerCreate) (held : Option BillingAccount) :
    (snapshotFor host request payload held : Workflow B _).Local W :=
  Code.local_ite (Code.local_bind (local_representationSnapshot _ _ _) fun _ => Code.local_pure _)
    (Code.local_pure _)

theorem wp_addSigner (identifier : String) (payload : SignerCreate) (actorId : String) (id : UUID)
    (token : String) (hname : (RowKey.name id, LockMode.exclusive) ∈ base) (hw : w.toArchive.Unused id) :
    (workflowProtocol host cfg services z).wp (addSigner host caller identifier payload actorId id token)
      (fun _ _ _ => True) (fun _ _ _ => True) (.start base) w := by
  refine wp_workflowTransaction (stable_unused hname) hw fun c h => ?_
  refine Protocol.wp_seq (wp_requestOfLocked h fun request r σ c1 w1 _ hσ h1 => ?_)
  refine Protocol.wp_seq (Protocol.wp_knowing (local_requireRequestAccess host caller _ _ _) h1
    fun access c2 w2 h2 => ?_)
  refine Protocol.wp_seq (Protocol.wp_knowingRequire h2 fun hstatus => ?_)
  refine Protocol.wp_seq (Protocol.wp_knowingRequire h2 fun _ => ?_)
  refine Protocol.wp_seq (Protocol.wp_knowing (local_snapshotFor _ _ _) h2 fun snapshot c3 w3 h3 => ?_)
  refine Protocol.wp_seq (Protocol.wp_knowingSelect h3 fun w4 h4 => ?_)
  set row := payload.row host request token (c3.pending w4).clock snapshot
  -- The flush; what it raises instead of an integrity error does not matter.
  refine Protocol.wp_seq (Protocol.wp_try ?_)
  refine Protocol.wp_seq (wp_knowingClaim h4
    (Protocol.stable_const _ (∀ v : World B, v.toArchive.slice request = σ → v.signerOf request row.authUserId = none))
    (fun v hv htaken u hu => ?_) fun c5 w5 h5 => ?_)
  · have hsame : (c3.pending v).toArchive.slice request = u.toArchive.slice request := by
      rw [toArchive_of_estate (h4.pending v hv)]
      exact hv.2.trans hu.symm
    rw [← signerOf_of_slice hsame]
    exact Option.isSome_eq_false_iff.1 htaken |> Option.isNone_iff_eq_none.1
  refine Protocol.wp_seq (Protocol.wp_knowing (local_claim _ _) h5 fun _ c6 w6 h6 => ?_)
  refine Protocol.wp_seq (Protocol.wp_knowing (Code.local_onlyIf _ fun _ => local_referTo _ _) h6
    fun _ c7 w7 h7 => ?_)
  refine wp_saveMove (m := .addSigner id row) h7 (fun _ => rfl) fun c8 w8 h8 => ?_
  refine Protocol.wp_seq (Protocol.wp_knowing (local_audit unseen_record _ _ _ _ _ _) h8 fun _ c9 w9 h9 => ?_)
  refine Protocol.wp_pure (commits_move h9 rfl (fun _ _ => trivial) fun v hheld hv => ?_)
  obtain ⟨⟨hunused, hslice⟩, hfree⟩ := hv
  have hmem : ∀ {k}, k ∈ ((RowKey.request request, LockMode.exclusive) :: base) → k ∈ c9.held :=
    fun hk => hheld (List.mem_cons_of_mem _ hk)
  exact .addSigner (hmem List.mem_cons_self) (hmem (List.mem_cons_of_mem _ hname)) hunused.signers
    (request_of_slice hslice hσ) hstatus rfl rfl (hfree v hslice)

/-! ## Links -/

theorem wp_revokeSignerLink (identifier signerIdentifier actorId : String) :
    (workflowProtocol host cfg services z).wp (revokeSignerLink host caller identifier signerIdentifier actorId)
      (fun _ _ _ => True) (fun _ _ _ => True) (.start base) w := by
  refine wp_workflowTransaction (Protocol.stable_const _ True) trivial fun c h => ?_
  refine Protocol.wp_seq (wp_requestOfLocked h fun request r σ c1 w1 _ hσ h1 => ?_)
  refine Protocol.wp_seq (Protocol.wp_knowing (local_requireRequestAccess host caller _ _ _) h1
    fun access c2 w2 h2 => ?_)
  refine Protocol.wp_seq (Protocol.wp_seq (Protocol.wp_knowingOrRaise h2 fun id _ => ?_))
  refine Protocol.wp_seq (Protocol.wp_knowingLock h2 (fun w3 h3 hrow => ?_) fun w3 k h3 hrow => ?_)
  · have hnone := Option.map_eq_none_iff.1 hrow
    exact Protocol.wp_seq (Protocol.wp_knowingOrRaise h3 fun x hx => absurd (hnone.symm.trans hx) (by simp))
  obtain ⟨s, hs, rfl⟩ := Option.map_eq_some_iff.1 hrow
  have hfound : ((c2.pending w3).signers.get? id).filter (fun s => decide (s.signatureRequestId = request)) = some s :=
    hs
  have hs := hfound
  rw [archive_pending h3, Option.filter_eq_some_iff, decide_eq_true_eq] at hs
  have h3 := h3.take (m := .exclusive) (r := .signer id) (Protocol.stable_const _ True) trivial
  refine Protocol.wp_seq (Protocol.wp_knowingOrRaise h3 fun x hx => ?_)
  obtain rfl := Option.some.inj (hfound.symm.trans hx)
  refine Protocol.wp_pure ?_
  refine Protocol.wp_seq (Protocol.wp_knowingRequire h3 fun hstatus => ?_)
  unfold revokeSigner
  dsimp only
  cases hrevoked : s.linkRevokedAt with
  | some at' => exact Protocol.wp_pure (commits_same h3)
  | none =>
      refine Protocol.wp_seq (Protocol.wp_knowingSelect h3 fun w4 h4 => ?_)
      refine Protocol.wp_seq (Protocol.wp_knowing (local_audit unseen_record _ _ _ _ _ _) h4 fun _ c5 w5 h5 => ?_)
      refine Protocol.wp_seq (wp_saveMove (m := .revokeLink request id _) h5 (fun _ => rfl) fun c6 w6 h6 => ?_)
      refine Protocol.wp_pure (commits_move h6 rfl (fun _ _ => trivial) fun v hheld hv => ?_)
      have hslice : v.toArchive.slice request = w3.toArchive.slice request := hv.1.2.trans h3.now.1.2.symm
      exact .revokeLink (hheld (List.mem_cons_of_mem _ List.mem_cons_self))
        (signer_of_slice hslice hs.2 hs.1) hs.2 hstatus hrevoked

theorem wp_sendInvitations {c : Ctx (World B) RowKey} {Q : Unit → Ctx (World B) RowKey → World B → Prop}
    (l : List SignatureInvitation) (hQ : Q () c w) :
    (workflowProtocol host cfg services z).wp (sendInvitations host cfg services l) Q (fun _ _ _ => True) c w := by
  induction l with
  | nil => exact hQ
  | cons x rest ih =>
      unfold sendInvitations
      split
      · trivial
      · exact ih

theorem wp_createSigningLink (identifier actorId nonce : String) :
    (workflowProtocol host cfg services z).wp
      (createSigningLink host cfg services caller identifier actorId nonce)
      (fun _ _ _ => True) (fun _ _ _ => True) (.start base) w := by
  have hissue : (workflowProtocol host cfg services z).wp (issueLink host cfg caller identifier actorId nonce)
      (fun _ _ _ => True) (fun _ _ _ => True) (.start base) w := by
    refine wp_workflowTransaction (Protocol.stable_const _ True) trivial fun c h => ?_
    refine Protocol.wp_seq (wp_requestOfLocked h fun id r σ c1 w1 _ hσ h1 => ?_)
    refine Protocol.wp_seq (Protocol.wp_knowing (local_requireRequestAccess host caller _ _ _) h1
      fun access c2 w2 h2 => ?_)
    refine Protocol.wp_seq (Protocol.wp_knowingRequire h2 fun hstatus => ?_)
    refine Protocol.wp_seq (Protocol.wp_knowing (local_audit unseen_record _ _ _ _ _ _) h2 fun _ c3 w3 h3 => ?_)
    refine Protocol.wp_seq (Protocol.wp_knowing (local_liveDocument _ _) h3 fun _ c4 w4 h4 => ?_)
    refine Protocol.wp_seq (Protocol.wp_knowing (local_query _) h4 fun _ c5 w5 h5 => ?_)
    refine Protocol.wp_seq (Protocol.wp_knowing (local_emailInvitationsEnabled _ _) h5 fun _ c6 w6 h6 => ?_)
    refine Protocol.wp_seq (Protocol.wp_knowing (local_claim _ _) h6 fun _ c7 w7 h7 => ?_)
    refine Protocol.wp_seq (wp_knowingClaim (L := fun v => v.toArchive.OnlyFor id (linkHash host cfg id nonce)) h7
      (stable_onlyFor List.mem_cons_self) (fun v hv htaken id' r' hr' hhash => ?_) fun c8 w8 h8 => ?_)
    · have hrequests : (c7.pending v).requests = v.requests :=
        congrArg Archive.requests (toArchive_of_estate (h7.pending v hv))
      by_contra hne
      refine Bool.eq_false_iff.1 htaken (Table.any_iff.2 ⟨id', r', ?_, ?_⟩)
      · rw [hrequests, hr']
      · simpa [hhash, linkHash] using hne
    refine Protocol.wp_seq (wp_saveMove (m := .createLink id nonce (linkHash host cfg id nonce)) h8 (fun _ => rfl)
      fun c9 w9 h9 => ?_)
    refine Protocol.wp_pure (commits_move h9 rfl (fun _ _ => trivial) fun v hheld hv => ?_)
    exact .createLink (hheld (List.mem_cons_of_mem _ List.mem_cons_self)) (request_of_slice hv.1.2 hσ) hstatus rfl
      (hheld List.mem_cons_self) hv.2
  refine Protocol.wp_seq (Protocol.wp_mono hissue (fun _ h => h) (fun issued c' w' _ _ => ?_)
    fun _ _ _ _ _ => trivial)
  exact Protocol.wp_seq (wp_sendInvitations _ trivial)

/-! ## Creating requests -/

theorem wp_createRequest (payload : SignatureRequestCreate) (id : UUID)
    (hname : (RowKey.name id, LockMode.exclusive) ∈ base) (hw : w.toArchive.Unused id) :
    (workflowProtocol host cfg services z).wp (createRequest host caller payload id)
      (fun _ _ _ => True) (fun _ _ _ => True) (.start base) w := by
  have hunused : (workflowProtocol host cfg services z).Stable base _ := stable_unused hname
  refine Protocol.wp_seq (Protocol.wp_select hunused hw (fun w1 h1 _ _ => ?_) fun _ _ _ => trivial)
  refine Protocol.wp_seq (Protocol.wp_require (fun _ => ?_) fun _ => trivial)
  refine wp_workflowTransaction hunused h1 fun c h => ?_
  refine Protocol.wp_seq (Protocol.wp_knowing (local_liveDocument _ _) h fun document c2 w2 h2 => ?_)
  refine Protocol.wp_seq (Protocol.wp_knowing (local_requireSeat host caller _ _ _) h2 fun _ c3 w3 h3 => ?_)
  refine Protocol.wp_seq (Protocol.wp_knowing (local_query _) h3 fun found c4 w4 h4 => ?_)
  refine Protocol.wp_seq (Protocol.wp_knowingOrRaise h4 fun tenant _ => ?_)
  refine Protocol.wp_seq (wp_knowingRefer h4 fun c5 w5 h5 => ?_)
  refine Protocol.wp_seq (wp_saveMove (m := .createRequest id (payload.row host document tenant)) h5 (fun _ => rfl)
    fun c6 w6 h6 => ?_)
  refine Protocol.wp_seq (Protocol.wp_knowing (local_audit unseen_record _ _ _ _ _ _) h6 fun _ c7 w7 h7 => ?_)
  refine Protocol.wp_seq (Protocol.wp_knowing (local_requestRead _ _ _) h7 fun read c8 w8 h8 => ?_)
  refine Protocol.wp_pure (commits_move h8 rfl (fun _ _ => trivial) fun v hheld hv => ?_)
  exact .createRequest (hheld (List.mem_cons_of_mem _ hname)) hv.requests (hheld List.mem_cons_self) rfl rfl rfl
    rfl rfl

/-! ## Deleting documents -/

/-- Locking the requests in progress: those that are found so are locked and stay in progress, and no others
    are. -/
theorem wp_lockInProgress {D : World B → Prop} {document : UUID} (ids : List UUID) {p : UUID → Prop}
    {K : Rights RowKey} {A : World B → Prop} {c : Ctx (World B) RowKey} {w : World B}
    {Q : List UUID → Ctx (World B) RowKey → World B → Prop}
    (hlock : (RowKey.document document, LockMode.exclusive) ∈ K)
    (h : (workflowProtocol host cfg services z).Knows World.estate D K A Same c w)
    (hall : ∀ v, A v → ∀ id, v.inProgress document id = true → id ∈ ids ∨ p id)
    (hQ : ∀ K' L locked c' w', K ⊆ K' → (∀ id ∈ locked, (RowKey.request id, LockMode.exclusive) ∈ K') →
      (∀ v, L v → A v ∧ (∀ id, v.inProgress document id = true → id ∈ locked ∨ p id) ∧
        ∀ id ∈ locked, v.inProgress document id = true) →
      (workflowProtocol host cfg services z).Knows World.estate D K' L Same c' w' → Q locked c' w') :
    (workflowProtocol host cfg services z).wp (lockInProgress document ids) Q (fun _ _ w => D w) c w := by
  induction ids generalizing p K A c w Q with
  | nil =>
      refine Protocol.wp_pure (hQ K A [] c w (fun _ hk => hk) (by simp) (fun v hv => ⟨hv, ?_, by simp⟩) h)
      exact hall v hv
  | cons id rest ih =>
      refine Protocol.wp_seq (Protocol.wp_knowingLock h (fun w1 h1 hrow => ?_) fun w1 k h1 hrow => ?_)
      · -- The request is not in progress any more, and stays so.
        have hnot : w1.inProgress document id = false := by
          rw [← inProgress_congr (archive_pending h1)]
          by_contra hne
          rw [Bool.not_eq_false] at hne
          simp [hne] at hrow
        have hfound : (c.pending w1).inProgress document id = false :=
          (inProgress_congr (archive_pending h1)).trans hnot
        have hrest : (workflowProtocol host cfg services z).Stable K _ :=
          stable_notInProgress hlock fun other => other ∈ rest ∨ p other
        have hnow : ∀ other, w1.inProgress document other = true → other ∈ rest ∨ p other := by
          intro other hactive
          rcases hall w1 h1.now other hactive with hmem | hp
          · rcases List.mem_cons.1 hmem with rfl | hmem
            · rw [hnot] at hactive
              exact absurd hactive (by simp)
            · exact Or.inl hmem
          · exact Or.inr hp
        refine Protocol.wp_seq (ih hlock (h1.learn hrest hnow) (fun v hv => hv.2) fun K' L locked c' w' hK hlocked
          hL h' => Protocol.wp_pure ?_)
        rw [if_neg (by simp [hfound])]
        exact hQ K' L locked c' w' hK hlocked (fun v hv => ⟨(hL v hv).1.1, (hL v hv).2⟩) h'
      · have hactive : (c.pending w1).inProgress document id = true := by
          by_contra hne
          rw [Bool.not_eq_true] at hne
          simp [hne] at hrow
        obtain rfl : RowKey.request id = k := by simpa [hactive] using hrow
        have h2 := h1.take (m := .exclusive) (stable_inProgress List.mem_cons_self)
          ((inProgress_congr (archive_pending h1)).symm.trans hactive)
        refine Protocol.wp_seq (ih (p := fun other => other = id ∨ p other) (List.mem_cons_of_mem _ hlock) h2
          (fun v hv other ho => ?_) fun K' L locked c' w' hK hlocked hL h' => Protocol.wp_pure ?_)
        · rcases hall v hv.1 other ho with hmem | hp
          · exact (List.mem_cons.1 hmem).elim (fun he => Or.inr (Or.inl he)) Or.inl
          · exact Or.inr (Or.inr hp)
        rw [if_pos hactive]
        refine hQ K' L (id :: locked) c' w' (fun _ hk => hK (List.mem_cons_of_mem _ hk)) ?_ (fun v hv => ?_) h'
        · exact List.forall_mem_cons.2 ⟨hK List.mem_cons_self, hlocked⟩
        · obtain ⟨⟨hA, hid⟩, hothers, hlocked'⟩ := hL v hv
          refine ⟨hA, fun other ho => ?_, List.forall_mem_cons.2 ⟨hid, hlocked'⟩⟩
          rcases hothers other ho with hmem | rfl | hp
          · exact Or.inl (List.mem_cons_of_mem _ hmem)
          · exact Or.inl List.mem_cons_self
          · exact Or.inr hp

theorem local_auditCancelled {W : (World B → World B) → Prop} (hW : ∀ e, W fun w => w.record e)
    (actorId : String) (ids : List UUID) : (auditCancelled actorId ids : Workflow B Unit).Local W := by
  induction ids with
  | nil => exact Code.local_pure _
  | cons id rest ih => exact Code.local_bind (local_audit hW _ _ _ _ _ _) fun _ => ih

theorem wp_deleteDocument (identifier actorId : String) (force : Bool) :
    (workflowProtocol host cfg services z).wp (deleteDocument host caller identifier actorId force)
      (fun _ _ _ => True) (fun _ _ _ => True) (.start base) w := by
  refine wp_workflowTransaction (Protocol.stable_const _ True) trivial fun c h => ?_
  refine Protocol.wp_seq (wp_documentOfLocked h fun id d c1 w1 hlive h1 => ?_)
  refine Protocol.wp_seq (Protocol.wp_knowing (local_requireSeat host caller _ _ _) h1 fun _ c2 w2 h2 => ?_)
  refine Protocol.wp_seq (Protocol.wp_knowingSelect h2 fun w3 h3 => ?_)
  set ids := ((c2.pending w3).requests.select fun other _ => (c2.pending w3).inProgress id other).map Prod.fst
  have hall : ∀ other, w3.inProgress id other = true → other ∈ ids ∨ False := by
    intro other hactive
    have hactive : (c2.pending w3).inProgress id other = true :=
      (inProgress_congr (archive_pending h3)).trans hactive
    obtain ⟨hsome, -⟩ := (Option.any_eq_true_iff_get _ _).1 hactive
    obtain ⟨r, hr⟩ := Option.isSome_iff_exists.1 hsome
    exact Or.inl (List.mem_map.2 ⟨(other, r), Table.mem_select_iff.2 ⟨hr, hactive⟩, rfl⟩)
  have h4 := h3.learn (stable_notInProgress List.mem_cons_self fun other => other ∈ ids ∨ False) hall
  refine Protocol.wp_seq (wp_lockInProgress ids List.mem_cons_self h4 (fun v hv => hv.2)
    fun K' L active c5 w5 hK hlocked hL h5 => ?_)
  refine Protocol.wp_seq (Protocol.wp_knowingRequire h5 fun _ => ?_)
  refine Protocol.wp_seq (Protocol.wp_knowing (local_auditCancelled unseen_record _ _) h5 fun _ c6 w6 h6 => ?_)
  refine Protocol.wp_seq (Protocol.wp_knowingSelect h6 fun w7 h7 => ?_)
  refine Protocol.wp_seq (Protocol.wp_knowing (local_audit unseen_record _ _ _ _ _ _) h7 fun _ c8 w8 h8 => ?_)
  generalize (c6.pending w7).clock = now
  -- Two writes make the move.
  refine Protocol.wp_seq (wp_saveThen (f := fun a => { a with
    requests := a.requests.map fun id r => if id ∈ active then r.cancelled else r }) h8 (fun _ => rfl)
    fun c9 w9 h9 => ?_)
  refine Protocol.wp_seq (wp_saveThen (f := fun a => { a with
    documents := a.documents.update id (.deleted now) }) h9 (fun _ => rfl) fun c10 w10 h10 => ?_)
  have h10 := h10.means (N := Makes (.deleteDocument id active now)) fun v x _ hx => by
    obtain ⟨-, ⟨-, rfl, rfl⟩, rfl⟩ := hx
    rfl
  refine Protocol.wp_pure (commits_move h10 rfl (fun _ _ => trivial) fun v hheld hv => ?_)
  obtain ⟨hA, hothers, hactive⟩ := hL v hv
  have hheld' : ∀ {k}, k ∈ K' → k ∈ c10.held := fun hk => hheld hk
  refine .deleteDocument (hheld' (hK List.mem_cons_self)) (liveDocument_eq_some.2 ⟨hA.1.2, hlive⟩) (fun other => ?_)
    fun other hmem => hheld' (hlocked other hmem)
  exact ⟨hactive other, fun h => (hothers other h).elim (fun hm => hm) fun hf => hf.elim⟩

end Host

end Rubrica
