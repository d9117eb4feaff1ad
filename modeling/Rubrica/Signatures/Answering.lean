import Rubrica.Signatures.Signing
import Rubrica.Signatures.Uploads

set_option autoImplicit false

/-! # Answering keeps the protocol

The operations behind a signing link: each resolves its token under the lock of the request, so that the
signer it finds stays as it is until the commit. -/

namespace Rubrica

open Transactions

variable {B Page α : Type}

section Host

variable {host : Host B Page} {cfg : Settings} {services : SigningServices B} {z : Circumstances B}
  {caller : Caller} {base : Rights RowKey} {w : World B}

/-! ## Resolving -/

/-- What a session that changes something knows of a token it has resolved. -/
structure Resolved (host : Host B Page) (token subject : String) (σ : Slice) (s : UUID × Signer)
    (r : UUID × SignatureRequest) : Prop where
  request : σ.request = some r.2
  hash : r.2.signingTokenHash = some (host.sha256 (host.encode token))
  signer : ∀ v : World B, v.toArchive.slice r.1 = σ → v.signerOf r.1 (host.lower subject) = some s
  status : r.2.status = .open
  unrevoked : s.2.linkRevokedAt = none

/-- Resolving a token locks the request and the signer. -/
theorem wp_resolveRequest {D : World B → Prop} {K : Rights RowKey} {A : World B → Prop}
    {c : Ctx (World B) RowKey} {token subject : String}
    {Q : (UUID × Signer) × (UUID × SignatureRequest) → Ctx (World B) RowKey → World B → Prop}
    (h : (workflowProtocol host cfg services z).Knows World.estate D K A Same c w)
    (hQ : ∀ K' signer request σ c' w', K ⊆ K' → (RowKey.request request.1, LockMode.exclusive) ∈ K' →
      Resolved host token subject σ signer request →
      (workflowProtocol host cfg services z).Knows World.estate D K'
        (fun v => A v ∧ v.toArchive.slice request.1 = σ) Same c' w' → Q (signer, request) c' w') :
    (workflowProtocol host cfg services z).wp (resolveRequest host token subject true false none none) Q
      (fun _ _ w => D w) c w := by
  refine Protocol.wp_seq (Protocol.wp_seq (Protocol.wp_knowingLock h (fun w1 h1 hrow => ?_) fun w1 k h1 hrow => ?_))
  · rw [Option.map_eq_none_iff.1 hrow]
    exact Protocol.wp_knowingOrRaise h1 fun x hx => absurd hx (by simp)
  obtain ⟨⟨id, r⟩, hfound, rfl⟩ := Option.map_eq_some_iff.1 hrow
  rw [hfound]
  obtain ⟨hr, hp⟩ := Table.mem_select_iff.1 (List.mem_of_mem_head? hfound)
  rw [archive_pending h1] at hr
  simp only [Bool.and_eq_true, decide_eq_true_eq, Option.isNone_iff_eq_none] at hp
  have hslice : (w1.toArchive.slice id).request = some r := hr
  have h1 := h1.take (m := .exclusive) (stable_slice (σ := w1.toArchive.slice id) List.mem_cons_self
    (by rw [hslice]; simp)) rfl
  refine Protocol.wp_knowingOrRaise h1 fun x hx => ?_
  obtain rfl := Option.some.inj hx
  show (workflowProtocol host cfg services z).wp (selectRow true _ _ >>= _) _ _ _ _
  refine Protocol.wp_seq (Protocol.wp_knowingLock h1 (fun w2 h2 hrow => ?_) fun w2 k h2 hrow => ?_)
  · rw [Option.map_eq_none_iff.1 hrow]
    exact Protocol.wp_seq (Protocol.wp_knowing (local_audit unseen_record _ _ _ _ _ _) h2
      fun _ c3 w3 h3 => h3.raises w3 h3.now)
  obtain ⟨signer, hsigner, rfl⟩ := Option.map_eq_some_iff.1 hrow
  rw [hsigner]
  have hstays : ∀ v : World B, v.toArchive.slice id = w1.toArchive.slice id →
      v.signerOf id (host.lower subject) = some signer := by
    intro v hv
    have hsame : v.toArchive.slice id = (c.take (.request id) .exclusive |>.pending w2).toArchive.slice id := by
      rw [archive_pending h2, h2.now.2, hv]
    rw [signerOf_of_slice hsame]
    exact hsigner
  have h3 := (h2.take (r := .signer signer.1) (m := .exclusive) (Protocol.stable_const _ True) trivial).refine
    (h2.stable.anti (List.subset_cons_self _ _)) h2.now fun v hv => ⟨hv, trivial⟩
  dsimp only
  refine Protocol.wp_seq (Protocol.wp_seq (Protocol.wp_knowingSelect h3 fun w4 h4 => ?_))
  refine Protocol.wp_seq (Protocol.wp_knowingRequire h4 fun hunrevoked => ?_)
  refine Protocol.wp_seq (Protocol.wp_knowingRequire h4 fun _ => ?_)
  refine Protocol.wp_knowingRequire h4 fun hstatus => Protocol.wp_pure ?_
  refine hQ _ signer (id, r) (w1.toArchive.slice id) _ w4 (fun _ hk => by simp [hk]) (by simp)
    ⟨hslice, hp.1, hstays, by simpa [asHeld] using hstatus, hunrevoked⟩ h4

/-! ## Looking and declining -/

theorem wp_viewDocument (token authUserId : String) :
    (workflowProtocol host cfg services z).wp (viewDocument host token authUserId)
      (fun _ _ _ => True) (fun _ _ _ => True) (.start base) w := by
  refine wp_workflowTransaction (Protocol.stable_const _ True) trivial fun c h => ?_
  refine Protocol.wp_seq (wp_resolveRequest h fun K signer request σ c1 w1 hK hlock hres h1 => ?_)
  unfold markViewed
  split
  · next hpending =>
    refine Protocol.wp_seq (Protocol.wp_knowing (local_audit unseen_record _ _ _ _ _ _) h1 fun _ c2 w2 h2 => ?_)
    refine Protocol.wp_seq (wp_saveMove (m := .view request.1 signer.1) h2 (fun _ => rfl) fun c3 w3 h3 => ?_)
    refine Protocol.wp_pure (commits_move h3 rfl (fun _ _ => trivial) fun v hheld hv => ?_)
    obtain ⟨hs, hown, -⟩ := signerOf_eq_some (hres.signer v hv.2)
    exact .view (hheld hlock) (request_of_slice hv.2 hres.request) hres.status hs hown hpending
  · exact Protocol.wp_pure (commits_same h1)

theorem wp_decline (token authUserId : String) :
    (workflowProtocol host cfg services z).wp (decline host token authUserId)
      (fun _ _ _ => True) (fun _ _ _ => True) (.start base) w := by
  refine wp_workflowTransaction (Protocol.stable_const _ True) trivial fun c h => ?_
  refine Protocol.wp_seq (wp_resolveRequest h fun K signer request σ c1 w1 hK hlock hres h1 => ?_)
  refine Protocol.wp_seq (Protocol.wp_knowingRequire h1 fun hunanswered => ?_)
  refine Protocol.wp_seq (Protocol.wp_knowing (local_audit unseen_record _ _ _ _ _ _) h1 fun _ c2 w2 h2 => ?_)
  refine Protocol.wp_seq (wp_saveMove (m := .decline request.1 signer.1) h2 (fun _ => rfl) fun c3 w3 h3 => ?_)
  refine Protocol.wp_pure (commits_move h3 rfl (fun _ _ => trivial) fun v hheld hv => ?_)
  obtain ⟨hs, hown, -⟩ := signerOf_eq_some (hres.signer v hv.2)
  exact .decline (hheld hlock) (request_of_slice hv.2 hres.request) hres.status hs hown hunanswered

/-! ## Signing -/

/-- What counting a signature makes of an account. -/
structure Counted (a : BillingAccount) (now : Int) (b : BillingAccount) : Prop where
  free : a.hasUnlimitedSignatures = true ∨ a.paidAccessEnabled now = true → b.quota = a.quota
  charged : ¬(a.hasUnlimitedSignatures = true ∨ a.paidAccessEnabled now = true) →
    a.quota.used < a.quota.limit ∧ b.quota = a.quota.charged

theorem flush_charged (a : BillingAccount) :
    (a.flush { a with
      deletedAt := none, signaturesUsed := a.signaturesUsed + 1 } a).quota = a.quota.charged := by
  have hused : written a.signaturesUsed (a.signaturesUsed + 1) a.signaturesUsed = a.signaturesUsed + 1 :=
    if_neg (Nat.succ_ne_self _)
  have hlimit : written a.freeSignaturesLimit a.freeSignaturesLimit a.freeSignaturesLimit = a.freeSignaturesLimit :=
    if_pos rfl
  simp only [BillingAccount.quota, BillingAccount.flush, Quota.charged, hused, hlimit]

theorem wp_consumeSignature {D : World B → Prop} {K : Rights RowKey} {A : World B → Prop}
    {c : Ctx (World B) RowKey} {tenant : UUID} {Q : Int → Ctx (World B) RowKey → World B → Prop}
    (h : (workflowProtocol host cfg services z).Knows World.estate D K A Same c w)
    (hQ : ∀ K' account now b c' w', K ⊆ K' → HoldsAccount K' tenant account →
      Counted (account.getD .created) now b →
      (workflowProtocol host cfg services z).Knows World.estate D K'
        (fun v => A v ∧ (z.steady → v.accounts.get? tenant = account)) (AccountIs z tenant b) c' w' → Q now c' w') :
    (workflowProtocol host cfg services z).wp (consumeSignature tenant) Q (fun _ _ w => D w) c w := by
  refine Protocol.wp_seq (wp_lockedAccount h fun K' account object c1 w1 hK hholds hvalue hloaded h1 => ?_)
  refine Protocol.wp_seq (Protocol.wp_knowingSelect h1 fun w2 h2 => ?_)
  generalize (c1.pending w2).clock = now
  obtain ⟨loaded, value⟩ := object
  obtain rfl : loaded = account.getD .created := hloaded rfl
  obtain rfl : value = { account.getD BillingAccount.created with
    deletedAt := none } := hvalue
  split
  · next hfree =>
    refine Protocol.wp_seq (wp_flushHeld h2 fun c3 w3 h3 => Protocol.wp_pure ?_)
    refine hQ K' account now _ c3 w3 hK hholds ?_ h3
    exact ⟨fun _ => flush_quota rfl, fun hnot => absurd hfree hnot⟩
  · next hmetered =>
    refine Protocol.wp_seq (Protocol.wp_knowingRequire h2 fun hlt => ?_)
    refine Protocol.wp_seq (wp_flushHeld h2 fun c3 w3 h3 => Protocol.wp_pure ?_)
    refine hQ K' account now _ c3 w3 hK hholds ?_ h3
    refine ⟨fun hfree => absurd hfree hmetered, fun _ => ⟨hlt, ?_⟩⟩
    exact flush_charged _

section Parts

variable {D : World B → Prop} {K : Rights RowKey} {A : World B → Prop} {M : World B → Estate B → Prop}
  {c : Ctx (World B) RowKey}

theorem wp_requireCertificate {request : UUID × SignatureRequest} {signer : Signer}
    {certificate : Option CertificateGrant} {Q : Unit → Ctx (World B) RowKey → World B → Prop}
    (h : (workflowProtocol host cfg services z).Knows World.estate D K A M c w)
    (hQ : ∀ c' w', (request.2.signatureMode = .serproId ↔ certificate.isSome = true) →
      (certificate.isSome = true → signer.status = .pending ∨ signer.status = .viewed) →
      (workflowProtocol host cfg services z).Knows World.estate D K A M c' w' → Q () c' w') :
    (workflowProtocol host cfg services z).wp (requireCertificate request signer certificate) Q
      (fun _ _ w => D w) c w := by
  refine Protocol.wp_seq (Protocol.wp_knowingRequire h fun hneeds => ?_)
  refine Protocol.wp_seq (Protocol.wp_knowingRequire h fun haccepts => ?_)
  unfold Code.onlyIf
  split
  · next hsome =>
    refine Protocol.wp_seq (Protocol.wp_knowingRequire h fun hstatus => ?_)
    refine Protocol.wp_seq (Protocol.wp_knowing (local_query _) h fun remaining c1 w1 h1 => ?_)
    exact Protocol.wp_knowingRequire h1 fun _ => hQ c1 w1 ⟨hneeds, haccepts⟩ (fun _ => hstatus) h1
  · next hnone => exact hQ c w ⟨hneeds, haccepts⟩ (fun hsome => absurd hsome hnone) h

theorem wp_frozenVersion {r : SignatureRequest}
    {Q : DocumentVersion × Document → Ctx (World B) RowKey → World B → Prop}
    (h : (workflowProtocol host cfg services z).Knows World.estate D K A Same c w)
    (hQ : ∀ v d c' w', v.sha256 = r.documentSha256 →
      (workflowProtocol host cfg services z).Knows World.estate D K
        (fun u => (A u ∧ u.versions.get? (r.documentId, r.documentVersion) = some v) ∧
          u.toArchive.OfTenant r.documentId d.tenantId) Same c' w' → Q (v, d) c' w') :
    (workflowProtocol host cfg services z).wp (frozenVersion r) Q (fun _ _ w => D w) c w := by
  refine Protocol.wp_seq (Protocol.wp_knowingSelect h fun w1 h1 => ?_)
  refine Protocol.wp_seq (Protocol.wp_knowingOrRaise h1 fun v hv => ?_)
  rw [archive_pending h1, Option.filter_eq_some_iff, decide_eq_true_eq] at hv
  have h2 := h1.learn (stable_version K _ v) hv.1
  refine Protocol.wp_seq (Protocol.wp_knowingSelect h2 fun w3 h3 => ?_)
  refine Protocol.wp_seq (Protocol.wp_knowingOrRaise h3 fun d hd => Protocol.wp_pure ?_)
  have hdocument := (liveDocument_eq_some.1 hd).1
  rw [archive_pending h3] at hdocument
  exact hQ v d c w3 hv.2 (h3.learn (stable_ofTenant K _ _) ⟨d, hdocument, rfl⟩)

theorem local_requireRepresentation {W : (World B → World B) → Prop} (signer : Signer) (authUserId : String) :
    (requireRepresentation host caller signer authUserId : Workflow B Unit).Local W :=
  Code.local_onlyIf _ fun _ => Code.local_bind (local_query _) fun _ => Code.local_require _ _

theorem wp_originalOf {r : SignatureRequest} {version : DocumentVersion} {certificate : Option CertificateGrant}
    {Q : B → Ctx (World B) RowKey → World B → Prop}
    (h : (workflowProtocol host cfg services z).Knows World.estate D K A M c w)
    (hQ : ∀ original c' w', host.sha256 original = r.documentSha256 →
      (workflowProtocol host cfg services z).Knows World.estate D K A M c' w' → Q original c' w') :
    (workflowProtocol host cfg services z).wp (originalOf host r version certificate) Q
      (fun _ _ w => D w) c w := by
  refine Protocol.wp_seq (Protocol.wp_knowing (local_getObject _) h fun original c1 w1 h1 => ?_)
  refine Protocol.wp_seq (Protocol.wp_knowingRequire h1 fun hhash => ?_)
  split
  · exact h1.raises w1 h1.now
  · exact Protocol.wp_seq (Protocol.wp_knowingRequire h1 fun _ => Protocol.wp_pure (hQ original c1 w1 hhash h1))

theorem wp_serviceResult {x : Except Failure α} {Q : α → Ctx (World B) RowKey → World B → Prop}
    (h : (workflowProtocol host cfg services z).Knows World.estate D K A M c w) (hQ : ∀ a, x = .ok a → Q a c w) :
    (workflowProtocol host cfg services z).wp (serviceResult x : Workflow B α) Q (fun _ _ w => D w) c w := by
  cases x with
  | ok a => exact hQ a rfl
  | error e => exact h.raises w h.now

/-- Composing the artifact, under the lock of the request, and storing it. -/
theorem wp_composeArtifact {call : SignCall} {names : SigningNames} {signer : UUID × Signer}
    {request : UUID × SignatureRequest} {document : Document} {country : Option String} {countedAt : Int}
    {original : B} {σ : Slice} {Q : Signing B × StorageKey → Ctx (World B) RowKey → World B → Prop}
    (h : (workflowProtocol host cfg services z).Knows World.estate D K A M c w)
    (hname : (RowKey.name names.object, LockMode.exclusive) ∈ K)
    (hA : ∀ v key content, A v → A (v.put key content)) (hslice : ∀ v, A v → v.toArchive.slice request.1 = σ)
    (hM : ∀ v x, M v x → x.archive = v.toArchive ∧ x.objects = v.objects)
    (hmode : request.2.signatureMode = .serproId ↔ call.certificate.isSome = true)
    (hanswering : call.certificate.isSome = true → signer.2.status = .pending ∨ signer.2.status = .viewed)
    (horiginal : host.sha256 original = request.2.documentSha256)
    (hQ : ∀ x key c' w', (∀ v, A v → x.Composed host cfg services request.2 signer.2 (v.signaturesOf request.1)) →
      x.request = request.1 → x.id = names.signature → x.signature.signerId = signer.1 →
      x.signature.authUserId = call.authUserId → x.tenant = document.tenantId → x.countedAt = countedAt →
      key.name = names.object → x.signature.artifactStorageKey = some key →
      (workflowProtocol host cfg services z).Knows World.estate D K
        (fun v => A v ∧ (z.reliable → v.objects key = some x.artifact)) M c' w' → Q (x, key) c' w') :
    (workflowProtocol host cfg services z).wp
      (composeArtifact host cfg services call names signer request document country countedAt original) Q
      (fun _ _ w => D w) c w := by
  refine Protocol.wp_seq (Protocol.wp_knowingSelect h fun w1 h1 => ?_)
  refine Protocol.wp_seq (Protocol.wp_knowingSelect h1 fun w2 h2 => ?_)
  have hexisting : ∀ v, A v → (c.pending w2).signaturesOf request.1 = v.signaturesOf request.1 := by
    intro v hv
    have harchive : (c.pending w2).toArchive = w2.toArchive := (hM _ _ (h2.pending w2 h2.now)).1
    rw [harchive]
    exact congrArg (fun l => List.insertionSort (fun x y => x.1 ≤ y.1) l)
      (congrArg Slice.signatures ((hslice w2 h2.now).trans (hslice v hv).symm))
  refine Protocol.wp_seq (wp_serviceResult h2 fun generated hgenerated => ?_)
  refine Protocol.wp_seq (wp_serviceResult h2 fun finished hfinished => ?_)
  refine Protocol.wp_seq (Protocol.wp_knowing (local_documentOwnerStorageId host document) h2 fun owner c3 w3 h3 => ?_)
  refine Protocol.wp_seq (wp_putObject h3 hname (fun v hv => hA v _ _ hv) (fun v x _ hx => (hM v x hx).2)
    fun c4 w4 h4 => ?_)
  refine Protocol.wp_pure (hQ _ _ c4 w4 (fun v hv => ?_) rfl rfl rfl rfl rfl rfl rfl rfl h4)
  rw [← hexisting v hv]
  exact ⟨rfl, hmode, hanswering, rfl, horiginal, ⟨_, _, rfl⟩, rfl, rfl, ⟨_, rfl⟩, hgenerated, hfinished, rfl⟩

end Parts

/-- How many signers have not signed once this one has. -/
theorem unsigned_of_slice {x : Signing B} {a b : Archive} (h : a.slice x.request = b.slice x.request) :
    ((Move.sign x).apply a).unsigned x.request = ((Move.sign x).apply b).unsigned x.request := by
  have hselect : ∀ t : Table UUID Signer,
      ((Move.sign x).onSigners t).select (fun _ s => s.signatureRequestId = x.request && s.status ≠ .signed) =
        ((t.select fun _ s => s.signatureRequestId = x.request).map fun y => (y.1,
          if y.1 = x.signature.signerId then y.2.hasSigned x.signature.signedAt else y.2)).filter
            fun y => y.2.status ≠ .signed := by
    intro t
    refine Table.select_map (f := fun k s => if k = x.signature.signerId then s.hasSigned x.signature.signedAt else s)
      (p := fun _ s => decide (s.signatureRequestId = x.request)) t (fun _ s => decide (s.status ≠ .signed))
      fun k s => ?_
    split <;> rfl
  have hsigners : a.signersOf x.request = b.signersOf x.request := congrArg Slice.signers h
  refine congrArg List.length ?_
  refine (hselect a.signers).trans (Eq.trans ?_ (hselect b.signers).symm)
  exact congrArg (fun l => List.filter _ (List.map _ l)) hsigners

/-- Nothing of it depends on who is left to sign. -/
theorem Signing.Composed.withCompletes {x : Signing B} {r : SignatureRequest} {s : Signer}
    {existing : List (UUID × Signature)} (h : x.Composed host cfg services r s existing) (completes : Bool) :
    ({ x with
      completes := completes } : Signing B).Composed host cfg services r s existing :=
  ⟨h.signatureOf, h.mode, h.answering, h.document, h.original, h.evidence, h.evidenceHash, h.stamps, h.metadata,
    h.generated, h.finished, h.artifact⟩

theorem signatureTaken_of_slice {x : Signature} {v w : World B}
    (h : v.toArchive.slice x.signatureRequestId = w.toArchive.slice x.signatureRequestId) :
    v.signatureTaken x = w.signatureTaken x := by
  have hany : ∀ u : World B, u.signatureTaken x = true ↔
      ∃ y ∈ (u.toArchive.slice x.signatureRequestId).signatures, y.2.signerId = x.signerId ∨
        y.2.authUserId = x.authUserId := by
    intro u
    simp [World.signatureTaken, Table.any_iff, Archive.slice, Table.mem_select_iff, and_assoc]
  rw [Bool.eq_iff_iff, hany, hany, h]

/-- The end of `sign`: what was composed is put on record. -/
theorem wp_recordSignature {D : World B → Prop} {K : Rights RowKey} {A : World B → Prop}
    {c : Ctx (World B) RowKey} {x : PreparedSignature B} {r : SignatureRequest} {s : Signer} {σ : Slice}
    {account : Option BillingAccount} {b : BillingAccount}
    (h : (workflowProtocol host cfg services z).Knows World.estate D K A (AccountIs z x.signing.tenant b) c w)
    (hlost : z.lossy → ∀ v, D v) (hof : x.signing.signature.signatureRequestId = x.signing.request)
    (hslice : ∀ v, A v → v.toArchive.slice x.signing.request = σ)
    (hallowed : ∀ v H completes, K ⊆ H → A v → v.signatureTaken x.signing.signature = false →
      completes = decide (((Move.sign x.signing).apply v.toArchive).unsigned x.signing.request = 0) →
      ({ x.signing with
        completes := completes } : Signing B).Allowed host cfg services z.reliable H v r s)
    (hholds : HoldsAccount K x.signing.tenant account)
    (haccount : ∀ v, A v → z.steady → v.accounts.get? x.signing.tenant = account)
    (hcounted : Counted (account.getD .created) x.signing.countedAt b) :
    (workflowProtocol host cfg services z).wp (recordSignature x)
      (fun r c w => (workflowProtocol host cfg services z).CommitsAt r.2 D (fun _ _ => True) c w)
      (fun _ _ w => D w) c w := by
  refine Protocol.wp_seq (Protocol.wp_knowingSelect h fun w1 h1 => ?_)
  refine Protocol.wp_seq (Protocol.wp_knowingRequire h1 fun htaken => ?_)
  have htaken : ∀ v, A v → v.signatureTaken x.signing.signature = false := by
    intro v hv
    have hpending : (c.pending w1).toArchive = w1.toArchive := (h1.pending w1 h1.now).archive
    rw [← htaken]
    refine signatureTaken_of_slice ?_
    rw [hof, hpending, hslice v hv, hslice w1 h1.now]
  -- Whether the signing completes the request is decided by the signers that are left under its lock.
  have hcommits : ∀ (n : Nat) completes c' w', completes = decide (n = 0) →
      (∀ v, A v → ((Move.sign x.signing).apply v.toArchive).unsigned x.signing.request = n) →
      (workflowProtocol host cfg services z).Knows World.estate D K A
        (Then ((Move.sign { x.signing with
          completes := completes }).apply) (AccountIs z x.signing.tenant b)) c' w' →
      (workflowProtocol host cfg services z).CommitsAt (.made (.sign { x.signing with
        completes := completes })) D (fun _ _ => True) c' w' := by
    intro n completes c' w' hcompletes hn h'
    refine Protocol.commits_knowing h' fun v v' hv _ _ hmakes => ⟨trivial, ?_, trivial, fun hl => hlost hl v'⟩
    obtain ⟨x', hx', hv'⟩ := hmakes
    have haccounts : v'.accounts = x'.accounts := congrArg Estate.accounts hv'
    refine ⟨.sign (hallowed v c'.held completes h'.held hv (htaken v hv) ?_), ?_, ?_, ?_, fun hsteady => ?_⟩
    · rw [hn v hv, hcompletes]
    · rw [← hx'.archive]
      exact congrArg Estate.archive hv'
    · exact (congrArg Estate.objects hv').trans hx'.objects
    · exact (congrArg Estate.clock hv').trans hx'.clock
    · have hnow : v.accountOf x.signing.tenant = account.getD .created := by
        rw [World.accountOf, haccount v hv hsteady]
      have hnew : v'.accounts.get? x.signing.tenant = some b := by
        rw [haccounts, hx'.account hsteady]
      refine accounting_of hholds h'.held (haccount v hv hsteady) hnew (fun t ht => ?_) (fun y hy => ?_)
        (fun hfree => ?_) fun y hy hmetered => ?_
      · rw [haccounts, hx'.others hsteady t ht]
      · obtain rfl := Option.some.inj hy
        rfl
      · have hnot := hfree _ rfl
        rw [Signing.Metered, not_not, hnow] at hnot
        exact hcounted.free hnot
      · obtain rfl := Option.some.inj hy
        rw [Signing.Metered, hnow] at hmetered
        exact hcounted.charged hmetered
  refine Protocol.wp_seq (wp_saveThen (f := fun a => { a with
    signatures := a.signatures.insert x.signing.id x.signing.signature }) h1 (fun _ => rfl) fun c2 w2 h2 => ?_)
  refine Protocol.wp_seq (wp_saveThen (f := fun a => { a with
    signers := a.signers.update x.signing.signature.signerId (.hasSigned x.signing.signature.signedAt) }) h2
      (fun _ => rfl) fun c3 w3 h3 => ?_)
  refine Protocol.wp_seq (Protocol.wp_knowing (local_audit unseen_record _ _ _ _ _ _) h3 fun _ c4 w4 h4 => ?_)
  refine Protocol.wp_seq (Protocol.wp_knowingSelect h4 fun w5 h5 => ?_)
  have hleft : ∀ v, A v → ((Move.sign x.signing).apply v.toArchive).unsigned x.signing.request =
      (c4.pending w5).unsigned x.signing.request := by
    intro v hv
    obtain ⟨x1, ⟨x2, hx2, rfl⟩, hpending⟩ := h5.pending w5 h5.now
    have harchive : (c4.pending w5).toArchive = _ := congrArg Estate.archive hpending
    rw [unsigned_of_slice ((hslice v hv).trans (hslice w5 h5.now).symm), harchive]
    rw [← hx2.archive]
    rfl
  generalize (c4.pending w5).unsigned x.signing.request = n at hleft
  unfold Code.onlyIf
  split
  · next hzero =>
    refine Protocol.wp_seq (Protocol.wp_seq (Protocol.wp_knowing (local_audit unseen_record _ _ _ _ _ _) h5
      fun _ c6 w6 h6 => ?_))
    refine wp_saveThen (f := fun a => { a with
      requests := a.requests.update x.signing.request (.completed x.signing.signature.signedAt) }) h6
      (fun _ => rfl) fun c7 w7 h7 => Protocol.wp_pure (hcommits n _ c7 w7 rfl hleft (h7.means fun v y hv hy => ?_))
    obtain ⟨y1, ⟨y2, ⟨y3, hy3, rfl⟩, rfl⟩, rfl⟩ := hy
    refine ⟨y3, hy3, ?_⟩
    rw [decide_eq_true hzero]
    rfl
  · next hsome =>
    refine Protocol.wp_seq (Protocol.wp_pure (Protocol.wp_pure (hcommits n _ c4 w5 rfl hleft
      (h5.means fun v y hv hy => ?_))))
    obtain ⟨y1, ⟨y2, hy2, rfl⟩, rfl⟩ := hy
    refine ⟨y2, hy2, ?_⟩
    rw [decide_eq_false hsome]
    rfl

theorem wp_sign (call : SignCall) (names : SigningNames)
    (hid : (RowKey.name names.signature, LockMode.exclusive) ∈ base)
    (hname : (RowKey.name names.object, LockMode.exclusive) ∈ base)
    (hunused : w.toArchive.Unused names.signature) (hunreferenced : w.toArchive.Unreferenced names.object) :
    (workflowProtocol host cfg services z).wp (sign host cfg services caller call names)
      (fun _ _ _ => True) (fun _ _ _ => True) (.start base) w := by
  unfold sign
  split
  · trivial
  refine wp_storing ?_
  have hstable : (workflowProtocol host cfg services z).Stable base _ :=
    (stable_unused hid).and (stable_unreferenced hname)
  have h : (workflowProtocol host cfg services z).Knows World.estate (fun _ => True) base _ Same (.start base) w :=
    ⟨fun _ hk => hk, hstable, ⟨hunused, hunreferenced⟩, fun _ _ => trivial, fun _ _ => rfl⟩
  refine Protocol.wp_seq (wp_resolveRequest h fun K1 signer request σ c1 w1 hK1 hlock hres h1 => ?_)
  refine Protocol.wp_seq (Protocol.wp_knowingRequire h1 fun hunsigned => ?_)
  refine Protocol.wp_seq (wp_requireCertificate h1 fun c2 w2 hmode hanswering h2 => ?_)
  refine Protocol.wp_seq (wp_frozenVersion h2 fun version document c3 w3 hversion h3 => ?_)
  refine Protocol.wp_seq (Protocol.wp_knowingSelect h3 fun w4 h4 => ?_)
  refine Protocol.wp_seq (Protocol.wp_knowing (local_requireRepresentation _ _) h4 fun _ c5 w5 h5 => ?_)
  refine Protocol.wp_seq (wp_consumeSignature h5 fun K6 account now b c6 w6 hK6 hholds hcounted h6 => ?_)
  refine Protocol.wp_seq (wp_originalOf h6 fun original c7 w7 horiginal h7 => ?_)
  refine Protocol.wp_seq (wp_composeArtifact h7 (hK6 (hK1 hname)) (fun v key content hv => ?_)
    (fun v hv => hv.1.1.1.2) (fun v x hx => ⟨hx.archive, hx.objects⟩) hmode hanswering horiginal
    fun x key c8 w8 hcomposed hrequest hxid hsigner hsubject htenant hcounts hkey hstored h8 => ?_)
  · rw [toArchive_put, accounts_put]
    exact hv
  refine Protocol.wp_pure ⟨hkey ▸ hname, ?_⟩
  have hrequest : x.request = request.1 := hrequest
  have htenant : document.tenantId = x.tenant := htenant.symm
  have h9 := h8.raising (L := Discardable z key.name) fun v hv _ => hkey ▸ hv.1.1.1.1.1.2
  simp only [htenant] at h9
  rw [← hrequest] at hlock
  refine wp_recordSignature (r := request.2) (s := signer.2) (σ := σ) h9 (fun hl _ hn => absurd hl hn)
    (hcomposed w8 h8.now.1).signatureOf (fun v hv => hrequest ▸ hv.1.1.1.1.2) (fun v H completes hH hv htaken hc => ?_)
    (htenant ▸ hholds) (fun v hv => htenant ▸ hv.1.2) (hcounts ▸ hcounted)
  obtain ⟨⟨⟨⟨⟨⟨hun, hunref⟩, hslice⟩, hv⟩, hof⟩, haccount⟩, hobject⟩ := hv
  have hsigner' : v.signerOf x.request (host.lower x.signature.authUserId) = some (x.signature.signerId, signer.2) := by
    rw [hrequest, hsubject, hsigner]
    exact hres.signer v hslice
  have hcomposed' := hcomposed v ⟨⟨⟨⟨⟨hun, hunref⟩, hslice⟩, hv⟩, htenant ▸ hof⟩, fun hs => htenant ▸ haccount hs⟩
  rw [← hrequest] at hcomposed'
  exact ⟨hH (hK6 hlock), hxid ▸ hH (hK6 (hK1 hid)), hxid ▸ hun.signatures,
    hrequest ▸ request_of_slice hslice hres.request, hres.status, ⟨_, hres.hash⟩, hsigner', hunsigned,
    hres.unrevoked, htaken, ⟨version, hv, hversion⟩, hcomposed'.withCompletes completes,
    ⟨key, hstored, hkey ▸ hH (hK6 (hK1 hname)), hobject⟩, hc, htenant ▸ hof⟩

end Host

end Rubrica
