import Rubrica.Signatures.Signing

set_option autoImplicit false

/-! # What a move is made under

A session that commits a move holds locks and names, and knows the rows it changes (`Move.Allowed`): what
is said about runs of the workflow is read off the moves alone. Whoever holds the lock of a request's row
holds its `Slice`, the row with its signers and signatures: no move of anybody else changes it. -/

namespace Rubrica

open Transactions

variable {B Page : Type}

/-! ## Slices -/

/-- What the lock of a request's row guards. -/
structure Slice where
  request : Option SignatureRequest
  signers : List (UUID × Signer)
  signatures : List (UUID × Signature)

def Archive.slice (request : UUID) (a : Archive) : Slice where
  request := a.requests.get? request
  signers := a.signersOf request
  signatures := a.signatures.select fun _ x => x.signatureRequestId = request

/-! ## Permitted moves -/

section Allowed

variable (host : Host B Page) (cfg : Settings) (services : SigningServices B) (reliable : Prop)

/-- What a signing was made of: the request, the signer, and the signatures there were. -/
structure Signing.Composed (x : Signing B) (r : SignatureRequest) (s : Signer)
    (existing : List (UUID × Signature)) : Prop where
  signatureOf : x.signature.signatureRequestId = x.request
  mode : r.signatureMode = .serproId ↔ x.certificate.isSome = true
  answering : x.certificate.isSome = true → s.status = .pending ∨ s.status = .viewed
  document : x.signature.documentSha256 = r.documentSha256
  original : host.sha256 x.original = r.documentSha256
  evidence : ∃ command country, x.signature.evidenceJson = recordedEvidence host cfg services (x.request, r)
    (x.signature.signerId, s) x.signature.authUserId x.signature.signedAt command country x.certificate
  evidenceHash : x.signature.evidenceSha256 = some (host.evidenceSha256 x.signature.evidenceJson)
  stamps : x.stamps = stampRecords host existing x.signature.evidenceJson
  metadata : ∃ artifact, x.metadata = signedMetadata host artifact (x.request, r) x.signature.signedAt
    x.signature.evidenceJson x.stamps
  generated : generateSignedPdf host x.original x.stamps x.metadata = .ok x.generated
  finished : finishPdf cfg services r.signatureMode x.certificate x.generated =
    .ok (x.artifact, x.signature.trustedTimestampJson)
  artifact : x.signature.artifactSha256 = some (host.sha256 x.artifact)

/-- The document is there, and of the tenant. -/
def Archive.OfTenant (id tenant : UUID) (a : Archive) : Prop :=
  ∃ d, a.documents.get? id = some d ∧ d.tenantId = tenant

/-- What is known of a signing where it commits. -/
structure Signing.Allowed (x : Signing B) (H : Rights RowKey) (w : World B) (r : SignatureRequest) (s : Signer) :
    Prop where
  lock : (RowKey.request x.request, LockMode.exclusive) ∈ H
  name : (RowKey.name x.id, LockMode.exclusive) ∈ H
  fresh : w.signatures.get? x.id = none
  request : w.requests.get? x.request = some r
  status : r.status = .open
  token : ∃ token, r.signingTokenHash = some (host.sha256 (host.encode token))
  signer : w.signerOf x.request (host.lower x.signature.authUserId) = some (x.signature.signerId, s)
  unsigned : s.status ≠ .signed
  unrevoked : s.linkRevokedAt = none
  untaken : w.signatureTaken x.signature = false
  version : ∃ v, w.versions.get? (r.documentId, r.documentVersion) = some v ∧ v.sha256 = r.documentSha256
  composed : x.Composed host cfg services r s (w.signaturesOf x.request)
  stored : ∃ key, x.signature.artifactStorageKey = some key ∧
    (RowKey.name key.name, LockMode.exclusive) ∈ H ∧ (reliable → w.objects key = some x.artifact)
  completes : x.completes = decide (((Move.sign x).apply w.toArchive).unsigned x.request = 0)
  tenant : w.toArchive.OfTenant r.documentId x.tenant

/-- What is known of a move where it commits. -/
inductive Move.Allowed (H : Rights RowKey) (w : World B) : Move B → Prop where
  | createDocument {id : UUID} {d : Document} {v : DocumentVersion}
      (name : (RowKey.name id, LockMode.exclusive) ∈ H) (fresh : w.documents.get? id = none)
      (version : d.version = 1) (live : d.deletedAt = none) (hash : d.sha256 = v.sha256)
      (stored : reliable → ∃ content, w.objects v.storageKey = some content ∧ host.sha256 content = v.sha256) :
      Allowed H w (.createDocument id d v)
  | addVersion {id : UUID} {number : Nat} {v : DocumentVersion} {d : Document}
      (lock : (RowKey.document id, LockMode.exclusive) ∈ H) (document : w.liveDocument id = some d)
      (next : number = d.version + 1)
      (stored : reliable → ∃ content, w.objects v.storageKey = some content ∧ host.sha256 content = v.sha256) :
      Allowed H w (.addVersion id number v)
  | deleteDocument {id : UUID} {ids : List UUID} {now : Int} {d : Document}
      (lock : (RowKey.document id, LockMode.exclusive) ∈ H) (document : w.liveDocument id = some d)
      (active : ∀ request, request ∈ ids ↔ w.inProgress id request = true)
      (locks : ∀ request ∈ ids, (RowKey.request request, LockMode.exclusive) ∈ H) :
      Allowed H w (.deleteDocument id ids now)
  | createRequest {id : UUID} {r : SignatureRequest} {mode : LockMode}
      (name : (RowKey.name id, LockMode.exclusive) ∈ H) (fresh : w.requests.get? id = none)
      (reference : (RowKey.document r.documentId, mode) ∈ H) (status : r.status = .draft)
      (evidence : r.signatureMode = .evidence) (unfinished : r.completedAt = none)
      (unlinked : r.signingTokenHash = none) (live : r.deletedAt = none) : Allowed H w (.createRequest id r)
  | addSigner {id : UUID} {s : Signer} {r : SignatureRequest}
      (lock : (RowKey.request s.signatureRequestId, LockMode.exclusive) ∈ H)
      (name : (RowKey.name id, LockMode.exclusive) ∈ H) (fresh : w.signers.get? id = none)
      (request : w.requests.get? s.signatureRequestId = some r) (status : r.status = .draft)
      (pending : s.status = .pending) (unsigned : s.signedAt = none)
      (subject : w.signerOf s.signatureRequestId s.authUserId = none) : Allowed H w (.addSigner id s)
  | createLink {id : UUID} {nonce hash : String} {r : SignatureRequest}
      (lock : (RowKey.request id, LockMode.exclusive) ∈ H) (request : w.requests.get? id = some r)
      (status : r.status = .open ∨ r.status = .completed) (token : hash = linkHash host cfg id nonce)
      (entry : (RowKey.tokenHash hash, LockMode.exclusive) ∈ H)
      (free : ∀ id' r', w.requests.get? id' = some r' → r'.signingTokenHash = some hash → id' = id) :
      Allowed H w (.createLink id nonce hash)
  | revokeLink {id signer : UUID} {now : Int} {s : Signer}
      (lock : (RowKey.request id, LockMode.exclusive) ∈ H) (row : w.signers.get? signer = some s)
      (own : s.signatureRequestId = id) (status : s.status ≠ .signed) (link : s.linkRevokedAt = none) :
      Allowed H w (.revokeLink id signer now)
  | openRequest {id : UUID} {mode : SignatureMode} {r : SignatureRequest}
      (lock : (RowKey.request id, LockMode.exclusive) ∈ H) (request : w.requests.get? id = some r)
      (status : r.status = .draft) (signers : w.signersOf id ≠ []) (document : w.liveDocument r.documentId ≠ none) :
      Allowed H w (.openRequest id mode)
  | cancelRequest {id : UUID} {r : SignatureRequest}
      (lock : (RowKey.request id, LockMode.exclusive) ∈ H) (request : w.requests.get? id = some r)
      (status : r.status = .draft ∨ r.status = .open) : Allowed H w (.cancelRequest id)
  | view {id signer : UUID} {r : SignatureRequest} {s : Signer}
      (lock : (RowKey.request id, LockMode.exclusive) ∈ H) (request : w.requests.get? id = some r)
      (status : r.status = .open) (row : w.signers.get? signer = some s)
      (own : s.signatureRequestId = id) (pending : s.status = .pending) : Allowed H w (.view id signer)
  | sign {x : Signing B} {r : SignatureRequest} {s : Signer}
      (allowed : x.Allowed host cfg services reliable H w r s) : Allowed H w (.sign x)
  | decline {id signer : UUID} {r : SignatureRequest} {s : Signer}
      (lock : (RowKey.request id, LockMode.exclusive) ∈ H) (request : w.requests.get? id = some r)
      (status : r.status = .open) (row : w.signers.get? signer = some s)
      (own : s.signatureRequestId = id) (unanswered : s.status ≠ .signed ∧ s.status ≠ .declined) :
      Allowed H w (.decline id signer)

end Allowed

/-! ## What others leave alone -/

section Others

variable {host : Host B Page} {cfg : Settings} {services : SigningServices B} {reliable : Prop} {m : Move B}
  {H : Rights RowKey} {w : World B}

theorem signerOf_eq_some {request id : UUID} {subject : String} {s : Signer}
    (h : w.signerOf request subject = some (id, s)) :
    w.signers.get? id = some s ∧ s.signatureRequestId = request ∧ s.authUserId = subject := by
  obtain ⟨hget, hp⟩ := Table.mem_select_iff.1 (List.mem_of_mem_head? h)
  simpa [hget] using hp

theorem liveDocument_eq_some {id : UUID} {d : Document} :
    w.liveDocument id = some d ↔ w.documents.get? id = some d ∧ d.deletedAt = none := by
  simp [World.liveDocument, Option.filter_eq_some_iff]

/-- A move that is made without the lock of a request leaves its slice. -/
theorem Move.Allowed.slice (h : m.Allowed host cfg services reliable H w) {id : UUID}
    (hfree : (RowKey.request id, LockMode.exclusive) ∉ H) (hthere : w.requests.get? id ≠ none) :
    (m.apply w.toArchive).slice id = w.toArchive.slice id := by
  obtain ⟨r, hr⟩ := Option.ne_none_iff_exists'.1 hthere
  -- Who holds the lock of a request holds that of another one.
  have hne : ∀ {other}, (RowKey.request other, LockMode.exclusive) ∈ H → id ≠ other := by
    rintro other hlock rfl
    exact hfree hlock
  have hsigners : ∀ {other signer : UUID} {s : Signer} {f : Signer → Signer},
      (RowKey.request other, LockMode.exclusive) ∈ H → w.signers.get? signer = some s →
      s.signatureRequestId = other → (f s).signatureRequestId = s.signatureRequestId →
      ((w.signers.update signer f).select fun _ s => s.signatureRequestId = id) = w.signersOf id := by
    intro other signer s f hlock hs hown hf
    refine Table.select_update_of_not fun s' hs' => ?_
    obtain rfl := Option.some.inj (hs.symm.trans hs')
    have : s.signatureRequestId ≠ id := hown ▸ (hne hlock).symm
    simp [hf, this]
  cases h with
  | createDocument => rfl
  | addVersion => rfl
  | @deleteDocument document ids now d lock hd active locks =>
      have hid : id ∉ ids := fun hmem => hfree (locks id hmem)
      simp [Archive.slice, Move.apply, Move.onRequests, Move.onSigners, Move.onSignatures, Archive.signersOf, hr,
        hid]
  | createRequest => simp [Archive.slice, Move.apply, Move.onRequests, Move.onSigners, Move.onSignatures,
      Archive.signersOf, hr, Table.get?_insert_of_some hr]
  | @addSigner signer s r' lock name fresh request =>
      have hs : s.signatureRequestId ≠ id := (hne lock).symm
      simp [Archive.slice, Move.apply, Move.onRequests, Move.onSigners, Move.onSignatures, Archive.signersOf,
        Table.select_insert_of_free fresh, hs]
  | createLink lock => simp [Archive.slice, Move.apply, Move.onRequests, Move.onSigners, Move.onSignatures,
      Archive.signersOf, hne lock]
  | openRequest lock => simp [Archive.slice, Move.apply, Move.onRequests, Move.onSigners, Move.onSignatures,
      Archive.signersOf, hne lock]
  | cancelRequest lock => simp [Archive.slice, Move.apply, Move.onRequests, Move.onSigners, Move.onSignatures,
      Archive.signersOf, hne lock]
  | revokeLink lock row own => exact congrArg (fun l => Slice.mk _ l _) (hsigners lock row own rfl)
  | view lock request status row own => exact congrArg (fun l => Slice.mk _ l _) (hsigners lock row own rfl)
  | decline lock request status row own => exact congrArg (fun l => Slice.mk _ l _) (hsigners lock row own rfl)
  | @sign x r' s allowed =>
      obtain ⟨hs, hown, -⟩ := signerOf_eq_some allowed.signer
      have hrequests : ((Move.sign x).onRequests w.requests).get? id = w.requests.get? id := by
        rw [Move.onRequests_sign]
        split
        · exact Table.get?_update_of_ne _ (hne allowed.lock) _
        · rfl
      have hsignatures : (w.signatures.insert x.id x.signature).select (fun _ y => y.signatureRequestId = id) =
          w.signatures.select fun _ y => y.signatureRequestId = id := by
        have hother : x.signature.signatureRequestId ≠ id := allowed.composed.signatureOf ▸ (hne allowed.lock).symm
        simp [Table.select_insert_of_free allowed.fresh, hother]
      have hown' := hsigners (f := .hasSigned x.signature.signedAt) allowed.lock hs hown rfl
      show Slice.mk _ _ _ = Slice.mk _ _ _
      exact congr (congr (congrArg Slice.mk hrequests) hown') hsignatures

/-- Versions stay as they are. -/
theorem Move.version_apply {a : Archive} {k : UUID × Nat} {v : DocumentVersion}
    (h : a.versions.get? k = some v) : (m.apply a).versions.get? k = some v := by
  cases m with
  | createDocument id d version => exact Table.get?_insert_of_some h
  | addVersion id number version => exact Table.get?_insert_of_some h
  | _ => exact h

/-- A document stays with its tenant. -/
theorem Move.ofTenant_apply {a : Archive} {id tenant : UUID} (h : a.OfTenant id tenant) :
    (m.apply a).OfTenant id tenant := by
  obtain ⟨d, hd, htenant⟩ := h
  have hupdate : ∀ {other : UUID} {f : Document → Document}, (∀ d, (f d).tenantId = d.tenantId) →
      ∃ d, (a.documents.update other f).get? id = some d ∧ d.tenantId = tenant := by
    intro other f hf
    rw [Table.get?_update, hd]
    split
    · exact ⟨f d, rfl, (hf d).trans htenant⟩
    · exact ⟨d, rfl, htenant⟩
  cases m with
  | createDocument id d version => exact ⟨_, Table.get?_insert_of_some hd, htenant⟩
  | addVersion id number version => exact hupdate (f := .revised number version) fun _ => rfl
  | deleteDocument id requests now => exact hupdate (f := .deleted now) fun _ => rfl
  | _ => exact ⟨d, hd, htenant⟩

/-- No row has the name as its identifier. -/
structure Archive.Unused (id : UUID) (a : Archive) : Prop where
  documents : a.documents.get? id = none
  requests : a.requests.get? id = none
  signers : a.signers.get? id = none
  signatures : a.signatures.get? id = none

theorem get?_update_eq_none {κ ρ : Type} [DecidableEq κ] {t : Table κ ρ} {k k' : κ} {f : ρ → ρ}
    (h : t.get? k = none) : (t.update k' f).get? k = none := by
  rw [Table.get?_update, h]
  exact ite_self _

theorem get?_map_eq_none {κ ρ : Type} [DecidableEq κ] {t : Table κ ρ} {k : κ} {f : κ → ρ → ρ}
    (h : t.get? k = none) : (t.map f).get? k = none := by
  rw [Table.get?_map, h]
  rfl

/-- A move that is made without the right to a name leaves it unused. -/
theorem Move.Allowed.unused (h : m.Allowed host cfg services reliable H w) {id : UUID}
    (hfree : (RowKey.name id, LockMode.exclusive) ∉ H) (hunused : w.toArchive.Unused id) :
    (m.apply w.toArchive).Unused id := by
  have hne : ∀ {other}, (RowKey.name other, LockMode.exclusive) ∈ H → id ≠ other := by
    rintro other hname rfl
    exact hfree hname
  obtain ⟨hdocuments, hrequests, hsigners, hsignatures⟩ := hunused
  cases h with
  | createDocument name => exact ⟨(Table.get?_insert_of_ne _ (hne name) _).trans hdocuments, hrequests, hsigners,
      hsignatures⟩
  | addVersion => exact ⟨get?_update_eq_none hdocuments, hrequests, hsigners, hsignatures⟩
  | deleteDocument => exact ⟨get?_update_eq_none hdocuments, get?_map_eq_none hrequests, hsigners, hsignatures⟩
  | createRequest name => exact ⟨hdocuments, (Table.get?_insert_of_ne _ (hne name) _).trans hrequests, hsigners,
      hsignatures⟩
  | addSigner lock name => exact ⟨hdocuments, hrequests, (Table.get?_insert_of_ne _ (hne name) _).trans hsigners,
      hsignatures⟩
  | createLink => exact ⟨hdocuments, get?_update_eq_none hrequests, hsigners, hsignatures⟩
  | openRequest => exact ⟨hdocuments, get?_update_eq_none hrequests, hsigners, hsignatures⟩
  | cancelRequest => exact ⟨hdocuments, get?_update_eq_none hrequests, hsigners, hsignatures⟩
  | revokeLink => exact ⟨hdocuments, hrequests, get?_update_eq_none hsigners, hsignatures⟩
  | view => exact ⟨hdocuments, hrequests, get?_update_eq_none hsigners, hsignatures⟩
  | decline => exact ⟨hdocuments, hrequests, get?_update_eq_none hsigners, hsignatures⟩
  | @sign x r s allowed =>
      refine ⟨hdocuments, ?_, get?_update_eq_none hsigners,
        (Table.get?_insert_of_ne _ (hne allowed.name) _).trans hsignatures⟩
      show ((Move.sign x).onRequests w.requests).get? id = none
      rw [Move.onRequests_sign]
      split
      · exact get?_update_eq_none hrequests
      · exact hrequests

/-- A move that is made without the lock of a document leaves its row. -/
theorem Move.Allowed.document (h : m.Allowed host cfg services reliable H w) {id : UUID} {d : Document}
    (hfree : (RowKey.document id, LockMode.exclusive) ∉ H) (hd : w.documents.get? id = some d) :
    (m.apply w.toArchive).documents.get? id = some d := by
  have hne : ∀ {other}, (RowKey.document other, LockMode.exclusive) ∈ H → id ≠ other := by
    rintro other hlock rfl
    exact hfree hlock
  cases h with
  | createDocument => exact Table.get?_insert_of_some hd
  | addVersion lock => exact (Table.get?_update_of_ne _ (hne lock) _).trans hd
  | deleteDocument lock => exact (Table.get?_update_of_ne _ (hne lock) _).trans hd
  | _ => exact hd

/-- The document is there and not deleted. -/
def Archive.Live (id : UUID) (a : Archive) : Prop :=
  ∃ d, a.documents.get? id = some d ∧ d.deletedAt = none

/-- A document is not deleted without the lock of each request of it that is in progress. -/
theorem Move.Allowed.live (h : m.Allowed host cfg services reliable H w) {id : UUID} {r : SignatureRequest}
    (hfree : (RowKey.request id, LockMode.exclusive) ∉ H) (hr : w.requests.get? id = some r)
    (hstatus : r.status = .draft ∨ r.status = .open) (hlive : w.toArchive.Live r.documentId) :
    (m.apply w.toArchive).Live r.documentId := by
  obtain ⟨d, hd, hdeleted⟩ := hlive
  cases h with
  | createDocument => exact ⟨d, Table.get?_insert_of_some hd, hdeleted⟩
  | @addVersion document number v d' lock hd' =>
      by_cases hid : r.documentId = document
      · subst hid
        refine ⟨d.revised number v, ?_, hdeleted⟩
        show (w.documents.update _ _).get? _ = _
        rw [Table.get?_update_self, hd, Option.map_some]
      · exact ⟨d, (Table.get?_update_of_ne _ hid _).trans hd, hdeleted⟩
  | @deleteDocument document ids now d' lock hd' active locks =>
      by_cases hid : r.documentId = document
      · -- The request is in progress, so its lock is held.
        have hactive : w.inProgress document id = true := by
          simpa [World.inProgress, hr, hid] using hstatus
        exact absurd (locks id ((active id).2 hactive)) hfree
      · exact ⟨d, (Table.get?_update_of_ne _ hid _).trans hd, hdeleted⟩
  | _ => exact ⟨d, hd, hdeleted⟩

/-- A request of a document under lock does not become in progress. -/
theorem Move.Allowed.inProgress (h : m.Allowed host cfg services reliable H w) {document id : UUID}
    (hfree : ∀ mode, (RowKey.document document, mode) ∉ H) {w' : World B}
    (hw' : w'.toArchive = m.apply w.toArchive) (hactive : w'.inProgress document id = true) :
    w.inProgress document id = true := by
  have hget : (m.onRequests w.requests).get? id = w'.requests.get? id := by rw [hw']; rfl
  rw [World.inProgress, ← hget] at hactive
  -- An update that neither moves a request nor starts it.
  have hupdate : ∀ {other : UUID} {r : SignatureRequest} {f : SignatureRequest → SignatureRequest},
      w.requests.get? other = some r → (f r).documentId = r.documentId →
      (((f r).status = .draft ∨ (f r).status = .open) → r.status = .draft ∨ r.status = .open) →
      ((w.requests.update other f).get? id).any (fun r => r.documentId = document &&
        (r.status = .draft || r.status = .open)) = true → w.inProgress document id = true := by
    intro other r f hr hdocument hstatus hany
    rw [Table.get?_update] at hany
    split at hany
    · next hid =>
        subst hid
        rw [hr, Option.map_some, Option.any_some, hdocument] at hany
        rw [World.inProgress, hr, Option.any_some]
        simp only [Bool.and_eq_true, Bool.or_eq_true, decide_eq_true_eq] at hany ⊢
        exact ⟨hany.1, hstatus hany.2⟩
    · exact hany
  cases h with
  | deleteDocument =>
      simp only [Move.onRequests, Table.get?_map] at hactive
      cases hr : w.requests.get? id with
      | none => simp [hr] at hactive
      | some r =>
          rw [hr, Option.map_some, Option.any_some] at hactive
          rw [World.inProgress, hr, Option.any_some]
          split at hactive
          · simp [SignatureRequest.cancelled] at hactive
          · exact hactive
  | @createRequest other r mode name fresh reference =>
      rcases Option.any_eq_true_iff_get _ _ |>.1 hactive with ⟨hsome, hp⟩
      obtain ⟨r', hr'⟩ := Option.isSome_iff_exists.1 hsome
      simp only [hr', Option.get_some, Bool.and_eq_true, decide_eq_true_eq] at hp
      rcases Table.get?_insert_eq_some hr' with hold | ⟨rfl, rfl⟩
      · rw [World.inProgress, hold, Option.any_some]
        simpa using hp
      · exact absurd (hp.1 ▸ reference) (hfree mode)
  | createLink lock request => exact hupdate request rfl (fun h => h) hactive
  | openRequest lock request status => exact hupdate request rfl (fun _ => Or.inl status) hactive
  | cancelRequest lock request status => exact hupdate request rfl (fun _ => status) hactive
  | @sign x r s allowed =>
      rw [Move.onRequests_sign] at hactive
      split at hactive
      · exact hupdate allowed.request rfl (fun _ => Or.inr allowed.status) hactive
      · exact hactive
  | _ => exact hactive

/-- No other request has the hash. -/
def Archive.OnlyFor (id : UUID) (hash : String) (a : Archive) : Prop :=
  ∀ id' r, a.requests.get? id' = some r → r.signingTokenHash = some hash → id' = id

/-- A hash is not given to another request without its entry. -/
theorem Move.Allowed.onlyFor (h : m.Allowed host cfg services reliable H w) {id : UUID} {hash : String}
    (hfree : (RowKey.tokenHash hash, LockMode.exclusive) ∉ H) (honly : w.toArchive.OnlyFor id hash) :
    (m.apply w.toArchive).OnlyFor id hash := by
  intro id' r hr hhash
  have hupdate : ∀ {other : UUID} {f : SignatureRequest → SignatureRequest},
      (∀ r, (f r).signingTokenHash = r.signingTokenHash) → (w.requests.update other f).get? id' = some r →
      id' = id := by
    intro other f hf hget
    rw [Table.get?_update] at hget
    split at hget
    · obtain ⟨r0, hr0, rfl⟩ := Option.map_eq_some_iff.1 hget
      exact honly id' r0 hr0 ((hf r0).symm.trans hhash)
    · exact honly id' r hget hhash
  cases h with
  | deleteDocument =>
      simp only [Move.apply, Move.onRequests, Table.get?_map] at hr
      obtain ⟨r0, hr0, rfl⟩ := Option.map_eq_some_iff.1 hr
      refine honly id' r0 hr0 ?_
      split at hhash
      · exact hhash
      · exact hhash
  | createRequest name fresh reference status evidence unfinished unlinked =>
      rcases Table.get?_insert_eq_some hr with hold | ⟨-, rfl⟩
      · exact honly id' r hold hhash
      · rw [unlinked] at hhash
        exact absurd hhash (by simp)
  | @createLink other nonce hash' r0 lock request status token entry =>
      have hne : hash ≠ hash' := fun he => hfree (he ▸ entry)
      have hr : (w.requests.update other (.linked nonce hash')).get? id' = some r := hr
      rw [Table.get?_update] at hr
      split at hr
      · obtain ⟨r1, hr1, rfl⟩ := Option.map_eq_some_iff.1 hr
        exact absurd (Option.some.inj hhash) hne.symm
      · exact honly id' r hr hhash
  | openRequest => exact hupdate (f := .opened _) (fun _ => rfl) hr
  | cancelRequest => exact hupdate (f := .cancelled) (fun _ => rfl) hr
  | @sign x r0 s allowed =>
      simp only [Move.apply, Move.onRequests_sign] at hr
      split at hr
      · exact hupdate (f := .completed _) (fun _ => rfl) hr
      · exact honly id' r hr hhash
  | _ => exact honly id' r hr hhash

/-- No signature refers to an object of the name. -/
def Archive.Unreferenced (name : UUID) (a : Archive) : Prop :=
  ∀ id x key, a.signatures.get? id = some x → x.artifactStorageKey = some key → key.name ≠ name

/-- Signatures refer to objects of names that their sessions held. -/
theorem Move.Allowed.unreferenced (h : m.Allowed host cfg services reliable H w) {name : UUID}
    (hfree : (RowKey.name name, LockMode.exclusive) ∉ H) (hun : w.toArchive.Unreferenced name) :
    (m.apply w.toArchive).Unreferenced name := by
  cases h with
  | @sign x r s allowed =>
      intro id y key hy hkey
      rcases Table.get?_insert_eq_some hy with hold | ⟨-, rfl⟩
      · exact hun id y key hold hkey
      · obtain ⟨key', hkey', hname, -⟩ := allowed.stored
        obtain rfl := Option.some.inj (hkey.symm.trans hkey')
        rintro rfl
        exact hfree hname
  | _ => exact hun

end Others

/-! ## What moves change -/

/-- The link that the request has is made again. -/
def Move.RepeatsLink (a : Archive) (m : Move B) : Prop :=
  ∃ id nonce hash r, m = .createLink id nonce hash ∧ a.requests.get? id = some r ∧
    r.signingTokenNonce = some nonce ∧ r.signingTokenHash = some hash

/-- A move changes the archive, unless it makes the link again that there is. -/
theorem Move.Allowed.repeatsLink {host : Host B Page} {cfg : Settings} {services : SigningServices B}
    {reliable : Prop} {m : Move B} {H : Rights RowKey} {w : World B} (h : m.Allowed host cfg services reliable H w)
    (hsame : m.apply w.toArchive = w.toArchive) : m.RepeatsLink w.toArchive := by
  have hdocuments : m.onDocuments w.documents = w.documents := congrArg Archive.documents hsame
  have hrequests : m.onRequests w.requests = w.requests := congrArg Archive.requests hsame
  have hsigners : m.onSigners w.signers = w.signers := congrArg Archive.signers hsame
  have hsignatures : m.onSignatures w.signatures = w.signatures := congrArg Archive.signatures hsame
  cases h with
  | createDocument name fresh => exact absurd fresh (Table.get?_ne_none_of_insert hdocuments)
  | addVersion lock document next =>
      have hfixed := congrArg Document.version (Table.eq_of_update hdocuments (liveDocument_eq_some.1 document).1)
      exact absurd (next.symm.trans hfixed) (Nat.succ_ne_self _)
  | deleteDocument lock document =>
      obtain ⟨hd, hlive⟩ := liveDocument_eq_some.1 document
      have hfixed := congrArg Document.deletedAt (Table.eq_of_update hdocuments hd)
      exact absurd (hfixed.trans hlive) (by simp [Document.deleted])
  | createRequest name fresh => exact absurd fresh (Table.get?_ne_none_of_insert hrequests)
  | addSigner lock name fresh => exact absurd fresh (Table.get?_ne_none_of_insert hsigners)
  | @createLink id nonce hash r lock request =>
      have hfixed := Table.eq_of_update hrequests request
      exact ⟨id, nonce, hash, r, rfl, request, congrArg SignatureRequest.signingTokenNonce hfixed.symm,
        congrArg SignatureRequest.signingTokenHash hfixed.symm⟩
  | revokeLink lock row own status link =>
      have hfixed := congrArg Signer.linkRevokedAt (Table.eq_of_update hsigners row)
      exact absurd (hfixed.trans link) (by simp [Signer.revoked])
  | openRequest lock request status =>
      have hfixed := congrArg SignatureRequest.status (Table.eq_of_update hrequests request)
      exact absurd (hfixed.trans status) (by simp [SignatureRequest.opened])
  | cancelRequest lock request status =>
      have hfixed : _ = RequestStatus.cancelled :=
        (congrArg SignatureRequest.status (Table.eq_of_update hrequests request)).symm
      rw [hfixed] at status
      exact absurd status (by simp)
  | view lock request status row own pending =>
      have hfixed := congrArg Signer.status (Table.eq_of_update hsigners row)
      exact absurd (hfixed.trans pending) (by simp [Signer.answered])
  | sign allowed => exact absurd allowed.fresh (Table.get?_ne_none_of_insert hsignatures)
  | decline lock request status row own unanswered =>
      have hfixed := congrArg Signer.status (Table.eq_of_update hsigners row)
      exact absurd hfixed.symm unanswered.2

end Rubrica
