import Rubrica.Documents.Reorganization

set_option autoImplicit false

/-! # What the flush makes of the references

`Sound` is what the tool keeps of a database and its bucket, `Later` what it makes of them. Both hold of a flush that
was planned in states of the past, one for the documents, one for the versions and one for the signatures. -/

namespace Rubrica.Reorganization

open Transactions

variable {B Page : Type}

/-! ## References -/

namespace Holdings

/-- A version or an artifact of the database refers to a key and records a digest. -/
inductive Refers (w : Holdings B) : Owner → String → Option String → Prop where
  | version {document : UUID} {number : Nat} {v : StoredVersion} (row : w.versions.get? (document, number) = some v) :
      Refers w (.version document number) v.storageKey (some v.sha256)
  | signature {id : UUID} {s : StoredSignature} {key : String} (row : w.signatures.get? id = some s)
      (artifact : s.artifactStorageKey = some key) : Refers w (.signature id) key s.artifactSha256

/-- A row refers to one key. -/
theorem Refers.unique {w : Holdings B} {o : Owner} {key key' : String} {digest digest' : Option String}
    (h : w.Refers o key digest) (h' : w.Refers o key' digest') : key' = key ∧ digest' = digest := by
  cases h with
  | version row =>
      cases h' with
      | version row' =>
          obtain rfl := Option.some.inj (row.symm.trans row')
          exact ⟨rfl, rfl⟩
  | signature row artifact =>
      cases h' with
      | signature row' artifact' =>
          obtain rfl := Option.some.inj (row.symm.trans row')
          exact ⟨(Option.some.inj (artifact.symm.trans artifact')).symm, rfl⟩

/-- An object with the digest is there. -/
def Resolves (host : Host B Page) (w : Holdings B) (key : String) (digest : Option String) : Prop :=
  ∃ content, w.objects key = some content ∧ some (host.sha256 content) = digest

theorem Resolves.unique {host : Host B Page} {w : Holdings B} {key : String} {digest digest' : Option String}
    (h : w.Resolves host key digest) (h' : w.Resolves host key digest') : digest' = digest := by
  obtain ⟨content, hcontent, rfl⟩ := h
  obtain ⟨content', hcontent', rfl⟩ := h'
  obtain rfl := Option.some.inj (hcontent.symm.trans hcontent')
  rfl

/-- Every reference resolves to an object with the recorded digest. -/
structure Resolved (host : Host B Page) (w : Holdings B) : Prop where
  references : ∀ o key digest, w.Refers o key digest → w.Resolves host key digest
  documents : ∀ id d, w.documents.get? id = some d → w.Resolves host d.storageKey (some d.sha256)

/-- No two versions or artifacts have one key. -/
def KeysDistinct (w : Holdings B) : Prop :=
  ∀ o o' key digest digest', w.Refers o key digest → w.Refers o' key digest' → o' = o

/-- The key of a document is the one of its current version. -/
def DocumentsCurrent (w : Holdings B) : Prop :=
  ∀ id d, w.documents.get? id = some d → ∃ digest, w.Refers (.version id d.version) d.storageKey digest

end Holdings

/-- What is kept between two statements. Keys that are under `tenants/` already can coincide. -/
structure Sound (host : Host B Page) (w : Holdings B) : Prop where
  resolved : w.Resolved host
  current : w.DocumentsCurrent
  distinct : ∀ o o' key digest digest', isScoped key = false → w.Refers o key digest → w.Refers o' key digest' →
    o' = o

/-! ## What the tool does to the state -/

/-- A key stays, or is replaced by one under `tenants/` with the same name. -/
def MovedKey (key key' : String) : Prop :=
  key' = key ∨ isScoped key' = true ∧ baseName key' = baseName key

namespace MovedKey

variable {key key' key'' : String}

theorem refl (key : String) : MovedKey key key := Or.inl rfl

theorem baseName (h : MovedKey key key') : baseName key' = Rubrica.baseName key := by
  rcases h with rfl | ⟨-, h⟩
  · rfl
  · exact h

theorem trans (h : MovedKey key key') (h' : MovedKey key' key'') : MovedKey key key'' := by
  rcases h' with rfl | ⟨hscoped, hname⟩
  · exact h
  · exact Or.inr ⟨hscoped, hname.trans h.baseName⟩

theorem isScoped (h : MovedKey key key') (hkey : isScoped key = true) : Rubrica.isScoped key' = true := by
  rcases h with rfl | ⟨h, -⟩
  · exact hkey
  · exact h

/-- A key that is not under `tenants/` has never moved. -/
theorem eq_of_bare (h : MovedKey key key') (hkey : Rubrica.isScoped key' = false) : key = key' := by
  rcases h with rfl | ⟨h, -⟩
  · rfl
  · rw [hkey] at h
    exact nomatch h

end MovedKey

/-- What runs of the tool make of a state: rows stay but for their keys, and so do the objects under `tenants/`;
no other object is added. -/
structure Later (s w : Holdings B) : Prop where
  refers : ∀ o key digest, s.Refers o key digest → ∃ key', w.Refers o key' digest ∧ MovedKey key key'
  referred : ∀ o key' digest, w.Refers o key' digest → ∃ key, s.Refers o key digest ∧ MovedKey key key'
  documents : ∀ id d, s.documents.get? id = some d →
    ∃ key', w.documents.get? id = some { d with storageKey := key' } ∧ MovedKey d.storageKey key'
  documented : ∀ id d, w.documents.get? id = some d →
    ∃ key, s.documents.get? id = some { d with storageKey := key } ∧ MovedKey key d.storageKey
  stored : ∀ key content, isScoped key = true → s.objects key = some content → w.objects key = some content
  bare : ∀ key content, isScoped key = false → w.objects key = some content → s.objects key = some content

namespace Later

variable {host : Host B Page} {s t w : Holdings B}

theorem refl (s : Holdings B) : Later s s where
  refers _ key _ h := ⟨key, h, .refl key⟩
  referred _ key _ h := ⟨key, h, .refl key⟩
  documents _ d h := ⟨d.storageKey, h, .refl _⟩
  documented _ d h := ⟨d.storageKey, h, .refl _⟩
  stored _ _ _ h := h
  bare _ _ _ h := h

theorem trans (h : Later s t) (h' : Later t w) : Later s w where
  refers o key digest hs := by
    obtain ⟨key', ht, hmoved⟩ := h.refers o key digest hs
    obtain ⟨key'', hw, hmoved'⟩ := h'.refers o key' digest ht
    exact ⟨key'', hw, hmoved.trans hmoved'⟩
  referred o key'' digest hw := by
    obtain ⟨key', ht, hmoved'⟩ := h'.referred o key'' digest hw
    obtain ⟨key, hs, hmoved⟩ := h.referred o key' digest ht
    exact ⟨key, hs, hmoved.trans hmoved'⟩
  documents id d hs := by
    obtain ⟨key', ht, hmoved⟩ := h.documents id d hs
    obtain ⟨key'', hw, hmoved'⟩ := h'.documents id _ ht
    exact ⟨key'', hw, hmoved.trans hmoved'⟩
  documented id d hw := by
    obtain ⟨key', ht, hmoved'⟩ := h'.documented id d hw
    obtain ⟨key, hs, hmoved⟩ := h.documented id _ ht
    exact ⟨key, hs, hmoved.trans hmoved'⟩
  stored key content hkey hs := h'.stored key content hkey (h.stored key content hkey hs)
  bare key content hkey hw := h.bare key content hkey (h'.bare key content hkey hw)

/-- Where the keys of a reference are is known from an earlier state. -/
theorem moved (h : Later s w) {o : Owner} {key key' : String} {digest digest' : Option String}
    (hs : s.Refers o key digest) (hw : w.Refers o key' digest') : MovedKey key key' ∧ digest' = digest := by
  obtain ⟨key'', hw', hmoved⟩ := h.refers o key digest hs
  obtain ⟨rfl, rfl⟩ := hw.unique hw'
  exact ⟨hmoved, rfl⟩

/-- What resolves under `tenants/` goes on to do so. -/
theorem resolves (h : Later s w) {key : String} {digest : Option String} (hkey : isScoped key = true)
    (hs : s.Resolves host key digest) : w.Resolves host key digest := by
  obtain ⟨content, hcontent, hdigest⟩ := hs
  exact ⟨content, h.stored key content hkey hcontent, hdigest⟩

end Later

/-! ## What a plan is drawn from -/

section Dictionaries

variable {α : Type} {d : List (String × α)} {key : String} {value : α}

theorem mem_assign_self : (key, value) ∈ assign d key value := by
  unfold assign
  split
  · next h =>
      obtain ⟨x, hx, hkey⟩ := List.any_eq_true.1 h
      exact List.mem_map.2 ⟨x, hx, if_pos (of_decide_eq_true hkey)⟩
  · exact List.mem_append_right _ (List.mem_singleton.2 rfl)

theorem mem_assign_of_mem {x : String × α} (hx : x ∈ d) (h : x.1 = key → x.2 = value) : x ∈ assign d key value := by
  unfold assign
  split
  · refine List.mem_map.2 ⟨x, hx, ?_⟩
    split
    · next hkey => exact Prod.ext hkey.symm (h hkey).symm
    · rfl
  · exact List.mem_append_left _ hx

theorem of_mem_assign {x : String × α} (h : x ∈ assign d key value) : x ∈ d ∨ x = (key, value) := by
  unfold assign at h
  split at h
  · obtain ⟨y, hy, hyx⟩ := List.mem_map.1 h
    split at hyx
    · exact Or.inr hyx.symm
    · exact Or.inl (hyx ▸ hy)
  · exact (List.mem_append.1 h).imp_right List.mem_singleton.1

end Dictionaries

/-- What is to be copied is what some reference moves to. -/
theorem of_mem_planMoves {references : List Reference} {moves : List (String × Destination)}
    (h : planMoves references = .ok moves) : ∀ x ∈ moves, ∃ r ∈ references, x.2 = r.destination := by
  suffices hall : ∀ (l : List Reference) (start : List (String × Destination)), l.foldlM planMove start = .ok moves →
      ∀ x ∈ moves, x ∈ start ∨ ∃ r ∈ l, x.2 = r.destination by
    intro x hx
    exact (hall references [] h x hx).resolve_left List.not_mem_nil
  intro l
  induction l with
  | nil =>
      intro start h x hx
      obtain rfl := Except.ok.inj h
      exact Or.inl hx
  | cons r l ih =>
      intro start h x hx
      rw [List.foldlM_cons] at h
      obtain ⟨next, hnext, h⟩ := bind_eq_ok.1 h
      rcases ih next h x hx with hmem | ⟨r', hr', heq⟩
      · unfold planMove at hnext
        split at hnext
        · obtain rfl := Except.ok.inj hnext
          exact Or.inl hmem
        · split at hnext
          · exact nomatch hnext
          · obtain rfl := Except.ok.inj hnext
            rcases of_mem_assign hmem with hmem | rfl
            · exact Or.inl hmem
            · exact Or.inr ⟨r, List.mem_cons_self, rfl⟩
      · exact Or.inr ⟨r', List.mem_cons_of_mem _ hr', heq⟩

/-- What is to be copied is in the plan for every reference that moves. -/
theorem mem_of_planMoves {references : List Reference} {moves : List (String × Destination)}
    (h : planMoves references = .ok moves) :
    ∀ r ∈ references, r.source ≠ r.target → (r.source, r.destination) ∈ moves := by
  suffices hall : ∀ (l : List Reference) (start : List (String × Destination)), l.foldlM planMove start = .ok moves →
      (∀ x ∈ start, x ∈ moves) ∧ ∀ r ∈ l, r.source ≠ r.target → (r.source, r.destination) ∈ moves from
    (hall references [] h).2
  intro l
  induction l with
  | nil =>
      intro start h
      obtain rfl := Except.ok.inj h
      exact ⟨fun _ hx => hx, nofun⟩
  | cons r l ih =>
      intro start h
      rw [List.foldlM_cons] at h
      obtain ⟨next, hnext, h⟩ := bind_eq_ok.1 h
      obtain ⟨hstart, hrest⟩ := ih next h
      rw [List.forall_mem_cons]
      unfold planMove at hnext
      split at hnext
      · next hstays =>
          obtain rfl := Except.ok.inj hnext
          exact ⟨hstart, fun hmoved => absurd hstays hmoved, hrest⟩
      · split at hnext
        · exact nomatch hnext
        · next hsame =>
            obtain rfl := Except.ok.inj hnext
            refine ⟨fun x hx => hstart x (mem_assign_of_mem hx fun hkey => ?_), fun _ => hstart _ mem_assign_self,
              hrest⟩
            by_contra hne
            exact hsame (List.any_eq_true.2 ⟨x, hx, decide_eq_true ⟨hkey, hne⟩⟩)

/-- What is deleted has the last segment of some key as its key. -/
theorem of_mem_cleanupCandidates {references : List Reference} {x : String × Destination}
    (h : x ∈ cleanupCandidates references) : ∃ r ∈ references, x = (baseName r.target, r.destination) := by
  suffices hall : ∀ (l : List Reference) (start : List (String × Destination)),
      x ∈ l.foldl (addCandidate (references.map Reference.source)) start →
      x ∈ start ∨ ∃ r ∈ l, x = (baseName r.target, r.destination) from
    (hall references [] h).resolve_left List.not_mem_nil
  intro l
  induction l with
  | nil => exact fun start h => Or.inl h
  | cons r l ih =>
      intro start h
      rcases ih _ h with h | ⟨r', hr', hname⟩
      · unfold addCandidate at h
        split at h
        · rcases of_mem_assign h with h | rfl
          · exact Or.inl h
          · exact Or.inr ⟨r, List.mem_cons_self, rfl⟩
        · exact Or.inl h
      · exact Or.inr ⟨r', List.mem_cons_of_mem _ hr', hname⟩

/-- What can be deleted is. -/
theorem exists_cleanupCandidate {references : List Reference} {r : Reference} (hr : r ∈ references)
    (hscoped : isScoped r.target = true) (hfree : ∀ r' ∈ references, r'.source ≠ baseName r.target) :
    ∃ x ∈ cleanupCandidates references, x.1 = baseName r.target := by
  have hkeys : baseName r.target ∉ references.map Reference.source := by
    intro hmem
    obtain ⟨r', hr', hkey⟩ := List.mem_map.1 hmem
    exact hfree r' hr' hkey
  suffices hall : ∀ (l : List Reference) (start : List (String × Destination)),
      ((∃ x ∈ start, x.1 = baseName r.target) ∨ r ∈ l) →
      ∃ x ∈ l.foldl (addCandidate (references.map Reference.source)) start, x.1 = baseName r.target from
    hall references [] (Or.inr hr)
  intro l
  induction l with
  | nil => exact fun start h => h.resolve_right List.not_mem_nil
  | cons r' l ih =>
      intro start h
      refine ih _ ?_
      unfold addCandidate
      rcases h with ⟨x, hx, hname⟩ | hmem
      · refine Or.inl ?_
        split
        · by_cases hsame : x.1 = baseName r'.target
          · exact ⟨_, mem_assign_self, hsame.symm.trans hname⟩
          · exact ⟨x, mem_assign_of_mem hx fun heq => absurd heq hsame, hname⟩
        · exact ⟨x, hx, hname⟩
      · rcases List.mem_cons.1 hmem with rfl | hmem
        · rw [if_pos ⟨hscoped, hkeys⟩]
          exact Or.inl ⟨_, mem_assign_self, rfl⟩
        · exact Or.inr hmem

/-- The state in which the row of a reference was read. -/
def seenIn (sv ss : Holdings B) : Owner → Holdings B
  | .version _ _ => sv
  | .signature _ => ss

/-- What a plan says of the states it was read in: one for the documents, one for each row. -/
structure Plan.DrawnFrom (p : Plan) (loaded : Holdings B) (seen : Owner → Holdings B) : Prop where
  documents : p.documents = loaded.documents
  complete : ∀ o key digest, (seen o).Refers o key digest →
    ∃ r ∈ p.references, r.owner = o ∧ r.source = key ∧ r.digest = digest
  refers : ∀ r ∈ p.references, (seen r.owner).Refers r.owner r.source r.digest
  unique : ∀ r ∈ p.references, ∀ r' ∈ p.references, r'.owner = r.owner → r' = r
  target : ∀ r ∈ p.references, ∃ tenant account, r.target = targetKey r.source tenant account
  moves : ∀ r ∈ p.references, r.source ≠ r.target → (r.source, r.destination) ∈ p.moves
  planned : ∀ x ∈ p.moves, ∃ r ∈ p.references, x.2 = r.destination
  candidates : ∀ x ∈ p.candidates, ∃ r ∈ p.references, x = (baseName r.target, r.destination)
  names : ∀ r ∈ p.references, isScoped r.target = true → (∀ r' ∈ p.references, r'.source ≠ baseName r.target) →
    ∃ x ∈ p.candidates, x.1 = baseName r.target

section Drawn

variable {host : Host B Page} {members : List TenantMember} {documents : Table UUID StoredDocument} {r : Reference}

theorem of_versionReference {x : (UUID × Nat) × StoredVersion}
    (h : versionReference host members documents x = .ok r) :
    r.owner = .version x.1.1 x.1.2 ∧ r.source = x.2.storageKey ∧ r.digest = some x.2.sha256 ∧
      ∃ tenant account, r.target = targetKey r.source tenant account := by
  unfold versionReference at h
  cases hd : item (documents.get? x.1.1) with
  | error e =>
      rw [hd] at h
      exact nomatch h
  | ok d =>
      rw [hd] at h
      obtain rfl := Except.ok.inj h
      exact ⟨rfl, rfl, rfl, _, _, rfl⟩

theorem of_signatureReference {requests : Table UUID UUID} {x : UUID × StoredSignature} {key : String}
    (h : signatureReference host members documents requests x key = .ok r) :
    r.owner = .signature x.1 ∧ r.source = key ∧ r.digest = x.2.artifactSha256 ∧
      ∃ tenant account, r.target = targetKey r.source tenant account := by
  unfold signatureReference at h
  obtain ⟨document, -, h⟩ := bind_eq_ok.1 h
  cases hd : item (documents.get? document) with
  | error e =>
      rw [hd] at h
      exact nomatch h
  | ok d =>
      rw [hd] at h
      obtain rfl := Except.ok.inj h
      exact ⟨rfl, rfl, rfl, _, _, rfl⟩

section Plans

variable {requests : Table UUID UUID} {sd sv ss : Holdings B} {versions : List ((UUID × Nat) × StoredVersion)}
  {signatures : List (UUID × StoredSignature)} {found artifacts : List Reference}

/-- The references of the rows that were read. -/
structure References (host : Host B Page) (members : List TenantMember) (documents : Table UUID StoredDocument)
    (requests : Table UUID UUID) (sv ss : Holdings B) (found artifacts : List Reference) : Prop where
  version : ∀ id v, sv.versions.get? id = some v →
    ∃ r ∈ found, versionReference host members documents (id, v) = .ok r
  signature : ∀ id s key, ss.signatures.get? id = some s → s.artifactStorageKey = some key →
    ∃ r ∈ artifacts, signatureReference host members documents requests (id, s) key = .ok r
  ofVersion : ∀ r ∈ found, ∃ id v, sv.versions.get? id = some v ∧
    versionReference host members documents (id, v) = .ok r
  ofSignature : ∀ r ∈ artifacts, ∃ id s key, ss.signatures.get? id = some s ∧ s.artifactStorageKey = some key ∧
    signatureReference host members documents requests (id, s) key = .ok r

theorem references_of (hversions : versions.Perm sv.versions.rows)
    (hsignatures : signatures.Perm (ss.signatures.select fun _ s => s.artifactStorageKey.isSome))
    (hfound : versions.mapM (versionReference host members documents) = .ok found)
    (hartifacts : (signatures.mapM fun x =>
      signatureReference host members documents requests x (x.2.artifactStorageKey.getD "")) = .ok artifacts) :
    References host members documents requests sv ss found artifacts where
  version id v hv := by
    have hmem : (id, v) ∈ versions := hversions.mem_iff.2 (Table.mem_rows_iff.2 hv)
    obtain ⟨r, hr⟩ := (of_mapM_eq_ok hfound).2 _ hmem
    exact ⟨r, (mem_of_mapM_eq_ok hfound r).2 ⟨_, hmem, hr⟩, hr⟩
  signature id s key hs hkey := by
    have hmem : (id, s) ∈ signatures :=
      hsignatures.mem_iff.2 (Table.mem_select_iff.2 ⟨hs, by rw [hkey]; rfl⟩)
    obtain ⟨r, hr⟩ := (of_mapM_eq_ok hartifacts).2 _ hmem
    refine ⟨r, (mem_of_mapM_eq_ok hartifacts r).2 ⟨_, hmem, hr⟩, ?_⟩
    rwa [hkey] at hr
  ofVersion r hr := by
    obtain ⟨⟨id, v⟩, hmem, hx⟩ := (mem_of_mapM_eq_ok hfound r).1 hr
    exact ⟨id, v, Table.mem_rows_iff.1 (hversions.mem_iff.1 hmem), hx⟩
  ofSignature r hr := by
    obtain ⟨⟨id, s⟩, hmem, hx⟩ := (mem_of_mapM_eq_ok hartifacts r).1 hr
    obtain ⟨hs, hsome⟩ := Table.mem_select_iff.1 (hsignatures.mem_iff.1 hmem)
    obtain ⟨key, hkey⟩ := Option.isSome_iff_exists.1 hsome
    refine ⟨id, s, key, hs, hkey, ?_⟩
    rwa [hkey] at hx

variable (h : References host members documents requests sv ss found artifacts)

include h

theorem References.refers (hr : r ∈ found ++ artifacts) :
    (seenIn sv ss r.owner).Refers r.owner r.source r.digest := by
  rcases List.mem_append.1 hr with hr | hr
  · obtain ⟨id, v, hv, hx⟩ := h.ofVersion r hr
    obtain ⟨howner, hsource, hdigest, -⟩ := of_versionReference hx
    rw [howner, hsource, hdigest]
    exact .version hv
  · obtain ⟨id, s, key, hs, hkey, hx⟩ := h.ofSignature r hr
    obtain ⟨howner, hsource, hdigest, -⟩ := of_signatureReference hx
    rw [howner, hsource, hdigest]
    exact .signature hs hkey

theorem References.target (hr : r ∈ found ++ artifacts) :
    ∃ tenant account, r.target = targetKey r.source tenant account := by
  rcases List.mem_append.1 hr with hr | hr
  · obtain ⟨id, v, -, hx⟩ := h.ofVersion r hr
    exact (of_versionReference hx).2.2.2
  · obtain ⟨id, s, key, -, -, hx⟩ := h.ofSignature r hr
    exact (of_signatureReference hx).2.2.2

/-- A row has one reference. -/
theorem References.unique {r' : Reference} (hr : r ∈ found ++ artifacts) (hr' : r' ∈ found ++ artifacts)
    (howner : r'.owner = r.owner) : r' = r := by
  rcases List.mem_append.1 hr with hr | hr
  · obtain ⟨id, v, hv, hx⟩ := h.ofVersion r hr
    have ho := (of_versionReference hx).1
    rcases List.mem_append.1 hr' with hr' | hr'
    · obtain ⟨id', v', hv', hx'⟩ := h.ofVersion r' hr'
      have ho' := (of_versionReference hx').1
      rw [howner, ho] at ho'
      obtain ⟨hdocument, hnumber⟩ := Owner.version.inj ho'
      obtain rfl : id = id' := Prod.ext hdocument hnumber
      obtain rfl := Option.some.inj (hv.symm.trans hv')
      exact Except.ok.inj (hx'.symm.trans hx)
    · obtain ⟨id', s', key', -, -, hx'⟩ := h.ofSignature r' hr'
      have ho' := (of_signatureReference hx').1
      rw [howner, ho] at ho'
      exact nomatch ho'
  · obtain ⟨id, s, key, hs, hkey, hx⟩ := h.ofSignature r hr
    have ho := (of_signatureReference hx).1
    rcases List.mem_append.1 hr' with hr' | hr'
    · obtain ⟨id', v', -, hx'⟩ := h.ofVersion r' hr'
      have ho' := (of_versionReference hx').1
      rw [howner, ho] at ho'
      exact nomatch ho'
    · obtain ⟨id', s', key', hs', hkey', hx'⟩ := h.ofSignature r' hr'
      have ho' := (of_signatureReference hx').1
      rw [howner, ho] at ho'
      obtain rfl := Owner.signature.inj ho'
      obtain rfl := Option.some.inj (hs.symm.trans hs')
      obtain rfl := Option.some.inj (hkey.symm.trans hkey')
      exact Except.ok.inj (hx'.symm.trans hx)

theorem References.complete {o : Owner} {key : String} {digest : Option String}
    (ho : (seenIn sv ss o).Refers o key digest) :
    ∃ r ∈ found ++ artifacts, r.owner = o ∧ r.source = key ∧ r.digest = digest := by
  cases ho with
  | version row =>
      obtain ⟨r, hr, hx⟩ := h.version _ _ row
      obtain ⟨howner, hsource, hdigest, -⟩ := of_versionReference hx
      exact ⟨r, List.mem_append_left _ hr, howner, hsource, hdigest⟩
  | signature row artifact =>
      obtain ⟨r, hr, hx⟩ := h.signature _ _ _ row artifact
      obtain ⟨howner, hsource, hdigest, -⟩ := of_signatureReference hx
      exact ⟨r, List.mem_append_right _ hr, howner, hsource, hdigest⟩

end Plans

theorem drawnFrom_planOf {requests : Table UUID UUID} {sd sv ss : Holdings B}
    {versions : List ((UUID × Nat) × StoredVersion)} {signatures : List (UUID × StoredSignature)} {p : Plan}
    (hversions : versions.Perm sv.versions.rows)
    (hsignatures : signatures.Perm (ss.signatures.select fun _ s => s.artifactStorageKey.isSome))
    (h : planOf host members sd.documents versions requests signatures = .ok p) :
    p.DrawnFrom sd (seenIn sv ss) := by
  obtain ⟨found, hfound, h⟩ := bind_eq_ok.1 h
  obtain ⟨artifacts, hartifacts, h⟩ := bind_eq_ok.1 h
  obtain ⟨moves, hmoves, h⟩ := bind_eq_ok.1 h
  obtain rfl := Except.ok.inj h
  have hreferences := references_of hversions hsignatures hfound hartifacts
  exact
    { documents := rfl
      complete := fun _ _ _ ho => hreferences.complete ho
      refers := fun _ hr => hreferences.refers hr
      unique := fun _ hr _ hr' howner => hreferences.unique hr hr' howner
      target := fun _ hr => hreferences.target hr
      moves := mem_of_planMoves hmoves
      planned := of_mem_planMoves hmoves
      candidates := fun _ hx => of_mem_cleanupCandidates hx
      names := fun _ hr hscoped hfree => exists_cleanupCandidate hr hscoped hfree }

end Drawn

/-! ## New keys -/

namespace Plan.DrawnFrom

variable {p : Plan} {sd : Holdings B} {seen : Owner → Holdings B} (hp : p.DrawnFrom sd seen) {r : Reference}

include hp

theorem isScoped_target (hr : r ∈ p.references) : isScoped r.target = true := by
  obtain ⟨tenant, account, htarget⟩ := hp.target r hr
  rw [htarget]
  exact isScoped_targetKey _ _ _

theorem baseName_target (hr : r ∈ p.references) : baseName r.target = baseName r.source := by
  obtain ⟨tenant, account, htarget⟩ := hp.target r hr
  rw [htarget]
  exact baseName_targetKey _ _ _

/-- Only keys that are not under `tenants/` are replaced. -/
theorem isScoped_source (hr : r ∈ p.references) (hmoves : r.source ≠ r.target) : isScoped r.source = false := by
  obtain ⟨tenant, account, htarget⟩ := hp.target r hr
  rw [Bool.eq_false_iff]
  intro hscoped
  exact hmoves (htarget.trans (targetKey_of_isScoped hscoped tenant account)).symm

omit hp in
theorem of_newKey {o : Owner} {key : String} (h : p.newKey o = some key) :
    ∃ r ∈ p.references, r.owner = o ∧ r.source ≠ r.target ∧ r.target = key := by
  obtain ⟨r, hfind, htarget⟩ := Option.map_eq_some_iff.1 h
  have hfound := List.find?_some hfind
  obtain ⟨howner, hmoves⟩ := of_decide_eq_true hfound
  exact ⟨r, List.mem_of_find?_eq_some hfind, howner, hmoves, htarget⟩

theorem newKey_of_moves (hr : r ∈ p.references) (hmoves : r.source ≠ r.target) :
    p.newKey r.owner = some r.target := by
  cases h : p.newKey r.owner with
  | none =>
      have hnone := List.find?_eq_none.1 (Option.map_eq_none_iff.1 h) r hr
      exact absurd (decide_eq_true ⟨rfl, hmoves⟩) hnone
  | some key =>
      obtain ⟨r', hr', howner, -, htarget⟩ := of_newKey h
      obtain rfl := hp.unique r hr r' hr' howner
      rw [htarget]

theorem newKey_of_stays (hr : r ∈ p.references) (hstays : r.source = r.target) : p.newKey r.owner = none := by
  cases h : p.newKey r.owner with
  | none => rfl
  | some key =>
      obtain ⟨r', hr', howner, hmoves, -⟩ := of_newKey h
      obtain rfl := hp.unique r hr r' hr' howner
      exact absurd hstays hmoves

end Plan.DrawnFrom

/-! ## The keys of documents -/

/-- What the assignment to a reference does to the key of a document. -/
def relabelKey (id : UUID) (key : String) (r : Reference) : String :=
  match r.owner with
  | .version document _ => if document = id ∧ r.source ≠ r.target ∧ key = r.source then r.target else key
  | .signature _ => key

theorem get?_relabelDocument (t : Table UUID StoredDocument) (r : Reference) (id : UUID) :
    (relabelDocument t r).get? id =
      (t.get? id).map fun d => { d with storageKey := relabelKey id d.storageKey r } := by
  have hsame : t.get? id = (t.get? id).map fun d => { d with storageKey := d.storageKey } := by
    cases t.get? id <;> rfl
  unfold relabelDocument relabelKey
  cases r.owner with
  | signature id' => exact hsame
  | version document number =>
      by_cases hstays : r.source = r.target
      · simp only [hstays, ne_eq, not_true_eq_false, false_and, and_false, if_true, if_false]
        exact hsame
      · dsimp only
        rw [if_neg hstays, Table.get?_update]
        by_cases hid : id = document
        · subst hid
          rw [if_pos rfl]
          refine congrArg (Option.map · (t.get? id)) (funext fun d => ?_)
          by_cases hkey : d.storageKey = r.source
          · simp only [hkey, hstays, ne_eq, not_false_eq_true, and_self, if_true]
          · simp only [hkey, and_false, if_false]
        · rw [if_neg hid]
          simp only [Ne.symm hid, false_and, if_false]
          exact hsame

theorem get?_foldl_relabelDocument (l : List Reference) (t : Table UUID StoredDocument) (id : UUID) :
    (l.foldl relabelDocument t).get? id =
      (t.get? id).map fun d => { d with storageKey := l.foldl (relabelKey id) d.storageKey } := by
  induction l generalizing t with
  | nil =>
      show t.get? id = _
      cases t.get? id <;> rfl
  | cons r l ih =>
      rw [List.foldl_cons, ih, get?_relabelDocument, Option.map_map]
      rfl

theorem foldl_relabelKey_of_ne {l : List Reference} {id : UUID} {key : String}
    (h : ∀ r ∈ l, ∀ number, r.owner = .version id number → r.source ≠ r.target → key ≠ r.source) :
    l.foldl (relabelKey id) key = key := by
  induction l with
  | nil => rfl
  | cons r l ih =>
      obtain ⟨hr, hl⟩ := List.forall_mem_cons.1 h
      have hstep : relabelKey id key r = key := by
        unfold relabelKey
        split
        · next document number howner =>
            refine if_neg ?_
            rintro ⟨rfl, hmoves, hkey⟩
            exact hr number howner hmoves hkey
        · rfl
      rw [List.foldl_cons, hstep, ih hl]

/-- A document follows the version that has its key. -/
theorem foldl_relabelKey {l : List Reference} {id : UUID} {key : String} {r : Reference} {number : Nat}
    (hbare : ∀ r ∈ l, r.source ≠ r.target → isScoped r.source = false ∧ isScoped r.target = true) (hr : r ∈ l)
    (howner : r.owner = .version id number) (hmoves : r.source ≠ r.target) (hkey : key = r.source)
    (honly : ∀ r' ∈ l, ∀ number', r'.owner = .version id number' → r'.source = key → r' = r) :
    l.foldl (relabelKey id) key = r.target := by
  induction l with
  | nil => exact absurd hr List.not_mem_nil
  | cons x l ih =>
      have hrest : ∀ y ∈ l, y ∈ x :: l := fun y hy => List.mem_cons_of_mem x hy
      rw [List.foldl_cons]
      by_cases hx : x = r
      · subst hx
        have hstep : relabelKey id key x = x.target := by
          unfold relabelKey
          rw [howner]
          exact if_pos ⟨rfl, hmoves, hkey⟩
        rw [hstep]
        refine foldl_relabelKey_of_ne fun y hy number' _ hy' htarget => ?_
        have hscoped := (hbare x hr hmoves).2
        rw [htarget, (hbare y (hrest y hy) hy').1] at hscoped
        exact nomatch hscoped
      · have hstep : relabelKey id key x = key := by
          unfold relabelKey
          split
          · next document number' hx' =>
              refine if_neg ?_
              rintro ⟨rfl, -, hsource⟩
              exact hx (honly x List.mem_cons_self number' hx' hsource.symm)
          · rfl
        rw [hstep]
        exact ih (fun y hy => hbare y (hrest y hy)) ((List.mem_cons.1 hr).resolve_left (Ne.symm hx))
          fun y hy => honly y (hrest y hy)

/-! ## The flush -/

theorem get?_relabel_documents (p : Plan) (v : Holdings B) (id : UUID) :
    (p.relabel v).documents.get? id = (v.documents.get? id).map fun d =>
      { d with storageKey := (p.documentKeys id).elim d.storageKey fun x => written x.1 x.2 d.storageKey } :=
  Table.get?_map _ _ _

theorem refers_relabel {p : Plan} {v : Holdings B}
    (hsignatures : ∀ id key, p.newKey (.signature id) = some key → ∃ key digest, v.Refers (.signature id) key digest)
    {o : Owner} {key : String} {digest : Option String} :
    (p.relabel v).Refers o key digest ↔ ∃ key', v.Refers o key' digest ∧ key = (p.newKey o).getD key' := by
  constructor
  · intro h
    cases h with
    | @version document number v' row =>
        rw [show (p.relabel v).versions.get? (document, number) = _ from Table.get?_map _ _ _] at row
        obtain ⟨v0, hv0, rfl⟩ := Option.map_eq_some_iff.1 row
        exact ⟨v0.storageKey, .version hv0, rfl⟩
    | @signature id s _ row artifact =>
        rw [show (p.relabel v).signatures.get? id = _ from Table.get?_map _ _ _] at row
        obtain ⟨s0, hs0, rfl⟩ := Option.map_eq_some_iff.1 row
        have hkey : (p.newKey (.signature id)).or s0.artifactStorageKey = some key := artifact
        cases hartifact : s0.artifactStorageKey with
        | none =>
            rw [hartifact, Option.or_none] at hkey
            obtain ⟨_, _, hrefers⟩ := hsignatures id key hkey
            cases hrefers with
            | signature row' artifact' =>
                obtain rfl := Option.some.inj (hs0.symm.trans row')
                exact absurd (hartifact.symm.trans artifact') (by simp)
        | some key' =>
            have hrefers : v.Refers (.signature id) key' s0.artifactSha256 := .signature hs0 hartifact
            rw [hartifact, Option.or_some] at hkey
            exact ⟨key', hrefers, (Option.some.inj hkey).symm⟩
  · rintro ⟨key', h, rfl⟩
    cases h with
    | @version document number v0 row =>
        have hrow : (p.relabel v).versions.get? (document, number) =
            some { v0 with storageKey := (p.newKey (.version document number)).getD v0.storageKey } :=
          (Table.get?_map _ _ _).trans (congrArg _ row)
        exact .version hrow
    | @signature id s0 _ row artifact =>
        have hrow : (p.relabel v).signatures.get? id =
            some { s0 with artifactStorageKey := (p.newKey (.signature id)).or s0.artifactStorageKey } :=
          (Table.get?_map _ _ _).trans (congrArg _ row)
        have hartifact : (p.newKey (.signature id)).or s0.artifactStorageKey =
            some ((p.newKey (.signature id)).getD key') := by
          rw [artifact, Option.or_some]
        have hrefers := Holdings.Refers.signature hrow hartifact
        exact hrefers

/-- The tool is done with a database: every key is under `tenants/`. -/
def Organized (w : Holdings B) : Prop :=
  ∀ o key digest, w.Refers o key digest → isScoped key = true

/-- What the tool knows at its commit of the states it has read. -/
structure Plan.Known (host : Host B Page) (p : Plan) (sd sv ss : Holdings B) : Prop where
  drawn : p.DrawnFrom sd (seenIn sv ss)
  loaded : Sound host sd
  seen : Sound host sv
  toVersions : Later sd sv
  toSignatures : Later sv ss

namespace Plan.Known

variable {host : Host B Page} {p : Plan} {sd sv ss v : Holdings B} (hp : p.Known host sd sv ss) (hlater : Later ss v)

include hp hlater

theorem later (o : Owner) : Later (seenIn sv ss o) v := by
  cases o with
  | version document number => exact hp.toSignatures.trans hlater
  | signature id => exact hlater

/-- The row of a reference, where it is now. -/
theorem of_mem {r : Reference} (hr : r ∈ p.references) :
    ∃ key, v.Refers r.owner key r.digest ∧ MovedKey r.source key :=
  (hp.later hlater r.owner).refers _ _ _ (hp.drawn.refers r hr)

/-- The reference of a row. -/
theorem exists_reference {o : Owner} {key : String} {digest : Option String} (h : v.Refers o key digest) :
    ∃ r ∈ p.references, r.owner = o ∧ r.digest = digest ∧ MovedKey r.source key := by
  obtain ⟨key', hseen, hmoved⟩ := (hp.later hlater o).referred _ _ _ h
  obtain ⟨r, hr, howner, rfl, hdigest⟩ := hp.drawn.complete o key' digest hseen
  exact ⟨r, hr, howner, hdigest, hmoved⟩

theorem refers_relabel_iff {o : Owner} {key : String} {digest : Option String} :
    (p.relabel v).Refers o key digest ↔ ∃ key', v.Refers o key' digest ∧ key = (p.newKey o).getD key' := by
  refine refers_relabel fun id key hkey => ?_
  obtain ⟨r, hr, howner, -, -⟩ := DrawnFrom.of_newKey hkey
  obtain ⟨key', hrefers, -⟩ := hp.of_mem hlater hr
  exact ⟨key', r.digest, howner ▸ hrefers⟩

/-- The key a row is given is one its old key can move to. -/
theorem movedKey_newKey {o : Owner} {key : String} {digest : Option String} (h : v.Refers o key digest) :
    MovedKey key ((p.newKey o).getD key) := by
  cases hkey : p.newKey o with
  | none => exact .refl key
  | some key' =>
      obtain ⟨r, hr, rfl, -, rfl⟩ := DrawnFrom.of_newKey hkey
      obtain ⟨key'', hrefers, hmoved⟩ := hp.of_mem hlater hr
      obtain ⟨rfl, -⟩ := h.unique hrefers
      exact Or.inr ⟨hp.drawn.isScoped_target hr, (hp.drawn.baseName_target hr).trans hmoved.baseName.symm⟩

/-- Where nothing moves, all is done already. -/
theorem organized_of_no_changes (h : p.changes = false) : Organized v := by
  intro o key digest hrefers
  obtain ⟨r, hr, -, -, hmoved⟩ := hp.exists_reference hlater hrefers
  have hstays : r.source = r.target := by
    by_contra hmoves
    exact absurd (List.any_eq_true.2 ⟨r, hr, decide_eq_true hmoves⟩) (Bool.eq_false_iff.1 h)
  exact hmoved.isScoped (hstays ▸ hp.drawn.isScoped_target hr)

theorem organized_relabel : Organized (p.relabel v) := by
  intro o key digest hrelabeled
  obtain ⟨key', hrefers, rfl⟩ := (hp.refers_relabel_iff hlater).1 hrelabeled
  obtain ⟨r, hr, rfl, -, hmoved⟩ := hp.exists_reference hlater hrefers
  by_cases hmoves : r.source = r.target
  · rw [hp.drawn.newKey_of_stays hr hmoves]
    exact hmoved.isScoped (hmoves ▸ hp.drawn.isScoped_target hr)
  · rw [hp.drawn.newKey_of_moves hr hmoves]
    exact hp.drawn.isScoped_target hr

omit hlater in
theorem documentKeys_eq {id : UUID} {d0 : StoredDocument} (h : sd.documents.get? id = some d0) :
    p.documentKeys id = some (d0.storageKey, p.references.foldl (relabelKey id) d0.storageKey) := by
  unfold documentKeys
  rw [get?_foldl_relabelDocument, hp.drawn.documents, h]
  rfl

/-- A document goes with its current version. -/
theorem relabel_document (hv : Sound host v) {id : UUID} {d : StoredDocument} (hd : v.documents.get? id = some d) :
    ∃ digest, v.Refers (.version id d.version) d.storageKey digest ∧
      ((p.documentKeys id).elim d.storageKey fun x => written x.1 x.2 d.storageKey) =
        (p.newKey (.version id d.version)).getD d.storageKey := by
  obtain ⟨digest, hrefers⟩ := hv.current id d hd
  obtain ⟨key0, hd0, -⟩ := (hp.toVersions.trans (hp.toSignatures.trans hlater)).documented id d hd
  obtain ⟨digest0, hrefers0⟩ := hp.loaded.current id _ hd0
  obtain ⟨r, hr, howner, -, -⟩ := hp.exists_reference hlater hrefers
  have hread : sv.Refers (.version id d.version) r.source r.digest := by
    have hseen := hp.drawn.refers r hr
    rw [howner] at hseen
    exact hseen
  -- Another version whose key was that of the document when it was loaded is the current one.
  have honly : ∀ r' ∈ p.references, ∀ number, r'.owner = .version id number → isScoped r'.source = false →
      r'.source = key0 → r' = r := by
    intro r' hr' number howner' hbare hkey
    have hseen : sv.Refers (.version id number) r'.source r'.digest := by
      have hseen := hp.drawn.refers r' hr'
      rw [howner'] at hseen
      exact hseen
    obtain ⟨key, hloaded, hmoved⟩ := hp.toVersions.referred _ _ _ hseen
    obtain rfl := hmoved.eq_of_bare hbare
    have hsame := hp.loaded.distinct _ _ _ _ _ (hkey ▸ hbare) hrefers0 (hkey ▸ hloaded)
    exact hp.drawn.unique r hr r' hr' (by rw [howner, howner', hsame])
  refine ⟨digest, hrefers, ?_⟩
  rw [hp.documentKeys_eq hd0, Option.elim_some, ← howner]
  by_cases hmoves : r.source = r.target
  · have hfold : p.references.foldl (relabelKey id) key0 = key0 := by
      refine foldl_relabelKey_of_ne fun r' hr' number howner' hmoves' hkey => ?_
      obtain rfl := honly r' hr' number howner' (hp.drawn.isScoped_source hr' hmoves') hkey.symm
      exact hmoves' hmoves
    rw [hfold, hp.drawn.newKey_of_stays hr hmoves]
    exact if_pos rfl
  · have hbare := hp.drawn.isScoped_source hr hmoves
    have hkey : key0 = r.source := (hp.toVersions.moved hrefers0 hread).1.eq_of_bare hbare
    have hfold : p.references.foldl (relabelKey id) key0 = r.target := by
      refine foldl_relabelKey (fun r' hr' hmoves' => ⟨hp.drawn.isScoped_source hr' hmoves',
        hp.drawn.isScoped_target hr'⟩) hr howner hmoves hkey fun r' hr' number howner' hsource => ?_
      exact honly r' hr' number howner' (by rw [hsource, hkey]; exact hbare) hsource
    rw [hfold, hp.drawn.newKey_of_moves hr hmoves]
    exact if_neg fun htarget => hmoves (hkey.symm.trans htarget.symm)

theorem later_relabel (hv : Sound host v) : Later v (p.relabel v) where
  refers o key digest h := ⟨_, (hp.refers_relabel_iff hlater).2 ⟨key, h, rfl⟩, hp.movedKey_newKey hlater h⟩
  referred o key digest h := by
    obtain ⟨key', hrefers, rfl⟩ := (hp.refers_relabel_iff hlater).1 h
    exact ⟨key', hrefers, hp.movedKey_newKey hlater hrefers⟩
  documents id d hd := by
    obtain ⟨digest, hrefers, hkey⟩ := hp.relabel_document hlater hv hd
    refine ⟨_, (get?_relabel_documents p v id).trans (congrArg _ hd), ?_⟩
    rw [hkey]
    exact hp.movedKey_newKey hlater hrefers
  documented id d' hd' := by
    rw [get?_relabel_documents] at hd'
    obtain ⟨d, hd, rfl⟩ := Option.map_eq_some_iff.1 hd'
    obtain ⟨digest, hrefers, hkey⟩ := hp.relabel_document hlater hv hd
    refine ⟨d.storageKey, hd, ?_⟩
    show MovedKey d.storageKey ((p.documentKeys id).elim d.storageKey fun x => written x.1 x.2 d.storageKey)
    rw [hkey]
    exact hp.movedKey_newKey hlater hrefers
  stored _ _ _ h := h
  bare _ _ _ h := h

/-- After the flush every reference resolves again, if the copies are there. -/
theorem sound_relabel (hv : Sound host v) (hcopied : ∀ x ∈ p.moves, v.Resolves host x.2.1 x.2.2) :
    Sound host (p.relabel v) := by
  have hresolves : ∀ o key digest, v.Refers o key digest → v.Resolves host ((p.newKey o).getD key) digest := by
    intro o key digest h
    cases hkey : p.newKey o with
    | none => exact hv.resolved.references o key digest h
    | some key' =>
        obtain ⟨r, hr, rfl, hmoves, rfl⟩ := DrawnFrom.of_newKey hkey
        obtain ⟨key'', hrefers, -⟩ := hp.of_mem hlater hr
        obtain ⟨-, hdigest⟩ := h.unique hrefers
        rw [← hdigest]
        exact hcopied _ (hp.drawn.moves r hr hmoves)
  have hbare : ∀ o key, isScoped ((p.newKey o).getD key) = false → (p.newKey o).getD key = key := by
    intro o key h
    cases hkey : p.newKey o with
    | none => rfl
    | some key' =>
        obtain ⟨r, hr, rfl, -, rfl⟩ := DrawnFrom.of_newKey hkey
        rw [hkey, Option.getD_some, hp.drawn.isScoped_target hr] at h
        exact nomatch h
  refine ⟨⟨?_, ?_⟩, ?_, ?_⟩
  · intro o key digest h
    obtain ⟨key', hrefers, rfl⟩ := (hp.refers_relabel_iff hlater).1 h
    exact hresolves o key' digest hrefers
  · intro id d' hd'
    rw [get?_relabel_documents] at hd'
    obtain ⟨d, hd, rfl⟩ := Option.map_eq_some_iff.1 hd'
    obtain ⟨digest, hrefers, hkey⟩ := hp.relabel_document hlater hv hd
    have hdigest := (hv.resolved.documents id d hd).unique (hv.resolved.references _ _ _ hrefers)
    have hnew := hresolves _ _ _ hrefers
    rw [hdigest, ← hkey] at hnew
    exact hnew
  · intro id d' hd'
    rw [get?_relabel_documents] at hd'
    obtain ⟨d, hd, rfl⟩ := Option.map_eq_some_iff.1 hd'
    obtain ⟨digest, hrefers, hkey⟩ := hp.relabel_document hlater hv hd
    exact ⟨digest, (hp.refers_relabel_iff hlater).2 ⟨d.storageKey, hrefers, hkey⟩⟩
  · intro o o' key digest digest' hkey h h'
    obtain ⟨key1, hrefers, rfl⟩ := (hp.refers_relabel_iff hlater).1 h
    obtain ⟨key2, hrefers', heq⟩ := (hp.refers_relabel_iff hlater).1 h'
    have h1 := hbare o key1 hkey
    have h2 := hbare o' key2 (heq ▸ hkey)
    rw [h1] at hkey heq
    rw [h2] at heq
    exact hv.distinct o o' key1 digest digest' hkey hrefers (heq ▸ hrefers')

end Plan.Known

end Rubrica.Reorganization
