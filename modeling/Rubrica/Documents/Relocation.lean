import Mathlib.Data.List.Dedup
import Rubrica.Documents.Confinement
import Rubrica.Documents.Relabelling

set_option autoImplicit false

/-! # Copying the local objects to R2

`migrate_documents_to_r2`: what versions and artifacts refer to is copied from the local tree to the bucket, each
object under its own key, and compared with the digest of its row before and after. -/

namespace Rubrica.Relocation

open Transactions Files Raising Reorganization

/-! ## The tool -/

/-- The rows that the tool reads. -/
structure Inventory where
  versions : Table (UUID × Nat) StoredVersion
  signatures : Table UUID StoredSignature
  /-- The unique constraint on `document_versions.storage_key`. -/
  unique : (versions.rows.map fun x => x.2.storageKey).Nodup

/-- Where the objects are. -/
structure Places where
  disk : Disk Bytes
  bucket : Bucket

/-- How the tool ends that does not come to its end. -/
inductive Stop where
  | exit (message : String)
  | os (e : OsError)
  | r2 (e : R2Error)
  deriving DecidableEq

abbrev Tool (α : Type) : Type :=
  Raising Stop Places α

/-- How the tool is called, in which order it sees the rows, and which of its requests are in trouble. -/
structure Visit where
  apply : Bool
  providerIsR2 : Bool
  /-- `Path(args.source).resolve()`. -/
  source : AbsPath
  privileged : Bool
  bucketPrefix : String
  versions : Listing (String × String)
  artifacts : Listing (String × Option String)
  /-- The trouble of the upload of a key, and of the download. -/
  upload : String → Option Trouble
  download : String → Option Trouble

/-- `objects`: the digest that is expected under each key. -/
abbrev Objects : Type :=
  List (String × String)

def onDisk {α : Type} (x : FileCalls Bytes α) : Tool α :=
  zoom Places.disk (fun disk s => { s with disk := disk }) .os x

def inBucket {α : Type} (x : BucketCalls α) : Tool α :=
  zoom Places.bucket (fun bucket s => { s with bucket := bucket }) .r2 x

/-- `raise SystemExit(..)`, where something is not as it has to be. -/
def refuseUnless (cond : Prop) [Decidable cond] (message : String) : Tool Unit :=
  if cond then pure () else throw (.exit message)

/-- What `get` has returned is read. -/
def Reply.bytes : Reply → Bytes
  | .content bytes => bytes
  | _ => []

section Main

variable (sha256 : Bytes → String)

/-- A round of the loop over `artifact_rows`. -/
def addArtifact (objects : Objects) (row : String × Option String) : Except Stop Objects :=
  let digest := row.2.getD ""
  if row.1 = "" ∨ digest = "" then .ok objects
  else if objects.any fun x => x.1 = row.1 ∧ x.2 ≠ digest then
    .error (.exit ("Conflicting SHA-256 for storage key: " ++ row.1))
  else .ok (assign objects row.1 digest)

def documentRows (visit : Visit) (inventory : Inventory) : List (String × String) :=
  visit.versions.order (inventory.versions.rows.map fun x => (x.2.storageKey, x.2.sha256)).dedup

def artifactRows (visit : Visit) (inventory : Inventory) : List (String × Option String) :=
  visit.artifacts.order (inventory.signatures.rows.filterMap fun x =>
    x.2.artifactStorageKey.map fun key => (key, x.2.artifactSha256))

def objectsOf (visit : Visit) (inventory : Inventory) : Except Stop Objects :=
  (artifactRows visit inventory).foldlM addArtifact
    ((documentRows visit inventory).foldl (fun objects x => assign objects x.1 x.2) [])

variable (visit : Visit)

/-- What is in R2 under a key. -/
def download (key : String) : Tool Bytes := do
  let reply ← inBucket (getR2 visit.bucketPrefix key (visit.download key))
  pure (Reply.bytes reply)

/-- The object is not in the local tree. -/
def checkRemote (key expected : String) : Tool Bool := do
  let uploaded ← tryCatch (download visit key) fun e =>
    throw (if e = .r2 .notFound then .exit ("Object missing locally and in R2: " ++ key) else e)
  refuseUnless (sha256 uploaded = expected) ("SHA-256 mismatch in R2: " ++ key)
  pure false

/-- The copy of an object, and the check of it. -/
def copyLocal (key expected : String) (path : AbsPath) : Tool Bool := do
  let stream ← onDisk (readFile visit.privileged path)
  let _ ← inBucket (putExisting visit.bucketPrefix key stream (visit.upload key))
  let uploaded ← download visit key
  refuseUnless (sha256 uploaded = expected) ("SHA-256 mismatch after copy: " ++ key)
  pure true

/-- A round of the loop over `sorted(objects.items())`: is the object copied? `repr` is the one of a text. -/
def handleObject (repr : String → String) (x : String × String) : Tool Bool := do
  validateStorageKey (.exit ("Invalid storage key in database: " ++ repr x.1)) x.1
  let path := localPath visit.source x.1
  let there ← onDisk (isFile visit.privileged path)
  if there then
    let content ← onDisk (readFile visit.privileged path)
    refuseUnless (sha256 content = x.2) ("SHA-256 mismatch before copy: " ++ x.1)
    if visit.apply then copyLocal sha256 visit x.1 x.2 path else pure false
  else checkRemote sha256 visit x.1 x.2

/-- `checked` and `copied`. -/
structure Report where
  checked : Nat
  copied : Nat
  deriving DecidableEq, Repr

def Report.counted (report : Report) (copied : Bool) : Report :=
  ⟨report.checked + 1, if copied then report.copied + 1 else report.copied⟩

/-- What the tool prints. -/
def Report.text (report : Report) (apply : Bool) : String :=
  if apply then
    "[ok] " ++ toString report.checked ++ " objects checked; " ++ toString report.copied ++ " copied and verified"
  else "[ok] " ++ toString report.checked ++ " objects checked and ready to copy"

/-- `main`. -/
def migrateDocuments (repr : String → String) (inventory : Inventory) : Tool Report := do
  refuseUnless (visit.providerIsR2 = true) "DOCUMENT_STORAGE_PROVIDER must be r2"
  let objects ← MonadExcept.ofExcept (objectsOf visit inventory)
  (sortedItems objects).foldlM (fun report x => do
    let copied ← handleObject sha256 visit repr x
    pure (report.counted copied)) ⟨0, 0⟩

end Main

/-! ## What a round does -/

/-- No request is in trouble. -/
def Visit.Untroubled (visit : Visit) : Prop :=
  ∀ key, visit.upload key = none ∧ visit.download key = none

section Round

variable {sha256 : Bytes → String} {visit : Visit} {s s' : Places} {x y : String × String}

/-- The file of a key in the local tree. -/
def Visit.fileOf (visit : Visit) (s : Places) (key : String) : Option Bytes :=
  s.disk.fileAt visit.privileged (localPath visit.source key)

/-- The object of a key in the bucket. -/
def Visit.objectOf (visit : Visit) (s : Places) (key : String) : Option Bytes :=
  s.bucket (objectKey visit.bucketPrefix key)

def Places.store (s : Places) (key : String) (content : Bytes) : Places :=
  { s with
    bucket := s.bucket.replaced key (some content) }

theorem store_self (key : String) (content : Bytes) : (s.store key content).bucket key = some content :=
  replaced_self _

theorem store_of_ne {key key' : String} (h : key' ≠ key) (content : Bytes) :
    (s.store key content).bucket key' = s.bucket key' :=
  replaced_of_ne h _

theorem store_disk (key : String) (content : Bytes) : (s.store key content).disk = s.disk :=
  rfl

theorem objectOf_store_of_ne {key key' : String} (h : key' ≠ key) (content : Bytes) :
    visit.objectOf (s.store (objectKey visit.bucketPrefix key) content) key' = visit.objectOf s key' := by
  have hne : objectKey visit.bucketPrefix key' ≠ objectKey visit.bucketPrefix key :=
    fun heq => h (objectKey_injective heq)
  exact store_of_ne hne content

/-- What the tool asks of an object: a local file has the digest, and is not in R2 if it is to be copied; what has no
    local file is in R2, with the digest. -/
structure Visit.Ready (sha256 : Bytes → String) (visit : Visit) (s : Places) (x : String × String) : Prop where
  valid : validStorageKey x.1 = true
  here : ∀ content, visit.fileOf s x.1 = some content →
    sha256 content = x.2 ∧ (visit.apply = true → visit.objectOf s x.1 = none)
  there : visit.fileOf s x.1 = none → ∃ content, visit.objectOf s x.1 = some content ∧ sha256 content = x.2

/-- A local file with the digest becomes an object that was not there. -/
inductive Visit.Copies (sha256 : Bytes → String) (visit : Visit) (x : String × String) (s : Places) : Places → Prop where
  | intro {content : Bytes} (apply : visit.apply = true) (file : visit.fileOf s x.1 = some content)
      (digest : sha256 content = x.2) (free : visit.objectOf s x.1 = none) :
      Visit.Copies sha256 visit x s (s.store (objectKey visit.bucketPrefix x.1) content)

/-- A round that returns copies what is in the local tree, if it is to, and else leaves everything as it is. -/
structure Visit.Handles (sha256 : Bytes → String) (visit : Visit) (x : String × String) (s : Places) (copied : Bool)
    (s' : Places) : Prop where
  ready : visit.Ready sha256 s x
  counted : copied = (visit.apply && (visit.fileOf s x.1).isSome)
  ends : s' = s ∧ (visit.apply = true → visit.fileOf s x.1 = none) ∨ visit.Copies sha256 x s s'

theorem ends_refuseUnless {cond : Prop} [Decidable cond] {message : String} {Q : Unit → Places → Prop}
    {R : Stop → Places → Prop} (hQ : cond → Q () s) (hR : ¬cond → R (.exit message) s) :
    Ends (refuseUnless cond message) s Q R := by
  unfold refuseUnless
  split
  next h => exact ends_pure (hQ h)
  next h => exact ends_throw (hR h)

/-- What `get` returns was there, and without trouble it returns what is there. -/
theorem ends_download (hvalid : validStorageKey x.1 = true) : Ends (download visit x.1) s
    (fun content t => t = s ∧ visit.objectOf s x.1 = some content)
    fun _ t => t = s ∧ (visit.Untroubled → visit.objectOf s x.1 = none) := by
  have hget : Ends (Bucket.getObject (objectKey visit.bucketPrefix x.1) (visit.download x.1)) s.bucket
      (fun content t => t = s.bucket ∧ visit.objectOf s x.1 = some content)
      fun _ t => t = s.bucket ∧ (visit.Untroubled → visit.objectOf s x.1 = none) := by
    refine ends_bind (ends_get ?_)
    cases htrouble : visit.download x.1 with
    | some trouble => exact ends_throw ⟨rfl, fun h => absurd (htrouble.symm.trans (h x.1).2) (by simp)⟩
    | none =>
        cases hobject : s.bucket (objectKey visit.bucketPrefix x.1) with
        | none => exact ends_throw ⟨rfl, fun _ => hobject⟩
        | some content => exact ends_pure ⟨rfl, hobject⟩
  refine ends_bind (ends_zoom (ends_bind (ends_of_run (run_validateStorageKey hvalid _) ?_)))
  refine ends_bind (ends_tryCatch (hget.mono ?_ fun e t h => ends_throw ?_))
  · rintro content t ⟨rfl, hobject⟩
    exact ends_pure (ends_pure ⟨rfl, hobject⟩)
  · obtain ⟨rfl, hobject⟩ := h
    exact ⟨rfl, hobject⟩

/-- An upload that fails without trouble finds the object there. -/
theorem ends_upload (hvalid : validStorageKey x.1 = true) (content : Bytes) :
    Ends (inBucket (putExisting visit.bucketPrefix x.1 content (visit.upload x.1))) s
      (fun _ t => visit.objectOf s x.1 = none ∧ t = s.store (objectKey visit.bucketPrefix x.1) content)
      fun _ t => (t = s ∨ visit.objectOf s x.1 = none ∧ t = s.store (objectKey visit.bucketPrefix x.1) content) ∧
        (visit.Untroubled → visit.objectOf s x.1 ≠ none) := by
  have hput : Ends (Bucket.putObject (objectKey visit.bucketPrefix x.1) content (visit.upload x.1)) s.bucket
      (fun _ t => Stored (objectKey visit.bucketPrefix x.1) content s.bucket t)
      fun _ t => (t = s.bucket ∨ Stored (objectKey visit.bucketPrefix x.1) content s.bucket t) ∧
        (visit.Untroubled → visit.objectOf s x.1 ≠ none) := by
    by_cases hfree : (s.bucket (objectKey visit.bucketPrefix x.1)).isSome = true
    · refine ends_bind (ends_get ?_)
      rw [if_pos hfree]
      exact ends_throw ⟨Or.inl rfl, fun _ => Option.isSome_iff_ne_none.1 hfree⟩
    · cases htrouble : visit.upload x.1 with
      | some trouble =>
          exact ends_putObject.mono (fun _ _ h => h)
            fun _ _ h => ⟨h, fun hnone => absurd (htrouble.symm.trans (hnone x.1).1) (by simp)⟩
      | none =>
          refine ends_bind (ends_get ?_)
          rw [if_neg hfree]
          exact ends_set ⟨Option.not_isSome_iff_eq_none.1 hfree, rfl⟩
  refine ends_zoom (ends_bind (ends_of_run (run_validateStorageKey hvalid _) ?_))
  refine ends_bind (ends_tryCatch (hput.mono (fun _ t h => ends_pure ⟨h.1, congrArg _ h.2⟩) fun _ t h => ends_throw ?_))
  obtain ⟨rfl | ⟨hfree, rfl⟩, huntroubled⟩ := h
  · exact ⟨Or.inl rfl, huntroubled⟩
  · exact ⟨Or.inr ⟨hfree, rfl⟩, huntroubled⟩

/-- A round ends with what it may do, and without trouble it raises only where an object is not ready. -/
abbrev Visit.Fails (sha256 : Bytes → String) (visit : Visit) (x : String × String) (s s' : Places) : Prop :=
  (s' = s ∨ visit.Copies sha256 x s s') ∧ (visit.Untroubled → ¬visit.Ready sha256 s x)

theorem ends_copyLocal (hvalid : validStorageKey x.1 = true) {content : Bytes} (happly : visit.apply = true)
    (hfile : visit.fileOf s x.1 = some content) (hdigest : sha256 content = x.2) :
    Ends (copyLocal sha256 visit x.1 x.2 (localPath visit.source x.1)) s
      (fun copied t => copied = true ∧ visit.objectOf s x.1 = none ∧ visit.Copies sha256 x s t)
      fun _ t => visit.Fails sha256 x s t := by
  obtain ⟨hreaches, hnode⟩ := fileAt_eq_some.1 hfile
  refine ends_bind (ends_zoom (ends_of_run (run_readFile hreaches hnode) ?_))
  refine ends_bind ((ends_upload hvalid content).mono ?_ ?_)
  · rintro - _ ⟨hfree, rfl⟩
    have hcopies : visit.Copies sha256 x s (s.store (objectKey visit.bucketPrefix x.1) content) :=
      .intro happly hfile hdigest hfree
    have hstored : visit.objectOf (s.store (objectKey visit.bucketPrefix x.1) content) x.1 = some content :=
      store_self _ content
    refine ends_bind ((ends_download hvalid).mono ?_ ?_)
    · rintro uploaded _ ⟨rfl, huploaded⟩
      obtain rfl := Option.some.inj (huploaded.symm.trans hstored)
      refine ends_bind (ends_refuseUnless (fun _ => ends_pure ⟨rfl, hfree, hcopies⟩) fun hmismatch => ?_)
      exact absurd hdigest hmismatch
    · rintro _ _ ⟨rfl, hmissing⟩
      exact ⟨Or.inr hcopies, fun huntroubled => absurd (hstored.symm.trans (hmissing huntroubled)) (by simp)⟩
  · rintro _ t ⟨hends, htaken⟩
    refine ⟨hends.imp_right ?_, fun huntroubled hready => ?_⟩
    · rintro ⟨hfree, rfl⟩
      exact .intro happly hfile hdigest hfree
    · exact htaken huntroubled ((hready.here content hfile).2 happly)

theorem ends_checkRemote (hvalid : validStorageKey x.1 = true) (hnone : visit.fileOf s x.1 = none) :
    Ends (checkRemote sha256 visit x.1 x.2) s (fun copied t => copied = false ∧ visit.Ready sha256 s x ∧ t = s)
      fun _ t => visit.Fails sha256 x s t := by
  refine ends_bind (ends_tryCatch ((ends_download hvalid).mono ?_ ?_))
  · rintro content _ ⟨rfl, hobject⟩
    refine ends_bind (ends_refuseUnless (fun hdigest => ends_pure ⟨rfl, ⟨hvalid, ?_, ?_⟩, rfl⟩)
      fun hmismatch => ⟨Or.inl rfl, fun _ hready => ?_⟩)
    · intro content' hfile
      exact absurd (hfile.symm.trans hnone) (by simp)
    · exact fun _ => ⟨content, hobject, hdigest⟩
    · obtain ⟨content', hobject', hdigest⟩ := hready.there hnone
      obtain rfl := Option.some.inj (hobject'.symm.trans hobject)
      exact hmismatch hdigest
  · rintro e _ ⟨rfl, hmissing⟩
    refine ends_throw ⟨Or.inl rfl, fun huntroubled hready => ?_⟩
    obtain ⟨content, hobject, -⟩ := hready.there hnone
    exact absurd (hobject.symm.trans (hmissing huntroubled)) (by simp)

theorem ends_handleObject (repr : String → String) : Ends (handleObject sha256 visit repr x) s
    (fun copied t => visit.Handles sha256 x s copied t) fun _ t => visit.Fails sha256 x s t := by
  by_cases hvalid : validStorageKey x.1 = true
  · refine ends_bind (ends_of_run (run_validateStorageKey hvalid s) ?_)
    refine ends_bind (ends_zoom (ends_bind (ends_get (ends_pure ?_))))
    show Ends (if (visit.fileOf s x.1).isSome = true then _ else _) s _ _
    cases hfile : visit.fileOf s x.1 with
    | none =>
        refine (ends_checkRemote hvalid hfile).mono ?_ fun _ _ h => h
        rintro _ t ⟨rfl, hready, rfl⟩
        exact ⟨hready, by simp [hfile], Or.inl ⟨rfl, fun _ => hfile⟩⟩
    | some content =>
        obtain ⟨hreaches, hnode⟩ := fileAt_eq_some.1 hfile
        refine ends_bind (ends_zoom (ends_of_run (run_readFile hreaches hnode) ?_))
        refine ends_bind (ends_refuseUnless (fun hdigest => ?_) fun hmismatch => ?_)
        · have hthere : visit.fileOf s x.1 = none → ∃ content, visit.objectOf s x.1 = some content ∧
              sha256 content = x.2 := fun hnone => absurd (hfile.symm.trans hnone) (by simp)
          have hready : (visit.apply = true → visit.objectOf s x.1 = none) → visit.Ready sha256 s x := by
            intro hfree
            refine ⟨hvalid, fun content' hfile' => ?_, hthere⟩
            obtain rfl := Option.some.inj (hfile.symm.trans hfile')
            exact ⟨hdigest, hfree⟩
          show Ends (if visit.apply = true then _ else _) s _ _
          split
          next happly =>
            refine (ends_copyLocal hvalid happly hfile hdigest).mono ?_ fun _ _ h => h
            rintro _ t ⟨rfl, hfree, hcopies⟩
            exact ⟨hready fun _ => hfree, by simp [happly, hfile], Or.inr hcopies⟩
          next hdry =>
            exact ends_pure ⟨hready fun happly => absurd happly hdry, by simp [hdry],
              Or.inl ⟨rfl, fun happly => absurd happly hdry⟩⟩
        · exact ⟨Or.inl rfl, fun _ hready => hmismatch (hready.here content hfile).1⟩
  · unfold handleObject validateStorageKey
    rw [if_neg hvalid]
    exact ends_bind (ends_throw ⟨Or.inl rfl, fun _ hready => hvalid hready.valid⟩)

end Round

/-! ## What the rows refer to -/

section Rows

variable {visit : Visit} {inventory : Inventory} {objects objects' : Objects} {key digest : String}

/-- The objects that the rows refer to, with their digests. -/
inductive Inventory.Refers (inventory : Inventory) : String → String → Prop where
  | version {id : UUID × Nat} {v : StoredVersion} (row : inventory.versions.get? id = some v) :
      inventory.Refers v.storageKey v.sha256
  | artifact {id : UUID} {s : StoredSignature} {key digest : String} (row : inventory.signatures.get? id = some s)
      (named : s.artifactStorageKey = some key) (hashed : s.artifactSha256 = some digest) (keyed : key ≠ "")
      (digested : digest ≠ "") : inventory.Refers key digest

theorem nodup_assign (h : (objects.map Prod.fst).Nodup) : ((assign objects key digest).map Prod.fst).Nodup := by
  unfold assign
  split
  next hany =>
    have hkeys : (objects.map fun x => if x.1 = key then (key, digest) else x).map Prod.fst = objects.map Prod.fst := by
      rw [List.map_map]
      refine List.map_congr_left fun x _ => ?_
      by_cases hx : x.1 = key
      · simp [hx]
      · simp [hx]
    rwa [hkeys]
  next hany =>
    rw [List.map_append, List.nodup_append]
    refine ⟨h, by simp, fun k hk k' hk' heq => ?_⟩
    obtain ⟨x, hx, rfl⟩ := List.mem_map.1 hk
    obtain rfl := List.mem_singleton.1 hk'
    exact hany (List.any_eq_true.2 ⟨x, hx, decide_eq_true heq⟩)

/-- The rows of the versions have keys of their own, so that each is in the dictionary. -/
theorem assign_rows {rows : List (String × String)} (hrows : (rows.map Prod.fst).Nodup) :
    (objects.map Prod.fst).Nodup → (∀ x ∈ objects, x.1 ∉ rows.map Prod.fst) →
    ((rows.foldl (fun objects x => assign objects x.1 x.2) objects).map Prod.fst).Nodup ∧
      ∀ x, x ∈ objects ∨ x ∈ rows → x ∈ rows.foldl (fun objects x => assign objects x.1 x.2) objects := by
  induction rows generalizing objects with
  | nil =>
      intro hnodup _
      exact ⟨hnodup, fun x hx => hx.resolve_right List.not_mem_nil⟩
  | cons row rows ih =>
      intro hnodup hapart
      obtain ⟨hrow, hrows⟩ := List.nodup_cons.1 hrows
      have happart' : ∀ x ∈ assign objects row.1 row.2, x.1 ∉ rows.map Prod.fst := by
        intro x hx
        rcases of_mem_assign hx with hx | rfl
        · exact fun hmem => hapart x hx (List.mem_cons_of_mem _ hmem)
        · exact hrow
      obtain ⟨hnodup', hmem⟩ := ih hrows (nodup_assign hnodup) happart'
      refine ⟨hnodup', fun x hx => hmem x ?_⟩
      rcases hx with hx | hx
      · exact Or.inl (mem_assign_of_mem hx fun heq => absurd (by simp [heq]) (hapart x hx))
      · rcases List.mem_cons.1 hx with rfl | hx
        · exact Or.inl mem_assign_self
        · exact Or.inr hx

theorem of_mem_foldl_assign {rows : List (String × String)} {x : String × String}
    (h : x ∈ rows.foldl (fun objects x => assign objects x.1 x.2) objects) : x ∈ objects ∨ x ∈ rows := by
  induction rows generalizing objects with
  | nil => exact Or.inl h
  | cons row rows ih =>
      rcases ih h with hx | hx
      · refine (of_mem_assign hx).imp_right ?_
        rintro rfl
        exact List.mem_cons_self
      · exact Or.inr (List.mem_cons_of_mem _ hx)

/-- A round over the artifacts: what is there stays, and what the row refers to is there. -/
theorem addArtifact_eq_ok {row : String × Option String} (h : addArtifact objects row = .ok objects')
    (hnodup : (objects.map Prod.fst).Nodup) : (objects'.map Prod.fst).Nodup ∧ (∀ x ∈ objects, x ∈ objects') ∧
      ∀ digest, row.2 = some digest → row.1 ≠ "" → digest ≠ "" → (row.1, digest) ∈ objects' := by
  unfold addArtifact at h
  dsimp only at h
  split at h
  next hblank =>
    obtain rfl := Except.ok.inj h
    refine ⟨hnodup, fun x hx => hx, fun digest hdigest hkey hne => ?_⟩
    rw [hdigest, Option.getD_some] at hblank
    exact absurd hblank (not_or.2 ⟨hkey, hne⟩)
  next =>
    split at h
    · exact absurd h (by simp)
    next hagree =>
      obtain rfl := Except.ok.inj h
      refine ⟨nodup_assign hnodup, fun x hx => mem_assign_of_mem hx fun hkey => ?_, fun digest hdigest _ _ => ?_⟩
      · by_contra hne
        exact hagree (List.any_eq_true.2 ⟨x, hx, decide_eq_true ⟨hkey, hne⟩⟩)
      · rw [hdigest]
        exact mem_assign_self

theorem addArtifacts_eq_ok {rows : List (String × Option String)} (h : rows.foldlM addArtifact objects = .ok objects')
    (hnodup : (objects.map Prod.fst).Nodup) : (objects'.map Prod.fst).Nodup ∧ (∀ x ∈ objects, x ∈ objects') ∧
      ∀ row ∈ rows, ∀ digest, row.2 = some digest → row.1 ≠ "" → digest ≠ "" → (row.1, digest) ∈ objects' := by
  induction rows generalizing objects with
  | nil =>
      obtain rfl := Except.ok.inj h
      exact ⟨hnodup, fun x hx => hx, fun row hrow => absurd hrow List.not_mem_nil⟩
  | cons row rows ih =>
      rw [List.foldlM_cons] at h
      obtain ⟨next, hnext, h⟩ := bind_eq_ok.1 h
      obtain ⟨hnodup', hkept, hadded⟩ := addArtifact_eq_ok hnext hnodup
      obtain ⟨hnodup'', hkept', hrows⟩ := ih h hnodup'
      refine ⟨hnodup'', fun x hx => hkept' x (hkept x hx), fun row' hrow' digest hdigest hkey hne => ?_⟩
      rcases List.mem_cons.1 hrow' with rfl | hrow'
      · exact hkept' _ (hadded digest hdigest hkey hne)
      · exact hrows row' hrow' digest hdigest hkey hne

/-- Nothing is there that no row refers to, and where digests agree no round raises. -/
theorem addArtifacts_sound {P : String → String → Prop} {rows : List (String × Option String)}
    (hrows : ∀ row ∈ rows, ∀ digest, row.2 = some digest → row.1 ≠ "" → digest ≠ "" → P row.1 digest) :
    (∀ x ∈ objects, P x.1 x.2) →
    (∀ objects', rows.foldlM addArtifact objects = .ok objects' → ∀ x ∈ objects', P x.1 x.2) ∧
      ((∀ key digest digest', P key digest → P key digest' → digest = digest') →
        ∃ objects', rows.foldlM addArtifact objects = .ok objects') := by
  induction rows generalizing objects with
  | nil =>
      intro hobjects
      refine ⟨fun objects' h => ?_, fun _ => ⟨objects, rfl⟩⟩
      obtain rfl := Except.ok.inj h
      exact hobjects
  | cons row rows ih =>
      intro hobjects
      have hround : (∃ next, addArtifact objects row = .ok next ∧ ∀ x ∈ next, P x.1 x.2) ∨
          (∃ e, addArtifact objects row = .error e) ∧ ∃ key digest digest', P key digest ∧ P key digest' ∧
            digest ≠ digest' := by
        unfold addArtifact
        dsimp only
        split
        · exact Or.inl ⟨objects, rfl, hobjects⟩
        next hnamed =>
          obtain ⟨hkey, hdigest⟩ := not_or.1 hnamed
          have hsome : row.2 = some (row.2.getD "") := by
            cases hrow : row.2 with
            | none => exact absurd (by rw [hrow]; rfl) hdigest
            | some digest => rfl
          have hrow := hrows row List.mem_cons_self _ hsome hkey hdigest
          split
          next hany =>
            obtain ⟨x, hx, hdiffers⟩ := List.any_eq_true.1 hany
            obtain ⟨heq, hne⟩ := of_decide_eq_true hdiffers
            exact Or.inr ⟨⟨_, rfl⟩, row.1, x.2, row.2.getD "", heq ▸ hobjects x hx, hrow, hne⟩
          · refine Or.inl ⟨_, rfl, fun x hx => ?_⟩
            rcases of_mem_assign hx with hx | rfl
            · exact hobjects x hx
            · exact hrow
      rw [List.foldlM_cons]
      rcases hround with ⟨next, hnext, hsound⟩ | ⟨⟨e, he⟩, key, digest, digest', h, h', hne⟩
      · rw [hnext]
        exact ih (fun row' hrow' => hrows row' (List.mem_cons_of_mem _ hrow')) hsound
      · rw [he]
        exact ⟨fun objects' hok => absurd hok (by rintro ⟨⟩), fun hagree => absurd (hagree key digest digest' h h') hne⟩

/-- No key is recorded with two digests. -/
def Inventory.Consistent (inventory : Inventory) : Prop :=
  ∀ key digest digest', inventory.Refers key digest → inventory.Refers key digest' → digest = digest'

theorem mem_documentRows {x : String × String} (h : x ∈ documentRows visit inventory) : inventory.Refers x.1 x.2 := by
  obtain ⟨⟨id, v⟩, hv, rfl⟩ := List.mem_map.1 (List.mem_dedup.1 ((visit.versions.perm _).mem_iff.1 h))
  exact .version (Table.mem_rows_iff.1 hv)

theorem mem_artifactRows {row : String × Option String} (h : row ∈ artifactRows visit inventory) {digest : String}
    (hdigest : row.2 = some digest) (hkey : row.1 ≠ "") (hne : digest ≠ "") : inventory.Refers row.1 digest := by
  obtain ⟨⟨id, s⟩, hs, hmap⟩ := List.mem_filterMap.1 ((visit.artifacts.perm _).mem_iff.1 h)
  obtain ⟨key, hnamed, rfl⟩ := Option.map_eq_some_iff.1 hmap
  exact .artifact (Table.mem_rows_iff.1 hs) hnamed hdigest hkey hne

theorem nodup_documentRows : ((documentRows visit inventory).map Prod.fst).Nodup := by
  have hperm := visit.versions.perm (inventory.versions.rows.map fun x => (x.2.storageKey, x.2.sha256)).dedup
  refine (hperm.map Prod.fst).nodup_iff.2 (((List.dedup_sublist _).map Prod.fst).nodup ?_)
  rw [List.map_map]
  exact inventory.unique

/-- `objects` has every reference, once, and nothing else. -/
theorem objectsOf_eq_ok (h : objectsOf visit inventory = .ok objects) :
    (objects.map Prod.fst).Nodup ∧ ∀ x, x ∈ objects ↔ inventory.Refers x.1 x.2 := by
  have hrows : ((documentRows visit inventory).map Prod.fst).Nodup := nodup_documentRows
  obtain ⟨hnodup, hversions⟩ := @assign_rows [] _ hrows (by simp) (by simp)
  obtain ⟨hnodup', hkept, hartifacts⟩ := addArtifacts_eq_ok h hnodup
  refine ⟨hnodup', fun x => ⟨fun hx => ?_, fun hrefers => ?_⟩⟩
  · refine (addArtifacts_sound (P := inventory.Refers) (fun row hrow _ => mem_artifactRows hrow) ?_).1 objects h x hx
    exact fun y hy => mem_documentRows ((of_mem_foldl_assign hy).resolve_left List.not_mem_nil)
  · obtain ⟨key, digest⟩ := x
    cases hrefers with
    | @version id v hrow =>
        refine hkept _ (hversions _ (Or.inr ((visit.versions.perm _).mem_iff.2 (List.mem_dedup.2 ?_))))
        exact List.mem_map.2 ⟨(id, v), Table.mem_rows_iff.2 hrow, rfl⟩
    | @artifact id s key digest hrow hkey hdigest hnamed hhashed =>
        refine hartifacts (key, s.artifactSha256) ?_ digest hdigest hnamed hhashed
        refine (visit.artifacts.perm _).mem_iff.2 (List.mem_filterMap.2 ⟨(id, s), Table.mem_rows_iff.2 hrow, ?_⟩)
        rw [hkey]
        rfl

theorem exists_objectsOf_iff : (∃ objects, objectsOf visit inventory = .ok objects) ↔ inventory.Consistent := by
  constructor
  · rintro ⟨objects, h⟩ key digest digest' hrefers hrefers'
    obtain ⟨hnodup, hmem⟩ := objectsOf_eq_ok h
    have hsame := List.inj_on_of_nodup_map hnodup ((hmem (key, digest)).2 hrefers) ((hmem (key, digest')).2 hrefers') rfl
    exact congrArg Prod.snd hsame
  · refine (addArtifacts_sound (P := inventory.Refers) (fun row hrow _ => mem_artifactRows hrow) ?_).2
    exact fun y hy => mem_documentRows ((of_mem_foldl_assign hy).resolve_left List.not_mem_nil)

end Rows

/-! ## What a run does -/

section Runs

variable {sha256 : Bytes → String} {visit : Visit} {inventory : Inventory} {objects : Objects} {s s' t : Places}
  {x : String × String}

/-- What may become of the places: objects are added, each the file of a reference, with its digest. -/
structure Visit.Grows (sha256 : Bytes → String) (visit : Visit) (inventory : Inventory) (s s' : Places) : Prop where
  disk : s'.disk = s.disk
  kept : ∀ key content, s.bucket key = some content → s'.bucket key = some content
  added : ∀ key content, s.bucket key = none → s'.bucket key = some content → visit.apply = true ∧
    ∃ name, inventory.Refers name (sha256 content) ∧ key = objectKey visit.bucketPrefix name ∧
      visit.fileOf s name = some content

/-- The bytes of a reference are in R2, and they are those of the local file if there is one. -/
def Visit.Serves (sha256 : Bytes → String) (visit : Visit) (s s' : Places) (key digest : String) : Prop :=
  ∃ content, visit.objectOf s' key = some content ∧ sha256 content = digest ∧
    ∀ found, visit.fileOf s key = some found → found = content

/-- What a run without trouble needs. -/
structure Visit.Complete (sha256 : Bytes → String) (visit : Visit) (inventory : Inventory) (s : Places) : Prop where
  provider : visit.providerIsR2 = true
  consistent : inventory.Consistent
  ready : ∀ key digest, inventory.Refers key digest → visit.Ready sha256 s (key, digest)

/-- The loop after some rounds. -/
structure Visit.Done (sha256 : Bytes → String) (visit : Visit) (inventory : Inventory) (s : Places) (done : Objects)
    (report : Report) (t : Places) : Prop where
  grows : visit.Grows sha256 inventory s t
  ready : ∀ x ∈ done, visit.Ready sha256 s x
  served : visit.apply = true → ∀ x ∈ done, visit.Serves sha256 s t x.1 x.2
  apart : ∀ key, key ∉ done.map Prod.fst → visit.objectOf t key = visit.objectOf s key
  counts : report = ⟨done.length, (done.filter fun x => visit.apply && (visit.fileOf s x.1).isSome).length⟩

theorem ready_congr (hdisk : t.disk = s.disk) (hobject : visit.objectOf t x.1 = visit.objectOf s x.1) :
    visit.Ready sha256 t x ↔ visit.Ready sha256 s x := by
  have hfile : visit.fileOf t x.1 = visit.fileOf s x.1 := congrArg (Disk.fileAt visit.privileged · _) hdisk
  constructor
  · rintro ⟨hvalid, hhere, hthere⟩
    rw [hfile, hobject] at *
    exact ⟨hvalid, hhere, hthere⟩
  · rintro ⟨hvalid, hhere, hthere⟩
    rw [← hfile, ← hobject] at *
    exact ⟨hvalid, hhere, hthere⟩

theorem Visit.Grows.refl (s : Places) : visit.Grows sha256 inventory s s :=
  ⟨rfl, fun _ _ h => h, fun _ _ hnone hsome => absurd (hsome.symm.trans hnone) (by simp)⟩

theorem Visit.Grows.fileOf (h : visit.Grows sha256 inventory s t) (key : String) :
    visit.fileOf t key = visit.fileOf s key :=
  congrArg (Disk.fileAt visit.privileged · _) h.disk

/-- A copy is a step of it. -/
theorem Visit.Grows.copied (h : visit.Grows sha256 inventory s t) (hrefers : inventory.Refers x.1 x.2)
    (hcopies : visit.Copies sha256 x t s') : visit.Grows sha256 inventory s s' := by
  cases hcopies with
  | @intro content happly hfile hdigest hfree =>
      refine ⟨(store_disk _ _).trans h.disk, fun key content' hkey => ?_, fun key content' hnone hsome => ?_⟩
      · have hkept := h.kept key content' hkey
        have hne : key ≠ objectKey visit.bucketPrefix x.1 := by
          rintro rfl
          exact absurd (hkept.symm.trans hfree) (by simp)
        exact (store_of_ne hne content).trans hkept
      · by_cases hkey : key = objectKey visit.bucketPrefix x.1
        · subst hkey
          obtain rfl := Option.some.inj ((store_self _ content).symm.trans hsome)
          refine ⟨happly, x.1, ?_, rfl, (h.fileOf x.1).symm.trans hfile⟩
          rw [hdigest]
          exact hrefers
        · exact h.added key content' hnone ((store_of_ne hkey content).symm.trans hsome)

/-- A round takes the loop one object further. -/
theorem Visit.Done.round {done : Objects} {report : Report} {copied : Bool}
    (h : visit.Done sha256 inventory s done report t) (hrefers : inventory.Refers x.1 x.2)
    (hnew : x.1 ∉ done.map Prod.fst) (hx : visit.Handles sha256 x t copied s') :
    visit.Done sha256 inventory s (done ++ [x]) (report.counted copied) s' := by
  have hready : visit.Ready sha256 s x := (ready_congr h.grows.disk (h.apart x.1 hnew)).1 hx.ready
  have hgrows : visit.Grows sha256 inventory s s' := by
    rcases hx.ends with ⟨rfl, -⟩ | hcopies
    · exact h.grows
    · exact h.grows.copied hrefers hcopies
  have hother : ∀ key, key ≠ x.1 → visit.objectOf s' key = visit.objectOf t key := by
    intro key hne
    rcases hx.ends with ⟨rfl, -⟩ | ⟨-, -, -, -⟩
    · rfl
    · exact objectOf_store_of_ne hne _
  refine ⟨hgrows, fun y hy => ?_, fun happly y hy => ?_, fun key hkey => ?_, ?_⟩
  · rcases List.mem_append.1 hy with hy | hy
    · exact h.ready y hy
    · exact List.mem_singleton.1 hy ▸ hready
  · rcases List.mem_append.1 hy with hy | hy
    · obtain ⟨content, hobject, hserved⟩ := h.served happly y hy
      have hne : y.1 ≠ x.1 := fun heq => hnew (heq ▸ List.mem_map_of_mem hy)
      exact ⟨content, (hother y.1 hne).trans hobject, hserved⟩
    · obtain rfl := List.mem_singleton.1 hy
      rcases hx.ends with ⟨rfl, hnone⟩ | ⟨-, hfile, hdigest, -⟩
      · obtain ⟨content, hobject, hdigest⟩ := hx.ready.there (hnone happly)
        refine ⟨content, hobject, hdigest, fun found hfound => ?_⟩
        exact absurd ((h.grows.fileOf y.1).trans hfound) (by simp [hnone happly])
      · refine ⟨_, store_self _ _, hdigest, fun found hfound => ?_⟩
        exact Option.some.inj (hfound.symm.trans ((h.grows.fileOf y.1).symm.trans hfile))
  · rw [List.map_append, List.mem_append, not_or] at hkey
    exact (hother key fun heq => hkey.2 (by simp [heq])).trans (h.apart key hkey.1)
  · rw [h.counts, hx.counted, h.grows.fileOf, List.filter_append, List.length_append, List.length_append]
    by_cases hcopied : (visit.apply && (visit.fileOf s x.1).isSome) = true
    · simp [Report.counted, hcopied]
    · simp [Report.counted, hcopied]

/-- However a run ends, objects are at most added; one that returns has found every reference as it needs it, and
    without trouble nothing else makes one raise. -/
theorem ends_migrateDocuments (repr : String → String) :
    Ends (migrateDocuments sha256 visit repr inventory) s
      (fun report t => ∃ objects, objectsOf visit inventory = .ok objects ∧ visit.Complete sha256 inventory s ∧
        visit.Done sha256 inventory s (sortedItems objects) report t)
      fun _ t => visit.Grows sha256 inventory s t ∧ (visit.Untroubled → ¬visit.Complete sha256 inventory s) := by
  refine ends_bind (ends_refuseUnless (fun hprovider => ?_) fun hprovider =>
    ⟨.refl s, fun _ hcomplete => hprovider hcomplete.provider⟩)
  cases hobjects : objectsOf visit inventory with
  | error e =>
      refine ends_bind (ends_throw ⟨.refl s, fun _ hcomplete => ?_⟩)
      obtain ⟨objects, hok⟩ := (@exists_objectsOf_iff visit inventory).2 hcomplete.consistent
      exact absurd (hobjects.symm.trans hok) (by simp)
  | ok objects =>
      obtain ⟨hnodup, hmem⟩ := objectsOf_eq_ok hobjects
      have hsorted : (sortedItems objects).Perm objects := List.perm_insertionSort _ _
      refine ends_bind (ends_pure ((ends_foldlM (I := visit.Done sha256 inventory s) ?_ ?_).mono ?_ fun _ _ h => h))
      · intro done x later report t hl hdone
        have hx : x ∈ objects := hsorted.mem_iff.1 (hl ▸ by simp)
        have hnew : x.1 ∉ done.map Prod.fst := by
          have hkeys := (hsorted.map Prod.fst).nodup_iff.2 hnodup
          rw [hl, List.map_append, List.map_cons] at hkeys
          exact fun hin => (List.nodup_append.1 hkeys).2.2 _ hin _ List.mem_cons_self rfl
        refine ends_bind ((ends_handleObject repr).mono (fun copied t' hhandles =>
          ends_pure (hdone.round ((hmem x).1 hx) hnew hhandles)) fun _ t' hfails => ⟨?_, fun huntroubled hcomplete => ?_⟩)
        · rcases hfails.1 with rfl | hcopies
          · exact hdone.grows
          · exact hdone.grows.copied ((hmem x).1 hx) hcopies
        · refine hfails.2 huntroubled ((ready_congr hdone.grows.disk (hdone.apart x.1 hnew)).2 ?_)
          exact hcomplete.ready x.1 x.2 ((hmem x).1 hx)
      · exact ⟨.refl s, by simp, by simp, by simp, rfl⟩
      · intro report t hdone
        refine ⟨objects, rfl, ⟨hprovider, exists_objectsOf_iff.1 ⟨objects, hobjects⟩, fun key digest hrefers => ?_⟩, hdone⟩
        exact hdone.ready _ (hsorted.mem_iff.2 ((hmem (key, digest)).2 hrefers))

end Runs

/-! ## Any runs, beside a storage in use -/

/-- A run of the tool, with the rows that are there then, or a call of the R2 storage. -/
inductive Event where
  | tool (visit : Visit) (inventory : Inventory)
  | storage (bucketPrefix : String) (call : R2Call)

section Events

variable (sha256 : Bytes → String) (repr : String → String)

/-- What is there after an event. -/
def Event.after : Event → Places → Places
  | .tool visit inventory, s => ((migrateDocuments sha256 visit repr inventory).run s).2
  | .storage bucketPrefix call, s => { s with bucket := ((call.run bucketPrefix).run s.bucket).2 }

/-- The run comes to its end. -/
def Visit.Returns (visit : Visit) (inventory : Inventory) (s : Places) : Prop :=
  ∃ report, ((migrateDocuments sha256 visit repr inventory).run s).1 = .ok report

/-- Nobody discards the object. -/
def Event.Spares (key : String) (e : Event) : Prop :=
  ∀ bucketPrefix call named, e = .storage bucketPrefix call → call.discards = some named →
    objectKey bucketPrefix named ≠ key

variable {sha256 repr} {visit : Visit} {inventory : Inventory} {events : List Event} {s : Places} {key digest : String}
  {content : Bytes}

theorem grows_after : visit.Grows sha256 inventory s ((Event.tool visit inventory).after sha256 repr s) :=
  ((ends_migrateDocuments repr).mono (fun _ _ ⟨_, _, _, h⟩ => h.grows) fun _ _ h => h.1).always

theorem disk_after (e : Event) : (e.after sha256 repr s).disk = s.disk := by
  cases e with
  | tool visit inventory => exact grows_after.disk
  | storage bucketPrefix call => rfl

/-- An object stays where nobody discards it. -/
theorem Event.Spares.after {e : Event} (he : e.Spares key) (h : s.bucket key = some content) :
    (e.after sha256 repr s).bucket key = some content := by
  cases e with
  | tool visit inventory => exact grows_after.kept key content h
  | storage bucketPrefix call =>
      show ((call.run bucketPrefix).run s.bucket).2 key = some content
      cases hputs : call.puts with
      | some x =>
          have hends := ((ends_put hputs).mono (fun _ _ h => Or.inr h.2) fun _ _ h => h :
            Ends (call.run bucketPrefix) s.bucket
              (fun _ t => t = s.bucket ∨ Stored (objectKey bucketPrefix x.1) x.2 s.bucket t)
              fun _ t => t = s.bucket ∨ Stored (objectKey bucketPrefix x.1) x.2 s.bucket t).always
          rcases hends with hsame | ⟨hfree, hstored⟩
          · rw [hsame]
            exact h
          · have hne : key ≠ objectKey bucketPrefix x.1 := by
              rintro rfl
              exact absurd (h.symm.trans hfree) (by simp)
            rw [hstored]
            exact (replaced_of_ne hne _).trans h
      | none =>
          cases call with
          | put scope id content' trouble => exact nomatch hputs
          | putExisting key' content' trouble => exact nomatch hputs
          | get key' trouble =>
              have hsame : ((getR2 bucketPrefix key' trouble).run s.bucket).2 = s.bucket := ends_getR2.always
              show ((getR2 bucketPrefix key' trouble).run s.bucket).2 key = some content
              rw [hsame]
              exact h
          | discard named trouble =>
              have hdeleted : Deleted bucketPrefix named s.bucket ((discardR2 bucketPrefix named trouble).run s.bucket).2 :=
                ends_discardR2.always
              show ((discardR2 bucketPrefix named trouble).run s.bucket).2 key = some content
              rcases hdeleted with hsame | hdeleted
              · rw [hsame]
                exact h
              · rw [hdeleted]
                exact (replaced_of_ne (he bucketPrefix _ named rfl rfl).symm none).trans h

theorem object_later (h : s.bucket key = some content) (hspares : ∀ e ∈ events, e.Spares key) :
    (stateAfter (Event.after sha256 repr) s events).bucket key = some content :=
  stateAfter_keeps (P := fun t : Places => t.bucket key = some content) h fun y hy hkept =>
    (hspares y.2 (mem_of_mem_callsFrom hy)).after hkept

theorem disk_later : (stateAfter (Event.after sha256 repr) s events).disk = s.disk :=
  stateAfter_keeps (P := fun t : Places => t.disk = s.disk) rfl fun y _ hkept => (disk_after y.2).trans hkept

/-- What the local storage returns is the file of the key. -/
theorem fileOf_of_getLocal (h : ((getLocal visit.privileged visit.source key).run s.disk).1 = .ok (.content content)) :
    visit.fileOf s key = some content := by
  have hends : Ends (getLocal visit.privileged visit.source key) s.disk
      (fun reply _ => ∀ found, reply = .content found → visit.fileOf s key = some found) fun _ _ => True := by
    refine ends_bind (ends_validateStorageKey.mono ?_ fun _ _ _ => trivial)
    rintro - _ ⟨-, rfl⟩
    refine ends_bind (ends_bind (ends_get (ends_bind (ends_raiseIf (fun hbars => ?_) fun _ _ => trivial))))
    cases hnode : s.disk (localPath visit.source key) with
    | none => exact ends_throw trivial
    | some node =>
        cases node with
        | folder searchable => exact ends_throw trivial
        | file bytes =>
            refine ends_pure (ends_pure ?_)
            rintro _ ⟨⟩
            exact fileAt_eq_some.2 ⟨reaches_of_bars hbars, hnode⟩
  exact hends.1 _ h content rfl

/-- **The switch to R2.** Over any runs of the tool, troubled or not, and any calls of the storage between them, the
    local tree stays as it is; a run without `--apply` changes nothing, and one with it replaces nothing and adds
    objects of references only, with the recorded digests; and once a run with `--apply` has come to its end, R2
    gives every reference of it that nobody discards, with its digest, and as the local storage gave it. -/
theorem references_served (events : List Event) :
    (stateAfter (Event.after sha256 repr) s events).disk = s.disk ∧
    (∀ y ∈ callsFrom (Event.after sha256 repr) s events, ∀ visit inventory, y.2 = .tool visit inventory →
      visit.Grows sha256 inventory y.1 (y.2.after sha256 repr y.1) ∧
        (visit.apply = false → y.2.after sha256 repr y.1 = y.1)) ∧
    ∀ past visit inventory later, events = past ++ .tool visit inventory :: later → visit.apply = true →
      visit.Returns sha256 repr inventory (stateAfter (Event.after sha256 repr) s past) →
      ∀ key digest, inventory.Refers key digest →
        (∀ e ∈ later, e.Spares (objectKey visit.bucketPrefix key)) →
        ∃ content, ((getR2 visit.bucketPrefix key none).run
            (stateAfter (Event.after sha256 repr) s events).bucket).1 = .ok (.content content) ∧
          sha256 content = digest ∧
          ∀ found, ((getLocal visit.privileged visit.source key).run s.disk).1 = .ok (.content found) →
            found = content := by
  refine ⟨disk_later, fun y _ visit inventory hy => ?_, ?_⟩
  · rw [hy]
    refine ⟨grows_after, fun hdry => ?_⟩
    have hgrows : visit.Grows sha256 inventory y.1 ((Event.tool visit inventory).after sha256 repr y.1) := grows_after
    have hbucket : ((Event.tool visit inventory).after sha256 repr y.1).bucket = y.1.bucket := by
      funext key
      cases hkey : y.1.bucket key with
      | some content => exact hgrows.kept key content hkey
      | none =>
          cases hnew : ((Event.tool visit inventory).after sha256 repr y.1).bucket key with
          | none => rfl
          | some content => exact absurd ((hgrows.added key content hkey hnew).1.symm.trans hdry) (by simp)
    have hdisk := hgrows.disk
    generalize (Event.tool visit inventory).after sha256 repr y.1 = t at hbucket hdisk
    obtain ⟨disk, bucket⟩ := t
    subst hbucket hdisk
    rfl
  · rintro past visit inventory later rfl happly ⟨report, hreport⟩ key digest hrefers hspares
    obtain ⟨objects, hobjects, hcomplete, hdone⟩ := (ends_migrateDocuments repr).1 report hreport
    have hmem : (key, digest) ∈ sortedItems objects :=
      (List.mem_insertionSort _).2 (((objectsOf_eq_ok hobjects).2 (key, digest)).2 hrefers)
    obtain ⟨content, hobject, hdigest, hsame⟩ := hdone.served happly _ hmem
    rw [stateAfter_append, stateAfter]
    refine ⟨content, ?_, hdigest, fun found hfound => hsame found ?_⟩
    · exact congrArg Prod.fst (run_getR2 ⟨(hcomplete.ready key digest hrefers).valid, object_later hobject hspares⟩)
    · have hfile : visit.fileOf s key = some found := fileOf_of_getLocal hfound
      exact (congrArg (Disk.fileAt visit.privileged · _) disk_later).trans hfile

/-- One version, and its file below `v`. -/
def leaseDisk : Disk Bytes := fun p =>
  if p = [] ∨ p = [['v']] then some (.folder true)
  else if p = [['v'], "lease".toList] then some (.file [1, 2])
  else none

def leaseInventory : Inventory where
  versions := Table.insert ∅ (10, 1) ⟨"author@x", "lease", "2 bytes"⟩
  signatures := ∅
  unique := by decide

def countBytes (content : Bytes) : String :=
  toString content.length ++ " bytes"

def leaseVisit : Visit where
  apply := true
  providerIsR2 := true
  source := [['v']]
  privileged := false
  bucketPrefix := "documents"
  versions := ⟨id, fun _ => .refl _⟩
  artifacts := ⟨id, fun _ => .refl _⟩
  upload := fun _ => none
  download := fun _ => none

/-- The lease is copied, and R2 gives it as the disk did. -/
theorem references_served_leaseVisit :
    leaseVisit.Returns countBytes id leaseInventory ⟨leaseDisk, fun _ => none⟩ ∧
      ∃ content, ((getR2 "documents" "lease" none).run (stateAfter (Event.after countBytes id)
          ⟨leaseDisk, fun _ => none⟩ [.tool leaseVisit leaseInventory]).bucket).1 = .ok (.content content) ∧
        countBytes content = "2 bytes" ∧
        ∀ found, ((getLocal false [['v']] "lease").run leaseDisk).1 = .ok (.content found) → found = content := by
  have hreturns : leaseVisit.Returns countBytes id leaseInventory ⟨leaseDisk, fun _ => none⟩ := ⟨⟨1, 1⟩, by rfl⟩
  refine ⟨hreturns, ?_⟩
  exact (references_served [.tool leaseVisit leaseInventory]).2.2 [] leaseVisit leaseInventory [] rfl rfl hreturns
    "lease" "2 bytes" (@Inventory.Refers.version leaseInventory (10, 1) ⟨"author@x", "lease", "2 bytes"⟩ rfl) (by simp)

/-- **When a run comes to its end.** It needs every reference to have one digest, and for each either a local file
    with the digest, which is not in R2 yet if it is to be copied, or an object in R2 with the digest and no local
    file; without trouble it needs nothing else. So what one run has copied, with nobody discarding it, keeps
    every later run with `--apply` from coming to its end. -/
theorem relocation_returns_iff (s : Places) (visit : Visit) (inventory : Inventory) :
    (visit.Returns sha256 repr inventory s → visit.Complete sha256 inventory s) ∧
    (visit.Untroubled → (visit.Returns sha256 repr inventory s ↔ visit.Complete sha256 inventory s)) ∧
    ∀ key digest, inventory.Refers key digest → visit.fileOf s key ≠ none → visit.objectOf s key = none →
      visit.objectOf ((Event.tool visit inventory).after sha256 repr s) key ≠ none →
      ∀ (between : List Event) (visit' : Visit) (inventory' : Inventory) (digest' : String),
        (∀ e ∈ between, e.Spares (objectKey visit.bucketPrefix key)) → inventory'.Refers key digest' →
        visit'.apply = true → visit'.bucketPrefix = visit.bucketPrefix → visit'.source = visit.source →
        visit'.privileged = visit.privileged →
        ¬visit'.Returns sha256 repr inventory' (stateAfter (Event.after sha256 repr)
          ((Event.tool visit inventory).after sha256 repr s) between) := by
  have hcomplete : ∀ t v i, Visit.Returns sha256 repr v i t → Visit.Complete sha256 v i t := by
    rintro t v i ⟨report, hreport⟩
    obtain ⟨objects, -, h, -⟩ := (ends_migrateDocuments repr).1 report hreport
    exact h
  refine ⟨hcomplete s visit inventory, fun huntroubled => ⟨hcomplete s visit inventory, fun h => ?_⟩, ?_⟩
  · cases hrun : ((migrateDocuments sha256 visit repr inventory).run s).1 with
    | ok report => exact ⟨report, hrun⟩
    | error e => exact absurd h (((ends_migrateDocuments repr).2 e hrun).2 huntroubled)
  · intro key digest hrefers hfile hfree hcopied between visit' inventory' digest' hspares hrefers' happly hbucket hsource
      hprivileged hreturns
    obtain ⟨content, hcontent⟩ := Option.ne_none_iff_exists'.1 hcopied
    obtain ⟨found, hfound⟩ := Option.ne_none_iff_exists'.1 hfile
    have hready := (hcomplete _ _ _ hreturns).ready key digest' hrefers'
    have hdisk : (stateAfter (Event.after sha256 repr) ((Event.tool visit inventory).after sha256 repr s) between).disk =
        s.disk := disk_later.trans (disk_after _)
    have hthere : visit'.fileOf (stateAfter (Event.after sha256 repr)
        ((Event.tool visit inventory).after sha256 repr s) between) key = some found := by
      unfold Visit.fileOf
      rw [hdisk, hsource, hprivileged]
      exact hfound
    have hkept := (hready.here found hthere).2 happly
    unfold Visit.objectOf at hkept
    rw [hbucket] at hkept
    exact absurd ((object_later hcontent hspares).symm.trans hkept) (by simp)

end Events

/-- A second run over the lease, with everything as the first one left it, does not come to its end. -/
theorem relocation_returns_iff_leaseVisit :
    leaseVisit.Returns countBytes id leaseInventory ⟨leaseDisk, fun _ => none⟩ ∧
      ¬leaseVisit.Returns countBytes id leaseInventory
        ((Event.tool leaseVisit leaseInventory).after countBytes id ⟨leaseDisk, fun _ => none⟩) := by
  have hreturns : leaseVisit.Returns countBytes id leaseInventory ⟨leaseDisk, fun _ => none⟩ := ⟨⟨1, 1⟩, by rfl⟩
  have hrefers : leaseInventory.Refers "lease" "2 bytes" :=
    @Inventory.Refers.version leaseInventory (10, 1) ⟨"author@x", "lease", "2 bytes"⟩ rfl
  obtain ⟨-, -, honce⟩ := @relocation_returns_iff countBytes id ⟨leaseDisk, fun _ => none⟩ leaseVisit leaseInventory
  refine ⟨hreturns, honce "lease" "2 bytes" hrefers ?_ rfl ?_ [] leaseVisit leaseInventory "2 bytes" (by simp) hrefers
    rfl rfl rfl rfl⟩
  · decide
  · decide

end Rubrica.Relocation
