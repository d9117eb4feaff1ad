import Mathlib.Data.List.Sort
import Rubrica.Database
import Rubrica.Documents.Storage
import Rubrica.Transactions.Loops

set_option autoImplicit false

/-! # Reorganizing the object store

`reorganize_r2_documents`: it copies the objects of versions and artifacts under keys of their tenant and account,
lets the rows refer to the copies, and deletes, where it is told to, what the rows no longer refer to. -/

namespace Rubrica.Reorganization

open Transactions

/-! ## Rows and objects -/

structure StoredDocument where
  tenantId : UUID
  createdBy : String
  version : Nat
  storageKey : String
  sha256 : String
  deriving DecidableEq, Repr

/-- A row of `document_versions`, under its document and number. -/
structure StoredVersion where
  createdBy : String
  storageKey : String
  sha256 : String
  deriving DecidableEq, Repr

structure StoredSignature where
  signatureRequestId : UUID
  artifactStorageKey : Option String
  artifactSha256 : Option String
  deriving DecidableEq, Repr

/-- What the tool works on: the rows it looks at, and the bucket, under the prefix of the storage. -/
structure Holdings (B : Type) where
  members : Table UUID TenantMember
  documents : Table UUID StoredDocument
  versions : Table (UUID × Nat) StoredVersion
  /-- `signature_requests.document_id`. -/
  requests : Table UUID UUID
  signatures : Table UUID StoredSignature
  objects : String → Option B
  /-- The triggers of migration 0024 are there. -/
  appendOnly : Bool

/-- An order in which a query without `ORDER BY` hands out its rows. -/
structure Listing (α : Type) where
  order : List α → List α
  perm : ∀ rows, (order rows).Perm rows

/-- How the tool is called, and what it does not decide: in which order it sees the rows, and which objects the lock
of the bucket retains. -/
structure Visit where
  apply : Bool
  deleteSource : Bool
  providerIsR2 : Bool
  members : Listing TenantMember
  versions : Listing ((UUID × Nat) × StoredVersion)
  signatures : Listing (UUID × StoredSignature)
  retains : String → Bool

/-- Where a statement of the tool stands. -/
inductive Stage where
  | statement
  | putting
  | deleting
  | committing
  deriving DecidableEq, Repr

/-- The tool takes no row locks of its own: two runs that update one row set its key, whoever comes first. -/
abbrev Tool (B α : Type) := Code (Holdings B) Empty Stage Failure α

variable {B Page α : Type}

/-! ## `R2DocumentStorage`

A call whose answer is lost is one that was made and a failure after it. -/

namespace Holdings

/-- An upload with `If-None-Match: *`. -/
def store (w : Holdings B) (key : String) (content : B) : Holdings B :=
  { w with
    objects := fun k => if k = key then some ((w.objects key).getD content) else w.objects k }

def discard (w : Holdings B) (key : String) : Holdings B :=
  { w with
    objects := fun k => if k = key then none else w.objects k }

end Holdings

def validateKey (key : String) : Tool B Unit :=
  Code.require (validStorageKey key = true) (.other "FileNotFoundError")

def getObject (key : String) : Tool B B :=
  validateKey key >>= fun _ =>
  Code.select .statement (fun w => w.objects key) >>= fun found =>
  Code.orRaise found (.other "FileNotFoundError")

def putExisting (key : String) (content : B) : Tool B Unit :=
  validateKey key >>= fun _ =>
  Code.effect .putting (fun w => w.store key content) (fun w => (w.objects key).isNone) >>= fun isNew =>
  Code.require (isNew = true) (.other "FileExistsError")

/-- What the lock of the bucket retains is left there without an exception. -/
def discardUncommitted (retains : String → Bool) (key : String) : Tool B Unit :=
  validateKey key >>= fun _ =>
  Code.effect .deleting (fun w => if retains key then w else w.discard key) fun _ => ()

/-! ## The plan -/

/-- `d[key] = value`. -/
def assign (d : List (String × α)) (key : String) (value : α) : List (String × α) :=
  if d.any fun x => x.1 = key then d.map fun x => if x.1 = key then (key, value) else x
  else d ++ [(key, value)]

/-- `sorted(d.items())`. -/
def sortedItems (d : List (String × α)) : List (String × α) :=
  d.insertionSort fun a b => a.1 ≤ b.1

/-- The row a reference is in. -/
inductive Owner where
  | version (document : UUID) (number : Nat)
  | signature (id : UUID)
  deriving DecidableEq, Repr

/-- An entry of `references`, with the key its row had when it was read. -/
structure Reference where
  owner : Owner
  source : String
  digest : Option String
  target : String
  deriving DecidableEq, Repr

/-- A destination and the digest that is expected there. -/
abbrev Destination := String × Option String

def Reference.destination (r : Reference) : Destination :=
  (r.target, r.digest)

section Plan

variable (host : Host B Page)

/-- `_account_id`; of two members with one key the later one is in the dictionary. -/
def accountId (members : List TenantMember) (tenant : UUID) (email : String) : UUID :=
  let address := host.lower (host.strip email)
  let member := members.reverse.find? fun m => m.tenantId = tenant ∧ host.lower m.authUserId = address
  (member.bind TenantMember.authUserUuid).getD (host.uuid5 ("rubrica-account:" ++ address))

/-- `d[key]`. -/
def item (found : Option α) : Except Failure α :=
  match found with
  | some a => .ok a
  | none => .error (.other "KeyError")

variable (members : List TenantMember) (documents : Table UUID StoredDocument)

def versionReference (x : (UUID × Nat) × StoredVersion) : Except Failure Reference :=
  (item (documents.get? x.1.1)).map fun d =>
    let account := accountId host members d.tenantId (if x.2.createdBy = "" then d.createdBy else x.2.createdBy)
    ⟨.version x.1.1 x.1.2, x.2.storageKey, some x.2.sha256, targetKey x.2.storageKey d.tenantId account⟩

def signatureReference (requests : Table UUID UUID) (x : UUID × StoredSignature) (key : String) :
    Except Failure Reference :=
  (item (requests.get? x.2.signatureRequestId)).bind fun document =>
  (item (documents.get? document)).map fun d =>
    let account := accountId host members d.tenantId d.createdBy
    ⟨.signature x.1, key, x.2.artifactSha256, targetKey key d.tenantId account⟩

/-- A round of the loop over `references` that fills `cleanup_candidates`. -/
def addCandidate (currentKeys : List String) (found : List (String × Destination)) (r : Reference) :
    List (String × Destination) :=
  if isScoped r.target ∧ baseName r.target ∉ currentKeys then assign found (baseName r.target) r.destination
  else found

/-- `cleanup_candidates`. -/
def cleanupCandidates (references : List Reference) : List (String × Destination) :=
  references.foldl (addCandidate (references.map Reference.source)) []

/-- A round of the loop over `references` that fills `moves`. -/
def planMove (moves : List (String × Destination)) (r : Reference) : Except Failure (List (String × Destination)) :=
  if r.source = r.target then .ok moves
  else if moves.any fun x => x.1 = r.source ∧ x.2 ≠ r.destination then .error (.other "RuntimeError")
  else .ok (assign moves r.source r.destination)

/-- `moves`. -/
def planMoves (references : List Reference) : Except Failure (List (String × Destination)) :=
  references.foldlM planMove []

/-- What the tool has read and means to do. -/
structure Plan where
  documents : Table UUID StoredDocument
  references : List Reference
  candidates : List (String × Destination)
  moves : List (String × Destination)

/-- A signature of the query has an artifact. -/
def planOf (versions : List ((UUID × Nat) × StoredVersion)) (requests : Table UUID UUID)
    (signatures : List (UUID × StoredSignature)) : Except Failure Plan := do
  let found ← versions.mapM (versionReference host members documents)
  let artifacts ← signatures.mapM fun x =>
    signatureReference host members documents requests x (x.2.artifactStorageKey.getD "")
  let moves ← planMoves (found ++ artifacts)
  pure ⟨documents, found ++ artifacts, cleanupCandidates (found ++ artifacts), moves⟩

def readPlan (visit : Visit) : Tool B Plan := do
  let members ← Code.select .statement fun w =>
    visit.members.order ((w.members.select fun _ m => m.deletedAt.isNone).map Prod.snd)
  let documents ← Code.select .statement Holdings.documents
  let versions ← Code.select .statement fun w => visit.versions.order w.versions.rows
  let requests ← Code.select .statement Holdings.requests
  let signatures ← Code.select .statement fun w =>
    visit.signatures.order (w.signatures.select fun _ s => s.artifactStorageKey.isSome)
  MonadExcept.ofExcept (planOf host members documents versions requests signatures)

end Plan

/-! ## The rows -/

/-- What the assignment to one reference does to the documents that were loaded. -/
def relabelDocument (documents : Table UUID StoredDocument) (r : Reference) : Table UUID StoredDocument :=
  match r.owner with
  | .version document _ =>
      if r.source = r.target then documents
      else documents.update document fun d => if d.storageKey = r.source then { d with storageKey := r.target } else d
  | .signature _ => documents

namespace Plan

variable (p : Plan)

/-- The key a row is given, if it is given another one. -/
def newKey (owner : Owner) : Option String :=
  (p.references.find? fun r => r.owner = owner ∧ r.source ≠ r.target).map Reference.target

/-- The key a document was loaded with, and the one it is left with. -/
def documentKeys (id : UUID) : Option (String × String) :=
  (p.documents.get? id).bind fun loaded =>
  ((p.references.foldl relabelDocument p.documents).get? id).map fun d => (loaded.storageKey, d.storageKey)

/-- The updates of a flush: the keys that were changed. -/
def relabel (w : Holdings B) : Holdings B :=
  { w with
    versions := w.versions.map fun id v => { v with storageKey := (p.newKey (.version id.1 id.2)).getD v.storageKey }
    signatures := w.signatures.map fun id s =>
      { s with artifactStorageKey := (p.newKey (.signature id)).or s.artifactStorageKey }
    documents := w.documents.map fun id d =>
      { d with storageKey := (p.documentKeys id).elim d.storageKey fun x => written x.1 x.2 d.storageKey } }

/-- Some row is given another key. -/
def changes : Bool :=
  p.references.any fun r => r.source ≠ r.target

end Plan

/-- The unique constraints on the keys. -/
def Holdings.hasUniqueKeys (w : Holdings B) : Bool :=
  decide (w.documents.rows.map fun x => x.2.storageKey).Nodup &&
  decide (w.versions.rows.map fun x => x.2.storageKey).Nodup &&
  decide (w.signatures.rows.filterMap fun x => x.2.artifactStorageKey).Nodup

/-- The flush at the end of the transaction. Once the triggers are there no version and no signature can be updated,
and no document is without one of them. No update gives a row a key that another one takes away, so that the
constraints hold after each where they hold after the last. -/
def flush (p : Plan) : Tool B Unit :=
  Code.onlyIf (p.changes = true) (
    Code.select .statement (fun w => !w.appendOnly && (p.relabel w).hasUniqueKeys) >>= fun accepted =>
    Code.require (accepted = true) .integrity >>= fun _ =>
    Code.write .statement p.relabel)

/-! ## The tool -/

section Main

variable (host : Host B Page)

/-- Read an object and compare its digest. -/
def getVerified (key : String) (digest : Option String) : Tool B B :=
  getObject key >>= fun content =>
  Code.require (some (host.sha256 content) = digest) (.other "RuntimeError") >>= fun _ =>
  pure content

def copyObject (x : String × Destination) : Tool B PUnit :=
  getVerified host x.1 x.2.2 >>= fun content =>
  (putExisting x.2.1 content).tryCatch (fun e =>
    if e = .other "FileExistsError" then pure () else .raise e) >>= fun _ =>
  getVerified host x.2.1 x.2.2 >>= fun _ =>
  pure ⟨⟩

def applyPlan (visit : Visit) (p : Plan) : Tool B Unit :=
  if visit.apply then (sortedItems p.moves).forM (copyObject host) >>= fun _ => flush p
  else .step .statement .rollback (fun _ => pure ()) (.raise Faulty.fault)

def cleanUp (retains : String → Bool) (x : String × Destination) : Tool B PUnit :=
  getVerified host x.2.1 x.2.2 >>= fun _ =>
  discardUncommitted retains x.1 >>= fun _ =>
  pure ⟨⟩

/-- What the tool prints: the moves of the plan, and with `--apply` the copies and the deletions. -/
structure Report where
  planned : Nat
  finished : Option (Nat × Nat)
  deriving DecidableEq, Repr

def report (visit : Visit) (p : Plan) : Report where
  planned := p.moves.length
  finished :=
    if visit.apply then some (p.moves.length, if visit.deleteSource then p.candidates.length else 0) else none

def reorganizeRows (visit : Visit) : Tool B (Plan × Stage) :=
  readPlan host visit >>= fun p =>
  applyPlan host visit p >>= fun _ =>
  pure (p, .committing)

/-- `main`. -/
def reorganize (visit : Visit) : Tool B Report :=
  Code.require (visit.deleteSource = true → visit.apply = true) (.other "SystemExit") >>= fun _ =>
  Code.require (visit.providerIsR2 = true) (.other "SystemExit") >>= fun _ =>
  Code.transaction .statement (reorganizeRows host visit) >>= fun p =>
  (if visit.deleteSource then (sortedItems p.candidates).forM (cleanUp host visit.retains) else pure ⟨⟩) >>= fun _ =>
  pure (report visit p)

end Main

end Rubrica.Reorganization
