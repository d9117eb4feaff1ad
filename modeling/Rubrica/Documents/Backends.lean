import Rubrica.Documents.FileTree
import Rubrica.Documents.Storage

set_option autoImplicit false

/-! # The backends of the document storage

`LocalDocumentStorage` and `R2DocumentStorage`: where a key leads in each, and what is there after any calls. -/

namespace Rubrica

open Transactions Texts Files Raising

abbrev Bytes : Type :=
  List UInt8

/-! ## Keys -/

/-- `uuid4().hex`. -/
def uuidHex (id : UUID) : String :=
  String.ofList (zfill 32 (toHex id))

/-- `scope.strip('/')`. -/
def stripSlashes (s : List Char) : List Char :=
  ((s.dropWhile fun c => c = '/').reverse.dropWhile fun c => c = '/').reverse

/-- The key that `put` builds; `id` is the UUID that it draws. -/
def storageKey (scope : Option String) (id : UUID) : String :=
  if scope.getD "" = "" then uuidHex id
  else String.ofList (stripSlashes (scope.getD "").toList) ++ "/" ++ uuidHex id

/-- What a call returns. -/
inductive Reply where
  | stored (key : String) (size : Nat)
  | size (n : Nat)
  | content (bytes : Bytes)
  | done
  deriving DecidableEq, Repr

/-! ## `LocalDocumentStorage` -/

section Local

variable (privileged : Bool) (root : AbsPath)

/-- `self.root / key`. -/
def localPath (root : AbsPath) (key : String) : AbsPath :=
  joinPath root key.toList

/-- `validate_storage_key`. -/
def validateStorageKey {E S : Type} (missing : E) (key : String) : Raising E S Unit :=
  if validStorageKey key then pure () else throw missing

/-- What `stream.read` returns at most. -/
def chunkSize : Nat :=
  1024 * 1024

/-- `while chunk := stream.read(..)`: what has been written, and `size`. A chunk is never empty, so that there are
    no more of them than bytes. -/
def copyStream : Nat → Bytes → Bytes → Nat → Bytes × Nat
  | 0, _, output, size => (output, size)
  | rounds + 1, stream, output, size =>
      let chunk := stream.take chunkSize
      if chunk = [] then (output, size)
      else copyStream rounds (stream.drop chunkSize) (output ++ chunk) (size + chunk.length)

/-- `put`. -/
def putLocal (scope : Option String) (id : UUID) (stream : Bytes) : FileCalls Bytes Reply := do
  let key := storageKey scope id
  validateStorageKey .notFound key
  let destination := localPath root key
  makeFolders privileged destination.dropLast
  touch privileged [] destination
  let copied := copyStream stream.length stream [] 0
  writeFile privileged destination copied.1
  chmodPrivate privileged destination
  pure (.stored key copied.2)

/-- `get`. -/
def getLocal (key : String) : FileCalls Bytes Reply := do
  validateStorageKey .notFound key
  let content ← readFile privileged (localPath root key)
  pure (.content content)

/-- The end of `discard_uncommitted`, where there is something. -/
def removeLocal (destination : AbsPath) (there : Bool) : FileCalls Bytes Unit :=
  if there then chmodPrivate privileged destination >>= fun _ => unlink privileged destination
  else pure ()

/-- `discard_uncommitted`. -/
def discardLocal (key : String) : FileCalls Bytes Reply := do
  validateStorageKey .notFound key
  let there ← pathExists privileged (localPath root key)
  removeLocal privileged (localPath root key) there
  pure .done

end Local

/-! ## `R2DocumentStorage` -/

structure ClientError where
  code : String
  status : Option Nat
  deriving DecidableEq, Repr

/-- A request that fails for a reason of its own; it may have taken effect all the same. -/
structure Trouble where
  applied : Bool
  error : ClientError

inductive R2Error where
  | notFound
  | exists
  | client (e : ClientError)
  deriving DecidableEq, Repr

/-- The objects of the bucket, under their keys there. -/
abbrev Bucket : Type :=
  String → Option Bytes

abbrev BucketCalls (α : Type) : Type :=
  Raising R2Error Bucket α

namespace Bucket

def replaced (bucket : Bucket) (key : String) (content : Option Bytes) : Bucket :=
  fun k => if k = key then content else bucket k

/-- A request that is served, or is in trouble. -/
def request (trouble : Option Trouble) (effect : Bucket) : BucketCalls Unit :=
  trouble.elim (set effect) fun t =>
    (if t.applied then set effect else pure ()) >>= fun _ => throw (.client t.error)

/-- `put_object` with `IfNoneMatch="*"`: an object that is there is not replaced. -/
def putObject (key : String) (content : Bytes) (trouble : Option Trouble) : BucketCalls Unit := do
  let bucket ← get
  if (bucket key).isSome then
    throw (.client ((trouble.map Trouble.error).getD ⟨"PreconditionFailed", some 412⟩))
  else request trouble (bucket.replaced key (some content))

/-- `get_object`. -/
def getObject (key : String) (trouble : Option Trouble) : BucketCalls Bytes := do
  let bucket ← get
  trouble.elim ((bucket key).elim (throw (.client ⟨"NoSuchKey", some 404⟩)) pure) fun t => throw (.client t.error)

/-- `delete_object`. -/
def deleteObject (key : String) (trouble : Option Trouble) : BucketCalls Unit := do
  let bucket ← get
  request trouble (bucket.replaced key none)

end Bucket

/-- `self.prefix.strip("/")`, and `_object_key`. -/
def objectKey (bucketPrefix : String) (key : String) : String :=
  let stripped := String.ofList (stripSlashes bucketPrefix.toList)
  if stripped = "" then key else stripped ++ "/" ++ key

namespace R2Error

/-- The handler of `put_existing`. -/
def afterPut : R2Error → R2Error
  | .client e => if e.code = "PreconditionFailed" ∨ e.code = "412" ∨ e.status = some 412 then .exists else .client e
  | e => e

/-- The handler of `get`. -/
def afterGet : R2Error → R2Error
  | .client e => if e.code = "NoSuchKey" ∨ e.code = "404" ∨ e.code = "NotFound" then .notFound else .client e
  | e => e

/-- What `discard_uncommitted` takes for the lock of the bucket. -/
def isLock : R2Error → Bool
  | .client e => e.code = "AccessDenied" || e.code = "InvalidRequest" || e.code = "403" || e.status = some 403
  | _ => false

end R2Error

section R2

variable (bucketPrefix : String)

/-- `put_existing`. -/
def putExisting (key : String) (content : Bytes) (trouble : Option Trouble) : BucketCalls Nat := do
  validateStorageKey .notFound key
  tryCatch (Bucket.putObject (objectKey bucketPrefix key) content trouble) fun e => throw e.afterPut
  pure content.length

/-- `put`. -/
def putR2 (scope : Option String) (id : UUID) (content : Bytes) (trouble : Option Trouble) : BucketCalls Reply := do
  let size ← putExisting bucketPrefix (storageKey scope id) content trouble
  pure (.stored (storageKey scope id) size)

/-- `get`. -/
def getR2 (key : String) (trouble : Option Trouble) : BucketCalls Reply := do
  validateStorageKey .notFound key
  let content ← tryCatch (Bucket.getObject (objectKey bucketPrefix key) trouble) fun e => throw e.afterGet
  pure (.content content)

/-- `discard_uncommitted`. -/
def discardR2 (key : String) (trouble : Option Trouble) : BucketCalls Reply := do
  validateStorageKey .notFound key
  tryCatch (Bucket.deleteObject (objectKey bucketPrefix key) trouble) fun e =>
    if e.isLock then pure () else throw e
  pure .done

end R2

end Rubrica
