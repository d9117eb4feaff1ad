import Rubrica.Signatures.Evidence

set_option autoImplicit false

/-! # The archive and its moves

What signing is about, apart from who may do what: documents, requests, signers and signatures change by
`Move`s, and `Move.apply` says how. Every commit of the workflow service that changes one of these tables
is one move; its point names it. -/

namespace Rubrica

open Transactions

variable {B : Type}

/-! ## Moves -/

/-- What `sign` puts on record, and what it made it from. -/
structure Signing (B : Type) where
  request : UUID
  /-- The identifier of the signature's row. -/
  id : UUID
  signature : Signature
  /-- The tenant whose allowance is charged, and when it was judged. -/
  tenant : UUID
  countedAt : Int
  original : B
  /-- The records of all signatures of the request, this one last. -/
  stamps : List Dict
  metadata : List (String × String)
  /-- The PDF before a certificate or a timestamp is applied to it. -/
  generated : B
  artifact : B
  certificate : Option CertificateGrant
  /-- Was nobody else left to sign? -/
  completes : Bool

inductive Move (B : Type) where
  | createDocument (id : UUID) (document : Document) (version : DocumentVersion)
  | addVersion (id : UUID) (number : Nat) (version : DocumentVersion)
  | deleteDocument (id : UUID) (cancelled : List UUID) (now : Int)
  | createRequest (id : UUID) (request : SignatureRequest)
  | addSigner (id : UUID) (signer : Signer)
  | createLink (request : UUID) (nonce hash : String)
  | revokeLink (request signer : UUID) (now : Int)
  | openRequest (request : UUID) (mode : SignatureMode)
  | cancelRequest (request : UUID)
  | view (request signer : UUID)
  | sign (x : Signing B)
  | decline (request signer : UUID)

/-! ## What they do to a row -/

/-- The document under a version that was added. -/
def Document.revised (number : Nat) (version : DocumentVersion) (d : Document) : Document :=
  { d with
    version := number,
    originalFilename := version.originalFilename,
    contentType := version.contentType,
    storageKey := version.storageKey,
    sha256 := version.sha256 }

def Document.deleted (now : Int) (d : Document) : Document :=
  { d with deletedAt := some now }

def SignatureRequest.cancelled (r : SignatureRequest) : SignatureRequest :=
  { r with status := .cancelled }

def SignatureRequest.opened (mode : SignatureMode) (r : SignatureRequest) : SignatureRequest :=
  { r with status := .open, signatureMode := mode }

def SignatureRequest.linked (nonce hash : String) (r : SignatureRequest) : SignatureRequest :=
  { r with signingTokenNonce := some nonce, signingTokenHash := some hash }

def SignatureRequest.completed (now : Int) (r : SignatureRequest) : SignatureRequest :=
  { r with status := .completed, completedAt := some now }

def Signer.revoked (now : Int) (s : Signer) : Signer :=
  { s with linkRevokedAt := some now }

def Signer.answered (status : SignerStatus) (s : Signer) : Signer :=
  { s with status := status }

def Signer.hasSigned (now : Int) (s : Signer) : Signer :=
  { s with status := .signed, signedAt := some now }

/-! ## What they do to the archive -/

namespace Move

def onDocuments (m : Move B) (t : Table UUID Document) : Table UUID Document :=
  match m with
  | .createDocument id document _ => t.insert id document
  | .addVersion id number version => t.update id (.revised number version)
  | .deleteDocument id _ now => t.update id (.deleted now)
  | _ => t

def onVersions (m : Move B) (t : Table (UUID × Nat) DocumentVersion) : Table (UUID × Nat) DocumentVersion :=
  match m with
  | .createDocument id _ version => t.insert (id, 1) version
  | .addVersion id number version => t.insert (id, number) version
  | _ => t

def onRequests (m : Move B) (t : Table UUID SignatureRequest) : Table UUID SignatureRequest :=
  match m with
  | .deleteDocument _ ids _ => t.map fun id r => if id ∈ ids then r.cancelled else r
  | .createRequest id request => t.insert id request
  | .createLink id nonce hash => t.update id (.linked nonce hash)
  | .openRequest id mode => t.update id (.opened mode)
  | .cancelRequest id => t.update id .cancelled
  | .sign x => if x.completes then t.update x.request (.completed x.signature.signedAt) else t
  | _ => t

def onSigners (m : Move B) (t : Table UUID Signer) : Table UUID Signer :=
  match m with
  | .addSigner id signer => t.insert id signer
  | .revokeLink _ id now => t.update id (.revoked now)
  | .view _ id => t.update id (.answered .viewed)
  | .decline _ id => t.update id (.answered .declined)
  | .sign x => t.update x.signature.signerId (.hasSigned x.signature.signedAt)
  | _ => t

def onSignatures (m : Move B) (t : Table UUID Signature) : Table UUID Signature :=
  match m with
  | .sign x => t.insert x.id x.signature
  | _ => t

def apply (m : Move B) (a : Archive) : Archive where
  documents := m.onDocuments a.documents
  versions := m.onVersions a.versions
  requests := m.onRequests a.requests
  signers := m.onSigners a.signers
  signatures := m.onSignatures a.signatures

theorem onRequests_sign (x : Signing B) (t : Table UUID SignatureRequest) :
    (Move.sign x).onRequests t =
      if x.completes then t.update x.request (.completed x.signature.signedAt) else t := rfl

/-- The request whose row the move is made under, where there is one. -/
def request : Move B → Option UUID
  | .addSigner _ signer => some signer.signatureRequestId
  | .createLink id _ _ => some id
  | .revokeLink id _ _ => some id
  | .openRequest id _ => some id
  | .cancelRequest id => some id
  | .view id _ => some id
  | .sign x => some x.request
  | .decline id _ => some id
  | _ => none

end Move

/-! ## Signers of a request -/

namespace Archive

def signersOf (a : Archive) (request : UUID) : List (UUID × Signer) :=
  a.signers.select fun _ s => s.signatureRequestId = request

/-- How many signers of a request have not signed. -/
def unsigned (a : Archive) (request : UUID) : Nat :=
  (a.signers.select fun _ s => s.signatureRequestId = request && s.status ≠ .signed).length

/-- The signatures of a request, in the order `ORDER BY id` gives them. -/
def signaturesOf (a : Archive) (request : UUID) : List (UUID × Signature) :=
  (a.signatures.select fun _ s => s.signatureRequestId = request).insertionSort fun x y => x.1 ≤ y.1

end Archive

end Rubrica
