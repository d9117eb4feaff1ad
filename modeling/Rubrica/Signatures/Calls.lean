import Rubrica.Signatures.Signing

set_option autoImplicit false

/-! # Calls

The operations of the workflow as calls, with what they are called with. -/

namespace Rubrica

open Transactions

variable {B Page α : Type}

/-! ## Managing -/

/-- The operations that manage documents, requests, signers and links. -/
inductive Management (B : Type) where
  | createDocument (payload : DocumentCreate) (content : B) (id name : UUID)
  | addVersion (identifier : String) (upload : VersionUpload B) (name : UUID)
  | deleteDocument (identifier : String) (force : Bool)
  | createRequest (payload : SignatureRequestCreate) (id : UUID)
  | addSigner (identifier : String) (payload : SignerCreate) (id : UUID) (token : String)
  | createSigningLink (identifier nonce : String)
  | revokeSignerLink (identifier signerIdentifier : String)
  | openRequest (identifier : String) (mode : SignatureMode)
  | cancelRequest (identifier : String)

/-- The program, without its value. -/
def forget (x : Workflow B α) : Workflow B Unit :=
  x >>= fun _ => pure ()

section Host

variable (host : Host B Page) (cfg : Settings) (services : SigningServices B) (caller : Caller) (actor : String)

/-- The operation, called by the actor. -/
def Management.run : Management B → Workflow B Unit
  | .createDocument payload content id name =>
      forget (Rubrica.createDocument host caller { payload with createdBy := actor } content id name)
  | .addVersion identifier upload name =>
      forget (Rubrica.addVersion host caller identifier { upload with actorId := actor } name)
  | .deleteDocument identifier force => forget (Rubrica.deleteDocument host caller identifier actor force)
  | .createRequest payload id => forget (Rubrica.createRequest host caller { payload with createdBy := actor } id)
  | .addSigner identifier payload id token => forget (Rubrica.addSigner host caller identifier payload actor id token)
  | .createSigningLink identifier nonce =>
      forget (Rubrica.createSigningLink host cfg services caller identifier actor nonce)
  | .revokeSignerLink identifier signer => forget (Rubrica.revokeSignerLink host caller identifier signer actor)
  | .openRequest identifier mode => forget (Rubrica.openRequest host cfg services caller identifier actor mode)
  | .cancelRequest identifier => forget (Rubrica.cancelRequest host caller identifier actor)

end Host

end Rubrica
