import Rubrica.Database

set_option autoImplicit false

/-! # Evidence and signed PDFs

What a signature records about its signer, and the PDF that is made of the original and of the records of
all signatures so far. -/

namespace Rubrica

variable {B Page : Type}

/-! ## Commands -/

/-- `StampPosition`; the page counts from one. -/
structure StampPosition where
  page : {n : Nat // 1 ≤ n}
  x : Rat
  y : Rat
  template : String
  countryCode : Option String
  showFlag : Bool
  templateVersion : String
  locale : String
  timezone : String

/-- `ClientEvidence`. -/
structure ClientEvidence where
  platform : String
  language : String
  timezone : String
  screenWidth : Option Nat
  screenHeight : Option Nat

/-- `GeolocationEvidence`. -/
structure GeolocationEvidence where
  status : String
  latitude : Option Rat
  longitude : Option Rat
  accuracyMeters : Option Rat

def ClientEvidence.default : ClientEvidence :=
  ⟨"unknown", "unknown", "unknown", none, none⟩

def GeolocationEvidence.default : GeolocationEvidence :=
  ⟨"unavailable", none, none, none⟩

/-- Who asks to sign, and with what. -/
structure SignCommand where
  consent : Bool
  consentVersion : String
  stamp : StampPosition
  client : Option ClientEvidence
  geolocation : Option GeolocationEvidence
  ipAddress : String
  userAgent : String

def Json.ofNat : Option Nat → Json
  | none => .null
  | some n => .int n

def Json.ofRat : Option Rat → Json
  | none => .null
  | some x => .real x

def Json.ofDict : Option Dict → Json
  | none => .null
  | some d => .dict d

/-- `stamp.model_dump()`. -/
def StampPosition.dump (stamp : StampPosition) : Dict :=
  [("page", .int stamp.page.1), ("x", .real stamp.x), ("y", .real stamp.y), ("template", .text stamp.template),
    ("country_code", Json.ofText stamp.countryCode), ("show_flag", .bool stamp.showFlag),
    ("template_version", .text stamp.templateVersion), ("locale", .text stamp.locale),
    ("timezone", .text stamp.timezone)]

def ClientEvidence.dump (client : ClientEvidence) : Dict :=
  [("platform", .text client.platform), ("language", .text client.language),
    ("timezone", .text client.timezone), ("screen_width", Json.ofNat client.screenWidth),
    ("screen_height", Json.ofNat client.screenHeight)]

def GeolocationEvidence.dump (geolocation : GeolocationEvidence) : Dict :=
  [("status", .text geolocation.status), ("latitude", Json.ofRat geolocation.latitude),
    ("longitude", Json.ofRat geolocation.longitude),
    ("accuracy_meters", Json.ofRat geolocation.accuracyMeters)]

/-! ## Evidence -/

/-- `s[:n]`. -/
def leading (n : Nat) (s : String) : String :=
  String.ofList (s.toList.take n)

/-- `part in s`. -/
def containsText (part s : String) : Bool :=
  s.toList.tails.any fun rest => part.toList.isPrefixOf rest

/-- `user_agent[:1000] or "unknown"`. -/
def normalizedAgent (userAgent : String) : String :=
  (present (some (leading 1000 userAgent))).getD "unknown"

def deviceType (lowered : String) : String :=
  if ["mobile", "android", "iphone"].any fun value => containsText value lowered then "mobile"
  else if containsText "ipad" lowered then "tablet"
  else "desktop"

/-- The stamp as it is recorded. -/
def StampPosition.payload (stamp : StampPosition) (evidenceCountry : Option String) : Dict :=
  ((stamp.dump.set "country_code" (Json.ofText evidenceCountry)).set "show_flag"
    (.bool (present evidenceCountry).isSome)).set "template"
      (.text (if evidenceCountry = some "BR" ∨ evidenceCountry = some "JP" then evidenceCountry.getD ""
        else "INTL"))

section Host

variable (host : Host B Page)

/-- `_signature_evidence`. -/
def signatureEvidence (cfg : Settings) (request : UUID × SignatureRequest) (signer : UUID × Signer)
    (authUserId : String) (signedAt : Int) (command : SignCommand) (identity : IdentitySummary)
    (tenantCountry : Option String) : Dict :=
  let subject := host.lower authUserId
  let bound := subject ++ "|" ++ host.uuidText request.1 ++ "|" ++ host.uuidText signer.1 ++ "|" ++
    host.uuidText request.2.documentId ++ "|" ++ toString request.2.documentVersion
  let agent := normalizedAgent command.userAgent
  [("schema", .text "rubrica-signature-evidence-v1"),
    ("consent", .bool true),
    ("consent_version", .text command.consentVersion),
    ("request_id", .text (host.uuidText request.1)),
    ("signer_id", .text (host.uuidText signer.1)),
    ("document_id", .text (host.uuidText request.2.documentId)),
    ("document_version", .int request.2.documentVersion),
    ("original_sha256", .text request.2.documentSha256),
    ("subject_hmac_sha256", .text (host.hmac cfg.evidenceSecret (host.encode subject))),
    ("identity_binding_hmac_sha256", .text (host.hmac cfg.evidenceSecret (host.encode bound))),
    ("signer_name", .text signer.2.name),
    ("identity_document_type", Json.ofText identity.identifierType),
    ("identity_document_country", Json.ofText identity.issuingCountry),
    ("identity_document_masked", Json.ofText identity.maskedDisplay),
    ("signer_email", .text signer.2.email),
    ("participant_role", .text signer.2.participantRole.text),
    ("represented_tenant_id", Json.ofText (signer.2.representedTenantId.map host.uuidText)),
    ("representation_snapshot", Json.ofDict signer.2.representationSnapshot),
    ("issuer_snapshot", Json.ofDict request.2.issuerSnapshot),
    ("signed_at", .text (host.isoformat signedAt)),
    ("stamp", .dict (command.stamp.payload ((present identity.issuingCountry).or tenantCountry))),
    ("network", .dict [("ip_address", .text (leading 64 command.ipAddress)), ("user_agent", .text agent),
      ("device_type", .text (deviceType (host.lower agent)))]),
    ("client", .dict (command.client.getD .default).dump),
    ("geolocation", .dict (command.geolocation.getD .default).dump)]

/-- The record of a signature in the signed PDF: its evidence, with the hash of it. -/
def stampRecord (evidence : Dict) (evidenceHash : Option String) : Dict :=
  evidence.union
    [("evidence_sha256", .text ((present evidenceHash).getD (host.evidenceSha256 evidence)))]

/-! ## Signed PDFs -/

/-- `int(item["stamp"]["page"])`. -/
def stampPageNumber (record : Dict) : Option Int :=
  match Dict.get? record "stamp" with
  | some (.dict stamp) =>
    match Dict.get? stamp "page" with
    | some (.int n) => some n
    | _ => none
  | _ => none

/-- The stamps of a page, merged into it in order. -/
def stamped (stamps : List Dict) (page : Page × Nat) : Page :=
  (stamps.filter fun record => stampPageNumber record = some ((page.2 : Int) + 1)).foldl host.stampPage page.1

/-- `dict.update`. -/
def updated (entries news : List (String × String)) : List (String × String) :=
  news.foldl (fun entries x =>
    if entries.any fun y => y.1 = x.1 then entries.map fun y => if y.1 = x.1 then x else y
    else entries ++ [x]) entries

/-- `generate_signed_pdf`. -/
def generateSignedPdf (original : B) (stamps : List Dict) (metadata : List (String × String)) :
    Except Failure B :=
  match host.readPdf original with
  | none => .error (.other "PdfReadError")
  | some pdf =>
    if pdf.pages ≠ [] ∧ stamps.any fun record => (stampPageNumber record).isNone then
      .error (.other "KeyError")
    else
      .ok (host.writePdf ⟨pdf.pages.zipIdx.map (stamped host stamps),
        updated pdf.metadata (metadata.map fun x => ("/" ++ x.1, x.2))⟩)

/-- The hash over the hashes of the records, in order. -/
def manifestHash (stamps : List Dict) : String :=
  host.sha256 (host.encode ("|".intercalate (stamps.map fun record => record.text "evidence_sha256")))

def signerManifest (stamps : List Dict) : String :=
  ";".intercalate (stamps.map fun record => record.text "signer_name" ++ "|" ++ record.text "signed_at" ++ "|" ++
    leading 16 (record.text "subject_hmac_sha256"))

/-- The document information that `sign` adds. -/
def signedMetadata (artifactId : UUID) (request : UUID × SignatureRequest) (signedAt : Int) (evidence : Dict)
    (stamps : List Dict) : List (String × String) :=
  [("RubricaArtifactId", host.uuidText artifactId),
    ("RubricaRequestId", host.uuidText request.1),
    ("RubricaDocumentId", host.uuidText request.2.documentId),
    ("RubricaDocumentVersion", toString request.2.documentVersion),
    ("RubricaOriginalSHA256", request.2.documentSha256),
    ("RubricaEvidenceManifestSHA256", manifestHash host stamps),
    ("RubricaSignerManifest", signerManifest stamps),
    ("RubricaIdentityBindingHMACSHA256", evidence.text "identity_binding_hmac_sha256"),
    ("RubricaLastSignedAt", host.isoformat signedAt),
    ("RubricaEvidenceJSON", host.canonicalJson (.list (stamps.map .dict)))]

end Host

/-! ## Other services -/

/-- An e-mail that `send_signature_invitation` sends. -/
structure SignatureInvitation where
  recipient : String
  signerName : String
  documentTitle : String
  signingUrl : String
  locale : String
  idempotencyKey : String

/-- The services that signing calls. -/
structure SigningServices (B : Type) where
  /-- `identity_summary`, of an e-mail address. -/
  identitySummary : String → IdentitySummary
  /-- `_sign_pdf_with_serpro`, with an access token. -/
  signPdf : String → B → Except Failure B
  /-- `apply_serpro_timestamp`, where timestamps are enabled: the PDF and what is recorded about it. -/
  timestamp : B → Except Failure (B × Dict)
  /-- The notification service accepts the e-mail. -/
  acceptEmail : SignatureInvitation → Bool

/-- What `finish_authorization` hands to `sign`: the access token of the certificate's holder, and what is
    recorded about the certificate. -/
structure CertificateGrant where
  accessToken : String
  info : List (String × String)

end Rubrica
