import Mathlib.Data.List.Dedup
import Rubrica.Identity.Uuids
import Rubrica.Platform

set_option autoImplicit false

/-! # The chain of migrations

What the core migrations make of a database of legacy rows: 0006 adds tenants, members and billing accounts,
0007 turns integer identifiers into UUIDs, 0010 adds the accounts that are missing and counts signatures.
0008 and 0009 add columns that nothing here reads, `billing_events` is empty throughout, and of the other
tables the columns are left out that no migration of the chain reads. -/

namespace Rubrica

/-! ## Tables -/

/-- A row of `documents`; `T` is what it says of its tenant. -/
structure DocumentRow (I T : Type) where
  id : I
  organizationId : String
  createdBy : String
  tenantId : T

structure VersionRow (I : Type) where
  id : I
  documentId : I

structure RequestRow (I : Type) where
  id : I
  documentId : I

structure SignerRow (I : Type) where
  id : I
  signatureRequestId : I

structure SignatureRow (I : Type) where
  id : I
  signatureRequestId : I
  signerId : I

/-- A row of `audit_events`; `E` is the type of the columns that hold identifiers as texts at first. -/
structure AuditRow (I E : Type) where
  id : I
  signatureRequestId : Option I
  entityId : E
  correlationId : E

structure TenantRow (I : Type) where
  id : I
  name : String
  slug : String

structure MemberRow (I : Type) where
  id : I
  tenantId : I
  authUserId : String

/-- A row of `billing_accounts`; `U` holds the columns of 0010. -/
structure AccountRow (I U : Type) where
  id : I
  tenantId : I
  status : AccountStatus
  usage : U

/-- `free_signatures_limit` and `signatures_used`. -/
structure SignatureUsage where
  freeSignaturesLimit : Nat
  signaturesUsed : Nat

/-- The tables; identifiers are of type `I`. -/
structure Tables (I T E U : Type) where
  documents : List (DocumentRow I T)
  versions : List (VersionRow I)
  requests : List (RequestRow I)
  signers : List (SignerRow I)
  signatures : List (SignatureRow I)
  audits : List (AuditRow I E)
  tenants : List (TenantRow I)
  members : List (MemberRow I)
  accounts : List (AccountRow I U)
  /-- The default of `billing_accounts.id`, by the number of the row it is for. -/
  accountId : Option (Nat → I)

/-- Before 0006: no tenants, no members, no accounts. -/
abbrev LegacyTables : Type :=
  Tables Nat Unit String Unit

/-- The functions of PostgreSQL that the migrations call. -/
structure Postgres where
  md5 : String → String
  lower : String → String
  /-- `text::bigint`. -/
  bigint : String → Option Int

/-! ## Constraints -/

/-- A primary key, or a unique index. -/
def requireUnique {α : Type} [DecidableEq α] (keys : List α) : Except Failure Unit :=
  if keys.Nodup then .ok () else .error .integrity

/-- A foreign key. -/
def requireReferences {α : Type} [DecidableEq α] (values keys : List α) : Except Failure Unit :=
  if ∀ v ∈ values, v ∈ keys then .ok () else .error .integrity

/-- A cast, or a column that is not null. -/
def orFail {α : Type} (e : Failure) : Option α → Except Failure α
  | some a => .ok a
  | none => .error e

section Migrations

variable (pg : Postgres)

/-! ## 0006: tenants and billing -/

/-- `'legacy-' || md5(organization_id)`. -/
def legacySlug (organization : String) : String :=
  "legacy-" ++ pg.md5 organization

/-- One tenant for each organization of the documents. -/
def legacyTenants (documents : List (DocumentRow Nat Unit)) : List (TenantRow Nat) :=
  (documents.map DocumentRow.organizationId).dedup.zipIdx.map fun x => ⟨x.2 + 1, x.1, legacySlug pg x.1⟩

def upgrade0006 (db : LegacyTables) : Except Failure (Tables Nat Nat String Unit) := do
  let tenants := legacyTenants pg db.documents
  requireUnique (tenants.map TenantRow.slug)
  let documents ← db.documents.mapM fun d => do
    let tenantId ← orFail .integrity ((tenants.find? fun t =>
      t.name = d.organizationId && t.slug = legacySlug pg d.organizationId).map TenantRow.id)
    pure { id := d.id, organizationId := d.organizationId, createdBy := d.createdBy, tenantId := tenantId }
  let members := (documents.map fun d => (d.tenantId, pg.lower d.createdBy)).dedup.zipIdx.map fun x =>
    { id := x.2 + 1, tenantId := x.1.1, authUserId := x.1.2 }
  requireReferences (documents.map DocumentRow.tenantId) (tenants.map TenantRow.id)
  pure { db with
    documents := documents
    tenants := tenants
    members := members
    accounts := []
    accountId := some fun n => n + 1 }

/-! ## 0007: UUIDs -/

/-- A column of integers becomes one of UUIDs. -/
def retypeId (n : Nat) : Except Failure UUID :=
  orFail (.other "DataError") (migratedId n)

def retypeNullable : Option Nat → Except Failure (Option UUID)
  | none => pure none
  | some n => do
    let id ← retypeId n
    pure (some id)

/-- `entity_id::bigint`, and then as any other integer. -/
def retypeEntity (text : String) : Except Failure UUID := do
  let n ← orFail (.other "DataError") (pg.bigint text)
  orFail (.other "DataError") (migratedBigint n)

/-- `correlation_id::uuid`. -/
def retypeCorrelation (text : String) : Except Failure UUID :=
  orFail (.other "DataError") (castUuid text.toList)

def DocumentRow.retype (d : DocumentRow Nat Nat) : Except Failure (DocumentRow UUID UUID) := do
  let id ← retypeId d.id
  let tenantId ← retypeId d.tenantId
  pure { d with
    id := id
    tenantId := tenantId }

def VersionRow.retype (v : VersionRow Nat) : Except Failure (VersionRow UUID) := do
  let id ← retypeId v.id
  let documentId ← retypeId v.documentId
  pure ⟨id, documentId⟩

def RequestRow.retype (r : RequestRow Nat) : Except Failure (RequestRow UUID) := do
  let id ← retypeId r.id
  let documentId ← retypeId r.documentId
  pure ⟨id, documentId⟩

def SignerRow.retype (s : SignerRow Nat) : Except Failure (SignerRow UUID) := do
  let id ← retypeId s.id
  let signatureRequestId ← retypeId s.signatureRequestId
  pure ⟨id, signatureRequestId⟩

def SignatureRow.retype (s : SignatureRow Nat) : Except Failure (SignatureRow UUID) := do
  let id ← retypeId s.id
  let signatureRequestId ← retypeId s.signatureRequestId
  let signerId ← retypeId s.signerId
  pure ⟨id, signatureRequestId, signerId⟩

def AuditRow.retype (a : AuditRow Nat String) : Except Failure (AuditRow UUID UUID) := do
  let id ← retypeId a.id
  let signatureRequestId ← retypeNullable a.signatureRequestId
  let entityId ← retypeEntity pg a.entityId
  let correlationId ← retypeCorrelation a.correlationId
  pure ⟨id, signatureRequestId, entityId, correlationId⟩

def TenantRow.retype (t : TenantRow Nat) : Except Failure (TenantRow UUID) := do
  let id ← retypeId t.id
  pure { t with id := id }

def MemberRow.retype (m : MemberRow Nat) : Except Failure (MemberRow UUID) := do
  let id ← retypeId m.id
  let tenantId ← retypeId m.tenantId
  pure { m with
    id := id
    tenantId := tenantId }

def AccountRow.retype (a : AccountRow Nat Unit) : Except Failure (AccountRow UUID Unit) := do
  let id ← retypeId a.id
  let tenantId ← retypeId a.tenantId
  pure { a with
    id := id
    tenantId := tenantId }

def upgrade0007 (db : Tables Nat Nat String Unit) : Except Failure (Tables UUID UUID UUID Unit) := do
  let documents ← db.documents.mapM DocumentRow.retype
  let versions ← db.versions.mapM VersionRow.retype
  let requests ← db.requests.mapM RequestRow.retype
  let signers ← db.signers.mapM SignerRow.retype
  let signatures ← db.signatures.mapM SignatureRow.retype
  let audits ← db.audits.mapM (AuditRow.retype pg)
  let tenants ← db.tenants.mapM TenantRow.retype
  let members ← db.members.mapM MemberRow.retype
  let accounts ← db.accounts.mapM AccountRow.retype
  requireUnique (documents.map DocumentRow.id)
  requireUnique (versions.map VersionRow.id)
  requireUnique (requests.map RequestRow.id)
  requireUnique (signers.map SignerRow.id)
  requireUnique (signatures.map SignatureRow.id)
  requireUnique (audits.map AuditRow.id)
  requireUnique (tenants.map TenantRow.id)
  requireUnique (members.map MemberRow.id)
  requireUnique (accounts.map AccountRow.id)
  requireReferences (versions.map VersionRow.documentId) (documents.map DocumentRow.id)
  requireReferences (requests.map RequestRow.documentId) (documents.map DocumentRow.id)
  requireReferences (signers.map SignerRow.signatureRequestId) (requests.map RequestRow.id)
  requireReferences (signatures.map SignatureRow.signatureRequestId) (requests.map RequestRow.id)
  requireReferences (signatures.map SignatureRow.signerId) (signers.map SignerRow.id)
  requireReferences (audits.filterMap AuditRow.signatureRequestId) (requests.map RequestRow.id)
  requireReferences (members.map MemberRow.tenantId) (tenants.map TenantRow.id)
  requireReferences (documents.map DocumentRow.tenantId) (tenants.map TenantRow.id)
  requireReferences (accounts.map AccountRow.tenantId) (tenants.map TenantRow.id)
  requireUnique (tenants.map TenantRow.slug)
  requireUnique (accounts.map AccountRow.tenantId)
  -- `server_default=None`: from here on no identifier has a default.
  pure {
    documents := documents
    versions := versions
    requests := requests
    signers := signers
    signatures := signatures
    audits := audits
    tenants := tenants
    members := members
    accounts := accounts
    accountId := none }

/-! ## 0010: signature entitlements -/

/-- The tenants of the signatures' documents, one entry for each signature. -/
def historical (db : Tables UUID UUID UUID Unit) : List UUID :=
  db.signatures.flatMap fun s => (db.requests.filter fun r => r.id = s.signatureRequestId).flatMap fun r =>
    (db.documents.filter fun d => d.id = r.documentId).map DocumentRow.tenantId

/-- The tenants without an account. -/
def accountless (db : Tables UUID UUID UUID Unit) : List (TenantRow UUID) :=
  db.tenants.filter fun t => !db.accounts.any fun a => a.tenantId = t.id

/-- The account that is inserted for a tenant. The statement names no identifier: the column's default has to
    give one. -/
def addAccount (accountId : Option (Nat → UUID)) (x : TenantRow UUID × Nat) :
    Except Failure (AccountRow UUID SignatureUsage) := do
  let id ← orFail .integrity (accountId.map fun next => next x.2)
  pure { id := id, tenantId := x.1.id, status := .notConfigured, usage := ⟨5, 0⟩ }

/-- Sets the counter where there is something to count. -/
def countedBy (counts : List UUID) (a : AccountRow UUID SignatureUsage) : AccountRow UUID SignatureUsage :=
  if a.tenantId ∈ counts then { a with usage := { a.usage with signaturesUsed := counts.count a.tenantId } } else a

def upgrade0010 (db : Tables UUID UUID UUID Unit) : Except Failure (Tables UUID UUID UUID SignatureUsage) := do
  let added ← (accountless db).zipIdx.mapM (addAccount db.accountId)
  let accounts := (db.accounts.map fun a => { a with usage := ⟨5, 0⟩ }) ++ added
  requireUnique (accounts.map AccountRow.id)
  requireUnique (accounts.map AccountRow.tenantId)
  pure { db with accounts := accounts.map (countedBy (historical db)) }

/-- `alembic upgrade 0010_signature_entitlements`, from 0005 on. -/
def upgrade (db : LegacyTables) : Except Failure (Tables UUID UUID UUID SignatureUsage) := do
  let db ← upgrade0006 pg db
  let db ← upgrade0007 pg db
  upgrade0010 db

end Migrations

/-! ## What holds before 0007 -/

section Keyed

variable {I T E U : Type} [DecidableEq I]

/-- Rows of one table that match rows of another, by their positions. -/
def joined (values keys : List I) : List (Nat × Nat) :=
  values.zipIdx.flatMap fun v => (keys.zipIdx.filter fun k => k.1 = v.1).map fun k => (v.2, k.2)

/-- The joins along all foreign keys. -/
def Tables.joins (db : Tables I I E U) : List (List (Nat × Nat)) :=
  [joined (db.versions.map VersionRow.documentId) (db.documents.map DocumentRow.id),
    joined (db.requests.map RequestRow.documentId) (db.documents.map DocumentRow.id),
    joined (db.signers.map SignerRow.signatureRequestId) (db.requests.map RequestRow.id),
    joined (db.signatures.map SignatureRow.signatureRequestId) (db.requests.map RequestRow.id),
    joined (db.signatures.map SignatureRow.signerId) (db.signers.map SignerRow.id),
    joined (db.audits.map AuditRow.signatureRequestId) (db.requests.map fun r => some r.id),
    joined (db.members.map MemberRow.tenantId) (db.tenants.map TenantRow.id),
    joined (db.documents.map DocumentRow.tenantId) (db.tenants.map TenantRow.id),
    joined (db.accounts.map AccountRow.tenantId) (db.tenants.map TenantRow.id)]

/-- Primary keys, unique columns and foreign keys of the tables there are before 0006. -/
structure Tables.Workflow (db : Tables I T E U) : Prop where
  documents : (db.documents.map DocumentRow.id).Nodup
  versions : (db.versions.map VersionRow.id).Nodup
  requests : (db.requests.map RequestRow.id).Nodup
  signers : (db.signers.map SignerRow.id).Nodup
  signatures : (db.signatures.map SignatureRow.id).Nodup
  audits : (db.audits.map AuditRow.id).Nodup
  versionOf : ∀ k ∈ db.versions.map VersionRow.documentId, k ∈ db.documents.map DocumentRow.id
  requestOf : ∀ k ∈ db.requests.map RequestRow.documentId, k ∈ db.documents.map DocumentRow.id
  signerOf : ∀ k ∈ db.signers.map SignerRow.signatureRequestId, k ∈ db.requests.map RequestRow.id
  signatureOf : ∀ k ∈ db.signatures.map SignatureRow.signatureRequestId, k ∈ db.requests.map RequestRow.id
  signatureBy : ∀ k ∈ db.signatures.map SignatureRow.signerId, k ∈ db.signers.map SignerRow.id
  auditOf : ∀ k ∈ db.audits.filterMap AuditRow.signatureRequestId, k ∈ db.requests.map RequestRow.id

/-- The same of the tables that 0006 adds. -/
structure Tables.Keyed (db : Tables I I E U) : Prop extends Tables.Workflow db where
  tenants : (db.tenants.map TenantRow.id).Nodup
  members : (db.members.map MemberRow.id).Nodup
  accounts : (db.accounts.map AccountRow.id).Nodup
  memberOf : ∀ k ∈ db.members.map MemberRow.tenantId, k ∈ db.tenants.map TenantRow.id
  documentOf : ∀ k ∈ db.documents.map DocumentRow.tenantId, k ∈ db.tenants.map TenantRow.id
  accountOf : ∀ k ∈ db.accounts.map AccountRow.tenantId, k ∈ db.tenants.map TenantRow.id
  slugs : (db.tenants.map TenantRow.slug).Nodup
  oneAccount : (db.accounts.map AccountRow.tenantId).Nodup

/-- All identifiers of rows. -/
def Tables.identifiers (db : Tables I T E U) : List I :=
  db.documents.map DocumentRow.id ++ (db.versions.map VersionRow.id ++ (db.requests.map RequestRow.id ++
    (db.signers.map SignerRow.id ++ (db.signatures.map SignatureRow.id ++ (db.audits.map AuditRow.id ++
      (db.tenants.map TenantRow.id ++ (db.members.map MemberRow.id ++ db.accounts.map AccountRow.id)))))))

/-- Identifiers fit into the type `integer`. -/
def Tables.Small (db : Tables Nat T E U) : Prop :=
  ∀ n ∈ db.identifiers, n < 2 ^ 31

/-- The identifiers of an audit event are texts of what 0007 takes them for. -/
def AuditRow.castable (pg : Postgres) (a : AuditRow I String) : Bool :=
  (pg.bigint a.entityId).isSome && (castUuid a.correlationId.toList).isSome

end Keyed

/-! ## 0007 on valid tables -/

section Retyping

variable {pg : Postgres}

theorem retypeId_eq {n : Nat} (h : n < 2 ^ 31) : retypeId n = .ok n := by
  have hid := (migratedId_eq (n := n) (by omega)).1
  rw [retypeId, hid, uuidOfInt, if_pos (by omega), orFail]

theorem requireUnique_eq {α : Type} [DecidableEq α] {keys : List α} (h : keys.Nodup) :
    requireUnique keys = .ok () :=
  if_pos h

theorem requireReferences_eq {α : Type} [DecidableEq α] {values keys : List α} (h : ∀ v ∈ values, v ∈ keys) :
    requireReferences values keys = .ok () :=
  if_pos h

/-- What 0007 makes of the columns of an audit event that hold texts. -/
def AuditRow.retyped (pg : Postgres) (a : AuditRow Nat String) : AuditRow UUID UUID where
  id := a.id
  signatureRequestId := a.signatureRequestId
  entityId := ((pg.bigint a.entityId).bind migratedBigint).getD 0
  correlationId := (castUuid a.correlationId.toList).getD 0

/-- 0007 keeps every identifier, as the UUID of the same number. -/
def Tables.retyped (pg : Postgres) (db : Tables Nat Nat String Unit) : Tables UUID UUID UUID Unit :=
  { db with
    audits := db.audits.map (AuditRow.retyped pg)
    accountId := none }

theorem mapM_eq_self {α : Type} {f : α → Except Failure α} {l : List α} (h : ∀ x ∈ l, f x = .ok x) :
    l.mapM f = .ok l := by
  rw [mapM_eq_ok (g := id) h, List.map_id]

theorem ok_bind {α β : Type} (a : α) (f : α → Except Failure β) : (Except.ok a >>= f) = f a := rfl

theorem AuditRow.retype_eq {a : AuditRow Nat String} (hid : a.id < 2 ^ 31)
    (hrequest : ∀ n ∈ a.signatureRequestId, n < 2 ^ 31) (hcast : a.castable pg = true) :
    a.retype pg = .ok (a.retyped pg) := by
  obtain ⟨hentity, hcorrelation⟩ := Bool.and_eq_true_iff.1 hcast
  obtain ⟨n, hn⟩ := Option.isSome_iff_exists.1 hentity
  obtain ⟨c, hc⟩ := Option.isSome_iff_exists.1 hcorrelation
  obtain ⟨e, he⟩ := exists_castUuid (n % 2 ^ 64).toNat
  have hbig : migratedBigint n = some e := he
  have hnull : retypeNullable a.signatureRequestId = .ok a.signatureRequestId := by
    cases hr : a.signatureRequestId with
    | none => rfl
    | some k => rw [retypeNullable, retypeId_eq (hrequest k hr), ok_bind]; rfl
  rw [AuditRow.retype, retypeId_eq hid, ok_bind, hnull, ok_bind, retypeEntity, hn, orFail, ok_bind, hbig, orFail,
    ok_bind, retypeCorrelation, hc, orFail, ok_bind, AuditRow.retyped, hn, Option.bind_some, hbig, hc]
  rfl

/-- **0007 succeeds on valid tables**, and identifiers stay the numbers they are. -/
theorem upgrade0007_eq {db : Tables Nat Nat String Unit} (h : db.Keyed) (hsmall : db.Small)
    (hcast : ∀ a ∈ db.audits, a.castable pg = true) : upgrade0007 pg db = .ok (db.retyped pg) := by
  have hkey : ∀ {k : Nat}, k ∈ db.identifiers → retypeId k = .ok k := fun hk => retypeId_eq (hsmall _ hk)
  have hdocument : ∀ k ∈ db.documents.map DocumentRow.id, k ∈ db.identifiers :=
    fun k hk => List.mem_append_left _ hk
  have hrequest : ∀ k ∈ db.requests.map RequestRow.id, k ∈ db.identifiers :=
    fun k hk => by simp only [Tables.identifiers, List.mem_append, hk, true_or, or_true]
  have hsigner : ∀ k ∈ db.signers.map SignerRow.id, k ∈ db.identifiers :=
    fun k hk => by simp only [Tables.identifiers, List.mem_append, hk, true_or, or_true]
  have htenant : ∀ k ∈ db.tenants.map TenantRow.id, k ∈ db.identifiers :=
    fun k hk => by simp only [Tables.identifiers, List.mem_append, hk, true_or, or_true]
  have hdocuments : db.documents.mapM DocumentRow.retype = .ok db.documents := by
    refine mapM_eq_self fun d hd => ?_
    rw [DocumentRow.retype, hkey (hdocument _ (List.mem_map_of_mem hd)), ok_bind,
      hkey (htenant _ (h.documentOf _ (List.mem_map_of_mem hd)))]
    rfl
  have hversions : db.versions.mapM VersionRow.retype = .ok db.versions := by
    refine mapM_eq_self fun v hv => ?_
    have hid : v.id ∈ db.identifiers := by
      simp only [Tables.identifiers, List.mem_append, List.mem_map_of_mem hv, true_or, or_true]
    rw [VersionRow.retype, hkey hid, ok_bind, hkey (hdocument _ (h.versionOf _ (List.mem_map_of_mem hv)))]
    rfl
  have hrequests : db.requests.mapM RequestRow.retype = .ok db.requests := by
    refine mapM_eq_self fun r hr => ?_
    rw [RequestRow.retype, hkey (hrequest _ (List.mem_map_of_mem hr)), ok_bind,
      hkey (hdocument _ (h.requestOf _ (List.mem_map_of_mem hr)))]
    rfl
  have hsigners : db.signers.mapM SignerRow.retype = .ok db.signers := by
    refine mapM_eq_self fun s hs => ?_
    rw [SignerRow.retype, hkey (hsigner _ (List.mem_map_of_mem hs)), ok_bind,
      hkey (hrequest _ (h.signerOf _ (List.mem_map_of_mem hs)))]
    rfl
  have hsignatures : db.signatures.mapM SignatureRow.retype = .ok db.signatures := by
    refine mapM_eq_self fun s hs => ?_
    have hid : s.id ∈ db.identifiers := by
      simp only [Tables.identifiers, List.mem_append, List.mem_map_of_mem hs, true_or, or_true]
    rw [SignatureRow.retype, hkey hid, ok_bind, hkey (hrequest _ (h.signatureOf _ (List.mem_map_of_mem hs))),
      ok_bind, hkey (hsigner _ (h.signatureBy _ (List.mem_map_of_mem hs)))]
    rfl
  have haudits : db.audits.mapM (AuditRow.retype pg) = .ok (db.audits.map (AuditRow.retyped pg)) := by
    refine mapM_eq_ok fun a ha => AuditRow.retype_eq (hsmall _ ?_) (fun k hk => ?_) (hcast a ha)
    · simp only [Tables.identifiers, List.mem_append, List.mem_map_of_mem ha, true_or, or_true]
    · exact hsmall _ (hrequest _ (h.auditOf _ (List.mem_filterMap.2 ⟨a, ha, hk⟩)))
  have htenants : db.tenants.mapM TenantRow.retype = .ok db.tenants := by
    refine mapM_eq_self fun t ht => ?_
    rw [TenantRow.retype, hkey (htenant _ (List.mem_map_of_mem ht))]
    rfl
  have hmembers : db.members.mapM MemberRow.retype = .ok db.members := by
    refine mapM_eq_self fun m hm => ?_
    have hid : m.id ∈ db.identifiers := by
      simp only [Tables.identifiers, List.mem_append, List.mem_map_of_mem hm, true_or, or_true]
    rw [MemberRow.retype, hkey hid, ok_bind, hkey (htenant _ (h.memberOf _ (List.mem_map_of_mem hm)))]
    rfl
  have haccounts : db.accounts.mapM AccountRow.retype = .ok db.accounts := by
    refine mapM_eq_self fun a ha => ?_
    have hid : a.id ∈ db.identifiers := by
      simp only [Tables.identifiers, List.mem_append, List.mem_map_of_mem ha, or_true]
    rw [AccountRow.retype, hkey hid, ok_bind, hkey (htenant _ (h.accountOf _ (List.mem_map_of_mem ha)))]
    rfl
  have hauditIds : (db.audits.map (AuditRow.retyped pg)).map AuditRow.id = db.audits.map AuditRow.id :=
    List.map_map
  have hauditOf : (db.audits.map (AuditRow.retyped pg)).filterMap AuditRow.signatureRequestId =
      db.audits.filterMap AuditRow.signatureRequestId := List.filterMap_map
  rw [upgrade0007, hdocuments, ok_bind, hversions, ok_bind, hrequests, ok_bind, hsigners, ok_bind, hsignatures,
    ok_bind, haudits, ok_bind, htenants, ok_bind, hmembers, ok_bind, haccounts, ok_bind,
    requireUnique_eq h.documents, ok_bind, requireUnique_eq h.versions, ok_bind, requireUnique_eq h.requests, ok_bind,
    requireUnique_eq h.signers, ok_bind, requireUnique_eq h.signatures, ok_bind, hauditIds, requireUnique_eq h.audits,
    ok_bind, requireUnique_eq h.tenants, ok_bind, requireUnique_eq h.members, ok_bind, requireUnique_eq h.accounts,
    ok_bind, requireReferences_eq h.versionOf, ok_bind, requireReferences_eq h.requestOf, ok_bind,
    requireReferences_eq h.signerOf, ok_bind, requireReferences_eq h.signatureOf, ok_bind,
    requireReferences_eq h.signatureBy, ok_bind, hauditOf, requireReferences_eq h.auditOf, ok_bind,
    requireReferences_eq h.memberOf, ok_bind, requireReferences_eq h.documentOf, ok_bind,
    requireReferences_eq h.accountOf, ok_bind, requireUnique_eq h.slugs, ok_bind, requireUnique_eq h.oneAccount]
  rfl

theorem joins_retyped (pg : Postgres) (db : Tables Nat Nat String Unit) : (db.retyped pg).joins = db.joins := by
  have haudits : (db.audits.map (AuditRow.retyped pg)).map AuditRow.signatureRequestId =
      db.audits.map AuditRow.signatureRequestId := List.map_map
  rw [Tables.joins, Tables.joins, ← haudits]
  rfl

end Retyping

/-! ## 0010 where identifiers have a default -/

/-- The signatures on the documents of a tenant. -/
def Tables.signaturesOf {E U : Type} (db : Tables UUID UUID E U) (tenant : UUID) : List (SignatureRow UUID) :=
  db.signatures.filter fun s => db.requests.any fun r => r.id = s.signatureRequestId &&
    db.documents.any fun d => d.id = r.documentId && d.tenantId = tenant

/-- Each tenant has one billing account, which counts the signatures on its documents. -/
def Tables.Billed {E : Type} (db : Tables UUID UUID E SignatureUsage) : Prop :=
  ∀ t ∈ db.tenants, ∃ a, db.accounts.filter (fun a => a.tenantId = t.id) = [a] ∧
    a.usage.signaturesUsed = (db.signaturesOf t.id).length

section Entitlements

variable {db : Tables UUID UUID UUID Unit}

theorem filter_of_nodup {α κ : Type} [DecidableEq κ] {key : α → κ} {l : List α} (h : (l.map key).Nodup) {x : α}
    (hx : x ∈ l) : l.filter (fun y => key y = key x) = [x] := by
  induction l with
  | nil => exact absurd hx List.not_mem_nil
  | cons y l ih =>
      obtain ⟨hy, hl⟩ := List.nodup_cons.1 h
      rcases List.mem_cons.1 hx with rfl | hx
      · rw [List.filter_cons_of_pos (by simp), List.filter_eq_nil_iff.2]
        intro z hz heq
        exact hy (of_decide_eq_true heq ▸ List.mem_map_of_mem hz)
      · have hne : key y ≠ key x := fun heq => hy (heq ▸ List.mem_map_of_mem hx)
        rw [List.filter_cons_of_neg (by simp [hne]), ih hl hx]

/-- One entry of the join for each signature on a document of the tenant. -/
theorem count_historical (h : db.Keyed) (tenant : UUID) :
    (historical db).count tenant = (db.signaturesOf tenant).length := by
  have hentry : ∀ s ∈ db.signatures, ((db.requests.filter fun r => r.id = s.signatureRequestId).flatMap fun r =>
      (db.documents.filter fun d => d.id = r.documentId).map DocumentRow.tenantId).count tenant =
      if (db.requests.any fun r => r.id = s.signatureRequestId &&
        db.documents.any fun d => d.id = r.documentId && d.tenantId = tenant) then 1 else 0 := by
    intro s hs
    obtain ⟨r, hr, hrequest⟩ := List.mem_map.1 (h.signatureOf _ (List.mem_map_of_mem hs))
    obtain ⟨d, hd, hdocument⟩ := List.mem_map.1 (h.requestOf _ (List.mem_map_of_mem hr))
    have hrequests : (db.requests.filter fun r => r.id = s.signatureRequestId) = [r] :=
      hrequest ▸ filter_of_nodup h.requests hr
    have hdocuments : (db.documents.filter fun d => d.id = r.documentId) = [d] :=
      hdocument ▸ filter_of_nodup h.documents hd
    rw [← List.any_filter, hrequests, List.flatMap_cons, List.flatMap_nil, List.append_nil, hdocuments]
    simp only [List.any_cons, List.any_nil, Bool.or_false]
    rw [← List.any_filter, hdocuments]
    simp [List.count_cons]
  rw [historical, Tables.signaturesOf]
  generalize db.signatures = l at hentry
  induction l with
  | nil => rfl
  | cons s l ih =>
      obtain ⟨hs, hl⟩ := List.forall_mem_cons.1 hentry
      rw [List.flatMap_cons, List.count_append, hs, ih hl, List.filter_cons]
      split
      · rw [List.length_cons, Nat.add_comm]
      · rw [Nat.zero_add]

/-- The accounts that there are, with those that are added. -/
def withAdded (next : Nat → UUID) (db : Tables UUID UUID UUID Unit) : List (AccountRow UUID SignatureUsage) :=
  (db.accounts.map fun a => { a with usage := ⟨5, 0⟩ }) ++ (accountless db).zipIdx.map fun x =>
    { id := next x.2, tenantId := x.1.id, status := .notConfigured, usage := ⟨5, 0⟩ }

theorem tenantId_countedBy (counts : List UUID) (a : AccountRow UUID SignatureUsage) :
    (countedBy counts a).tenantId = a.tenantId := by
  unfold countedBy
  split <;> rfl

theorem ids_withAdded (next : Nat → UUID) : (withAdded next db).map AccountRow.id =
    db.accounts.map AccountRow.id ++ ((accountless db).zipIdx.map Prod.snd).map next := by
  rw [withAdded, List.map_append, List.map_map, List.map_map, List.map_map]
  rfl

theorem tenants_withAdded (next : Nat → UUID) : (withAdded next db).map AccountRow.tenantId =
    db.accounts.map AccountRow.tenantId ++ (accountless db).map TenantRow.id := by
  have hfst : (accountless db).map TenantRow.id = (accountless db).zipIdx.map fun x => x.1.id := by
    conv_lhs => rw [← List.zipIdx_map_fst 0 (accountless db)]
    rw [List.map_map]
    rfl
  rw [withAdded, List.map_append, List.map_map, List.map_map, hfst]
  rfl

theorem nodup_tenants_withAdded (h : db.Keyed) (next : Nat → UUID) :
    ((withAdded next db).map AccountRow.tenantId).Nodup := by
  rw [tenants_withAdded]
  refine h.oneAccount.append (h.tenants.sublist (List.filter_sublist.map _)) fun k hk hk' => ?_
  obtain ⟨a, ha, rfl⟩ := List.mem_map.1 hk
  obtain ⟨t, ht, hta⟩ := List.mem_map.1 hk'
  have hnone := (List.mem_filter.1 ht).2
  rw [Bool.not_eq_true', List.any_eq_false] at hnone
  exact hnone a ha (decide_eq_true hta.symm)

/-- **0010 would do what it is to do**, if the default of the identifiers were still there. -/
theorem upgrade0010_billed (h : db.Keyed) {next : Nat → UUID} (hdefault : db.accountId = some next)
    (hinjective : Function.Injective next) (hfree : ∀ n, next n ∉ db.accounts.map AccountRow.id) :
    ∃ db', upgrade0010 db = .ok db' ∧ db'.Billed := by
  have hids : ((withAdded next db).map AccountRow.id).Nodup := by
    rw [ids_withAdded, List.zipIdx_map_snd]
    refine h.accounts.append ((List.nodup_range' ..).map hinjective) fun k hk hk' => ?_
    obtain ⟨n, -, rfl⟩ := List.mem_map.1 hk'
    exact hfree n hk
  have hadded : (accountless db).zipIdx.mapM (addAccount db.accountId) =
      .ok ((accountless db).zipIdx.map fun x => ⟨next x.2, x.1.id, .notConfigured, ⟨5, 0⟩⟩) := by
    refine mapM_eq_ok fun x _ => ?_
    rw [addAccount, hdefault]
    rfl
  have hok : upgrade0010 db = .ok { db with accounts := (withAdded next db).map (countedBy (historical db)) } := by
    rw [upgrade0010, hadded, ok_bind]
    show (requireUnique ((withAdded next db).map AccountRow.id) >>= fun _ => _) = _
    rw [requireUnique_eq hids, ok_bind]
    show (requireUnique ((withAdded next db).map AccountRow.tenantId) >>= fun _ => _) = _
    rw [requireUnique_eq (nodup_tenants_withAdded h next), ok_bind]
    rfl
  refine ⟨_, hok, fun t ht => ?_⟩
  have hmem : t.id ∈ (withAdded next db).map AccountRow.tenantId := by
    rw [tenants_withAdded, List.mem_append]
    cases hany : db.accounts.any fun a => a.tenantId = t.id with
    | true =>
        obtain ⟨a, ha, hta⟩ := List.any_eq_true.1 hany
        exact Or.inl (of_decide_eq_true hta ▸ List.mem_map_of_mem ha)
    | false => exact Or.inr (List.mem_map_of_mem (List.mem_filter.2 ⟨ht, by rw [hany]; rfl⟩))
  obtain ⟨a, ha, htenant⟩ := List.mem_map.1 hmem
  have hone := filter_of_nodup (nodup_tenants_withAdded h next) ha
  have hzero : a.usage.signaturesUsed = 0 := by
    rcases List.mem_append.1 ha with hold | hnew
    · obtain ⟨b, -, rfl⟩ := List.mem_map.1 hold
      rfl
    · obtain ⟨b, -, rfl⟩ := List.mem_map.1 hnew
      rfl
  have hcount := count_historical h t.id
  refine ⟨countedBy (historical db) a, ?_, ?_⟩
  · show ((withAdded next db).map _).filter _ = _
    rw [List.filter_map]
    simp only [Function.comp_def, tenantId_countedBy]
    rw [← htenant, hone]
    rfl
  · show (countedBy (historical db) a).usage.signaturesUsed = (db.signaturesOf t.id).length
    unfold countedBy
    rw [htenant]
    split
    · exact hcount
    · next hnot => rw [hzero, ← hcount, List.count_eq_zero_of_not_mem hnot]

/-- Without it, no account can be added. -/
theorem upgrade0010_fails (hdefault : db.accountId = none) (haccounts : db.accounts = []) {t : TenantRow UUID}
    (ht : t ∈ db.tenants) : ∀ db', upgrade0010 db ≠ .ok db' := by
  intro db' hok
  have hmissing : t ∈ accountless db := List.mem_filter.2 ⟨ht, by rw [haccounts]; rfl⟩
  obtain ⟨n, hn⟩ := List.getElem?_of_mem hmissing
  obtain ⟨added, hadded, -⟩ := bind_eq_ok.1 hok
  obtain ⟨a, ha⟩ := (of_mapM_eq_ok hadded).2 (t, n) (List.mem_zipIdx_iff_getElem?.2 hn)
  rw [addAccount, hdefault] at ha
  exact absurd ha (by simp [orFail, bind, Except.bind])

end Entitlements

/-! ## The chain -/

section Upgrade

variable {pg : Postgres} {db : LegacyTables}

/-- What is known where 0006 and 0007 succeed. -/
theorem of_upgrade0006 {db' : Tables Nat Nat String Unit} (h : upgrade0006 pg db = .ok db') :
    db'.tenants = legacyTenants pg db.documents ∧ db'.accounts = [] ∧ db'.audits = db.audits := by
  simp only [upgrade0006, bind_eq_ok] at h
  obtain ⟨-, -, documents, -, -, -, h⟩ := h
  obtain rfl := Except.ok.inj h
  exact ⟨rfl, rfl, rfl⟩

theorem of_upgrade0007 {db : Tables Nat Nat String Unit} {db' : Tables UUID UUID UUID Unit}
    (h : upgrade0007 pg db = .ok db') :
    db'.tenants.length = db.tenants.length ∧ db'.accounts.length = db.accounts.length ∧ db'.accountId = none ∧
      ∀ a ∈ db.audits, ∃ a', a.retype pg = .ok a' := by
  simp only [upgrade0007, bind_eq_ok] at h
  obtain ⟨documents, -, versions, -, requests, -, signers, -, signatures, -, audits, haudits, tenants, htenants,
    members, -, accounts, haccounts, h⟩ := h
  -- What follows are the constraints.
  obtain ⟨-, -, -, -, -, -, -, -, -, -, -, -, -, -, -, -, -, -, -, -, -, -, -, -, -, -, -, -, -, -, -, -, -, -, -, -,
    -, -, -, -, h⟩ := h
  obtain rfl := Except.ok.inj h
  exact ⟨(of_mapM_eq_ok htenants).1, (of_mapM_eq_ok haccounts).1, rfl, (of_mapM_eq_ok haudits).2⟩

theorem castable_of_retype {a : AuditRow Nat String} {a' : AuditRow UUID UUID} (h : a.retype pg = .ok a') :
    a.castable pg = true := by
  simp only [AuditRow.retype, retypeEntity, bind_eq_ok] at h
  obtain ⟨-, -, -, -, -, ⟨n, hn, -⟩, c, hc, -⟩ := h
  have hsome : ∀ {α : Type} {e : Failure} {o : Option α} {x : α}, orFail e o = .ok x → o.isSome = true := by
    intro α e o x ho
    cases o with
    | none => exact absurd ho (by simp [orFail])
    | some y => rfl
  exact Bool.and_eq_true_iff.2 ⟨hsome hn, hsome hc⟩

theorem legacyTenants_ne_nil {documents : List (DocumentRow Nat Unit)} (h : documents ≠ []) :
    legacyTenants pg documents ≠ [] := by
  intro hnil
  obtain ⟨d, hd⟩ := List.exists_mem_of_ne_nil _ h
  have hmem : d.organizationId ∈ (documents.map DocumentRow.organizationId).dedup :=
    List.mem_dedup.2 (List.mem_map_of_mem hd)
  rw [legacyTenants, List.map_eq_nil_iff, List.zipIdx_eq_nil_iff] at hnil
  rw [hnil] at hmem
  exact List.not_mem_nil hmem

/-- What 0006 makes of tables without documents. -/
def Tables.withoutTenants (db : LegacyTables) : Tables Nat Nat String Unit :=
  { db with
    documents := []
    tenants := []
    members := []
    accounts := []
    accountId := some fun n => n + 1 }

theorem upgrade0006_nil (h : db.documents = []) : upgrade0006 pg db = .ok db.withoutTenants := by
  rw [upgrade0006, h]
  rfl

theorem keyed_withoutTenants (hworkflow : db.Workflow) (h : db.documents = []) : db.withoutTenants.Keyed where
  documents := List.nodup_nil
  versions := hworkflow.versions
  requests := hworkflow.requests
  signers := hworkflow.signers
  signatures := hworkflow.signatures
  audits := hworkflow.audits
  versionOf := fun k hk => by simpa [h] using hworkflow.versionOf k hk
  requestOf := fun k hk => by simpa [h] using hworkflow.requestOf k hk
  signerOf := hworkflow.signerOf
  signatureOf := hworkflow.signatureOf
  signatureBy := hworkflow.signatureBy
  auditOf := hworkflow.auditOf
  tenants := List.nodup_nil
  members := List.nodup_nil
  accounts := List.nodup_nil
  memberOf := by simp [Tables.withoutTenants]
  documentOf := by simp [Tables.withoutTenants]
  accountOf := by simp [Tables.withoutTenants]
  slugs := List.nodup_nil
  oneAccount := List.nodup_nil

theorem small_withoutTenants (hsmall : db.Small) : db.withoutTenants.Small := by
  intro n hn
  refine hsmall n ?_
  simp only [Tables.identifiers, Tables.withoutTenants, List.map_nil, List.nil_append, List.append_nil,
    List.mem_append] at hn ⊢
  grind

/-- **The chain preserves billing on nothing.** It succeeds, with one account that counts the signatures for each
    tenant, just when there is no document, so no tenant, and 0007 can cast what audit events hold: the first
    tenant needs an account, whose identifier 0007 has left without a default. -/
theorem upgrade_billed_iff (hworkflow : db.Workflow) (hsmall : db.Small) :
    (∃ db', upgrade pg db = .ok db' ∧ db'.Billed) ↔
      db.documents = [] ∧ ∀ a ∈ db.audits, a.castable pg = true := by
  constructor
  · rintro ⟨db', hok, -⟩
    obtain ⟨db1, h1, hok⟩ := bind_eq_ok.1 hok
    obtain ⟨db2, h2, hok⟩ := bind_eq_ok.1 hok
    obtain ⟨htenants1, haccounts1, haudits1⟩ := of_upgrade0006 h1
    obtain ⟨htenants2, haccounts2, hdefault, haudits2⟩ := of_upgrade0007 h2
    have haccounts : db2.accounts = [] := by
      rw [← List.length_eq_zero_iff, haccounts2, haccounts1, List.length_nil]
    constructor
    · by_contra hdocuments
      have hne : db2.tenants ≠ [] := by
        intro hnil
        rw [hnil, htenants1, List.length_nil, eq_comm, List.length_eq_zero_iff] at htenants2
        exact legacyTenants_ne_nil hdocuments htenants2
      obtain ⟨t, ht⟩ := List.exists_mem_of_ne_nil _ hne
      exact upgrade0010_fails hdefault haccounts ht db' hok
    · intro a ha
      obtain ⟨a', ha'⟩ := haudits2 a (haudits1 ▸ ha)
      exact castable_of_retype ha'
  · rintro ⟨hdocuments, hcast⟩
    have h7 : upgrade0007 pg db.withoutTenants = .ok (db.withoutTenants.retyped pg) :=
      upgrade0007_eq (keyed_withoutTenants hworkflow hdocuments) (small_withoutTenants hsmall) hcast
    refine ⟨{ db.withoutTenants.retyped pg with accounts := [] }, ?_, fun t ht => absurd ht List.not_mem_nil⟩
    rw [upgrade, upgrade0006_nil hdocuments, ok_bind, h7]
    rfl

end Upgrade

/-! ## Databases to compute with -/

/-- A PostgreSQL that knows one number. -/
def samplePostgres : Postgres where
  md5 := fun s => s
  lower := fun s => s
  bigint := fun s => if s = "7" then some 7 else none

/-- Nothing but an audit event. -/
def auditedTables : LegacyTables where
  documents := []
  versions := []
  requests := []
  signers := []
  signatures := []
  audits := [⟨1, none, "7", "6f1c2a34-9b1d-4e5f-8a7b-0c1d2e3f4a5b"⟩]
  tenants := []
  members := []
  accounts := []
  accountId := none

/-- One document of one organization, without requests. -/
def documentedTables : LegacyTables :=
  { auditedTables with
    documents := [⟨1, "acme", "author@x", ()⟩]
    audits := [] }

theorem auditedTables_workflow : auditedTables.Workflow := by
  constructor <;> decide

theorem documentedTables_workflow : documentedTables.Workflow := by
  constructor <;> decide

/-- Only the audit event is migrated. -/
theorem upgrade_billed_auditedTables : ∃ db', upgrade samplePostgres auditedTables = .ok db' ∧ db'.Billed :=
  (upgrade_billed_iff auditedTables_workflow (by unfold Tables.Small; decide)).2 ⟨rfl, by decide +kernel⟩

/-- There is a document, and the chain does not succeed. -/
theorem not_upgrade_billed : ¬∀ (pg : Postgres) (db : LegacyTables), db.Workflow → db.Small →
    (∀ a ∈ db.audits, a.castable pg = true) → ∃ db', upgrade pg db = .ok db' ∧ db'.Billed := by
  intro h
  obtain ⟨db', hok, -⟩ := h samplePostgres documentedTables documentedTables_workflow
    (by unfold Tables.Small; decide) (by decide)
  have hfails : (upgrade samplePostgres documentedTables).isOk = false := by decide +kernel
  rw [hok] at hfails
  exact Bool.false_ne_true hfails.symm

end Rubrica
