import Mathlib.Data.List.Sort
import Rubrica.Database
import Rubrica.Identity.Identifiers

set_option autoImplicit false

/-! # Tenants

Membership, seats and business identity, as far as the billing and signature services use them. -/

namespace Rubrica

open Transactions

variable {B Page τ : Type} [Unmarked τ] (host : Host B Page)

/-! ## Membership -/

/-- `membership_identity_filter`. -/
def TenantMember.isIdentity (caller : Caller) (subject : String) (m : TenantMember) : Bool :=
  (caller.isSome && m.authUserUuid = caller) ||
    (m.authUserUuid.isNone && m.authUserId = host.lower subject)

def TenantMember.isActive (m : TenantMember) (tenant : UUID) : Bool :=
  m.tenantId = tenant && m.deletedAt.isNone && m.status = .active

/-- The active membership of a tenant that a caller is identified by. -/
def World.activeMember (caller : Caller) (subject : String) (tenant : UUID) (w : World B) :
    Option (UUID × TenantMember) :=
  (w.members.select fun _ m => m.isIdentity host caller subject && m.isActive tenant).head?

/-- The account of a tenant, unless it is deleted. -/
def World.liveAccount (tenant : UUID) (w : World B) : Option BillingAccount :=
  (w.accounts.get? tenant).filter fun a => a.deletedAt.isNone

/-! ## Seats -/

/-- `member_limit`; the session may hold the account as an object of its own. -/
def memberLimit (tenant : UUID) (held : Option BillingAccount) : Tx B τ (Option Nat) := do
  let account ← query (World.liveAccount tenant)
  let now ← utcNow
  match account with
  | none => pure (some 1)
  | some a => pure ((held.getD a).memberLimit now)

/-- `team_over_limit`. -/
def teamOverLimit (tenant : UUID) : Tx B τ Bool := do
  let count ← query fun w => (w.members.select fun _ m => m.isActive tenant).length
  let limit ← memberLimit tenant none
  pure (match limit with
    | none => false
    | some n => decide (n < count))

/-- `require_role`, with the seat check unless `allowOverLimit`. -/
def requireRole (caller : Caller) (tenant : UUID) (subject : String) (roles : Option (List MemberRole))
    (allowOverLimit : Bool) : Tx B τ (UUID × TenantMember) := do
  let found ← query (World.activeMember host caller subject tenant)
  let member ← Code.orRaise found (.error "Tenant access denied" 403)
  Code.require (∀ rs ∈ roles, member.2.role ∈ rs) (.error "Tenant access denied" 403)
  if allowOverLimit then pure member
  else do
    let exceeds ← teamOverLimit tenant
    Code.require (exceeds = false) (.error "Select the active team members for the current plan" 409)
    pure member

/-- The order members of a team are listed in: by time of joining (none last), creation and
    identifier. -/
def joinedBefore (x y : UUID × TenantMember) : Bool :=
  match x.2.joinedAt, y.2.joinedAt with
  | some a, some b => a < b || (a = b && later)
  | some _, none => true
  | none, some _ => false
  | none, none => later
where
  later := x.2.createdAt < y.2.createdAt || (x.2.createdAt = y.2.createdAt && x.1 ≤ y.1)

def World.activeTeam (tenant : UUID) (w : World B) : List (UUID × TenantMember) :=
  (w.members.select fun _ m => m.isActive tenant).insertionSort fun x y => joinedBefore x y

def World.suspend (ids : List UUID) (w : World B) : World B :=
  { w with
    members := w.members.map fun id m => if id ∈ ids then { m with status := .suspended } else m }

/-- The end of `reconcile_single_member_plan`: suspend all but the administrator. -/
def suspendOthers (tenant : UUID) (administrator : UUID × TenantMember)
    (active : List (UUID × TenantMember)) : Tx B τ (Option UUID) :=
  let suspended := (active.map Prod.fst).filter fun id => id ≠ administrator.1
  if suspended = [] then pure none
  else do
    save (World.suspend suspended)
    audit none administrator.2.authUserId "tenant.team_reconciled_after_downgrade" "tenant" tenant
      [("active_member_id", .text (host.uuidText administrator.1)),
        ("suspended_member_ids", .list (suspended.map fun id => .text (host.uuidText id)))]
    pure (some administrator.1)

/-- `reconcile_single_member_plan`; the administrator it keeps where it suspends somebody. -/
def reconcileKeeping (tenant : UUID) (held : Option BillingAccount) : Tx B τ (Option UUID) := do
  let limit ← memberLimit tenant held
  if limit ≠ some 1 then pure none
  else do
    let active ← query (World.activeTeam tenant)
    match active.find? fun x => x.2.role = .admin with
    | none => pure none
    | some administrator => suspendOthers host tenant administrator active

/-- `reconcile_single_member_plan`. -/
def reconcileSingleMemberPlan (tenant : UUID) (held : Option BillingAccount) : Tx B τ Unit :=
  reconcileKeeping host tenant held >>= fun _ => pure ()

/-! ## Business identity -/

/-- What `apply_billing_business_identity` makes of the tenant's row; `conflict` says whether another
    tenant has the registration. -/
def Tenant.applyIdentity (legalName reference : Option String) (cnpj : Option ProtectedCnpj)
    (given conflict : Bool) (t : Tenant) : Tenant :=
  let t := { t with registrationSource := some "stripe", registrationProviderReference := reference }
  let verified (status : String) : Tenant := { t with registrationVerificationStatus := some status }
  if !given then verified "stripe_cnpj_required"
  else
    match cnpj with
    | none => verified "stripe_cnpj_invalid"
    | some c =>
      if t.kind = .business ∧ t.registrationLookupHmac ≠ some c.lookup then
        verified "stripe_cnpj_mismatch"
      else if conflict then verified "stripe_cnpj_conflict"
      else
        match present (legalName.map host.strip) with
        | none => verified "stripe_name_required"
        | some name =>
          { verified "stripe_format_valid" with
            kind := .business,
            name := name,
            legalName := some name,
            registrationCountry := some "BR",
            registrationType := some "BR_CNPJ",
            registrationValueEncrypted := some c.encrypted,
            registrationLookupHmac := some c.lookup,
            registrationMasked := some c.masked }

def World.saveTenant (id : UUID) (t : Tenant) (w : World B) : World B :=
  { w with tenants := w.tenants.update id fun _ => t }

/-- Does another tenant that is not deleted have the registration? -/
def World.registrationTaken (id : UUID) (lookup : String) (w : World B) : Bool :=
  w.tenants.any fun id' t => id' ≠ id && t.registrationLookupHmac = some lookup && t.deletedAt.isNone

/-- `protect_cnpj`, of a number that may be none or be refused as invalid. -/
def protectGiven (cnpj : Option String) : Tx B τ (Option ProtectedCnpj) :=
  match cnpj.map host.protectCnpj with
  | none => pure none
  | some (.ok c) => pure (some c)
  | some (.error e) => if e = invalidCnpj then pure none else Code.raise e

/-- `apply_billing_business_identity`. -/
def applyBillingBusinessIdentity (tenant : UUID) (legalName cnpj reference : Option String) :
    Tx B τ (Option String) := do
  let row ← queryForUpdate
    (fun w => ((w.tenants.get? tenant).filter fun t => t.deletedAt.isNone).map fun _ => .tenant tenant)
    (fun w => (w.tenants.get? tenant).filter fun t => t.deletedAt.isNone)
  let before ← Code.orRaise row (.error "Tenant not found" 404)
  let number ← protectGiven host (present cnpj)
  let conflict ← query fun w => number.any fun c => w.registrationTaken tenant c.lookup
  let after := before.applyIdentity host legalName reference number (present cnpj).isSome conflict
  claimChanged before.registrationLookupHmac after.registrationLookupHmac RowKey.registration
    (World.registrationTaken tenant)
  save (World.saveTenant tenant after)
  Code.onlyIf (before.kind = .personal ∧ after.kind = .business)
    (audit none "stripe" "tenant.converted_to_business_from_billing" "tenant" tenant
      [("registration_country", .text "BR"), ("registration_type", .text "BR_CNPJ"),
        ("registration_masked", Json.ofText after.registrationMasked),
        ("verification_status", Json.ofText after.registrationVerificationStatus),
        ("provider_reference", Json.ofText reference)])
  pure after.registrationVerificationStatus

/-- `issuer_snapshot`. -/
def Tenant.issuerSnapshot (id : UUID) (t : Tenant) : Dict :=
  [("tenant_id", .text (host.uuidText id)),
    ("tenant_kind", .text (if t.kind = .business then "business" else "personal")),
    ("display_name", .text t.name),
    ("legal_name", Json.ofText t.legalName),
    ("registration_country", Json.ofText t.registrationCountry),
    ("registration_type", Json.ofText t.registrationType),
    ("registration_masked", Json.ofText t.registrationMasked),
    ("registration_verification_status", Json.ofText t.registrationVerificationStatus)]

/-! ## Stretches of statements -/

/-- A view of the state that shows neither tenants nor members nor audit events. -/
structure Overlooks {γ : Type} (f : World B → γ) : Prop where
  record : ∀ e, Keeps f fun w => w.record e
  suspend : ∀ ids, Keeps f (World.suspend ids)
  saveTenant : ∀ id t, Keeps f (World.saveTenant id t)

section Local

variable {W : (World B → World B) → Prop} {γ : Type} {f : World B → γ}

theorem reads_memberLimit (tenant : UUID) (held : Option BillingAccount) :
    (memberLimit tenant held : Tx B τ _).Reads :=
  Code.reads_bind (Code.reads_select _ _) fun a => Code.reads_bind (Code.reads_select _ _) fun _ => by
    cases a <;> exact Code.reads_pure _

theorem local_memberLimit (tenant : UUID) (held : Option BillingAccount) :
    (memberLimit tenant held : Tx B τ _).Local W :=
  Code.local_bind (local_query _) fun a => Code.local_bind (local_query _) fun _ => by
    cases a <;> exact Code.local_pure _

theorem local_teamOverLimit (tenant : UUID) : (teamOverLimit tenant : Tx B τ _).Local W :=
  Code.local_bind (local_query _) fun _ => Code.local_bind (local_memberLimit _ _) fun _ =>
    Code.local_pure _

theorem local_requireRole (caller : Caller) (tenant : UUID) (subject : String)
    (roles : Option (List MemberRole)) (allowOverLimit : Bool) :
    (requireRole host caller tenant subject roles allowOverLimit : Tx B τ _).Local W :=
  Code.local_bind (local_query _) fun _ => Code.local_bind (Code.local_orRaise _ _) fun _ =>
    Code.local_bind (Code.local_require _ _) fun _ => Code.local_ite (Code.local_pure _)
      (Code.local_bind (local_teamOverLimit _) fun _ =>
        Code.local_bind (Code.local_require _ _) fun _ => Code.local_pure _)

/-- The events it records are about tenants. -/
theorem local_reconcileKeeping_of (hrecord : ∀ e, e.entityType = "tenant" → W fun w => w.record e)
    (hsuspend : ∀ ids, W (World.suspend ids)) (tenant : UUID) (held : Option BillingAccount) :
    (reconcileKeeping host tenant held : Tx B τ _).Local W := by
  refine Code.local_bind (local_memberLimit _ _) fun _ => Code.local_ite (Code.local_pure _)
    (Code.local_bind (local_query _) fun active => ?_)
  cases active.find? fun x => decide (x.2.role = .admin) with
  | none => exact Code.local_pure _
  | some administrator =>
      exact Code.local_ite (Code.local_pure _) (Code.local_bind (local_save (hsuspend _)) fun _ =>
        Code.local_bind (local_audit_of fun _ => hrecord _ rfl) fun _ => Code.local_pure _)

theorem local_reconcileKeeping (hrecord : ∀ e, W fun w => w.record e) (hsuspend : ∀ ids, W (World.suspend ids))
    (tenant : UUID) (held : Option BillingAccount) :
    (reconcileKeeping host tenant held : Tx B τ _).Local W :=
  local_reconcileKeeping_of host (fun e _ => hrecord e) hsuspend tenant held

theorem local_reconcileSingleMemberPlan (hf : Overlooks f) (tenant : UUID)
    (held : Option BillingAccount) :
    (reconcileSingleMemberPlan host tenant held : Tx B τ _).Local (Keeps f) :=
  Code.local_bind (local_reconcileKeeping host hf.record hf.suspend tenant held) fun _ => Code.local_pure _

omit [Unmarked τ] in
theorem local_protectGiven (cnpj : Option String) : (protectGiven host cnpj : Tx B τ _).Local W := by
  unfold protectGiven
  split
  · exact Code.local_pure _
  · exact Code.local_pure _
  · exact Code.local_ite (Code.local_pure _) (Code.local_raise _)

/-- The event it records is about the tenant. -/
theorem local_applyBillingBusinessIdentity_of (hrecord : ∀ e, e.entityType = "tenant" → W fun w => w.record e)
    (htenant : ∀ id t, W (World.saveTenant id t)) (tenant : UUID)
    (legalName cnpj reference : Option String) :
    (applyBillingBusinessIdentity host tenant legalName cnpj reference : Tx B τ _).Local W :=
  Code.local_bind (local_queryForUpdate _ _) fun _ => Code.local_bind (Code.local_orRaise _ _) fun _ =>
    Code.local_bind (local_protectGiven host _) fun _ => Code.local_bind (local_query _) fun _ =>
      Code.local_bind (local_claimChanged _ _ _ _) fun _ => Code.local_bind (local_save (htenant _ _)) fun _ =>
        Code.local_bind (Code.local_onlyIf _ fun _ => local_audit_of fun _ => hrecord _ rfl) fun _ =>
          Code.local_pure _

theorem local_applyBillingBusinessIdentity (hrecord : ∀ e, W fun w => w.record e)
    (htenant : ∀ id t, W (World.saveTenant id t)) (tenant : UUID)
    (legalName cnpj reference : Option String) :
    (applyBillingBusinessIdentity host tenant legalName cnpj reference : Tx B τ _).Local W :=
  local_applyBillingBusinessIdentity_of host (fun e _ => hrecord e) htenant tenant legalName cnpj reference

end Local

end Rubrica
