import Rubrica.Teams.Reactivation
import Rubrica.Transactions.Knowledge

set_option autoImplicit false

/-! # Business identity

`convert_to_business` and `apply_billing_business_identity`, of which any number run at once for any tenants. The
first writes the name it is given with white space taken off, and asks only for two characters before that; the
second refuses a name that is nothing but white space. -/

namespace Rubrica

open Transactions

variable {B Page : Type} (host : Host B Page)

/-! ## The calls -/

/-- Where in a call a statement stands. -/
inductive BusinessPoint where
  | plain
  /-- Commits a conversion. -/
  | converted (tenant : UUID)
  /-- Commits what a billing event made of the tenant, with the status it is left in. -/
  | applied (tenant : UUID) (status : Option String)

instance instUnmarkedBusiness : Unmarked BusinessPoint := ⟨.plain⟩

/-- `TenantBusinessConversion`. -/
structure TenantBusinessConversion where
  legalName : {s : String // 2 ≤ s.length ∧ s.length ≤ 240}
  cnpj : {s : String // 14 ≤ s.length ∧ s.length ≤ 18}

inductive BusinessResult where
  | converted (read : TenantRead)
  /-- The verification status. -/
  | applied (status : Option String)
  deriving DecidableEq, Repr

/-- A conversion that returns has set `format_valid`. -/
def BusinessResult.succeeded : BusinessResult → Bool
  | converted _ => true
  | applied status => status = some "stripe_format_valid"

/-- What `convert_to_business` makes of the tenant's row. -/
def Tenant.convert (legalName : String) (c : ProtectedCnpj) (t : Tenant) : Tenant :=
  { t with
    kind := .business,
    name := legalName,
    legalName := some legalName,
    registrationCountry := some "BR",
    registrationType := some "BR_CNPJ",
    registrationValueEncrypted := some c.encrypted,
    registrationLookupHmac := some c.lookup,
    registrationMasked := some c.masked,
    registrationVerificationStatus := some "format_valid" }

section Programs

/-- `business_features_enabled`, for a session that holds no account. -/
def businessFeaturesOf (tenant : UUID) : Tx B BusinessPoint Bool := do
  let account ← query (World.liveAccount tenant)
  let now ← utcNow
  pure (account.any fun a => a.businessFeaturesEnabled now)

/-- `protect_cnpj` in `convert_to_business`. -/
def protectOrRefuse (cnpj : String) : Tx B BusinessPoint ProtectedCnpj :=
  match host.protectCnpj cnpj with
  | .ok c => pure c
  | .error e => Code.raise (if e = invalidCnpj then .error "Invalid Brazilian CNPJ" 422 else e)

/-- The row of a tenant that is not deleted, locked. -/
def lockTenant (tenant : UUID) : Tx B BusinessPoint Tenant := do
  let row ← queryForUpdate
    (fun w => ((w.tenants.get? tenant).filter fun t => t.deletedAt.isNone).map fun _ => .tenant tenant)
    (fun w => (w.tenants.get? tenant).filter fun t => t.deletedAt.isNone)
  Code.orRaise row (.error "Tenant not found" 404)

/-- `convert_to_business`. -/
def convertToBusiness (caller : Caller) (tenant : UUID) (payload : TenantBusinessConversion) (subject : String) :
    Tx B BusinessPoint BusinessResult :=
  Code.transaction .plain do
    let member ← requireRole host caller tenant subject (some [.admin]) false
    let before ← lockTenant tenant
    Code.require (before.kind ≠ .business) (.error "Tenant is already a business tenant" 409)
    let business ← businessFeaturesOf tenant
    Code.require (business = true) (.error "A Professional or Team plan is required for a business tenant" 403)
    let c ← protectOrRefuse host payload.cnpj
    let conflict ← query (World.registrationTaken tenant c.lookup)
    Code.require (conflict = false) (.error "This CNPJ is already associated with another tenant" 409)
    let after := before.convert (host.strip payload.legalName) c
    claimChanged before.registrationLookupHmac after.registrationLookupHmac RowKey.registration
      (World.registrationTaken tenant)
    save (World.saveTenant tenant after)
    audit none subject "tenant.converted_to_business" "tenant" tenant
      [("registration_country", .text "BR"), ("registration_type", .text "BR_CNPJ"),
        ("registration_masked", .text c.masked), ("verification_status", .text "format_valid")]
    pure (.converted ⟨tenant, after, member.2.role⟩, .converted tenant)

/-- `apply_billing_business_identity`, in a transaction of its own. -/
def applyBillingIdentity (tenant : UUID) (legalName cnpj reference : Option String) :
    Tx B BusinessPoint BusinessResult :=
  Code.transaction .plain do
    let status ← applyBillingBusinessIdentity host tenant legalName cnpj reference
    pure (.applied status, .applied tenant status)

end Programs

/-! ## Identities -/

/-- What the business identity of a tenant consists of, and whether the tenant is deleted. -/
structure TenantIdentity where
  kind : TenantKind
  name : String
  legalName : Option String
  country : Option String
  type : Option String
  encrypted : Option String
  lookup : Option String
  masked : Option String
  deletedAt : Option Int
  deriving DecidableEq, Repr

def Tenant.identity (t : Tenant) : TenantIdentity where
  kind := t.kind
  name := t.name
  legalName := t.legalName
  country := t.registrationCountry
  type := t.registrationType
  encrypted := t.registrationValueEncrypted
  lookup := t.registrationLookupHmac
  masked := t.registrationMasked
  deletedAt := t.deletedAt

def World.identity (w : World B) (tenant : UUID) : Option TenantIdentity :=
  (w.tenants.get? tenant).map Tenant.identity

/-- A text that is there and not empty. -/
def IsGiven (x : Option String) : Prop :=
  ∃ s, x = some s ∧ s ≠ ""

/-- Nothing of a business identity is missing. -/
structure TenantIdentity.Complete (i : TenantIdentity) : Prop where
  name : i.name ≠ ""
  legalName : IsGiven i.legalName
  country : IsGiven i.country
  type : IsGiven i.type
  encrypted : IsGiven i.encrypted
  lookup : IsGiven i.lookup
  masked : IsGiven i.masked

/-- The tenant is not deleted and has the registration. -/
def TenantIdentity.Registers (lookup : String) (i : TenantIdentity) : Prop :=
  i.deletedAt = none ∧ i.lookup = some lookup

/-- Business tenants have a complete identity, and no two tenants have one registration. -/
structure World.Identified (w : World B) : Prop where
  complete : ∀ id i, w.identity id = some i → i.kind = .business → i.Complete
  unique : ∀ lookup id id' i i', w.identity id = some i → w.identity id' = some i' → i.Registers lookup →
    i'.Registers lookup → id = id'

/-- No other tenant has the registration. -/
def World.Unregistered (w : World B) (tenant : UUID) (lookup : String) : Prop :=
  ∀ id i, id ≠ tenant → w.identity id = some i → ¬i.Registers lookup

/-- A business tenant is one and has the registration it had. -/
def KeepsRegistrations (w w' : World B) : Prop :=
  ∀ id i, w.identity id = some i → i.kind = .business →
    ∃ i', w'.identity id = some i' ∧ i'.kind = .business ∧ i'.lookup = i.lookup

theorem World.unregistered_of_not_taken {w : World B} {tenant : UUID} {lookup : String}
    (h : w.registrationTaken tenant lookup = false) : w.Unregistered tenant lookup := by
  intro id i hid hi hregisters
  obtain ⟨t, ht, rfl⟩ := Option.map_eq_some_iff.1 hi
  obtain ⟨hlive, hlookup⟩ := hregisters
  have hlive : t.deletedAt = none := hlive
  have hlookup : t.registrationLookupHmac = some lookup := hlookup
  have htaken : w.registrationTaken tenant lookup = true :=
    Table.any_iff.2 ⟨id, t, ht, by simp [hid, hlive, hlookup]⟩
  rw [h] at htaken
  exact absurd htaken (by simp)

/-! ## The protocol -/

/-- The tenant whose identity the commit at a point sets. -/
def BusinessPoint.identified : BusinessPoint → Option UUID
  | plain => none
  | converted tenant => some tenant
  | applied tenant status => if status = some "stripe_format_valid" then some tenant else none

/-- The identity of one tenant is set, under the lock of its row and, where its registration changes, of the
    entry of that. -/
structure Identifies (H : Rights RowKey) (tenant : UUID) (w w' : World B) : Prop where
  locked : (.tenant tenant, .exclusive) ∈ H
  others : ∀ id, id ≠ tenant → w'.identity id = w.identity id
  row : ∃ i i' lookup, w.identity tenant = some i ∧ w'.identity tenant = some i' ∧ i'.kind = .business ∧
    i'.lookup = some lookup ∧ i'.deletedAt = i.deletedAt ∧ (i.kind = .business → i.lookup = some lookup) ∧
    (i.lookup ≠ some lookup → (.registration lookup, .exclusive) ∈ H)

/-- What others do to tenants: new ones have no registration yet. -/
def LeavesIdentities (w w' : World B) : Prop :=
  ∀ id, w'.identity id = w.identity id ∨
    w.identity id = none ∧ ∃ i, w'.identity id = some i ∧ i.kind = .personal ∧ i.lookup = none

def businessProtocol (B : Type) : Protocol (World B) RowKey BusinessPoint where
  inv := World.Identified
  guar point H w w' :=
    match point.identified with
    | none => ∀ id, w'.identity id = w.identity id
    | some tenant => Identifies H tenant w w'
  env := LeavesIdentities
  cond _ _ := True
  lossy := True

section Knowledge

variable {H : Rights RowKey} {tenant : UUID} {before : TenantIdentity} {claimed : Option String} {w w' : World B}

/-- What a call has locked: the row of the tenant, and the entry of a registration where it has taken one. -/
def identityRights (tenant : UUID) (claimed : Option String) : Rights RowKey :=
  (.tenant tenant, .exclusive) :: (claimed.map fun lookup => (RowKey.registration lookup, LockMode.exclusive)).toList

/-- What it knows by that. -/
def IdentityKnown (tenant : UUID) (before : TenantIdentity) (claimed : Option String) (w : World B) : Prop :=
  w.identity tenant = some before ∧ ∀ lookup ∈ claimed, w.Unregistered tenant lookup

theorem stable_identityKnown (hH : identityRights tenant claimed ⊆ H) :
    (businessProtocol B).Stable H (IdentityKnown tenant before claimed) := by
  rintro s s' ⟨-, -, henv | ⟨point, H', hcompat, -, hg⟩⟩ ⟨hrow, hfree⟩
  · refine ⟨?_, fun lookup hl id i hid hi hregisters => ?_⟩
    · rcases henv tenant with hsame | ⟨hnone, -⟩
      · rw [hsame, hrow]
      · rw [hnone] at hrow
        exact absurd hrow (by simp)
    · rcases henv id with hsame | ⟨-, i', hi', -, hlookup⟩
      · exact hfree lookup hl id i hid (hsame ▸ hi) hregisters
      · obtain rfl := Option.some.inj (hi.symm.trans hi')
        exact absurd (hregisters.2.symm.trans hlookup) (by simp)
  · cases hpoint : point.identified with
    | none =>
        simp only [businessProtocol, hpoint] at hg
        refine ⟨by rw [hg, hrow], fun lookup hl id i hid hi => ?_⟩
        exact hfree lookup hl id i hid (hg id ▸ hi)
    | some other =>
        simp only [businessProtocol, hpoint] at hg
        have hne : tenant ≠ other := fun he =>
          hcompat.ne_of_exclusive (hH List.mem_cons_self) hg.locked (congrArg RowKey.tenant he.symm)
        refine ⟨by rw [hg.others tenant hne, hrow], fun lookup hl id i hid hi hregisters => ?_⟩
        by_cases hother : id = other
        · subst hother
          obtain ⟨i₀, i', lookup', hi₀, hi', -, hlookup', hdeleted, -, hclaimed⟩ := hg.row
          obtain rfl := Option.some.inj (hi.symm.trans hi')
          obtain rfl := Option.some.inj (hlookup'.symm.trans hregisters.2)
          have hheld : (RowKey.registration lookup', LockMode.exclusive) ∈ H :=
            hH (List.mem_cons_of_mem _ (Option.mem_toList.2 (Option.mem_map_of_mem _ hl)))
          have hold : i₀.lookup = some lookup' := by
            by_contra hold
            exact hcompat.ne_of_exclusive hheld (hclaimed hold) rfl
          exact hfree lookup' hl id i₀ hid hi₀ ⟨hdeleted.symm.trans hregisters.1, hold⟩
        · exact hfree lookup hl id i hid (hg.others id hother ▸ hi) hregisters

/-- An identity is set: the others are as they were, and the new one is complete and free. -/
theorem World.Identified.identify (h : w.Identified) {after : TenantIdentity} {lookup : String}
    (hothers : ∀ id, id ≠ tenant → w'.identity id = w.identity id) (hbefore : w.identity tenant = some before)
    (hafter : w'.identity tenant = some after) (hcomplete : after.Complete) (hlookup : after.lookup = some lookup)
    (hdeleted : after.deletedAt = before.deletedAt)
    (hfree : before.lookup = some lookup ∨ w.Unregistered tenant lookup) : w'.Identified := by
  have alone : ∀ ℓ id i, id ≠ tenant → w.identity id = some i → i.Registers ℓ → ¬after.Registers ℓ := by
    rintro ℓ id i hid hi hregisters ⟨hlive, hℓ⟩
    obtain rfl := Option.some.inj (hlookup.symm.trans hℓ)
    rcases hfree with hold | hfree
    · exact hid (h.unique lookup id tenant i before hi hbefore hregisters ⟨hdeleted.symm.trans hlive, hold⟩)
    · exact hfree id i hid hi hregisters
  refine ⟨fun id i hi hkind => ?_, fun ℓ id id' i i' hi hi' hr hr' => ?_⟩
  · by_cases hid : id = tenant
    · subst hid
      obtain rfl := Option.some.inj (hi.symm.trans hafter)
      exact hcomplete
    · exact h.complete id i (hothers id hid ▸ hi) hkind
  · by_cases hid : id = tenant
    · subst hid
      obtain rfl := Option.some.inj (hi.symm.trans hafter)
      by_contra hne
      exact alone ℓ id' i' (Ne.symm hne) (hothers id' (Ne.symm hne) ▸ hi') hr' hr
    · by_cases hid' : id' = tenant
      · subst hid'
        obtain rfl := Option.some.inj (hi'.symm.trans hafter)
        exact absurd hr' (alone ℓ id i hid (hothers id hid ▸ hi) hr)
      · exact h.unique ℓ id id' i i' (hothers id hid ▸ hi) (hothers id' hid' ▸ hi') hr hr'

/-- Others keep what is required of identities. -/
theorem World.Identified.env (h : w.Identified) (henv : LeavesIdentities w w') : w'.Identified := by
  have old : ∀ id i, w'.identity id = some i → w.identity id = some i ∨ i.kind = .personal ∧ i.lookup = none := by
    intro id i hi
    rcases henv id with hsame | ⟨-, i', hi', hkind, hlookup⟩
    · exact Or.inl (hsame ▸ hi)
    · obtain rfl := Option.some.inj (hi.symm.trans hi')
      exact Or.inr ⟨hkind, hlookup⟩
  have registered : ∀ ℓ id i, w'.identity id = some i → i.Registers ℓ → w.identity id = some i := by
    intro ℓ id i hi hr
    refine (old id i hi).resolve_right fun hnew => ?_
    exact absurd (hnew.2.symm.trans hr.2) (by simp)
  refine ⟨fun id i hi hkind => ?_, fun ℓ id id' i i' hi hi' hr hr' => ?_⟩
  · rcases old id i hi with hi | ⟨hpersonal, -⟩
    · exact h.complete id i hi hkind
    · exact absurd (hkind.symm.trans hpersonal) (by simp)
  · exact h.unique ℓ id id' i i' (registered ℓ id i hi hr) (registered ℓ id' i' hi' hr') hr hr'

theorem World.Identified.congr (h : w.Identified) (hsame : ∀ id, w'.identity id = w.identity id) : w'.Identified :=
  h.env fun id => Or.inl (hsame id)

/-! ## What the commits do -/

theorem keepsRegistrations_refl (w : World B) : KeepsRegistrations w w :=
  fun _ i hi hkind => ⟨i, hi, hkind, rfl⟩

theorem KeepsRegistrations.trans {w'' : World B} (h : KeepsRegistrations w w') (h' : KeepsRegistrations w' w'') :
    KeepsRegistrations w w'' := by
  intro id i hi hkind
  obtain ⟨i', hi', hkind', hlookup⟩ := h id i hi hkind
  obtain ⟨i'', hi'', hkind'', hlookup'⟩ := h' id i' hi' hkind'
  exact ⟨i'', hi'', hkind'', hlookup'.trans hlookup⟩

theorem LeavesIdentities.keeps (h : LeavesIdentities w w') : KeepsRegistrations w w' := by
  intro id i hi hkind
  rcases h id with hsame | ⟨hnone, -⟩
  · exact ⟨i, hsame.trans hi, hkind, rfl⟩
  · rw [hi] at hnone
    exact absurd hnone (by simp)

theorem Identifies.keeps (h : Identifies H tenant w w') : KeepsRegistrations w w' := by
  intro id i hi hkind
  by_cases hid : id = tenant
  · subst hid
    obtain ⟨i₀, i', lookup, hi₀, hi', hkind', hlookup', -, hbusiness, -⟩ := h.row
    obtain rfl := Option.some.inj (hi.symm.trans hi₀)
    exact ⟨i', hi', hkind', hlookup'.trans (hbusiness hkind).symm⟩
  · exact ⟨i, (h.others id hid).trans hi, hkind, rfl⟩

end Knowledge

section Calls

variable {host} {tenant : UUID} {before after : Tenant} {claimed : Option String} {c : Ctx (World B) RowKey}
  {s : World B} {M : World B → Table UUID Tenant → Prop}

/-- Nothing is written to tenants yet. -/
abbrev TenantsAsFound (w : World B) (tenants : Table UUID Tenant) : Prop :=
  tenants = w.tenants

/-- The row of one tenant is replaced. -/
abbrev Replaced (tenant : UUID) (t : Tenant) (w : World B) (tenants : Table UUID Tenant) : Prop :=
  tenants = w.tenants.update tenant fun _ => t

/-- A call that has locked its tenant. -/
abbrev KnowsIdentity (tenant : UUID) (before : Tenant) (claimed : Option String)
    (M : World B → Table UUID Tenant → Prop) (c : Ctx (World B) RowKey) (s : World B) : Prop :=
  (businessProtocol B).Knows World.tenants (fun _ => True) (identityRights tenant claimed)
    (IdentityKnown tenant before.identity claimed) M c s

theorem unseen_recordOf (e : AuditEvent) : Protocol.Unseen World.tenants fun w : World B => w.record e :=
  fun _ => rfl

theorem identity_of_replaced {w w' : World B} {t : Tenant} (h : Replaced tenant t w w'.tenants)
    (hthere : w.identity tenant ≠ none) (id : UUID) :
    w'.identity id = if id = tenant then some t.identity else w.identity id := by
  unfold World.identity at hthere ⊢
  rw [h, Table.get?_update]
  split
  · next hid =>
    subst hid
    cases hrow : w.tenants.get? id with
    | none => exact absurd (by rw [hrow]; rfl) hthere
    | some t => rfl
  · rfl

theorem replaced_saveTenant {v w : World B} {t : Tenant} (h : TenantsAsFound v w.tenants) :
    Replaced tenant t v (World.saveTenant tenant t w).tenants := by
  unfold Replaced World.saveTenant
  rw [h]

/-- At the start of a call nothing is known and nothing written. -/
theorem knows_start : (businessProtocol B).Knows World.tenants (fun _ => True) [] (fun _ => True) TenantsAsFound
    (.start []) s :=
  Protocol.Knows.start (c := .start []) (Protocol.stable_const _ True) trivial (fun _ _ => trivial) rfl

/-- The row of a tenant that is not deleted is locked where it is found. -/
theorem wp_lockRow {K : Rights RowKey}
    (h : (businessProtocol B).Knows World.tenants (fun _ => True) K (fun _ => True) TenantsAsFound c s)
    {Q : Option Tenant → Ctx (World B) RowKey → World B → Prop}
    (hQ : ∀ row c' s', (∀ t ∈ row, t.deletedAt = none ∧ KnowsIdentity tenant t none TenantsAsFound c' s') → Q row c' s') :
    (businessProtocol B).wp (queryForUpdate
      (fun w => ((w.tenants.get? tenant).filter fun t => t.deletedAt.isNone).map fun _ => .tenant tenant)
      (fun w => (w.tenants.get? tenant).filter fun t => t.deletedAt.isNone)) Q (fun _ _ _ => True) c s := by
  refine Protocol.wp_knowingLock h (fun s' hs hrow => hQ _ _ _ fun t ht => ?_)
    fun s' r hs hrow => hQ _ _ _ fun t ht => ?_
  · rw [Option.map_eq_none_iff] at hrow
    rw [hrow] at ht
    exact absurd ht (by simp)
  · obtain ⟨-, -, rfl⟩ := Option.map_eq_some_iff.1 hrow
    obtain ⟨hget, hlive⟩ := Option.filter_eq_some_iff.1 ht
    rw [hs.pending s' hs.now] at hget
    have hknown : IdentityKnown tenant t.identity none s' :=
      ⟨by rw [World.identity, hget]; rfl, fun _ hl => absurd hl (by simp)⟩
    exact ⟨by simpa using hlive, fun x hx => List.mem_cons.2 (Or.inl (by simpa [identityRights] using hx)),
      stable_identityKnown fun _ h => h, hknown, fun _ _ => trivial, fun v _ => hs.pending v trivial⟩

/-- The entry of the registration is taken where it changes. -/
theorem wp_claimRegistration (h : KnowsIdentity tenant before none TenantsAsFound c s)
    {Q : Unit → Ctx (World B) RowKey → World B → Prop}
    (hQ : ∀ claimed c' s', KnowsIdentity tenant before claimed TenantsAsFound c' s' →
      (∀ lookup, after.registrationLookupHmac = some lookup →
        before.registrationLookupHmac = some lookup ∨ lookup ∈ claimed) → Q () c' s') :
    (businessProtocol B).wp (claimChanged before.registrationLookupHmac after.registrationLookupHmac
      RowKey.registration (World.registrationTaken tenant)) Q (fun _ _ _ => True) c s := by
  unfold claimChanged
  cases hafter : after.registrationLookupHmac with
  | none => exact hQ none c s h fun lookup hlookup => absurd (hafter.symm.trans hlookup) (by simp)
  | some lookup =>
    have hsame : ∀ claimed : Option String, before.registrationLookupHmac = some lookup ∨ lookup ∈ claimed →
        ∀ lookup', after.registrationLookupHmac = some lookup' →
          before.registrationLookupHmac = some lookup' ∨ lookup' ∈ claimed := by
      intro claimed hor lookup' hlookup'
      obtain rfl := Option.some.inj (hafter.symm.trans hlookup')
      exact hor
    show (businessProtocol B).wp (Code.onlyIf _ _) _ _ _ _
    unfold Code.onlyIf
    split
    · refine Protocol.wp_seq (Protocol.wp_knowingLock h (fun s' _ hnone => absurd hnone (by simp))
        fun s' r hs hrow => Protocol.wp_require (fun hfree => ?_) fun _ => trivial)
      obtain rfl := Option.some.inj hrow
      have hfree : s'.Unregistered tenant lookup := by
        refine World.unregistered_of_not_taken ?_
        rw [← hfree, World.registrationTaken, World.registrationTaken, hs.pending s' hs.now]
      refine hQ (some lookup) _ s' ⟨fun x hx => ?_, stable_identityKnown fun _ h => h, ⟨hs.now.1, fun l hl => ?_⟩,
        fun _ _ => trivial, fun v hv => hs.pending v ⟨hv.1, fun _ hl => absurd hl (by simp)⟩⟩
        (hsame (some lookup) (Or.inr rfl))
      · rcases List.mem_cons.1 hx with rfl | hx
        · exact List.mem_cons_of_mem _ (hs.held List.mem_cons_self)
        · exact List.mem_cons.2 (Or.inl (by simpa using hx))
      · obtain rfl := Option.some.inj hl
        exact hfree
    · next hold => exact hQ none c s h (hsame none (Or.inl (by simpa using hold)))

/-- What the row comes to when an identity is set. -/
structure SetsIdentity (before after : Tenant) (lookup : String) : Prop where
  kind : after.kind = .business
  registration : after.registrationLookupHmac = some lookup
  deletedAt : after.deletedAt = before.deletedAt
  same : before.kind = .business → before.registrationLookupHmac = some lookup
  complete : after.identity.Complete

/-- The commit of a call that has replaced its row. -/
theorem commits_identity {point : BusinessPoint} (h : KnowsIdentity tenant before claimed (Replaced tenant after) c s)
    (hclaimed : ∀ lookup, after.registrationLookupHmac = some lookup →
      before.registrationLookupHmac = some lookup ∨ lookup ∈ claimed)
    (hsets : match point.identified with
      | none => after.identity = before.identity
      | some other => other = tenant ∧ ∃ lookup, SetsIdentity before after lookup) :
    (businessProtocol B).CommitsAt point (fun _ => True) (fun _ _ => True) c s := by
  refine Protocol.commits_knowing h fun v v' hv hinv _ hreplaced => ?_
  have hinv : v.Identified := hinv
  have hidentity := identity_of_replaced hreplaced (by rw [hv.1]; simp)
  have hothers : ∀ id, id ≠ tenant → v'.identity id = v.identity id := fun id hid => by rw [hidentity, if_neg hid]
  have hrow : v'.identity tenant = some after.identity := by rw [hidentity, if_pos rfl]
  cases hpoint : point.identified with
  | none =>
      rw [hpoint] at hsets
      have hsame : ∀ id, v'.identity id = v.identity id := by
        intro id
        by_cases hid : id = tenant
        · rw [hid, hrow, hv.1, hsets]
        · exact hothers id hid
      refine ⟨hinv.congr hsame, ?_, trivial, fun _ => trivial⟩
      simpa only [businessProtocol, hpoint] using hsame
  | some other =>
      rw [hpoint] at hsets
      obtain ⟨rfl, lookup, hsets⟩ := hsets
      refine ⟨hinv.identify hothers hv.1 hrow hsets.complete hsets.registration hsets.deletedAt ?_, ?_, trivial,
        fun _ => trivial⟩
      · exact (hclaimed lookup hsets.registration).imp (fun hold => hold) (hv.2 lookup)
      · simp only [businessProtocol, hpoint]
        refine ⟨h.held List.mem_cons_self, hothers, before.identity, after.identity, lookup, hv.1, hrow, hsets.kind,
          hsets.registration, hsets.deletedAt, hsets.same, fun hne => h.held (List.mem_cons_of_mem _ ?_)⟩
        exact Option.mem_toList.2 (Option.mem_map_of_mem _ ((hclaimed lookup hsets.registration).resolve_left hne))

/-- No part of what `protect_cnpj` returns is empty. -/
structure ProtectedCnpj.IsWhole (c : ProtectedCnpj) : Prop where
  encrypted : c.encrypted ≠ ""
  lookup : c.lookup ≠ ""
  masked : c.masked ≠ ""

theorem setsIdentity_convert {name : String} {c : ProtectedCnpj} (hkind : before.kind ≠ .business) (hname : name ≠ "")
    (hc : c.IsWhole) : SetsIdentity before (before.convert name c) c.lookup where
  kind := rfl
  registration := rfl
  deletedAt := rfl
  same hbusiness := absurd hbusiness hkind
  complete := ⟨hname, ⟨name, rfl, hname⟩, ⟨"BR", rfl, by decide⟩, ⟨"BR_CNPJ", rfl, by decide⟩,
    ⟨c.encrypted, rfl, hc.encrypted⟩, ⟨c.lookup, rfl, hc.lookup⟩, ⟨c.masked, rfl, hc.masked⟩⟩

/-- A billing event sets an identity, or leaves it and says why. -/
theorem applyIdentity_cases (host : Host B Page) {legalName reference : Option String} {number : Option ProtectedCnpj}
    {given conflict : Bool} (hnumber : ∀ c ∈ number, c.IsWhole)
    (hafter : after = before.applyIdentity host legalName reference number given conflict) :
    after.identity = before.identity ∧ after.registrationVerificationStatus ≠ some "stripe_format_valid" ∨
      after.registrationVerificationStatus = some "stripe_format_valid" ∧
        ∃ lookup, SetsIdentity before after lookup := by
  subst hafter
  unfold Tenant.applyIdentity
  dsimp only
  split
  · exact Or.inl ⟨rfl, by simp⟩
  · split
    · exact Or.inl ⟨rfl, by simp⟩
    · next c =>
      split
      · exact Or.inl ⟨rfl, by simp⟩
      · next hmatch =>
        split
        · exact Or.inl ⟨rfl, by simp⟩
        · split
          · exact Or.inl ⟨rfl, by simp⟩
          · next name hname =>
            have hc := hnumber c rfl
            have hname : name ≠ "" := by
              obtain ⟨-, hname⟩ := Option.filter_eq_some_iff.1 hname
              simpa using hname
            refine Or.inr ⟨rfl, c.lookup, rfl, rfl, rfl, fun hkind => ?_, ?_⟩
            · by_contra hne
              exact hmatch ⟨hkind, hne⟩
            · exact ⟨hname, ⟨name, rfl, hname⟩, ⟨"BR", rfl, by decide⟩, ⟨"BR_CNPJ", rfl, by decide⟩,
                ⟨c.encrypted, rfl, hc.encrypted⟩, ⟨c.lookup, rfl, hc.lookup⟩, ⟨c.masked, rfl, hc.masked⟩⟩

theorem local_businessFeaturesOf {W : (World B → World B) → Prop} :
    (businessFeaturesOf tenant : Tx B BusinessPoint Bool).Local W :=
  Code.local_bind (local_query _) fun _ => Code.local_bind (local_query _) fun _ => Code.local_pure _

theorem wp_protectOrRefuse {cnpj : String} {Q : ProtectedCnpj → Ctx (World B) RowKey → World B → Prop}
    (hQ : ∀ number, host.protectCnpj cnpj = .ok number → Q number c s) :
    (businessProtocol B).wp (protectOrRefuse host cnpj) Q (fun _ _ _ => True) c s := by
  unfold protectOrRefuse
  split
  · next number hnumber => exact hQ number hnumber
  · trivial

theorem wp_protectGiven {cnpj : Option String} {Q : Option ProtectedCnpj → Ctx (World B) RowKey → World B → Prop}
    (hQ : ∀ number : Option ProtectedCnpj, (∀ x ∈ number, ∃ s ∈ cnpj, host.protectCnpj s = .ok x) → Q number c s) :
    (businessProtocol B).wp (protectGiven host cnpj) Q (fun _ _ _ => True) c s := by
  unfold protectGiven
  split
  · exact hQ none fun _ hx => absurd hx (by simp)
  · next number hnumber =>
    obtain ⟨text, htext, hprotect⟩ := Option.map_eq_some_iff.1 hnumber
    refine hQ (some number) fun x hx => ⟨text, htext, ?_⟩
    obtain rfl := Option.some.inj hx
    exact hprotect
  · split
    · exact hQ none fun _ hx => absurd hx (by simp)
    · trivial

/-- `protect_cnpj` of the host returns nothing empty. -/
def Host.ProtectsWhole (host : Host B Page) : Prop :=
  ∀ cnpj number, host.protectCnpj cnpj = .ok number → number.IsWhole

theorem wp_convertToBusiness {caller : Caller} {payload : TenantBusinessConversion} {subject : String}
    (hhost : host.ProtectsWhole) (hname : host.strip payload.legalName ≠ "") :
    (businessProtocol B).wp (convertToBusiness host caller tenant payload subject) (fun _ _ _ => True)
      (fun _ _ _ => True) (.start []) s := by
  refine Protocol.wp_transaction (D := fun _ _ => True) (fun _ h => h) (fun _ => Protocol.stable_const _ _)
    (fun _ _ _ _ => trivial) ?_
  have h0 := knows_start (s := s)
  refine Protocol.wp_seq (Protocol.wp_knowing (local_requireRole host caller _ _ _ _) h0 fun member c1 s1 h1 => ?_)
  refine Protocol.wp_seq (Protocol.wp_seq (wp_lockRow h1 fun row c2 s2 hrow =>
    Protocol.wp_orRaise (fun before hbefore => ?_) fun _ => trivial))
  obtain ⟨-, h2⟩ := hrow before hbefore
  refine Protocol.wp_seq (Protocol.wp_knowingRequire h2 fun hkind => ?_)
  refine Protocol.wp_seq (Protocol.wp_knowing local_businessFeaturesOf h2 fun business c3 s3 h3 => ?_)
  refine Protocol.wp_seq (Protocol.wp_knowingRequire h3 fun _ => ?_)
  refine Protocol.wp_seq (wp_protectOrRefuse fun number hnumber => ?_)
  refine Protocol.wp_seq (Protocol.wp_knowing (local_query _) h3 fun conflict c4 s4 h4 => ?_)
  refine Protocol.wp_seq (Protocol.wp_knowingRequire h4 fun _ => ?_)
  refine Protocol.wp_seq (wp_claimRegistration h4 fun claimed c5 s5 h5 hclaimed => ?_)
  refine Protocol.wp_seq (Protocol.wp_knowingWrite
    (N := Replaced tenant (before.convert (host.strip payload.legalName) number)) h5
    (fun _ _ _ hw => replaced_saveTenant hw) fun c6 s6 h6 => ?_)
  refine Protocol.wp_seq (Protocol.wp_knowing (local_audit unseen_recordOf _ _ _ _ _ _) h6 fun _ c7 s7 h7 => ?_)
  exact Protocol.wp_pure (commits_identity h7 hclaimed
    ⟨rfl, number.lookup, setsIdentity_convert hkind hname (hhost _ _ hnumber)⟩)

theorem wp_applyBillingIdentity {legalName cnpj reference : Option String} (hhost : host.ProtectsWhole) :
    (businessProtocol B).wp (applyBillingIdentity host tenant legalName cnpj reference) (fun _ _ _ => True)
      (fun _ _ _ => True) (.start []) s := by
  refine Protocol.wp_transaction (D := fun _ _ => True) (fun _ h => h) (fun _ => Protocol.stable_const _ _)
    (fun _ _ _ _ => trivial) (Protocol.wp_seq ?_)
  have h0 := knows_start (s := s)
  refine Protocol.wp_seq (wp_lockRow h0 fun row c1 s1 hrow => ?_)
  refine Protocol.wp_seq (Protocol.wp_orRaise (fun before hbefore => ?_) fun _ => trivial)
  obtain ⟨-, h1⟩ := hrow before hbefore
  refine Protocol.wp_seq (wp_protectGiven fun number hnumber => ?_)
  refine Protocol.wp_seq (Protocol.wp_knowing (local_query _) h1 fun conflict c2 s2 h2 => ?_)
  obtain ⟨after, hafter⟩ : ∃ after, after = before.applyIdentity host legalName reference number
    (present cnpj).isSome conflict := ⟨_, rfl⟩
  have hcases := applyIdentity_cases host (fun x hx => (hnumber x hx).elim fun _ h => hhost _ _ h.2) hafter
  rw [← hafter]
  refine Protocol.wp_seq (wp_claimRegistration h2 fun claimed c3 s3 h3 hclaimed => ?_)
  refine Protocol.wp_seq (Protocol.wp_knowingWrite (N := Replaced tenant after) h3
    (fun _ _ _ hw => replaced_saveTenant hw) fun c4 s4 h4 => ?_)
  refine Protocol.wp_seq (Protocol.wp_knowing (Code.local_onlyIf _ fun _ =>
    local_audit unseen_recordOf _ _ _ _ _ _) h4 fun _ c5 s5 h5 => ?_)
  refine Protocol.wp_pure (Protocol.wp_pure (commits_identity h5 hclaimed ?_))
  rcases hcases with ⟨hsame, hstatus⟩ | ⟨hstatus, hsets⟩
  · rw [BusinessPoint.identified, if_neg hstatus]
    exact hsame
  · rw [BusinessPoint.identified, if_pos hstatus]
    exact ⟨rfl, hsets⟩

end Calls

/-! ## Runs -/

abbrev BusinessSystem (B : Type) := System (World B) RowKey BusinessPoint Failure BusinessResult
abbrev BusinessLabel (B : Type) := Label (World B) RowKey BusinessPoint Failure BusinessResult
abbrev BusinessStep (B : Type) := BusinessSystem B × BusinessLabel B
abbrev BusinessDeed (B : Type) := Deed (World B) BusinessPoint

/-- What `protect_cnpj` uses: the tables of Unicode, and HMAC under the key of the settings. -/
structure CnpjKeys where
  characters : Texts.CharacterData
  hmac : String → String
  digest : ∀ s, hmac s ≠ ""

/-- Fernet, as it encrypts in one call. -/
abbrev Fernet : Type :=
  {encrypt : String → String // ∀ s, encrypt s ≠ ""}

/-- The host of one call. -/
def Host.withCnpj (keys : CnpjKeys) (fernet : Fernet) : Host B Page :=
  { host with
    protectCnpj := Rubrica.protectCnpj keys.characters fernet.val keys.hmac }

theorem Host.withCnpj_protectsWhole (keys : CnpjKeys) (fernet : Fernet) :
    (host.withCnpj keys fernet).ProtectsWhole := by
  intro cnpj number hnumber
  have hnumber : Rubrica.protectCnpj keys.characters fernet.val keys.hmac cnpj = .ok number := hnumber
  obtain ⟨normalized, -, hnumber⟩ := bind_eq_ok.1 hnumber
  obtain rfl := Except.ok.inj hnumber
  refine ⟨fernet.2 normalized, keys.digest normalized, fun hempty => ?_⟩
  have hlength := congrArg String.length hempty
  simp at hlength

/-- Any number of calls for any tenants, with the payloads that are allowed. Nobody else sets an identity. -/
def businessCalls (keys : CnpjKeys) (allowed : TenantBusinessConversion → Prop) :
    Setting (World B) RowKey BusinessPoint Failure BusinessResult where
  starts base code _ := base = [] ∧ ∃ fernet,
    (∃ caller tenant payload subject, allowed payload ∧
      code = convertToBusiness (host.withCnpj keys fernet) caller tenant payload subject) ∨
    ∃ tenant legalName cnpj reference,
      code = applyBillingIdentity (host.withCnpj keys fernet) tenant legalName cnpj reference
  env := LeavesIdentities
  lossy := True

/-- Session `i` has raised an exception, or returned another status. -/
def EndsWithoutSuccess (Z : BusinessSystem B) (i : Nat) : Prop :=
  Z.hasRaised i = true ∨ ∃ r, Z.returned i = some r ∧ r.succeeded = false

/-- Business tenants keep a complete identity and their registration, of which no two tenants have one; a call that
    neither dies nor misses the word of its commit, and does not end in success, leaves every identity as it is. -/
structure BusinessIdentities (steps : List (BusinessStep B)) (Z : BusinessSystem B) : Prop where
  identified : Z.shared.Identified
  stable : ∀ x ∈ steps, KeepsRegistrations x.1.shared Z.shared
  refused : ∀ i, EndsWithoutSuccess Z i → (∀ x ∈ steps, x.2 ≠ .crash i ∧ x.2 ≠ .lose i) →
    ∀ x ∈ steps, x.2.session = some i → ∀ X', x.1.step x.2 = some X' →
      ∀ id, X'.shared.identity id = x.1.shared.identity id

section Runs

variable {host} {keys : CnpjKeys} {allowed : TenantBusinessConversion → Prop} {Y Z : BusinessSystem B}
  {steps : List (BusinessStep B)} {i : Nat} {tenant : UUID}

/-! ### Calls that do not succeed -/

/-- None of the deeds sets an identity. -/
def SetsNone (deeds : List (BusinessDeed B)) : Prop :=
  ∀ d ∈ deeds, d.point.identified = none

theorem setsNone_nil : SetsNone ([] : List (BusinessDeed B)) :=
  fun _ hd => absurd hd List.not_mem_nil

/-- What a call has done where it ends. -/
abbrev BusinessEnsures (x : Tx B BusinessPoint BusinessResult) : Prop :=
  x.ensures (fun _ => True) (fun _ => True) (fun r _ l => r.succeeded = false → SetsNone l) (fun _ _ l => SetsNone l)
    id []

/-- Any writes. -/
abbrev AnyWrite : (World B → World B) → Prop :=
  fun _ => True

theorem ensures_convertToBusiness {caller : Caller} {payload : TenantBusinessConversion} {subject : String} :
    BusinessEnsures (convertToBusiness host caller tenant payload subject) := by
  have quiet : ∀ {β γ : Type} {x : Tx B BusinessPoint β} {f : β → Tx B BusinessPoint γ} {u : World B → World B}
      {Q : γ → (World B → World B) → List (BusinessDeed B) → Prop}, x.Local AnyWrite →
      (∀ a v, (f a).ensures (fun _ => True) (fun _ => True) Q (fun _ _ l => SetsNone l) v []) →
        (x >>= f).ensures (fun _ => True) (fun _ => True) Q (fun _ _ l => SetsNone l) u [] :=
    fun hx hf => Code.ensures_quiet hx trivial (fun _ _ _ _ => trivial) (fun a v _ => hf a v) fun _ _ => setsNone_nil
  have hlock : (lockTenant tenant : Tx B BusinessPoint Tenant).Local AnyWrite :=
    Code.local_bind (local_queryForUpdate _ _) fun _ => Code.local_orRaise _ _
  have hprotect : (protectOrRefuse host payload.cnpj : Tx B BusinessPoint ProtectedCnpj).Local AnyWrite := by
    unfold protectOrRefuse
    split
    · exact Code.local_pure _
    · exact Code.local_raise _
  refine Code.ensures_transaction ?_
  refine quiet (local_requireRole host caller _ _ _ _) fun member _ => quiet hlock fun before _ => ?_
  refine quiet (Code.local_require _ _) fun _ _ => quiet local_businessFeaturesOf fun business _ => ?_
  refine quiet (Code.local_require _ _) fun _ _ => quiet hprotect fun number _ => ?_
  refine quiet (local_query _) fun conflict _ => quiet (Code.local_require _ _) fun _ _ => ?_
  refine quiet (local_claimChanged _ _ _ _) fun _ _ => quiet (local_save trivial) fun _ _ => ?_
  refine quiet (local_audit (fun _ => trivial) _ _ _ _ _ _) fun _ _ => ?_
  exact ⟨setsNone_nil, fun _ _ hfailed => absurd hfailed (by simp [BusinessResult.succeeded])⟩

theorem ensures_applyBillingIdentity {legalName cnpj reference : Option String} :
    BusinessEnsures (applyBillingIdentity host tenant legalName cnpj reference) := by
  refine Code.ensures_transaction (Code.ensures_quiet (V := AnyWrite)
    (local_applyBillingBusinessIdentity host (fun _ => trivial) (fun _ _ => trivial) _ _ _ _) trivial
    (fun _ _ _ _ => trivial) (fun status v _ => ⟨setsNone_nil, fun s _ hfailed d hd => ?_⟩) fun _ _ => setsNone_nil)
  obtain rfl := List.mem_singleton.1 hd
  have hstatus : status ≠ some "stripe_format_valid" := by simpa [BusinessResult.succeeded] using hfailed
  exact if_neg hstatus

theorem ensures_of_starts {base : Rights RowKey} {code : Tx B BusinessPoint BusinessResult} {w : World B}
    (h : (businessCalls host keys allowed).starts base code w) : BusinessEnsures code := by
  obtain ⟨-, fernet, ⟨caller, tenant, payload, subject, -, rfl⟩ | ⟨tenant, legalName, cnpj, reference, rfl⟩⟩ := h
  · exact ensures_convertToBusiness
  · exact ensures_applyBillingIdentity

theorem setsNone_of_refused (hrun : Run (businessCalls host keys allowed) Y steps Z) (hidle : Y.sessions = [])
    (hended : EndsWithoutSuccess Z i) (hlives : ∀ x ∈ steps, x.2 ≠ .crash i ∧ x.2 ≠ .lose i) :
    SetsNone (deedsOf i steps) := by
  have h := hrun.ensures (J := fun _ => True) (F := fun _ => True)
    (Q := fun r _ l => r.succeeded = false → SetsNone l) (E := fun _ _ l => SetsNone l) hidle
    ⟨fun _ _ _ => trivial, fun _ _ _ _ _ _ => trivial, hlives⟩ fun x hx base code hcode _ => by
      obtain ⟨past, rest, rfl⟩ := List.append_of_mem hx
      have hallowed := hrun.split.2.1
      rw [hcode] at hallowed
      exact ensures_of_starts hallowed
  rcases hended with hraised | ⟨r, hreturned, hfailed⟩
  · unfold System.hasRaised at hraised
    split at hraised
    · next hcode =>
      rw [hcode] at h
      exact h
    · exact absurd hraised (by simp)
  · unfold System.returned at hreturned
    split at hreturned
    · next hcode =>
      rw [hcode] at h
      obtain rfl := Option.some.inj hreturned
      exact h hfailed
    · exact absurd hreturned (by simp)

/-! ### What holds along a run -/

theorem business_governed (hnamed : ∀ payload, allowed payload → host.strip payload.legalName ≠ "") :
    (businessProtocol B).Governs (fun _ _ _ => True) (fun _ _ _ => True) (businessCalls host keys allowed) where
  lasting := Protocol.lasting_true
  lasting_raise := Protocol.lasting_true
  starts := by
    rintro base code w - ⟨rfl, fernet, ⟨caller, tenant, payload, subject, hallowed, rfl⟩ |
      ⟨tenant, legalName, cnpj, reference, rfl⟩⟩
    · exact wp_convertToBusiness (host.withCnpj_protectsWhole keys fernet) (hnamed payload hallowed)
    · exact wp_applyBillingIdentity (host.withCnpj_protectsWhole keys fernet)
  env := fun _ _ hinv henv => ⟨henv, World.Identified.env hinv henv⟩
  lossy := fun h => h
  fault := fun _ _ _ => trivial

/-- One move keeps the registrations of business tenants. -/
theorem keeps_of_moves {X : BusinessSystem B} {l : BusinessLabel B} {w : World B}
    (h : (businessProtocol B).Moves X l w) : KeepsRegistrations X.shared w := by
  unfold Protocol.Moves at h
  split at h
  · next point hpub =>
    obtain ⟨H, hg⟩ := h
    cases hpoint : point.identified with
    | none =>
        simp only [businessProtocol, hpoint] at hg
        exact LeavesIdentities.keeps fun id => Or.inl (hg id)
    | some tenant =>
        simp only [businessProtocol, hpoint] at hg
        exact hg.keeps
  · rcases h with rfl | henv
    · exact keepsRegistrations_refl _
    · exact LeavesIdentities.keeps henv

/-- **Business identity is stable and unique** where no conversion is given a name of nothing but white space. -/
theorem business_identities (hrun : Run (businessCalls host keys allowed) Y steps Z) (hidle : Y.sessions = [])
    (hidentified : Y.shared.Identified) (hnamed : ∀ payload, allowed payload → host.strip payload.legalName ≠ "") :
    BusinessIdentities steps Z := by
  have hgoverned : (businessProtocol B).Governs (fun _ _ _ => True) (fun _ _ _ => True)
    (businessCalls host keys allowed) := business_governed hnamed
  have hgood := Protocol.good_of_idle (P := businessProtocol B) (Q := fun _ _ _ => True) (E := fun _ _ _ => True)
    hidentified hidle
  have hmeets : ∀ x ∈ steps, (businessProtocol B).Meets x.1 x.2 := fun _ _ _ _ _ => trivial
  refine ⟨(hgoverned.good hgood hrun hmeets).inv, ?_, fun i hended hlives x hx hi X' hstep id => ?_⟩
  · refine hgoverned.induct hgood hrun hmeets (motive := fun steps w => ∀ x ∈ steps, KeepsRegistrations x.1.shared w)
      (fun _ hx => absurd hx List.not_mem_nil) fun past X l w ih _ _ _ hmove x hx => ?_
    rcases List.mem_append.1 hx with hx | hx
    · exact (ih x hx).trans (keeps_of_moves hmove)
    · obtain rfl := List.mem_singleton.1 hx
      exact keeps_of_moves hmove
  · have hnone := setsNone_of_refused hrun hidle hended hlives
    cases hpub : x.1.publishes x.2 with
    | none => rw [(System.step_session hi hstep).2 hpub]
    | some point =>
        have hdeed : (⟨point, x.1.shared, X'.shared⟩ : BusinessDeed B) ∈ deedsOf i steps := by
          refine List.mem_filterMap.2 ⟨x, hx, ?_⟩
          rw [deedOf, if_pos hi, hpub, hstep]
          rfl
        have hmove := hgoverned.moves hgood hrun hmeets hx hstep
        rw [Protocol.Moves, hpub] at hmove
        obtain ⟨H, hg⟩ := hmove
        have hpoint : point.identified = none := hnone _ hdeed
        simp only [businessProtocol, hpoint] at hg
        exact hg id

end Runs

/-! ### Two tenants -/

/-- A host that takes the white space of ASCII off. -/
def asciiHost : Host SampleBytes String :=
  { sampleHost with
    strip := fun s => String.ofList (Texts.asciiData.strip s.toList) }

theorem digest_ne_empty (s : String) : "hmac:" ++ s ≠ "" := by
  simp

theorem token_ne_empty (s : String) : "token:" ++ s ≠ "" := by
  simp

def sampleCnpjKeys : CnpjKeys where
  characters := Texts.asciiData
  hmac s := "hmac:" ++ s
  digest := digest_ne_empty

def sampleFernet : Fernet :=
  ⟨fun s => "token:" ++ s, token_ne_empty⟩

/-- Two personal tenants; the first has the features of a business. -/
def personalTenants : BusinessSystem SampleBytes where
  shared :=
    { World.empty SampleBytes with
      tenants := ((∅ : Table UUID Tenant).insert 1 (.provisioned "A" "a" none)).insert 3 (.provisioned "B" "b" none),
      accounts := (∅ : Table UUID BillingAccount).insert 1
        { BillingAccount.created with
          complimentaryLifetime := true },
      members := (∅ : Table UUID TenantMember).insert 2 ⟨1, "a", none, .admin, .active, some 0, 0, none⟩ }
  sessions := []

theorem identified_personalTenants : personalTenants.shared.Identified := by
  have hpersonal : ∀ id i, personalTenants.shared.identity id = some i → i.kind = .personal ∧ i.lookup = none := by
    intro id i hi
    obtain ⟨t, ht, rfl⟩ := Option.map_eq_some_iff.1 hi
    have hrows : personalTenants.shared.tenants.rows.all (fun x => decide (x.2.identity.kind = .personal ∧
        x.2.identity.lookup = none)) = true := by decide
    exact of_decide_eq_true (List.all_eq_true.1 hrows (id, t) (Table.mem_rows_iff.2 ht))
  refine ⟨fun id i hi hkind => ?_, fun lookup id id' i i' hi _ hregisters _ => ?_⟩
  · exact absurd (hkind.symm.trans (hpersonal id i hi).1) (by simp)
  · exact absurd (hregisters.2.symm.trans (hpersonal id i hi).2) (by simp)

theorem length_acme : 2 ≤ "Acme".length ∧ "Acme".length ≤ 240 := by
  decide

theorem length_blank : 2 ≤ "  ".length ∧ "  ".length ≤ 240 := by
  decide

theorem length_cnpj : 14 ≤ "11222333000181".length ∧ "11222333000181".length ≤ 18 := by
  decide

def acme : TenantBusinessConversion :=
  ⟨⟨"Acme", length_acme⟩, ⟨"11222333000181", length_cnpj⟩⟩

def blank : TenantBusinessConversion :=
  ⟨⟨"  ", length_blank⟩, ⟨"11222333000181", length_cnpj⟩⟩

def startConversion (payload : TenantBusinessConversion) : BusinessLabel SampleBytes :=
  .start [] (convertToBusiness (asciiHost.withCnpj sampleCnpjKeys sampleFernet) none 1 payload "a")

def startBilling : BusinessLabel SampleBytes :=
  .start [] (applyBillingIdentity (asciiHost.withCnpj sampleCnpjKeys sampleFernet) 3 (some "Acme")
    (some "11222333000181") none)

theorem allows_conversion (allowed : TenantBusinessConversion → Prop) {payload : TenantBusinessConversion}
    (h : allowed payload) (X : BusinessSystem SampleBytes) :
    (businessCalls asciiHost sampleCnpjKeys allowed).Allows X (startConversion payload) :=
  ⟨rfl, sampleFernet, Or.inl ⟨none, 1, payload, "a", h, rfl⟩⟩

theorem allows_billing {allowed : TenantBusinessConversion → Prop} (X : BusinessSystem SampleBytes) :
    (businessCalls asciiHost sampleCnpjKeys allowed).Allows X startBilling :=
  ⟨rfl, sampleFernet, Or.inr ⟨3, some "Acme", some "11222333000181", none, rfl⟩⟩

/-- The second tenant does not get the registration of the first. -/
theorem business_identities_conflict :
    ∃ steps Z, Run (businessCalls asciiHost sampleCnpjKeys fun payload => asciiHost.strip payload.legalName ≠ "")
      personalTenants steps Z ∧ (Z.returned 0).isSome = true ∧
        Z.returned 1 = some (.applied (some "stripe_cnpj_conflict")) ∧ BusinessIdentities steps Z := by
  obtain ⟨steps, Z, hreplay, hp⟩ := System.exists_replay (Y := personalTenants)
    (startConversion acme :: (Label.runs 0 13 ++ startBilling :: Label.runs 1 4))
    (p := fun _ Z => (Z.returned 0).isSome &&
      decide (Z.returned 1 = some (.applied (some "stripe_cnpj_conflict")))) (by decide +kernel)
  simp only [Bool.and_eq_true, decide_eq_true_eq] at hp
  have hacme : asciiHost.strip acme.legalName ≠ "" := by decide
  have hrun := System.replay_run (List.forall_mem_cons.2
    ⟨allows_conversion (fun payload => asciiHost.strip payload.legalName ≠ "") hacme, List.forall_mem_append.2
      ⟨Setting.allows_runs, List.forall_mem_cons.2 ⟨allows_billing, Setting.allows_runs⟩⟩⟩) hreplay
  exact ⟨steps, Z, hrun, hp.1, hp.2, business_identities hrun rfl identified_personalTenants fun _ h => h⟩

/-- A business tenant without a name. -/
def TenantIdentity.isNameless (i : TenantIdentity) : Bool :=
  decide (i.kind = .business) && decide (i.name = "")

/-- A name of two blanks becomes the empty name of a business tenant. -/
theorem not_business_identities :
    ¬∀ (host : Host SampleBytes String) (keys : CnpjKeys) (Y Z : BusinessSystem SampleBytes)
        (steps : List (BusinessStep SampleBytes)),
      Run (businessCalls host keys fun _ => True) Y steps Z → Y.sessions = [] → Y.shared.Identified →
        BusinessIdentities steps Z := by
  intro h
  obtain ⟨steps, Z, hreplay, hp⟩ := System.exists_replay (Y := personalTenants)
    (startConversion blank :: Label.runs 0 13)
    (p := fun _ Z => (Z.shared.identity 1).any TenantIdentity.isNameless) (by decide +kernel)
  have hrun := System.replay_run (List.forall_mem_cons.2
    ⟨allows_conversion (fun _ => True) trivial, Setting.allows_runs⟩) hreplay
  obtain ⟨i, hi, hnameless⟩ := (Option.any_eq_true _ _).1 hp
  simp only [TenantIdentity.isNameless, Bool.and_eq_true, decide_eq_true_eq] at hnameless
  have hidentities := h asciiHost sampleCnpjKeys personalTenants Z steps hrun rfl identified_personalTenants
  exact (hidentities.identified.complete 1 i hi hnameless.1).name hnameless.2

end Rubrica
