import Rubrica.Billing.Webhook

set_option autoImplicit false

/-! # Teams

`add_member`, `invite_member`, `team`, `update_team` and `update_member_role`, statement by statement.
All of them but `team` begin by locking the account of the tenant, as the webhooks of its billing do. -/

namespace Rubrica

open Transactions

/-! ## Points -/

/-- Where a statement of a team operation, or of a delivery next to it, stands. -/
inductive TeamPoint where
  /-- A statement without a name. -/
  | plain
  /-- A statement of a delivery. -/
  | billing (point : BillingPoint)
  /-- Commits a new member. The lock was taken when the clock showed `since`. -/
  | added (tenant : UUID) (since : Int) (limit : Option Nat)
  /-- Commits a selection of members by an administrator. -/
  | updated (tenant actor : UUID) (since : Int) (limit : Option Nat)
  /-- Commits the role of a member. -/
  | roleUpdated (tenant : UUID)
  /-- Commits what `team` has reconciled, with the administrator it keeps where it suspends somebody. -/
  | reconciled (tenant : UUID) (kept : Option UUID)

instance : Unmarked TeamPoint := ⟨.plain⟩

/-! ## What the operations take and return -/

/-- `TenantMemberCreate`. -/
structure MemberCreate where
  authUserId : String
  role : MemberRole

/-- `TenantMemberInvitation`; nobody is invited as an administrator. -/
structure MemberInvitation where
  name : String
  email : String
  document : String
  role : {role : MemberRole // role ≠ .admin}

/-- What `invite_auth_user` is asked for. -/
structure UserInvitation where
  name : String
  email : String
  document : String
  country : String

/-- The internal endpoints of Auth, or what the client raises. -/
structure UserClient where
  resolveAuthUser : String → Except Failure UUID
  inviteAuthUser : UserInvitation → Except Failure UUID

/-- `TenantMemberRead`. -/
structure MemberRead where
  id : UUID
  authUserId : String
  role : MemberRole
  status : MemberStatus
  joinedAt : Option Int
  deriving DecidableEq, Repr

/-- `TenantTeamRead`. -/
structure TeamRead where
  members : List MemberRead
  memberLimit : Option Nat
  activeCount : Nat
  requiresSelection : Bool
  canManage : Bool
  currentMemberId : UUID
  deriving DecidableEq, Repr

def TenantMember.read (id : UUID) (m : TenantMember) : MemberRead :=
  ⟨id, m.authUserId, m.role, m.status, m.joinedAt⟩

def MemberStatus.text : MemberStatus → String
  | active => "active"
  | suspended => "suspended"

section Programs

variable {B Page : Type} (host : Host B Page)

/-! ## Shared statements -/

/-- `_lock_team`: the account, which the session holds as an object from here on, and the clock. -/
def lockTeam (tenant : UUID) : Tx B TeamPoint (BillingAccount × Int) := do
  let found ← queryForUpdate (fun w => (w.liveAccount tenant).map fun _ => .account tenant)
    fun w => (w.liveAccount tenant, w.clock)
  let account ← Code.orRaise found.1 (.error "Tenant not found" 404)
  pure (account, found.2)

/-- `business_features_enabled`, of the account the session holds. -/
def businessFeaturesEnabled (tenant : UUID) (held : BillingAccount) : Tx B TeamPoint Bool := do
  let account ← query (World.liveAccount tenant)
  let now ← utcNow
  pure (account.isSome && held.businessFeaturesEnabled now)

def World.activeCount (tenant : UUID) (w : World B) : Nat :=
  (w.members.select fun _ m => m.isActive tenant).length

/-- The order `_team_read` lists members in. -/
def MemberRead.listedBefore (x y : MemberRead) : Bool :=
  x.role.text < y.role.text || (x.role = y.role &&
    (x.authUserId < y.authUserId || (x.authUserId = y.authUserId && x.id ≤ y.id)))

/-- `_team_read`, for a session that holds the account as an object or not. -/
def teamRead (tenant : UUID) (held : Option BillingAccount) (actor : UUID × TenantMember) :
    Tx B TeamPoint TeamRead := do
  let rows ← query fun w => w.members.select fun _ m => m.tenantId = tenant && m.deletedAt.isNone
  let limit ← memberLimit tenant held
  let members := rows.map fun x => x.2.read x.1
  let activeCount := (members.filter fun m => m.status = .active).length
  pure {
    members := members.insertionSort fun x y => x.listedBefore y,
    memberLimit := limit,
    activeCount := activeCount,
    requiresSelection := limit.any fun n => n < activeCount,
    canManage := actor.2.role = .admin,
    currentMemberId := actor.1 }

def limitReached (limit : Nat) : Failure :=
  .error ("The current plan allows up to " ++ toString limit ++ " tenant members") 409

/-- Raise where the plan's seats do not reach for so many members. -/
def requireSeats (limit : Option Nat) (members : Nat) : Tx B TeamPoint Unit :=
  match limit with
  | none => pure ()
  | some n => Code.require (members ≤ n) (limitReached n)

/-- The tenant, unless it is deleted. -/
def liveTenant (tenant : UUID) : Tx B TeamPoint Tenant := do
  let found ← query fun w => (w.tenants.get? tenant).filter fun t => t.deletedAt.isNone
  Code.orRaise found (.error "Tenant not found" 404)

/-- What `add_member` and `invite_member` check first: the account that is locked, when, the tenant,
    its seats and how many of them are taken. -/
structure Admission where
  account : BillingAccount
  since : Int
  tenant : Tenant
  limit : Option Nat
  activeMembers : Nat

def admission (caller : Caller) (tenant : UUID) (subject : String) : Tx B TeamPoint Admission := do
  let locked ← lockTeam tenant
  let _ ← requireRole host caller tenant subject (some [.admin]) true
  let row ← liveTenant tenant
  let business ← businessFeaturesEnabled tenant locked.1
  Code.require (business = true)
    (.error "A Professional or Team plan is required for business members" 403)
  let limit ← memberLimit tenant (some locked.1)
  let activeMembers ← query (World.activeCount tenant)
  requireSeats limit (activeMembers + 1)
  pure ⟨locked.1, locked.2, row, limit, activeMembers⟩

def World.insertMember (id : UUID) (m : TenantMember) (w : World B) : World B :=
  { w with members := w.members.insert id m }

/-- The flush of a new member: the entries of its unique indexes, its tenant, and the row. -/
def flushMember (id : UUID) (m : TenantMember) : Tx B TeamPoint Unit := do
  claim (.memberOf m.tenantId m.authUserId) fun w =>
    w.members.any fun _ m' => m'.tenantId = m.tenantId && m'.authUserId = m.authUserId
  claimChanged none m.authUserUuid (RowKey.memberUser m.tenantId) fun user w =>
    w.members.any fun _ m' =>
      m'.tenantId = m.tenantId && m'.authUserUuid = some user && m'.deletedAt.isNone
  referTo (.tenant m.tenantId) fun w => (w.tenants.get? m.tenantId).isSome
  save (World.insertMember id m)

/-- A member who joins now. -/
def TenantMember.joining (tenant : UUID) (authUserId : String) (user : UUID) (role : MemberRole)
    (joinedAt createdAt : Int) : TenantMember where
  tenantId := tenant
  authUserId := authUserId
  authUserUuid := some user
  role := role
  status := .active
  joinedAt := some joinedAt
  createdAt := createdAt
  deletedAt := none

def orRaiseFrom {α : Type} (answer : Except Failure α) : Tx B TeamPoint α :=
  match answer with
  | .ok a => pure a
  | .error exc => .raise exc

def memberMetadata (role : MemberRole) (count : Nat) : Dict :=
  [("member_role", .text role.text), ("member_count", .int count)]

/-! ## The operations -/

/-- `add_member`, with the identifier the new row draws. -/
def addMember (users : UserClient) (caller : Caller) (id tenant : UUID) (payload : MemberCreate)
    (subject : String) : Tx B TeamPoint Unit :=
  Code.transaction .plain do
    let created ← utcNow
    let checked ← admission host caller tenant subject
    let user ← orRaiseFrom (users.resolveAuthUser (host.lower payload.authUserId))
    let now ← utcNow
    (flushMember id (.joining tenant (host.lower payload.authUserId) user payload.role now
      created)).tryCatch fun exc =>
        .raise (if exc = .integrity then .error "User is already a tenant member" 409 else exc)
    audit none subject "tenant.member_added" "tenant" tenant
      (memberMetadata payload.role (checked.activeMembers + 1))
    pure ((), .added tenant checked.since checked.limit)

/-- `invite_member`. -/
def inviteMember (users : UserClient) (caller : Caller) (id tenant : UUID) (payload : MemberInvitation)
    (subject : String) : Tx B TeamPoint Unit :=
  Code.transaction .plain do
    let created ← utcNow
    let checked ← admission host caller tenant subject
    let email := host.lower (host.strip payload.email)
    let existing ← query fun w => w.members.any fun _ m =>
      m.tenantId = tenant && m.authUserId = email && m.deletedAt.isNone
    Code.require (existing = false) (.error "User is already a tenant member" 409)
    let user ← orRaiseFrom (users.inviteAuthUser
      ⟨host.strip payload.name, email, payload.document,
        (present checked.tenant.countryCode).getD "BR"⟩)
    let now ← utcNow
    audit none subject "tenant.member_invited" "tenant" tenant
      (memberMetadata payload.role (checked.activeMembers + 1))
    flushMember id (.joining tenant email user payload.role now created)
    pure ((), .added tenant checked.since checked.limit)

/-- `team`. -/
def team (caller : Caller) (tenant : UUID) (subject : String) : Tx B TeamPoint TeamRead :=
  Code.transaction .plain do
    let member ← requireRole host caller tenant subject (some [.admin]) true
    let kept ← reconcileKeeping host tenant none
    let read ← teamRead tenant none member
    pure (read, .reconciled tenant kept)

/-- The members of a tenant as a session has them that holds one of them as an object already. -/
def membersAround (actor : UUID × TenantMember) (rows : List (UUID × TenantMember)) :
    List (UUID × TenantMember) :=
  rows.map fun x => if x.1 = actor.1 then actor else x

/-- The status a selection gives to a member. -/
def selectedStatus (selected : List UUID) (id : UUID) : MemberStatus :=
  if id ∈ selected then .active else .suspended

/-- Write the status of the members whose status the selection changes. -/
def World.select (selected changed : List UUID) (w : World B) : World B :=
  { w with
    members := w.members.map fun id m =>
      if id ∈ changed then { m with status := selectedStatus selected id } else m }

def changeMetadata (selected : List UUID) (x : UUID × TenantMember) : Json :=
  .dict [("member_id", .text (host.uuidText x.1)), ("previous_status", .text x.2.status.text),
    ("status", .text (selectedStatus selected x.1).text)]

/-- `update_team`; `active` is the list of members to be active. -/
def updateTeam (caller : Caller) (tenant : UUID) (active : List UUID) (subject : String) :
    Tx B TeamPoint TeamRead :=
  Code.transaction .plain do
    let locked ← lockTeam tenant
    let actor ← requireRole host caller tenant subject (some [.admin]) true
    let rows ← query fun w => w.members.select fun _ m => m.tenantId = tenant && m.deletedAt.isNone
    let members := membersAround actor rows
    let selected := active.dedup
    Code.require (∀ id ∈ selected, id ∈ members.map Prod.fst)
      (.error "Member does not belong to this tenant" 422)
    Code.require (actor.1 ∈ selected) (.error "Keep your administrator account active" 409)
    let limit ← memberLimit tenant (some locked.1)
    requireSeats limit selected.length
    let changed := members.filter fun x => x.2.status ≠ selectedStatus selected x.1
    Code.onlyIf (changed ≠ []) do
      save (World.select selected (changed.map Prod.fst))
      audit none subject "tenant.team_updated" "tenant" tenant
        [("changes", .list (changed.map (changeMetadata host selected))),
          ("member_limit", limit.elim .null fun n => .int n)]
    let read ← teamRead tenant (some locked.1) actor
    pure (read, .updated tenant actor.1 locked.2 limit)

def World.setRole (id : UUID) (role : MemberRole) (w : World B) : World B :=
  { w with members := w.members.update id fun m => { m with role := role } }

/-- `update_member_role`; nobody is made an administrator. -/
def updateMemberRole (caller : Caller) (tenant id : UUID) (role : {role : MemberRole // role ≠ .admin})
    (subject : String) : Tx B TeamPoint TeamRead :=
  Code.transaction .plain do
    let locked ← lockTeam tenant
    let actor ← requireRole host caller tenant subject (some [.admin]) true
    let found ← queryForUpdate
      (fun w => ((w.members.get? id).filter fun m => m.tenantId = tenant && m.deletedAt.isNone).map
        fun _ => .member id)
      fun w => (w.members.get? id).filter fun m => m.tenantId = tenant && m.deletedAt.isNone
    let member ← Code.orRaise found (.error "Member does not belong to this tenant" 404)
    Code.require (¬(id = actor.1 ∨ member.role = .admin))
      (.error "The tenant administrator role cannot be changed" 409)
    Code.onlyIf (member.role ≠ role.1) do
      save (World.setRole id role.1)
      audit none subject "tenant.member_role_updated" "tenant" tenant
        [("member_id", .text (host.uuidText id)), ("previous_role", .text member.role.text),
          ("role", .text role.1.text)]
    let read ← teamRead tenant (some locked.1) actor
    pure (read, .roleUpdated tenant)

end Programs

end Rubrica
