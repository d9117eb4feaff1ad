import Rubrica.Billing.Delivery
import Rubrica.Teams.Team

set_option autoImplicit false

/-! # Team operations in any interleaving

Team operations of any tenants run at once, with each other and with webhook deliveries, and the clock
moves. `teamProtocol` is what they promise each other about the members and the account of a tenant: who
holds the lock of the account may rearrange the team, and without the lock members are only suspended,
by `team`, which has read which administrator it keeps. -/

namespace Rubrica

open Transactions

variable {B Page : Type}

/-! ## The members of a tenant -/

def World.teamRow (tenant id : UUID) (w : World B) : Option TenantMember :=
  (w.members.get? id).filter fun m => m.tenantId = tenant

def TenantMember.isAdministrator (m : TenantMember) (tenant : UUID) : Bool :=
  m.isActive tenant && m.role = .admin

/-- The member is an active administrator of the tenant. -/
def World.isAdministrator (tenant id : UUID) (w : World B) : Bool :=
  (w.members.get? id).any fun m => m.isAdministrator tenant

/-- The tenant has an active administrator. -/
def World.hasAdministrator (tenant : UUID) (w : World B) : Bool :=
  w.members.any fun _ m => m.isAdministrator tenant

section Rows

variable {tenant id : UUID} {w w' : World B} {m : TenantMember}

theorem teamRow_eq_some :
    w.teamRow tenant id = some m ↔ w.members.get? id = some m ∧ m.tenantId = tenant := by
  simp [World.teamRow, Option.filter_eq_some_iff]

theorem isActive_iff :
    m.isActive tenant = true ↔ m.tenantId = tenant ∧ m.deletedAt = none ∧ m.status = .active := by
  simp [TenantMember.isActive, and_assoc]

theorem isAdministrator_iff :
    m.isAdministrator tenant = true ↔ m.isActive tenant = true ∧ m.role = .admin := by
  simp [TenantMember.isAdministrator]

theorem world_isAdministrator_iff :
    w.isAdministrator tenant id = true ↔
      ∃ m, w.teamRow tenant id = some m ∧ m.isAdministrator tenant = true := by
  simp only [World.isAdministrator, Option.any_eq_true, teamRow_eq_some]
  constructor
  · rintro ⟨m, hm, ha⟩
    exact ⟨m, ⟨hm, (isActive_iff.1 (isAdministrator_iff.1 ha).1).1⟩, ha⟩
  · rintro ⟨m, ⟨hm, -⟩, ha⟩
    exact ⟨m, hm, ha⟩

theorem hasAdministrator_iff :
    w.hasAdministrator tenant = true ↔ ∃ id, w.isAdministrator tenant id = true := by
  simp only [World.hasAdministrator, Table.any_iff, World.isAdministrator, Option.any_eq_true]

end Rows

/-! ## The order of joining -/

theorem joinedBefore_total (x y : UUID × TenantMember) :
    joinedBefore x y = true ∨ joinedBefore y x = true := by
  have hid : x.1 ≤ y.1 ∨ y.1 ≤ x.1 := Nat.le_total x.1 y.1
  unfold joinedBefore joinedBefore.later
  cases x.2.joinedAt <;> cases y.2.joinedAt <;> simp <;> grind

theorem joinedBefore_trans {x y z : UUID × TenantMember} (h : joinedBefore x y = true)
    (h' : joinedBefore y z = true) : joinedBefore x z = true := by
  have hid : x.1 ≤ y.1 → y.1 ≤ z.1 → x.1 ≤ z.1 := Nat.le_trans
  revert h h'
  unfold joinedBefore joinedBefore.later
  cases x.2.joinedAt <;> cases y.2.joinedAt <;> cases z.2.joinedAt <;> simp <;> grind

/-- Two members that come before each other are one. -/
theorem joinedBefore_antisymm {x y : UUID × TenantMember} (h : joinedBefore x y = true)
    (h' : joinedBefore y x = true) : x.1 = y.1 := by
  have hid : x.1 ≤ y.1 → y.1 ≤ x.1 → x.1 = y.1 := Nat.le_antisymm
  revert h h'
  unfold joinedBefore joinedBefore.later
  cases x.2.joinedAt <;> cases y.2.joinedAt <;> simp <;> grind

theorem mem_activeTeam_iff {tenant id : UUID} {w : World B} {m : TenantMember} :
    (id, m) ∈ w.activeTeam tenant ↔ w.teamRow tenant id = some m ∧ m.isActive tenant = true := by
  rw [World.activeTeam, List.mem_insertionSort, Table.mem_select_iff, teamRow_eq_some]
  constructor
  · rintro ⟨hm, ha⟩
    exact ⟨⟨hm, (isActive_iff.1 ha).1⟩, ha⟩
  · rintro ⟨⟨hm, -⟩, ha⟩
    exact ⟨hm, ha⟩

theorem pairwise_activeTeam (tenant : UUID) (w : World B) :
    (w.activeTeam tenant).Pairwise fun x y => joinedBefore x y = true := by
  have : Std.Total fun x y : UUID × TenantMember => joinedBefore x y = true := ⟨joinedBefore_total⟩
  have : IsTrans (UUID × TenantMember) fun x y => joinedBefore x y = true :=
    ⟨fun _ _ _ h h' => joinedBefore_trans h h'⟩
  exact List.pairwise_insertionSort _ _

/-- The administrator that `reconcile_single_member_plan` finds is the first one. -/
theorem find_activeTeam {tenant : UUID} {w : World B} {k : UUID} {mk : TenantMember}
    (h : (w.activeTeam tenant).find? (fun x => x.2.role = .admin) = some (k, mk)) :
    w.teamRow tenant k = some mk ∧ mk.isAdministrator tenant = true ∧
      ∀ id m, w.teamRow tenant id = some m → m.isAdministrator tenant = true →
        joinedBefore (k, mk) (id, m) = true := by
  obtain ⟨hrole, before, later, happend, hbefore⟩ := List.find?_eq_some_iff_append.1 h
  obtain ⟨hrow, hactive⟩ := mem_activeTeam_iff.1 (List.mem_of_find?_eq_some h)
  refine ⟨hrow, isAdministrator_iff.2 ⟨hactive, of_decide_eq_true hrole⟩, fun id m hm ha => ?_⟩
  obtain ⟨hma, hmr⟩ := isAdministrator_iff.1 ha
  have hmem := mem_activeTeam_iff.2 ⟨hm, hma⟩
  have hsorted := pairwise_activeTeam tenant w
  rw [happend] at hmem hsorted
  rcases List.mem_append.1 hmem with hmem | hmem
  · have := hbefore _ hmem
    simp [hmr] at this
  rcases List.mem_cons.1 hmem with heq | hmem
  · rw [heq]
    exact (joinedBefore_total (k, mk) (k, mk)).elim (fun h => h) fun h => h
  · exact (List.pairwise_cons.1 (List.pairwise_append.1 hsorted).2.1).1 _ hmem

/-! ## What a step does to a team -/

/-- What no operation changes of a member. -/
structure TenantMember.SameSeat (m m' : TenantMember) : Prop where
  tenantId : m'.tenantId = m.tenantId
  joinedAt : m'.joinedAt = m.joinedAt
  createdAt : m'.createdAt = m.createdAt
  deletedAt : m'.deletedAt = m.deletedAt
  role : m'.role = .admin ↔ m.role = .admin

/-- The account and the members of the tenant are as they were. -/
structure Untouched (tenant : UUID) (w w' : World B) : Prop where
  account : w'.accounts.get? tenant = w.accounts.get? tenant
  rows : ∀ id, w'.teamRow tenant id = w.teamRow tenant id

/-- Members of the tenant are suspended, but not `kept`, nor an administrator who joined before. -/
structure Suspends (tenant : UUID) (kept : Option UUID) (w w' : World B) : Prop where
  account : w'.accounts.get? tenant = w.accounts.get? tenant
  rows : ∀ id, w'.teamRow tenant id = w.teamRow tenant id ∨
    ∃ m k mk, w.teamRow tenant id = some m ∧
      w'.teamRow tenant id = some { m with status := .suspended } ∧ kept = some k ∧ id ≠ k ∧
      w.teamRow tenant k = some mk ∧ (m.role = .admin → joinedBefore (k, mk) (id, m) = true)

/-- What the holder of the lock does: nobody leaves. -/
structure Rearranges (tenant : UUID) (w w' : World B) : Prop where
  account : (w.accounts.get? tenant).isSome → (w'.accounts.get? tenant).isSome
  seats : ∀ id m, w.teamRow tenant id = some m →
    ∃ m', w'.teamRow tenant id = some m' ∧ m.SameSeat m'

/-- The active members are as many as the account allows, at a clock since the lock was taken. -/
def Seated (tenant : UUID) (since : Int) (limit : Option Nat) (w w' : World B) : Prop :=
  ∃ a now, w.liveAccount tenant = some a ∧ since ≤ now ∧ now ≤ w.clock ∧ limit = a.memberLimit now ∧
    ∀ n, limit = some n → w'.activeCount tenant ≤ n

/-- The holder of the lock keeps an administrator. -/
structure Administers (keeps : Prop) (tenant : UUID) (H : Rights RowKey) (w w' : World B) : Prop where
  locked : (RowKey.account tenant, .exclusive) ∈ H
  rearranges : Rearranges tenant w w'
  administrator : keeps → w.hasAdministrator tenant = true → w'.hasAdministrator tenant = true

/-- What the commit at a point may do to the team of a tenant. -/
def teamGuarantee (keeps : UUID → Prop) (point : TeamPoint) (H : Rights RowKey) (tenant : UUID)
    (w w' : World B) : Prop :=
  match point with
  | .added t since limit =>
      if t = tenant then Administers (keeps tenant) tenant H w w' ∧ Seated tenant since limit w w'
      else Untouched tenant w w'
  | .updated t actor since limit =>
      if t = tenant then
        (RowKey.account tenant, .exclusive) ∈ H ∧ Rearranges tenant w w' ∧
          w'.teamRow tenant actor = w.teamRow tenant actor ∧ Seated tenant since limit w w'
      else Untouched tenant w w'
  | .roleUpdated t => if t = tenant then Administers (keeps tenant) tenant H w w' else Untouched tenant w w'
  | .reconciled t kept =>
      if t = tenant then Suspends tenant kept w w' else Untouched tenant w w'
  | .billing (.settled _ (some t)) =>
      if t = tenant then Administers (keeps tenant) tenant H w w' else Untouched tenant w w'
  | _ => Untouched tenant w w'

/-- The protocol of team operations and deliveries. For the tenants `keeps` its condition is that who suspends
    members finds the administrator to keep still active at the commit. -/
def teamProtocol (B : Type) (keeps : UUID → Prop) : Protocol (World B) RowKey TeamPoint where
  inv _ := True
  guar point H w w' := w'.clock = w.clock ∧ ∀ tenant, teamGuarantee keeps point H tenant w w'
  env w w' := w.clock ≤ w'.clock ∧ ∀ tenant, Untouched tenant w w'
  cond point w :=
    match point with
    | .updated tenant actor _ _ => keeps tenant → w.isAdministrator tenant actor = true
    | .reconciled tenant (some kept) => keeps tenant → w.isAdministrator tenant kept = true
    | _ => True
  lossy := True

section Interference

variable {keeps : UUID → Prop} {K : Rights RowKey} {w w' : World B} {tenant : UUID}

/-- A step of somebody else: the team stays as it is, or members are suspended, or the other session
    holds the lock. -/
theorem interferes_team (hi : (teamProtocol B keeps).Interferes K w w') (tenant : UUID) :
    w.clock ≤ w'.clock ∧
      (Untouched tenant w w' ∨
        (∃ kept, Suspends tenant kept w w' ∧
          (keeps tenant → ∀ k, kept = some k → w.isAdministrator tenant k = true)) ∨
        (Rearranges tenant w w' ∧
          ∃ H', K.Compatible H' ∧ (RowKey.account tenant, .exclusive) ∈ H')) := by
  obtain ⟨-, -, ⟨hclock, huntouched⟩ | ⟨point, H', hcomp, hcond, hclock, hg⟩⟩ := hi
  · exact ⟨hclock, Or.inl (huntouched tenant)⟩
  refine ⟨Int.le_of_eq hclock.symm, ?_⟩
  have hg := hg tenant
  have administers : ∀ {p : Prop} [Decidable p] {q : Prop},
      (if p then Administers (keeps tenant) tenant H' w w' ∧ q else Untouched tenant w w') →
      Untouched tenant w w' ∨ Rearranges tenant w w' ∧
        ∃ H', K.Compatible H' ∧ (RowKey.account tenant, .exclusive) ∈ H' := by
    intro p _ q h
    split at h
    · exact Or.inr ⟨h.1.rearranges, H', hcomp, h.1.locked⟩
    · exact Or.inl h
  cases point with
  | plain => exact Or.inl hg
  | added t since limit => exact (administers hg).imp_right Or.inr
  | roleUpdated t =>
      exact (administers (q := True) (by simpa [teamGuarantee] using hg)).imp_right Or.inr
  | updated t actor since limit =>
      simp only [teamGuarantee] at hg
      split at hg
      · exact Or.inr (Or.inr ⟨hg.2.1, H', hcomp, hg.1⟩)
      · exact Or.inl hg
  | reconciled t kept =>
      simp only [teamGuarantee] at hg
      split at hg
      · next ht =>
          subst ht
          refine Or.inr (Or.inl ⟨kept, hg, fun hk k hkept => ?_⟩)
          subst hkept
          exact hcond hk
      · exact Or.inl hg
  | billing point =>
      cases point with
      | settled e target =>
          cases target with
          | none => exact Or.inl hg
          | some t =>
              exact (administers (q := True) (by simpa [teamGuarantee] using hg)).imp_right Or.inr
      | _ => exact Or.inl hg

theorem TenantMember.SameSeat.refl (m : TenantMember) : m.SameSeat m :=
  ⟨rfl, rfl, rfl, rfl, Iff.rfl⟩

theorem TenantMember.SameSeat.trans {m m' m'' : TenantMember} (h : m.SameSeat m')
    (h' : m'.SameSeat m'') : m.SameSeat m'' :=
  ⟨h'.tenantId.trans h.tenantId, h'.joinedAt.trans h.joinedAt, h'.createdAt.trans h.createdAt,
    h'.deletedAt.trans h.deletedAt, h'.role.trans h.role⟩

theorem TenantMember.SameSeat.suspended (m : TenantMember) :
    m.SameSeat { m with status := .suspended } :=
  ⟨rfl, rfl, rfl, rfl, Iff.rfl⟩

/-- A member stays a member, at the same place in the order of joining. -/
theorem stable_seat (K : Rights RowKey) (tenant id : UUID) (m : TenantMember) :
    (teamProtocol B keeps).Stable K fun w => ∃ m', w.teamRow tenant id = some m' ∧ m.SameSeat m' := by
  intro w w' hi ⟨m', hm', hseat⟩
  obtain ⟨-, h | ⟨kept, h, -⟩ | ⟨h, -⟩⟩ := interferes_team hi tenant
  · exact ⟨m', (h.rows id).trans hm', hseat⟩
  · rcases h.rows id with hrow | ⟨m'', k, mk, hrow, hrow', -⟩
    · exact ⟨m', hrow.trans hm', hseat⟩
    · obtain rfl := Option.some.inj (hm'.symm.trans hrow)
      exact ⟨_, hrow', hseat.trans (.suspended _)⟩
  · obtain ⟨m'', hrow, hseat'⟩ := h.seats id m' hm'
    exact ⟨m'', hrow, hseat.trans hseat'⟩

theorem stable_clock (K : Rights RowKey) (since : Int) :
    (teamProtocol B keeps).Stable K fun w => since ≤ w.clock :=
  fun _ _ hi h => Int.le_trans h (interferes_team hi 0).1

theorem stable_account_there (K : Rights RowKey) (tenant : UUID) :
    (teamProtocol B keeps).Stable K fun w => (w.accounts.get? tenant).isSome := by
  intro w w' hi h
  obtain ⟨-, h' | ⟨kept, h', -⟩ | ⟨h', -⟩⟩ := interferes_team hi tenant
  · rw [h'.account]
    exact h
  · rw [h'.account]
    exact h
  · exact h'.account h

/-- Who holds the lock shares the team only with suspensions. -/
theorem locked_interferes (hK : (RowKey.account tenant, .exclusive) ∈ K)
    (hi : (teamProtocol B keeps).Interferes K w w') :
    Untouched tenant w w' ∨ ∃ kept, Suspends tenant kept w w' ∧
      (keeps tenant → ∀ k, kept = some k → w.isAdministrator tenant k = true) := by
  obtain ⟨-, h | h | ⟨-, H', hcomp, hH'⟩⟩ := interferes_team hi tenant
  · exact Or.inl h
  · exact Or.inr h
  · exact absurd rfl (hcomp.ne_of_exclusive hK hH')

/-- Who holds the lock keeps the account. -/
theorem stable_account (hK : (RowKey.account tenant, .exclusive) ∈ K) (a : Option BillingAccount) :
    (teamProtocol B keeps).Stable K fun w => w.accounts.get? tenant = a := by
  intro w w' hi h
  rcases locked_interferes hK hi with h' | ⟨kept, h', -⟩
  · exact h'.account.trans h
  · exact h'.account.trans h

/-- Every active member of the tenant is in the list. -/
def ActiveWithin (tenant : UUID) (ids : List UUID) (w : World B) : Prop :=
  ∀ id m, w.teamRow tenant id = some m → m.isActive tenant = true → id ∈ ids

/-- Who holds the lock sees nobody become active. -/
theorem stable_activeWithin (hK : (RowKey.account tenant, .exclusive) ∈ K) (ids : List UUID) :
    (teamProtocol B keeps).Stable K (ActiveWithin tenant ids) := by
  intro w w' hi h id m hm ha
  rcases locked_interferes hK hi with h' | ⟨kept, h', -⟩
  · exact h id m ((h'.rows id).symm.trans hm) ha
  · rcases h'.rows id with hrow | ⟨m', k, mk, -, hrow', -⟩
    · exact h id m (hrow.symm.trans hm) ha
    · obtain rfl := Option.some.inj (hm.symm.trans hrow')
      exact absurd (isActive_iff.1 ha).2.2 (by simp)

/-- The member is the active administrator who joined first. -/
def FirstAdministrator (tenant k : UUID) (w : World B) : Prop :=
  ∃ mk, w.teamRow tenant k = some mk ∧ mk.isAdministrator tenant = true ∧
    ∀ id m, w.teamRow tenant id = some m → m.isAdministrator tenant = true →
      joinedBefore (k, mk) (id, m) = true

/-- Who holds the lock keeps the first administrator, when the others keep theirs. -/
theorem stable_first (hkeeps : keeps tenant) (hK : (RowKey.account tenant, .exclusive) ∈ K) (k : UUID) :
    (teamProtocol B keeps).Stable K (FirstAdministrator tenant k) := by
  intro w w' hi ⟨mk, hrow, hadmin, hfirst⟩
  rcases locked_interferes hK hi with h | ⟨kept, h, hkept⟩
  · refine ⟨mk, (h.rows k).trans hrow, hadmin, fun id m hm ha => ?_⟩
    exact hfirst id m ((h.rows id).symm.trans hm) ha
  · have hk : w'.teamRow tenant k = w.teamRow tenant k := by
      rcases h.rows k with hk | ⟨m, k', mk', hm, -, hsome, hne, hmk', hbefore⟩
      · exact hk
      · -- `k` is the first administrator, and the one who is kept joined before it.
        obtain rfl := Option.some.inj (hrow.symm.trans hm)
        obtain ⟨m', hm', ha'⟩ := world_isAdministrator_iff.1 (hkept hkeeps k' hsome)
        obtain rfl := Option.some.inj (hmk'.symm.trans hm')
        exact absurd (joinedBefore_antisymm (hfirst k' mk' hmk' ha')
          (hbefore (isAdministrator_iff.1 hadmin).2)) hne
    refine ⟨mk, hk.trans hrow, hadmin, fun id m hm ha => ?_⟩
    rcases h.rows id with hid | ⟨m', -, -, -, hm', -⟩
    · exact hfirst id m (hid.symm.trans hm) ha
    · obtain rfl := Option.some.inj (hm.symm.trans hm')
      exact absurd (isActive_iff.1 (isAdministrator_iff.1 ha).1).2.2 (by simp)

end Interference

end Rubrica
