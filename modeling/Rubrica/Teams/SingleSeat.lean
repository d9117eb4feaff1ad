import Rubrica.Teams.Roster
import Rubrica.Transactions.Sequential

set_option autoImplicit false

/-! # Teams with one seat

What `reconcile_single_member_plan` does with nobody else at work: where the plan has one seat and there is an
administrator, the first one stays and everybody else is suspended, once and for all. -/

namespace Rubrica

open Transactions

variable {B Page τ : Type} [Unmarked τ] {tenant : UUID} {held : Option BillingAccount} {s s' : World B}

/-! ## The limit -/

/-- `member_limit` of what a session sees that may hold the account as an object. -/
def World.memberLimit (tenant : UUID) (held : Option BillingAccount) (w : World B) : Option Nat :=
  (w.liveAccount tenant).elim (some 1) fun a => (held.getD a).memberLimit w.clock

theorem ends_memberLimit {limit : Option Nat} :
    (memberLimit tenant held : Tx B τ _).Ends s limit s' ↔ s.memberLimit tenant held = limit ∧ s = s' := by
  unfold memberLimit World.memberLimit
  refine Code.ends_select_bind.trans (Code.ends_select_bind.trans ?_)
  cases hlive : s.liveAccount tenant with
  | none => exact Code.ends_pure
  | some a => exact Code.ends_pure

/-! ## Teams that are settled -/

/-- Nobody but the administrator is active. -/
def TeamSettled (tenant : UUID) (s : World B) : Prop :=
  ∀ administrator, ((s.activeTeam tenant).find? fun x => x.2.role = .admin) = some administrator →
    ∀ x ∈ s.activeTeam tenant, x.1 = administrator.1

theorem activeTeam_congr (h : s'.members = s.members) : s'.activeTeam tenant = s.activeTeam tenant := by
  unfold World.activeTeam
  rw [h]

theorem TeamSettled.congr (hs : TeamSettled tenant s) (h : s'.members = s.members) : TeamSettled tenant s' := by
  unfold TeamSettled
  rw [activeTeam_congr h]
  exact hs

theorem mem_activeTeam {id : UUID} {m : TenantMember} :
    (id, m) ∈ s.activeTeam tenant ↔ s.members.get? id = some m ∧ m.isActive tenant = true := by
  unfold World.activeTeam
  rw [List.mem_insertionSort, Table.mem_select_iff]

/-- The active members but one. -/
def World.othersActive (tenant k : UUID) (w : World B) : List UUID :=
  ((w.activeTeam tenant).map Prod.fst).filter fun id => id ≠ k

theorem mem_othersActive {k id : UUID} : id ∈ s.othersActive tenant k ↔
    (∃ m, s.members.get? id = some m ∧ m.isActive tenant = true) ∧ id ≠ k := by
  simp only [World.othersActive, List.mem_filter, List.mem_map, Prod.exists, mem_activeTeam, decide_eq_true_eq]
  constructor
  · rintro ⟨⟨id', m, hm, rfl⟩, hne⟩
    exact ⟨⟨m, hm⟩, hne⟩
  · rintro ⟨⟨m, hm⟩, hne⟩
    exact ⟨⟨id, m, hm, rfl⟩, hne⟩

variable {host : Host B Page}

/-- What is recorded of a reconciliation. -/
def teamReconciled (host : Host B Page) (tenant : UUID) (administrator : UUID × TenantMember) (others : List UUID)
    (now : Int) : AuditEvent :=
  ⟨none, now, administrator.2.authUserId, "tenant.team_reconciled_after_downgrade", "tenant", tenant,
    [("active_member_id", .text (host.uuidText administrator.1)),
      ("suspended_member_ids", .list (others.map fun id => .text (host.uuidText id)))]⟩

/-- The others are suspended, with one record of it, where there are any. -/
def World.keepOnly (host : Host B Page) (tenant : UUID) (administrator : UUID × TenantMember) (w : World B) : World B :=
  let others := w.othersActive tenant administrator.1
  if others = [] then w
  else (World.suspend others w).record (teamReconciled host tenant administrator others w.clock)

theorem exists_ends_suspendOthers (host : Host B Page) (s : World B) (administrator : UUID × TenantMember) :
    ∃ kept, (suspendOthers host tenant administrator (s.activeTeam tenant) : Tx B τ _).Ends s kept
      (s.keepOnly host tenant administrator) := by
  show ∃ kept, (if s.othersActive tenant administrator.1 = [] then _ else _ : Tx B τ _).Ends s kept _
  unfold World.keepOnly
  by_cases hnil : s.othersActive tenant administrator.1 = []
  · simp only [if_pos hnil]
    exact ⟨none, rfl, rfl⟩
  · simp only [if_neg hnil]
    exact ⟨some administrator.1, Code.ends_seq (a := ()) (Code.ends_write.2 rfl)
      (Code.ends_seq (a := ()) ⟨rfl, rfl⟩ ⟨rfl, rfl⟩)⟩

/-- Nothing is left to do for a team that is settled. -/
theorem othersActive_of_settled {administrator : UUID × TenantMember} (h : TeamSettled tenant s)
    (hfind : ((s.activeTeam tenant).find? fun x => x.2.role = .admin) = some administrator) :
    s.othersActive tenant administrator.1 = [] := by
  refine List.filter_eq_nil_iff.2 fun id hid => ?_
  obtain ⟨x, hx, rfl⟩ := List.mem_map.1 hid
  simp [h administrator hfind x hx]

theorem members_keepOnly (s : World B) (administrator : UUID × TenantMember) (id : UUID) :
    (s.keepOnly host tenant administrator).members.get? id = (s.members.get? id).map fun m =>
      if m.isActive tenant = true ∧ id ≠ administrator.1 then { m with status := .suspended } else m := by
  have hrow : ∀ m, s.members.get? id = some m →
      (id ∈ s.othersActive tenant administrator.1 ↔ m.isActive tenant = true ∧ id ≠ administrator.1) := by
    intro m hm
    simp [mem_othersActive, hm]
  unfold World.keepOnly
  dsimp only
  cases hm : s.members.get? id with
  | none =>
      split
      · exact hm
      · show (s.members.map _).get? id = _
        rw [Table.get?_map, hm]
        rfl
  | some m =>
      split
      · next hnil =>
        rw [hnil] at hrow
        rw [hm, Option.map_some, if_neg ((hrow m hm).not.1 List.not_mem_nil)]
      · show (s.members.map _).get? id = _
        rw [Table.get?_map, hm]
        simp only [Option.map_some, hrow m hm]

/-- Only the administrator is active then. -/
theorem active_keepOnly {administrator : UUID × TenantMember}
    (h : administrator ∈ s.activeTeam tenant) (id : UUID) :
    (∃ m, (s.keepOnly host tenant administrator).members.get? id = some m ∧ m.isActive tenant = true) ↔
      id = administrator.1 := by
  simp only [members_keepOnly, Option.map_eq_some_iff]
  constructor
  · rintro ⟨_, ⟨m, hm, rfl⟩, hactive⟩
    by_contra hne
    by_cases hm : m.isActive tenant = true
    · rw [if_pos ⟨hm, hne⟩] at hactive
      exact absurd (isActive_iff.1 hactive).2.2 (by simp)
    · rw [if_neg fun hc => hm hc.1] at hactive
      exact hm hactive
  · rintro rfl
    obtain ⟨hrow, hactive⟩ := mem_activeTeam.1 h
    refine ⟨administrator.2, ⟨administrator.2, hrow, if_neg fun hc => hc.2 rfl⟩, hactive⟩

theorem settled_keepOnly {administrator : UUID × TenantMember} (h : administrator ∈ s.activeTeam tenant) :
    TeamSettled tenant (s.keepOnly host tenant administrator) := by
  have honly : ∀ x ∈ (s.keepOnly host tenant administrator).activeTeam tenant, x.1 = administrator.1 :=
    fun x hx => (active_keepOnly h x.1).1 ⟨x.2, mem_activeTeam.1 hx⟩
  intro administrator' hfind x hx
  rw [honly x hx, honly _ (List.mem_of_find?_eq_some hfind)]

/-! ## The reconciliation -/

/-- What a reconciliation comes to. -/
def World.reconciled (host : Host B Page) (tenant : UUID) (held : Option BillingAccount) (w : World B) : World B :=
  if w.memberLimit tenant held = some 1 then
    ((w.activeTeam tenant).find? fun x => x.2.role = .admin).elim w fun administrator =>
      w.keepOnly host tenant administrator
  else w

theorem ends_reconcileSingleMemberPlan (host : Host B Page) (s : World B) (tenant : UUID) (held : Option BillingAccount) :
    (reconcileSingleMemberPlan host tenant held : Tx B τ _).Ends s () (s.reconciled host tenant held) := by
  have hkeeping : ∃ kept, (reconcileKeeping host tenant held : Tx B τ _).Ends s kept
      (s.reconciled host tenant held) := by
    unfold World.reconciled
    by_cases hlimit : s.memberLimit tenant held = some 1
    · rw [if_pos hlimit]
      cases hfind : (s.activeTeam tenant).find? fun x => decide (x.2.role = .admin) with
      | none =>
          refine ⟨none, Code.ends_seq (ends_memberLimit.2 ⟨hlimit, rfl⟩) ?_⟩
          rw [if_neg (not_not.2 rfl)]
          refine Code.ends_select_bind.2 ?_
          simp only [hfind]
          exact ⟨rfl, rfl⟩
      | some administrator =>
          obtain ⟨kept, hends⟩ := exists_ends_suspendOthers (τ := τ) host s administrator
          refine ⟨kept, Code.ends_seq (ends_memberLimit.2 ⟨hlimit, rfl⟩) ?_⟩
          rw [if_neg (not_not.2 rfl)]
          refine Code.ends_select_bind.2 ?_
          simp only [hfind]
          exact hends
    · rw [if_neg hlimit]
      refine ⟨none, Code.ends_seq (ends_memberLimit.2 ⟨rfl, rfl⟩) ?_⟩
      rw [if_pos hlimit]
      exact ⟨rfl, rfl⟩
  obtain ⟨kept, h⟩ := hkeeping
  exact Code.ends_seq h ⟨rfl, rfl⟩

/-- A team that is settled stays as it is. -/
theorem reconciled_of_settled (h : s.memberLimit tenant held = some 1 → TeamSettled tenant s) :
    s.reconciled host tenant held = s := by
  unfold World.reconciled
  split
  · next hlimit =>
    cases hfind : (s.activeTeam tenant).find? fun x => decide (x.2.role = .admin) with
    | none => rfl
    | some administrator =>
        show s.keepOnly host tenant administrator = s
        rw [World.keepOnly]
        exact if_pos (othersActive_of_settled (h hlimit) hfind)
  · rfl

/-- Where the plan has one seat, the team is settled afterwards. -/
theorem settled_reconciled (hlimit : s.memberLimit tenant held = some 1) :
    TeamSettled tenant (s.reconciled host tenant held) := by
  unfold World.reconciled
  rw [if_pos hlimit]
  cases hfind : (s.activeTeam tenant).find? fun x => decide (x.2.role = .admin) with
  | none =>
      intro administrator hadministrator
      exact absurd (hfind.symm.trans hadministrator) (by simp)
  | some administrator => exact settled_keepOnly (List.mem_of_find?_eq_some hfind)

/-- The administrator `k` is the only active member that is left, and nothing but that has changed. -/
structure KeepsOne (tenant k : UUID) (w w' : World B) : Prop where
  first : FirstAdministrator tenant k w
  active : ∀ id, (∃ m, w'.members.get? id = some m ∧ m.isActive tenant = true) ↔ id = k
  rows : ∀ id, w'.members.get? id = (w.members.get? id).map fun m =>
    if m.isActive tenant = true ∧ id ≠ k then { m with status := .suspended } else m
  others : { w' with
    members := w.members,
    audits := w.audits } = w

theorem exists_find_iff : s.hasAdministrator tenant = true ↔
    ∃ administrator, ((s.activeTeam tenant).find? fun x => x.2.role = .admin) = some administrator := by
  rw [hasAdministrator_iff]
  constructor
  · rintro ⟨id, h⟩
    obtain ⟨m, hrow, hadmin⟩ := world_isAdministrator_iff.1 h
    obtain ⟨hactive, hrole⟩ := isAdministrator_iff.1 hadmin
    refine Option.isSome_iff_exists.1 (List.find?_isSome.2 ⟨(id, m), mem_activeTeam_iff.2 ⟨hrow, hactive⟩, ?_⟩)
    exact decide_eq_true hrole
  · rintro ⟨⟨k, mk⟩, hfind⟩
    obtain ⟨hrow, hadmin, -⟩ := find_activeTeam hfind
    exact ⟨k, world_isAdministrator_iff.2 ⟨mk, hrow, hadmin⟩⟩

theorem keepsOne_keepOnly {administrator : UUID × TenantMember}
    (hfind : ((s.activeTeam tenant).find? fun x => x.2.role = .admin) = some administrator) :
    KeepsOne tenant administrator.1 s (s.keepOnly host tenant administrator) := by
  obtain ⟨hrow, hadmin, hfirst⟩ := find_activeTeam hfind
  refine ⟨⟨administrator.2, hrow, hadmin, hfirst⟩, active_keepOnly (List.mem_of_find?_eq_some hfind),
    members_keepOnly s administrator, ?_⟩
  unfold World.keepOnly
  dsimp only
  split
  · rfl
  · rfl

/-- Alone, a reconciliation comes to what `World.reconciled` says of what the session sees. -/
theorem alone_reconcileSingleMemberPlan (host : Host B Page) (tenant : UUID) (held : Option BillingAccount)
    (u : World B → World B) (w : World B) :
    ∃ v, (reconcileSingleMemberPlan host tenant held : Tx B τ Unit).alone u w = ⟨.ok (), v, w⟩ ∧
      v w = (u w).reconciled host tenant held := by
  have hoverlooks : Overlooks fun _ : World B => () := ⟨fun _ _ => rfl, fun _ _ => rfl, fun _ _ _ => rfl⟩
  exact (Code.ends_iff_alone (local_reconcileSingleMemberPlan host hoverlooks tenant held) u).1
    (ends_reconcileSingleMemberPlan host (u w) tenant held)

/-- **A team with one seat keeps its first administrator.** Where the limit is one and there is an active
    administrator, the first one is the only member who stays active, nothing else changes but a record of it, and
    another reconciliation, at any time, changes nothing. In every other case nothing changes. -/
theorem single_seat_reconciled (host : Host B Page) (tenant : UUID) (held : Option BillingAccount)
    (u : World B → World B) (w : World B) :
    ∃ v, (reconcileSingleMemberPlan host tenant held : Tx B τ Unit).alone u w = ⟨.ok (), v, w⟩ ∧
      (¬((u w).memberLimit tenant held = some 1 ∧ (u w).hasAdministrator tenant = true) → v w = u w) ∧
      ((u w).memberLimit tenant held = some 1 → (u w).hasAdministrator tenant = true →
        (∃ k, KeepsOne tenant k (u w) (v w)) ∧
        ∀ held' now u' w', u' w' = { v w with clock := now } →
          ∃ v', (reconcileSingleMemberPlan host tenant held' : Tx B τ Unit).alone u' w' = ⟨.ok (), v', w'⟩ ∧
            v' w' = u' w') := by
  obtain ⟨v, halone, hv⟩ := alone_reconcileSingleMemberPlan (τ := τ) host tenant held u w
  refine ⟨v, halone, fun hnot => ?_, fun hlimit hadmin => ⟨?_, fun held' now u' w' hagain => ?_⟩⟩
  · rw [hv]
    refine reconciled_of_settled fun hlimit administrator hfind => ?_
    exact absurd ⟨hlimit, exists_find_iff.2 ⟨administrator, hfind⟩⟩ hnot
  · obtain ⟨administrator, hfind⟩ := exists_find_iff.1 hadmin
    refine ⟨administrator.1, ?_⟩
    rw [hv, World.reconciled, if_pos hlimit, hfind]
    exact keepsOne_keepOnly hfind
  · obtain ⟨v', halone', hv'⟩ := alone_reconcileSingleMemberPlan (τ := τ) host tenant held' u' w'
    refine ⟨v', halone', hv'.trans (reconciled_of_settled fun _ => ?_)⟩
    rw [hagain]
    have hsettled : TeamSettled tenant (v w) := by
      rw [hv]
      exact settled_reconciled hlimit
    exact hsettled.congr rfl

end Rubrica
