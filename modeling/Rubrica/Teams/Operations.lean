import Rubrica.Teams.Roster

set_option autoImplicit false

/-! # Team operations keep the protocol

Each operation that changes a team by its lock: what the session knows while it holds the lock
(`HoldsTeam`), and what its commit does to the team of the tenant and to the others. -/

namespace Rubrica

open Transactions

variable {B Page : Type}

/-! ## Who holds the lock -/

/-- What the team operations look at. -/
def World.roster (w : World B) : Table UUID TenantMember × Table UUID BillingAccount × Int :=
  (w.members, w.accounts, w.clock)

theorem roster_eq {w w' : World B} (h : w'.roster = w.roster) :
    w'.members = w.members ∧ w'.accounts = w.accounts ∧ w'.clock = w.clock := by
  obtain ⟨h1, h2⟩ := Prod.mk.inj h
  exact ⟨h1, (Prod.mk.inj h2).1, (Prod.mk.inj h2).2⟩

theorem teamRow_congr {w w' : World B} {id : UUID} (h : w'.members.get? id = w.members.get? id)
    (tenant : UUID) : w'.teamRow tenant id = w.teamRow tenant id := by
  rw [World.teamRow, World.teamRow, h]

theorem untouched_of_roster {w w' : World B} (h : w'.roster = w.roster) (tenant : UUID) :
    Untouched tenant w w' := by
  obtain ⟨hm, ha, -⟩ := roster_eq h
  exact ⟨by rw [ha], fun id => teamRow_congr (by rw [hm]) tenant⟩

/-- A session that holds the lock of the tenant's account, which it has loaded as `a` when the clock
    showed `since`; `g` is what its writes make of the member under an identifier. -/
structure HoldsTeam (tenant : UUID) (a : BillingAccount) (since : Int)
    (g : UUID → Option TenantMember → Option TenantMember) (c : Ctx (World B) RowKey) (w : World B) :
    Prop where
  base : c.reset = idle
  lock : (RowKey.account tenant, .exclusive) ∈ c.held
  live : a.deletedAt = none
  now : w.accounts.get? tenant = some a ∧ since ≤ w.clock
  members : ∀ v id, (c.pending v).members.get? id = g id (v.members.get? id)
  others : ∀ v, (c.pending v).accounts = v.accounts ∧ (c.pending v).clock = v.clock

section Holding

variable {keeps : UUID → Prop} {tenant : UUID} {a : BillingAccount} {since : Int}
  {g : UUID → Option TenantMember → Option TenantMember} {c : Ctx (World B) RowKey} {w : World B}
  {X : World B → Prop}

theorem HoldsTeam.stable (h : HoldsTeam tenant a since g c w) :
    (teamProtocol B keeps).Stable c.held fun w => w.accounts.get? tenant = some a ∧ since ≤ w.clock :=
  (stable_account h.lock (some a)).and (stable_clock _ since)

theorem HoldsTeam.later (h : HoldsTeam tenant a since g c w) {w' : World B}
    (hw' : w'.accounts.get? tenant = some a ∧ since ≤ w'.clock) : HoldsTeam tenant a since g c w' :=
  { h with now := hw' }

/-- Statements that leave members, accounts and the clock alone. -/
theorem wp_heldTeam {α : Type} {x : Tx B TeamPoint α} (hx : x.Local (Keeps World.roster))
    {Q : α → Ctx (World B) RowKey → World B → Prop} (h : HoldsTeam tenant a since g c w)
    (hX : (teamProtocol B keeps).Stable c.held X) (hw : X w)
    (hQ : ∀ r c' w', HoldsTeam tenant a since g c' w' → c.held ⊆ c'.held → X w' → Q r c' w') :
    (teamProtocol B keeps).wp x Q (fun _ _ _ => True) c w := by
  refine Protocol.wp_local hx (h.stable.and hX) ⟨h.now, hw⟩ (fun r c' w' hc hw' => ?_)
    fun _ _ _ _ _ => trivial
  have hroster : ∀ v, (c'.pending v).roster = (c.pending v).roster := hc.project fun _ hu v => hu v
  refine hQ r c' w' ⟨hc.reset.trans h.base, hc.held h.lock, h.live, hw'.1, fun v id => ?_, fun v => ?_⟩
    hc.held hw'.2
  · rw [(roster_eq (hroster v)).1, h.members]
  · obtain ⟨-, haccounts, hclock⟩ := roster_eq (hroster v)
    exact ⟨haccounts.trans (h.others v).1, hclock.trans (h.others v).2⟩

/-- A write of members. -/
theorem HoldsTeam.buffer (h : HoldsTeam tenant a since g c w) {u : World B → World B}
    {g' : UUID → Option TenantMember → Option TenantMember}
    (hu : ∀ v id, (u v).members.get? id = g' id (v.members.get? id))
    (hothers : ∀ v, (u v).accounts = v.accounts ∧ (u v).clock = v.clock) :
    HoldsTeam tenant a since (fun id o => g' id (g id o)) (c.buffer u) w := by
  refine ⟨h.base, h.lock, h.live, h.now, fun v id => ?_, fun v => ?_⟩
  · show (u (c.pending v)).members.get? id = _
    rw [hu, h.members]
  · obtain ⟨h1, h2⟩ := hothers (c.pending v)
    obtain ⟨h3, h4⟩ := h.others v
    exact ⟨h1.trans h3, h2.trans h4⟩

/-- The lock. -/
theorem wp_lockTeam {Q : BillingAccount × Int → Ctx (World B) RowKey → World B → Prop}
    (hc : c.reset = idle) (hpending : ∀ v, (c.pending v).roster = v.roster)
    (hQ : ∀ a since c' w', HoldsTeam tenant a since (fun _ o => o) c' w' → Q (a, since) c' w') :
    (teamProtocol B keeps).wp (lockTeam tenant) Q (fun _ _ _ => True) c w := by
  have hlive : ∀ v, (c.pending v).liveAccount tenant = v.liveAccount tenant := fun v => by
    rw [World.liveAccount, World.liveAccount, (roster_eq (hpending v)).2.1]
  refine Protocol.wp_seq (Protocol.wp_selectLocking (Protocol.stable_const _ True) trivial
    (fun w' _ _ _ hrow => ?_) (fun w' r _ _ _ hrow => ?_) fun _ _ _ => trivial)
  · have hnone : (c.pending w').liveAccount tenant = none := Option.map_eq_none_iff.1 hrow
    dsimp only
    rw [hnone]
    exact Protocol.wp_seq (Protocol.wp_orRaise (fun x h => absurd h (by simp)) fun _ => trivial)
  · obtain ⟨a, ha, rfl⟩ := Option.map_eq_some_iff.1 hrow
    dsimp only
    rw [ha]
    refine Protocol.wp_seq (Protocol.wp_orRaise (fun x h => ?_) fun _ => trivial)
    obtain rfl := Option.some.inj h
    rw [hlive] at ha
    obtain ⟨hget, hdeleted⟩ := Option.filter_eq_some_iff.1 ha
    refine Protocol.wp_pure (hQ a _ _ w' ⟨hc, by simp, by simpa using hdeleted, ⟨hget, ?_⟩,
      fun v id => ?_, fun v => ?_⟩)
    · exact Int.le_of_eq (roster_eq (hpending w')).2.2
    · rw [Ctx.take_pending, (roster_eq (hpending v)).1]
    · exact (roster_eq (hpending v)).2

theorem HoldsTeam.liveAccount (h : HoldsTeam tenant a since g c w) : w.liveAccount tenant = some a :=
  Option.filter_eq_some_iff.2 ⟨h.now.1, by simp [h.live]⟩

theorem HoldsTeam.liveAccount_pending (h : HoldsTeam tenant a since g c w) :
    (c.pending w).liveAccount tenant = some a := by
  rw [World.liveAccount, (h.others w).1]
  exact h.liveAccount

/-- The limit is the one of the account, at a clock since it was locked. -/
def LimitOf (a : BillingAccount) (since : Int) (limit : Option Nat) (w : World B) : Prop :=
  ∃ now, since ≤ now ∧ now ≤ w.clock ∧ limit = a.memberLimit now

theorem stable_limitOf (K : Rights RowKey) (a : BillingAccount) (since : Int) (limit : Option Nat) :
    (teamProtocol B keeps).Stable K (LimitOf a since limit) := by
  rintro w w' hi ⟨now, h1, h2, h3⟩
  exact ⟨now, h1, stable_clock K now w w' hi h2, h3⟩

theorem wp_memberLimit {Q : Option Nat → Ctx (World B) RowKey → World B → Prop}
    (h : HoldsTeam tenant a since g c w) (hX : (teamProtocol B keeps).Stable c.held X) (hw : X w)
    (hQ : ∀ limit w', HoldsTeam tenant a since g c w' → X w' → LimitOf a since limit w' → Q limit c w') :
    (teamProtocol B keeps).wp (memberLimit tenant (some a)) Q (fun _ _ _ => True) c w := by
  have hstable := h.stable.and hX
  refine Protocol.wp_seq (Protocol.wp_select hstable ⟨h.now, hw⟩ (fun w1 h1 _ _ => ?_)
    fun _ _ _ => trivial)
  have hheld := h.later h1.1
  rw [hheld.liveAccount_pending]
  refine Protocol.wp_seq (Protocol.wp_select hstable h1 (fun w2 h2 _ _ => ?_) fun _ _ _ => trivial)
  have hclock : (c.pending w2).clock = w2.clock := (h.others w2).2
  exact Protocol.wp_pure (hQ _ w2 (h.later h2.1) h2.2
    ⟨w2.clock, h2.1.2, Int.le_refl _, by rw [Option.getD_some, hclock]⟩)

variable (host : Host B Page)

/-- The administrator who calls. -/
theorem wp_requireAdmin {caller : Caller} {subject : String}
    {Q : UUID × TenantMember → Ctx (World B) RowKey → World B → Prop}
    (hX : (teamProtocol B keeps).Stable c.held X) (hw : X w)
    (hQ : ∀ actor w', X w' → actor.2.isActive tenant = true → Q actor c w') :
    (teamProtocol B keeps).wp (requireRole host caller tenant subject (some [.admin]) true) Q
      (fun _ _ _ => True) c w := by
  refine Protocol.wp_seq (Protocol.wp_select hX hw (fun w1 h1 _ _ => ?_) fun _ _ _ => trivial)
  refine Protocol.wp_seq (Protocol.wp_orRaise (fun actor hactor => ?_) fun _ => trivial)
  refine Protocol.wp_seq (Protocol.wp_require (fun _ => ?_) fun _ => trivial)
  have hmem := List.mem_of_head? hactor
  have hfilter := (List.mem_filter.1 hmem).2
  exact Protocol.wp_pure (hQ actor w1 h1 (Bool.and_eq_true_iff.1 hfilter).2)

/-! ## New members -/

/-- What `add_member` and `invite_member` know once they have checked the seats. -/
structure Admitted (tenant : UUID) (a : BillingAccount) (checked : Admission)
    (g : UUID → Option TenantMember → Option TenantMember) (c : Ctx (World B) RowKey) (w : World B) :
    Prop where
  holds : HoldsTeam tenant a checked.since g c w
  limit : LimitOf a checked.since checked.limit w
  within : ∃ ids, ActiveWithin tenant ids w ∧ ids.length = checked.activeMembers
  seats : ∀ n, checked.limit = some n → checked.activeMembers + 1 ≤ n

theorem activeCount_eq (tenant : UUID) (w : World B) :
    ∃ ids, ActiveWithin tenant ids w ∧ ids.length = w.activeCount tenant := by
  refine ⟨(w.members.select fun _ m => m.isActive tenant).map Prod.fst, fun id m hm ha => ?_, ?_⟩
  · exact List.mem_map.2 ⟨(id, m), Table.mem_select_iff.2 ⟨(teamRow_eq_some.1 hm).1, ha⟩, rfl⟩
  · rw [List.length_map]
    rfl

theorem wp_requireSeats {limit : Option Nat} {members : Nat}
    {Q : Unit → Ctx (World B) RowKey → World B → Prop}
    (hQ : (∀ n, limit = some n → members ≤ n) → Q () c w) :
    (teamProtocol B keeps).wp (requireSeats limit members) Q (fun _ _ _ => True) c w := by
  cases limit with
  | none => exact Protocol.wp_pure (hQ fun n h => absurd h (by simp))
  | some n =>
      refine Protocol.wp_require (fun h => hQ fun n' hn' => ?_) fun _ => trivial
      exact Option.some.inj hn' ▸ h

theorem local_liveTenant {W : (World B → World B) → Prop} (tenant : UUID) :
    (liveTenant tenant : Tx B TeamPoint _).Local W :=
  Code.local_bind (local_query _) fun _ => Code.local_orRaise _ _

theorem local_businessFeaturesEnabled {W : (World B → World B) → Prop} (tenant : UUID)
    (held : BillingAccount) : (businessFeaturesEnabled tenant held : Tx B TeamPoint _).Local W :=
  Code.local_bind (local_query _) fun _ => Code.local_bind (local_query _) fun _ => Code.local_pure _

theorem local_teamRead {W : (World B → World B) → Prop} (tenant : UUID) (held : Option BillingAccount)
    (actor : UUID × TenantMember) : (teamRead tenant held actor : Tx B TeamPoint _).Local W :=
  Code.local_bind (local_query _) fun _ => Code.local_bind (local_memberLimit _ _) fun _ =>
    Code.local_pure _

theorem keeps_record (e : AuditEvent) : Keeps World.roster fun w : World B => w.record e :=
  fun _ => rfl

/-- The checks of `add_member` and `invite_member`, of a session that has only queried. -/
theorem wp_admission {caller : Caller} {subject : String}
    {Q : Admission → Ctx (World B) RowKey → World B → Prop} (hc : c.reset = idle)
    (hpending : ∀ v, (c.pending v).roster = v.roster)
    (hQ : ∀ a checked c' w', Admitted tenant a checked (fun _ o => o) c' w' → Q checked c' w') :
    (teamProtocol B keeps).wp (admission host caller tenant subject) Q (fun _ _ _ => True) c w := by
  have nothing := fun K => Protocol.stable_const (P := teamProtocol B keeps) K True
  refine Protocol.wp_seq (wp_lockTeam hc hpending fun a since c1 w1 h1 => ?_)
  refine Protocol.wp_seq (wp_requireAdmin host h1.stable h1.now fun actor w2 h2 _ => ?_)
  replace h2 := h1.later h2
  refine Protocol.wp_seq (wp_heldTeam (local_liveTenant _) h2 (nothing _) trivial fun row c3 w3 h3 _ _ => ?_)
  refine Protocol.wp_seq (wp_heldTeam (local_businessFeaturesEnabled _ _) h3 (nothing _) trivial
    fun business c4 w4 h4 _ _ => ?_)
  refine Protocol.wp_seq (Protocol.wp_require (fun _ => ?_) fun _ => trivial)
  refine Protocol.wp_seq (wp_memberLimit h4 (nothing _) trivial fun limit w5 h5 _ hlimit => ?_)
  refine Protocol.wp_seq (Protocol.wp_select (h5.stable.and (stable_limitOf _ a since limit))
    ⟨h5.now, hlimit⟩ (fun w6 h6 _ _ => ?_) fun _ _ _ => trivial)
  obtain ⟨ids, hids, hlength⟩ := activeCount_eq tenant (c4.pending w6)
  have hrows : ∀ id, (c4.pending w6).teamRow tenant id = w6.teamRow tenant id := fun id =>
    teamRow_congr (h5.members w6 id) tenant
  refine Protocol.wp_seq (wp_requireSeats fun hseats => ?_)
  refine Protocol.wp_pure (hQ a _ c4 w6 ⟨h5.later h6.1, h6.2, ⟨ids, fun id m hm ha => ?_, hlength⟩,
    hseats⟩)
  exact hids id m ((hrows id).trans hm) ha

theorem Admitted.stable {checked : Admission} (h : Admitted tenant a checked g c w) :
    (teamProtocol B keeps).Stable c.held fun w => (w.accounts.get? tenant = some a ∧ checked.since ≤ w.clock) ∧
      LimitOf a checked.since checked.limit w ∧
        ∃ ids, ActiveWithin tenant ids w ∧ ids.length = checked.activeMembers := by
  refine h.holds.stable.and ((stable_limitOf _ _ _ _).and ?_)
  rintro v v' hi ⟨ids, hids, hlength⟩
  exact ⟨ids, stable_activeWithin h.holds.lock ids v v' hi hids, hlength⟩

/-- Statements that leave members, accounts and the clock alone. -/
theorem wp_admitted {α : Type} {x : Tx B TeamPoint α} (hx : x.Local (Keeps World.roster))
    {Q : α → Ctx (World B) RowKey → World B → Prop} {checked : Admission}
    (h : Admitted tenant a checked g c w)
    (hQ : ∀ r c' w', Admitted tenant a checked g c' w' → Q r c' w') :
    (teamProtocol B keeps).wp x Q (fun _ _ _ => True) c w :=
  wp_heldTeam hx h.holds h.stable ⟨h.holds.now, h.limit, h.within⟩ fun r c' w' hh _ hw' =>
    hQ r c' w' ⟨hh, hw'.2.1, hw'.2.2, h.seats⟩

/-- What adding a member makes of the row under an identifier. -/
def addRow (id : UUID) (m : TenantMember) (id' : UUID) (o : Option TenantMember) : Option TenantMember :=
  o.or (if id = id' then some m else none)

theorem get?_insertMember (id : UUID) (m : TenantMember) (v : World B) (id' : UUID) :
    (World.insertMember id m v).members.get? id' = addRow id m id' (v.members.get? id') := by
  show (v.members.insert id m).get? id' = _
  unfold addRow
  cases h : v.members.get? id with
  | none => exact Table.get?_insert_of_free h id' m
  | some m' =>
      rw [Table.insert_of_taken h]
      by_cases hid : id = id'
      · rw [← hid, h]
        rfl
      · rw [if_neg hid, Option.or_none]

theorem wp_flushMember {id : UUID} {m : TenantMember} {Q : Unit → Ctx (World B) RowKey → World B → Prop}
    {checked : Admission} (h : Admitted tenant a checked (fun _ o => o) c w)
    (hQ : ∀ c' w', Admitted tenant a checked (addRow id m) c' w' → Q () c' w') :
    (teamProtocol B keeps).wp (flushMember id m) Q (fun _ _ _ => True) c w := by
  refine Protocol.wp_seq (wp_admitted (local_claim _ _) h fun _ c1 w1 h1 => ?_)
  refine Protocol.wp_seq (wp_admitted (local_claimChanged _ _ _ _) h1 fun _ c2 w2 h2 => ?_)
  refine Protocol.wp_seq (wp_admitted (local_referTo _ _) h2 fun _ c3 w3 h3 => ?_)
  refine Protocol.wp_write h3.stable ⟨h3.holds.now, h3.limit, h3.within⟩ (fun w4 h4 _ _ => ?_)
    fun _ _ _ => trivial
  exact hQ _ w4 ⟨(h3.holds.later h4.1).buffer (get?_insertMember id m) fun _ => ⟨rfl, rfl⟩,
    h4.2.1, h4.2.2, h3.seats⟩

/-- No more active members than the list has. -/
theorem activeCount_le {ids : List UUID} (h : ActiveWithin tenant ids w) :
    w.activeCount tenant ≤ ids.length := by
  have hsub : ((w.members.select fun _ m => m.isActive tenant).map Prod.fst) ⊆ ids := by
    intro id hid
    obtain ⟨⟨id', m⟩, hmem, rfl⟩ := List.mem_map.1 hid
    obtain ⟨hget, ha⟩ := Table.mem_select_iff.1 hmem
    exact h id' m (teamRow_eq_some.2 ⟨hget, (isActive_iff.1 ha).1⟩) ha
  have hle := List.subperm_of_subset (w.members.select_nodup fun _ m => m.isActive tenant) hsub
  simpa [World.activeCount] using hle.length_le

/-- The commit of a new member is what the protocol promises. -/
theorem Admitted.commits {id : UUID} {m : TenantMember} {checked : Admission}
    (hm : m.tenantId = tenant) (h : Admitted tenant a checked (addRow id m) c w) :
    (teamProtocol B keeps).CommitsAt (.added tenant checked.since checked.limit) (fun _ => True)
      (fun _ _ => True) c w := by
  refine Protocol.commitsAt_of h.stable ⟨h.holds.now, h.limit, h.within⟩ (fun _ _ => trivial)
    fun v hv _ _ => ⟨trivial, ⟨(h.holds.others v).2, fun t => ?_⟩, trivial, fun _ => trivial⟩
  obtain ⟨hnow, ⟨now, h1, h2, h3⟩, ids, hids, hlength⟩ := hv
  have hget := h.holds.members v
  have hkept : ∀ id' m', v.teamRow t id' = some m' → (c.pending v).teamRow t id' = some m' := by
    intro id' m' hrow
    obtain ⟨hrow, ht⟩ := teamRow_eq_some.1 hrow
    exact teamRow_eq_some.2 ⟨by rw [hget, hrow]; rfl, ht⟩
  have haccounts : (c.pending v).accounts = v.accounts := (h.holds.others v).1
  simp only [teamGuarantee]
  split
  · next ht =>
      subst ht
      refine ⟨⟨h.holds.lock, ⟨fun hs => by rw [haccounts]; exact hs, fun id' m' hrow =>
        ⟨m', hkept id' m' hrow, .refl _⟩⟩, fun _ hadmin => ?_⟩, a, now, (h.holds.later hnow).liveAccount,
        h1, h2, h3, fun n hn => ?_⟩
      · obtain ⟨k, hk⟩ := hasAdministrator_iff.1 hadmin
        obtain ⟨mk, hmk, ha⟩ := world_isAdministrator_iff.1 hk
        exact hasAdministrator_iff.2 ⟨k, world_isAdministrator_iff.2 ⟨mk, hkept k mk hmk, ha⟩⟩
      · have hwithin : ActiveWithin tenant (id :: ids) (c.pending v) := by
          intro id' m' hrow ha
          obtain ⟨hrow, ht⟩ := teamRow_eq_some.1 hrow
          rw [hget, addRow, Option.or_eq_some_iff] at hrow
          rcases hrow with hrow | ⟨-, hrow⟩
          · exact List.mem_cons_of_mem _ (hids id' m' (teamRow_eq_some.2 ⟨hrow, ht⟩) ha)
          · split at hrow
            · next hid => exact hid ▸ List.mem_cons_self
            · exact absurd hrow (by simp)
        have hcount := activeCount_le hwithin
        have hseats := h.seats n hn
        rw [List.length_cons, hlength] at hcount
        exact Nat.le_trans hcount hseats
  · next ht =>
      refine ⟨by rw [haccounts], fun id' => ?_⟩
      rw [World.teamRow, World.teamRow, hget, addRow]
      by_cases hid : id = id'
      · rw [if_pos hid]
        cases v.members.get? id' with
        | none => simp [hm, ht]
        | some m' => rfl
      · rw [if_neg hid, Option.or_none]

theorem local_orRaiseFrom {α : Type} {W : (World B → World B) → Prop} (answer : Except Failure α) :
    (orRaiseFrom answer : Tx B TeamPoint α).Local W := by
  cases answer <;> trivial

theorem local_clock {W : (World B → World B) → Prop} : (utcNow : Tx B TeamPoint Int).Local W :=
  local_query _

/-- A team operation between its start and its lock. -/
theorem wp_started {α : Type} {f : Int → Tx B TeamPoint α}
    {Q : α → Ctx (World B) RowKey → World B → Prop}
    (h : ∀ now w, (teamProtocol B keeps).wp (f now) Q (fun _ _ _ => True) idle w) :
    (teamProtocol B keeps).wp (utcNow >>= f) Q (fun _ _ _ => True) idle w :=
  Protocol.wp_seq (Protocol.wp_select (Protocol.stable_const _ True) trivial (fun w' _ _ _ => h _ w')
    fun _ _ _ => trivial)

/-- A transaction of which nothing has to hold where it raises. -/
theorem wp_teamTransaction {α : Type} {body : Tx B TeamPoint (α × TeamPoint)}
    (h : (teamProtocol B keeps).wp body
      (fun r c w => (teamProtocol B keeps).CommitsAt r.2 (fun _ => True) (fun _ _ => True) c w)
      (fun _ _ _ => True) idle w) :
    (teamProtocol B keeps).wp (Code.transaction .plain body) (fun _ _ _ => True) (fun _ _ _ => True)
      idle w :=
  Protocol.wp_transaction (fun _ h => h) (fun _ => Protocol.stable_const _ _) (fun _ _ _ _ => trivial) h

theorem wp_addMember (users : UserClient) (caller : Caller) (id : UUID) (payload : MemberCreate)
    (subject : String) :
    (teamProtocol B keeps).wp (addMember host users caller id tenant payload subject) (fun _ _ _ => True)
      (fun _ _ _ => True) idle w := by
  refine wp_teamTransaction (wp_started fun created w1 => ?_)
  refine Protocol.wp_seq (wp_admission host rfl (fun _ => rfl) fun a checked c2 w2 h2 => ?_)
  refine Protocol.wp_seq (wp_admitted (local_orRaiseFrom _) h2 fun user c3 w3 h3 => ?_)
  refine Protocol.wp_seq (wp_admitted local_clock h3 fun now c4 w4 h4 => ?_)
  refine Protocol.wp_seq (Protocol.wp_try ?_)
  refine wp_flushMember h4 fun c5 w5 h5 => ?_
  refine Protocol.wp_seq (wp_admitted (local_audit keeps_record _ _ _ _ _ _) h5 fun _ c6 w6 h6 => ?_)
  exact Protocol.wp_pure (h6.commits rfl)

theorem wp_inviteMember (users : UserClient) (caller : Caller) (id : UUID) (payload : MemberInvitation)
    (subject : String) :
    (teamProtocol B keeps).wp (inviteMember host users caller id tenant payload subject)
      (fun _ _ _ => True) (fun _ _ _ => True) idle w := by
  refine wp_teamTransaction (wp_started fun created w1 => ?_)
  refine Protocol.wp_seq (wp_admission host rfl (fun _ => rfl) fun a checked c2 w2 h2 => ?_)
  refine Protocol.wp_seq (wp_admitted (local_query _) h2 fun existing c3 w3 h3 => ?_)
  refine Protocol.wp_seq (Protocol.wp_require (fun _ => ?_) fun _ => trivial)
  refine Protocol.wp_seq (wp_admitted (local_orRaiseFrom _) h3 fun user c4 w4 h4 => ?_)
  refine Protocol.wp_seq (wp_admitted local_clock h4 fun now c5 w5 h5 => ?_)
  refine Protocol.wp_seq (wp_admitted (local_audit keeps_record _ _ _ _ _ _) h5 fun _ c6 w6 h6 => ?_)
  refine Protocol.wp_seq (wp_flushMember h6 fun c7 w7 h7 => ?_)
  exact Protocol.wp_pure (h7.commits rfl)

/-! ## Selections -/

/-- What a change of some members makes of the row under an identifier. -/
def editRow (f : UUID → TenantMember → TenantMember) (changed : List UUID) (id : UUID)
    (o : Option TenantMember) : Option TenantMember :=
  o.map fun m => if id ∈ changed then f id m else m

theorem editRow_nil (f : UUID → TenantMember → TenantMember) : editRow f [] = fun _ o => o := by
  funext id o
  simp [editRow]

theorem editRow_of_notMem {f : UUID → TenantMember → TenantMember} {changed : List UUID} {id : UUID}
    (h : id ∉ changed) (o : Option TenantMember) : editRow f changed id o = o := by
  simp [editRow, h]

/-- A row of a tenant after a change that moves nobody to another tenant. -/
theorem teamRow_edit {f : UUID → TenantMember → TenantMember} {changed : List UUID} {v v' : World B}
    {t id : UUID} (hf : ∀ m, (f id m).tenantId = m.tenantId)
    (hget : v'.members.get? id = editRow f changed id (v.members.get? id)) :
    v'.teamRow t id = editRow f changed id (v.teamRow t id) := by
  rw [World.teamRow, World.teamRow, hget, editRow, editRow]
  cases v.members.get? id with
  | none => rfl
  | some m =>
      by_cases hid : id ∈ changed
      · by_cases ht : m.tenantId = t <;> simp [hid, ht, hf, Option.filter]
      · simp [hid]

/-- A change of members of one tenant is none of another's. -/
theorem untouched_edit {f : UUID → TenantMember → TenantMember} {changed : List UUID} {v v' : World B}
    {t : UUID} (hrow : ∀ id, v'.teamRow t id = editRow f changed id (v.teamRow t id))
    (haccount : v'.accounts.get? t = v.accounts.get? t)
    (hseat : ∀ id ∈ changed, ∃ m, v.teamRow tenant id = some m) (ht : tenant ≠ t) :
    Untouched t v v' := by
  refine ⟨haccount, fun id => ?_⟩
  rw [hrow]
  by_cases hid : id ∈ changed
  · obtain ⟨m, hm⟩ := hseat id hid
    obtain ⟨hm, hmt⟩ := teamRow_eq_some.1 hm
    have hnone : v.teamRow t id = none := by simp [World.teamRow, hm, hmt, ht]
    rw [hnone]
    rfl
  · exact editRow_of_notMem hid _

/-- What a selection makes of a member. -/
def selecting (selected : List UUID) (id : UUID) (m : TenantMember) : TenantMember :=
  { m with status := selectedStatus selected id }

theorem get?_select (selected changed : List UUID) (v : World B) (id : UUID) :
    (World.select selected changed v).members.get? id =
      editRow (selecting selected) changed id (v.members.get? id) :=
  Table.get?_map _ _ _

/-- What a selection rests on while the lock is held: the members it changes are members, and the active
    ones are in the list. -/
structure SelectionOf (tenant : UUID) (changed ids : List UUID) (w : World B) : Prop where
  seats : ∀ id ∈ changed, ∃ m, w.teamRow tenant id = some m
  within : ActiveWithin tenant ids w

theorem stable_selectionOf {K : Rights RowKey} (hK : (RowKey.account tenant, .exclusive) ∈ K)
    (changed ids : List UUID) : (teamProtocol B keeps).Stable K (SelectionOf tenant changed ids) := by
  intro v v' hi h
  refine ⟨fun id hid => ?_, stable_activeWithin hK ids v v' hi h.within⟩
  obtain ⟨m, hm⟩ := h.seats id hid
  obtain ⟨m', hm', -⟩ := stable_seat K tenant id m v v' hi ⟨m, hm, .refl m⟩
  exact ⟨m', hm'⟩

/-- The commit of a selection is what the protocol promises. -/
theorem selection_commits {selected changed ids : List UUID} {limit : Option Nat} {actor : UUID}
    (h : HoldsTeam tenant a since (editRow (selecting selected) changed) c w) (hlimit : LimitOf a since limit w)
    (hselection : SelectionOf tenant changed ids w) (hactor : actor ∉ changed)
    (hcover : ∀ id ∈ ids, id ∈ selected ∨ id ∈ changed)
    (hseats : ∀ n, limit = some n → selected.length ≤ n) :
    (teamProtocol B keeps).CommitsAt (.updated tenant actor since limit) (fun _ => True)
      (fun _ _ => True) c w := by
  refine Protocol.commitsAt_of
    (h.stable.and ((stable_limitOf _ a since limit).and (stable_selectionOf h.lock changed ids)))
    ⟨h.now, hlimit, hselection⟩ (fun _ _ => trivial)
    fun v hv _ _ => ⟨trivial, ⟨(h.others v).2, fun t => ?_⟩, trivial, fun _ => trivial⟩
  obtain ⟨hnow, ⟨now, h1, h2, h3⟩, hseat, hwithin⟩ := hv
  have hrow : ∀ t id, (c.pending v).teamRow t id =
      editRow (selecting selected) changed id (v.teamRow t id) :=
    fun t id => teamRow_edit (fun _ => rfl) (h.members v id)
  have haccounts : (c.pending v).accounts = v.accounts := (h.others v).1
  simp only [teamGuarantee]
  split
  · next ht =>
      subst ht
      refine ⟨h.lock, ⟨fun hs => by rw [haccounts]; exact hs, fun id m hm => ?_⟩, ?_, a, now,
        (h.later hnow).liveAccount, h1, h2, h3, fun n hn => ?_⟩
      · rw [hrow, hm]
        refine ⟨_, rfl, ?_⟩
        split
        · exact ⟨rfl, rfl, rfl, rfl, Iff.rfl⟩
        · exact .refl m
      · rw [hrow, editRow_of_notMem hactor]
      · have hactive : ActiveWithin tenant selected (c.pending v) := by
          intro id m' hm' ha
          rw [hrow] at hm'
          obtain ⟨m, hm, rfl⟩ := Option.map_eq_some_iff.1 hm'
          obtain ⟨-, -, hstatus⟩ := isActive_iff.1 ha
          by_cases hid : id ∈ changed
          · rw [if_pos hid] at hstatus
            by_contra hsel
            simp [selecting, selectedStatus, hsel] at hstatus
          · rw [if_neg hid] at ha
            exact (hcover id (hwithin id m hm ha)).resolve_right hid
        exact Nat.le_trans (activeCount_le hactive) (hseats n hn)
  · next ht => exact untouched_edit (hrow t) (by rw [haccounts]) hseat ht

/-- The members whose status a selection changes. -/
def changedBy (selected : List UUID) (members : List (UUID × TenantMember)) : List UUID :=
  (members.filter fun x => x.2.status ≠ selectedStatus selected x.1).map Prod.fst

section Selected

variable {actor : UUID × TenantMember} {rows : List (UUID × TenantMember)} {selected : List UUID}

theorem mem_changedBy {id : UUID} (h : id ∈ changedBy selected (membersAround actor rows)) :
    ∃ m, (id, m) ∈ rows := by
  obtain ⟨x, hx, rfl⟩ := List.mem_map.1 h
  obtain ⟨y, hy, hyx⟩ := List.mem_map.1 (List.mem_filter.1 hx).1
  split at hyx
  · next heq =>
      subst hyx
      exact ⟨y.2, by rw [← heq]; exact hy⟩
  · subst hyx
    exact ⟨y.2, hy⟩

/-- Who calls stays as it is. -/
theorem actor_notMem_changedBy (hactive : actor.2.status = .active) (hactor : actor.1 ∈ selected) :
    actor.1 ∉ changedBy selected (membersAround actor rows) := by
  intro h
  obtain ⟨x, hx, hid⟩ := List.mem_map.1 h
  obtain ⟨hmem, hne⟩ := List.mem_filter.1 hx
  obtain ⟨y, -, hyx⟩ := List.mem_map.1 hmem
  have hxa : x = actor := by
    split at hyx
    · exact hyx.symm
    · next hne' => exact absurd (by rw [hyx]; exact hid) hne'
  rw [hxa, hactive] at hne
  simp [selectedStatus, hactor] at hne

/-- A member that is active stays so only if it is selected. -/
theorem selected_or_changed (hactor : actor.1 ∈ selected) {id : UUID} {m : TenantMember}
    (hmem : (id, m) ∈ rows) (hactive : m.status = .active) :
    id ∈ selected ∨ id ∈ changedBy selected (membersAround actor rows) := by
  by_cases hid : id = actor.1
  · exact Or.inl (hid ▸ hactor)
  by_cases hsel : id ∈ selected
  · exact Or.inl hsel
  refine Or.inr (List.mem_map.2 ⟨(id, m), List.mem_filter.2 ⟨List.mem_map.2 ⟨(id, m), hmem, ?_⟩, ?_⟩, rfl⟩)
  · exact if_neg hid
  · simp [hactive, selectedStatus, hsel]

end Selected

/-- The end of `update_team`. -/
theorem wp_selected {selected changed ids : List UUID} {limit : Option Nat} {actor : UUID × TenantMember}
    (h : HoldsTeam tenant a since (editRow (selecting selected) changed) c w) (hlimit : LimitOf a since limit w)
    (hselection : SelectionOf tenant changed ids w) (hactor : actor.1 ∉ changed)
    (hcover : ∀ id ∈ ids, id ∈ selected ∨ id ∈ changed)
    (hseats : ∀ n, limit = some n → selected.length ≤ n) :
    (teamProtocol B keeps).wp
      (teamRead tenant (some a) actor >>= fun read => pure (read, TeamPoint.updated tenant actor.1 since limit))
      (fun r c w => (teamProtocol B keeps).CommitsAt r.2 (fun _ => True) (fun _ _ => True) c w)
      (fun _ _ _ => True) c w := by
  refine Protocol.wp_seq (wp_heldTeam (local_teamRead _ _ _) h
    ((stable_limitOf _ a since limit).and (stable_selectionOf h.lock changed ids)) ⟨hlimit, hselection⟩
    fun read c' w' h' _ hw' => ?_)
  exact Protocol.wp_pure (selection_commits h' hw'.1 hw'.2 hactor hcover hseats)

theorem wp_updateTeam (caller : Caller) (active : List UUID) (subject : String) :
    (teamProtocol B keeps).wp (updateTeam host caller tenant active subject) (fun _ _ _ => True)
      (fun _ _ _ => True) idle w := by
  refine wp_teamTransaction (Protocol.wp_seq (wp_lockTeam rfl (fun _ => rfl) fun a since c1 w1 h1 => ?_))
  refine Protocol.wp_seq (wp_requireAdmin host h1.stable h1.now fun actor w2 h2 hactor => ?_)
  replace h2 := h1.later h2
  refine Protocol.wp_seq (Protocol.wp_select h2.stable h2.now (fun w3 hw3 _ _ => ?_) fun _ _ _ => trivial)
  have h3 := h2.later hw3
  refine Protocol.wp_seq (Protocol.wp_require (fun _ => ?_) fun _ => trivial)
  refine Protocol.wp_seq (Protocol.wp_require (fun hkeep => ?_) fun _ => trivial)
  have hrows : ∀ id, (c1.pending w3).teamRow tenant id = w3.teamRow tenant id := fun id =>
    teamRow_congr (h3.members w3 id) tenant
  let rows := (c1.pending w3).members.select fun _ m => m.tenantId = tenant && m.deletedAt.isNone
  let changed := changedBy active.dedup (membersAround actor rows)
  let ids := (rows.filter fun x => x.2.status = .active).map Prod.fst
  have hmem : ∀ {id m}, (id, m) ∈ rows ↔ w3.teamRow tenant id = some m ∧ m.deletedAt = none := by
    intro id m
    rw [Table.mem_select_iff, ← hrows, teamRow_eq_some, and_assoc]
    simp
  -- Who is active now is listed, and is selected or changes.
  have hselection : SelectionOf tenant changed ids w3 := by
    refine ⟨fun id hid => ?_, fun id m hm ha => ?_⟩
    · obtain ⟨m, hm⟩ := mem_changedBy hid
      exact ⟨m, (hmem.1 hm).1⟩
    · obtain ⟨-, hdeleted, hstatus⟩ := isActive_iff.1 ha
      exact List.mem_map.2 ⟨(id, m), List.mem_filter.2 ⟨hmem.2 ⟨hm, hdeleted⟩, by simp [hstatus]⟩, rfl⟩
  have hactor : actor.1 ∉ changed := actor_notMem_changedBy (isActive_iff.1 hactor).2.2 hkeep
  have hcover : ∀ id ∈ ids, id ∈ active.dedup ∨ id ∈ changed := by
    intro id hid
    obtain ⟨x, hx, rfl⟩ := List.mem_map.1 hid
    obtain ⟨hx, hstatus⟩ := List.mem_filter.1 hx
    exact selected_or_changed hkeep hx (of_decide_eq_true hstatus)
  refine Protocol.wp_seq (wp_memberLimit h3 (stable_selectionOf h3.lock changed ids) hselection
    fun limit w4 h4 hselection hlimit => ?_)
  refine Protocol.wp_seq (wp_requireSeats fun hseats => ?_)
  refine Protocol.wp_seq ?_
  unfold Code.onlyIf
  split
  · refine Protocol.wp_seq (Protocol.wp_write (h4.stable.and ((stable_limitOf _ a since limit).and
      (stable_selectionOf h4.lock changed ids))) ⟨h4.now, hlimit, hselection⟩ (fun w5 h5 _ _ => ?_)
      fun _ _ _ => trivial)
    have h6 := (h4.later h5.1).buffer (get?_select active.dedup changed) fun _ => ⟨rfl, rfl⟩
    refine wp_heldTeam (local_audit keeps_record _ _ _ _ _ _) h6
      ((stable_limitOf _ a since limit).and (stable_selectionOf h6.lock changed ids)) h5.2
      fun _ c7 w7 h7 _ hw7 => ?_
    exact wp_selected h7 hw7.1 hw7.2 hactor hcover hseats
  · next hnil =>
      have hempty : changed = [] := by
        show changedBy _ _ = []
        rw [changedBy, Classical.not_not.1 hnil]
        rfl
      have h4' : HoldsTeam tenant a since (editRow (selecting active.dedup) changed) c1 w4 := by
        rw [hempty, editRow_nil]
        exact h4
      exact Protocol.wp_pure (wp_selected h4' hlimit hselection hactor hcover hseats)

/-! ## Roles -/

def changingRole (role : MemberRole) (_ : UUID) (m : TenantMember) : TenantMember :=
  { m with role := role }

theorem get?_setRole (id : UUID) (role : MemberRole) (v : World B) (id' : UUID) :
    (World.setRole id role v).members.get? id' =
      editRow (changingRole role) [id] id' (v.members.get? id') := by
  show (v.members.update id _).get? id' = _
  rw [Table.get?_update, editRow]
  split
  · next h => simp [h, changingRole]
  · next h => simp [h]

/-- The members whose role changes are members, and no administrators. -/
def RoleOf (tenant : UUID) (changed : List UUID) (w : World B) : Prop :=
  ∀ id ∈ changed, ∃ m, w.teamRow tenant id = some m ∧ m.role ≠ .admin

theorem stable_roleOf (K : Rights RowKey) (changed : List UUID) :
    (teamProtocol B keeps).Stable K (RoleOf tenant changed) := by
  intro v v' hi h id hid
  obtain ⟨m, hm, hrole⟩ := h id hid
  obtain ⟨m', hm', hseat⟩ := stable_seat K tenant id m v v' hi ⟨m, hm, .refl m⟩
  exact ⟨m', hm', fun hadmin => hrole (hseat.role.1 hadmin)⟩

/-- The commit of a role is what the protocol promises. -/
theorem role_commits {role : {role : MemberRole // role ≠ .admin}} {changed : List UUID}
    (h : HoldsTeam tenant a since (editRow (changingRole role.1) changed) c w)
    (hrole : RoleOf tenant changed w) :
    (teamProtocol B keeps).CommitsAt (.roleUpdated tenant) (fun _ => True) (fun _ _ => True) c w := by
  refine Protocol.commitsAt_of (h.stable.and (stable_roleOf c.held changed)) ⟨h.now, hrole⟩
    (fun _ _ => trivial) fun v hv _ _ => ⟨trivial, ⟨(h.others v).2, fun t => ?_⟩, trivial, fun _ => trivial⟩
  have hrow : ∀ t id, (c.pending v).teamRow t id =
      editRow (changingRole role.1) changed id (v.teamRow t id) :=
    fun t id => teamRow_edit (fun _ => rfl) (h.members v id)
  have haccounts : (c.pending v).accounts = v.accounts := (h.others v).1
  have hseat : ∀ id ∈ changed, ∃ m, v.teamRow tenant id = some m := fun id hid =>
    (hv.2 id hid).imp fun _ hm => hm.1
  simp only [teamGuarantee]
  split
  · next ht =>
      subst ht
      refine ⟨h.lock, ⟨fun hs => by rw [haccounts]; exact hs, fun id m hm => ?_⟩, fun _ hadmin => ?_⟩
      · rw [hrow, hm]
        refine ⟨_, rfl, ?_⟩
        split
        · next hid =>
            obtain ⟨m', hm', hne⟩ := hv.2 id hid
            obtain rfl := Option.some.inj (hm.symm.trans hm')
            exact ⟨rfl, rfl, rfl, rfl, ⟨fun hr => absurd hr role.2, fun hr => absurd hr hne⟩⟩
        · exact .refl m
      · -- No administrator is among those who change.
        obtain ⟨k, hk⟩ := hasAdministrator_iff.1 hadmin
        obtain ⟨mk, hmk, ha⟩ := world_isAdministrator_iff.1 hk
        have hnot : k ∉ changed := by
          intro hid
          obtain ⟨m', hm', hne⟩ := hv.2 k hid
          obtain rfl := Option.some.inj (hmk.symm.trans hm')
          exact hne (isAdministrator_iff.1 ha).2
        refine hasAdministrator_iff.2 ⟨k, world_isAdministrator_iff.2 ⟨mk, ?_, ha⟩⟩
        rw [hrow, editRow_of_notMem hnot, hmk]
  · next ht => exact untouched_edit (hrow t) (by rw [haccounts]) hseat ht

/-- The end of `update_member_role`. -/
theorem wp_roleChanged {role : {role : MemberRole // role ≠ .admin}} {changed : List UUID}
    {actor : UUID × TenantMember} (h : HoldsTeam tenant a since (editRow (changingRole role.1) changed) c w)
    (hrole : RoleOf tenant changed w) :
    (teamProtocol B keeps).wp
      (teamRead tenant (some a) actor >>= fun read => pure (read, TeamPoint.roleUpdated tenant))
      (fun r c w => (teamProtocol B keeps).CommitsAt r.2 (fun _ => True) (fun _ _ => True) c w)
      (fun _ _ _ => True) c w := by
  refine Protocol.wp_seq (wp_heldTeam (local_teamRead _ _ _) h (stable_roleOf _ changed) hrole
    fun read c' w' h' _ hw' => ?_)
  exact Protocol.wp_pure (role_commits h' hw')

theorem wp_updateMemberRole (caller : Caller) (id : UUID) (role : {role : MemberRole // role ≠ .admin})
    (subject : String) :
    (teamProtocol B keeps).wp (updateMemberRole host caller tenant id role subject) (fun _ _ _ => True)
      (fun _ _ _ => True) idle w := by
  refine wp_teamTransaction (Protocol.wp_seq (wp_lockTeam rfl (fun _ => rfl) fun a since c1 w1 h1 => ?_))
  refine Protocol.wp_seq (wp_requireAdmin host h1.stable h1.now fun actor w2 h2 _ => ?_)
  replace h2 := h1.later h2
  refine Protocol.wp_seq (Protocol.wp_selectLocking h2.stable h2.now (fun w3 h3 _ _ hrow => ?_)
    (fun w3 r h3 _ _ hrow => ?_) fun _ _ _ => trivial)
  · dsimp only
    rw [Option.map_eq_none_iff.1 hrow]
    exact Protocol.wp_seq (Protocol.wp_orRaise (fun x h => absurd h (by simp)) fun _ => trivial)
  obtain ⟨member, hmember, -⟩ := Option.map_eq_some_iff.1 hrow
  dsimp only
  rw [hmember]
  refine Protocol.wp_seq (Protocol.wp_orRaise (fun x h => ?_) fun _ => trivial)
  obtain rfl := Option.some.inj h
  refine Protocol.wp_seq (Protocol.wp_require (fun hother => ?_) fun _ => trivial)
  obtain ⟨hget, htenant⟩ := Option.filter_eq_some_iff.1 hmember
  rw [h2.members] at hget
  have hrole : RoleOf tenant [id] w3 := by
    intro id' hid'
    obtain rfl := List.mem_singleton.1 hid'
    exact ⟨member, teamRow_eq_some.2 ⟨hget, of_decide_eq_true (Bool.and_eq_true_iff.1 htenant).1⟩,
      fun hadmin => hother (Or.inr hadmin)⟩
  -- The lock of the member's row is held besides.
  have h3 : HoldsTeam tenant a since (fun _ o => o) (c1.take r .exclusive) w3 :=
    ⟨h2.base, List.mem_cons_of_mem _ h2.lock, h2.live, h3, h2.members, h2.others⟩
  refine Protocol.wp_seq ?_
  unfold Code.onlyIf
  split
  · refine Protocol.wp_seq (Protocol.wp_write (h3.stable.and (stable_roleOf _ [id])) ⟨h3.now, hrole⟩
      (fun w4 h4 _ _ => ?_) fun _ _ _ => trivial)
    have h5 := (h3.later h4.1).buffer (get?_setRole id role.1) fun _ => ⟨rfl, rfl⟩
    exact wp_heldTeam (local_audit keeps_record _ _ _ _ _ _) h5 (stable_roleOf _ [id]) h4.2
      fun _ c6 w6 h6 _ hw6 => wp_roleChanged h6 hw6
  · have h4 : HoldsTeam tenant a since (editRow (changingRole role.1) []) (c1.take r .exclusive) w3 := by
      rw [editRow_nil]
      exact h3
    exact Protocol.wp_pure (wp_roleChanged h4 fun _ hid => absurd hid (by simp))

end Holding

end Rubrica
