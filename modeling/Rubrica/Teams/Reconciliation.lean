import Rubrica.Teams.Operations

set_option autoImplicit false

/-! # Reconciliations keep the protocol

`reconcile_single_member_plan` runs in two places: in `team`, which holds no lock, and in a delivery,
under the lock of the account. Either way it suspends members that it found active when it chose the
administrator to keep. -/

namespace Rubrica

open Transactions

variable {B Page : Type}

/-! ## Whom a reconciliation spares -/

/-- The members are suspended for `k`: none of them is `k`, nor an administrator who joined before. -/
def Spares (tenant k : UUID) (ids : List UUID) (w : World B) : Prop :=
  ∀ id ∈ ids, id ≠ k ∧ ∃ m mk, w.teamRow tenant id = some m ∧ w.teamRow tenant k = some mk ∧
    (m.role = .admin → joinedBefore (k, mk) (id, m) = true)

def suspending (_ : UUID) (m : TenantMember) : TenantMember :=
  { m with status := .suspended }

theorem get?_suspend (ids : List UUID) (v : World B) (id : UUID) :
    (World.suspend ids v).members.get? id = editRow suspending ids id (v.members.get? id) :=
  Table.get?_map _ _ _

/-- The order of joining does not look at what operations change. -/
theorem joinedBefore_sameSeat {k id : UUID} {m m' mk mk' : TenantMember} (h : m.SameSeat m')
    (hk : mk.SameSeat mk') : joinedBefore (k, mk') (id, m') = joinedBefore (k, mk) (id, m) := by
  simp only [joinedBefore, joinedBefore.later, h.joinedAt, h.createdAt, hk.joinedAt, hk.createdAt]

section Protocol

variable {keeps : UUID → Prop} {tenant k : UUID} {ids : List UUID} {c : Ctx (World B) RowKey} {w w' : World B}
  {X : World B → Prop}

theorem stable_spares (K : Rights RowKey) (tenant k : UUID) (ids : List UUID) :
    (teamProtocol B keeps).Stable K (Spares tenant k ids) := by
  intro v v' hi h id hid
  obtain ⟨hne, m, mk, hm, hmk, hbefore⟩ := h id hid
  obtain ⟨m', hm', hseat⟩ := stable_seat K tenant id m v v' hi ⟨m, hm, .refl m⟩
  obtain ⟨mk', hmk', hseatk⟩ := stable_seat K tenant k mk v v' hi ⟨mk, hmk, .refl mk⟩
  refine ⟨hne, m', mk', hm', hmk', fun hadmin => ?_⟩
  rw [joinedBefore_sameSeat hseat hseatk]
  exact hbefore (hseat.role.1 hadmin)

theorem seats_of_spares (h : Spares tenant k ids w) : ∀ id ∈ ids, ∃ m, w.teamRow tenant id = some m := by
  intro id hid
  obtain ⟨-, m, mk, hm, -⟩ := h id hid
  exact ⟨m, hm⟩

/-- What a reconciliation suspends where it chose `k`. -/
theorem suspends_of_spares (hspares : Spares tenant k ids w)
    (hrow : ∀ id, w'.teamRow tenant id = editRow suspending ids id (w.teamRow tenant id))
    (haccount : w'.accounts.get? tenant = w.accounts.get? tenant) :
    Suspends tenant (some k) w w' := by
  refine ⟨haccount, fun id => ?_⟩
  rw [hrow]
  by_cases hid : id ∈ ids
  · obtain ⟨hne, m, mk, hm, hmk, hbefore⟩ := hspares id hid
    refine Or.inr ⟨m, k, mk, hm, ?_, rfl, hne, hmk, hbefore⟩
    rw [hm, editRow, Option.map_some, if_pos hid, suspending]
  · exact Or.inl (editRow_of_notMem hid _)

variable (host : Host B Page)

/-- What a reconciliation makes of the members: `k` is kept where it suspends somebody, and was then the
    first administrator. -/
theorem wp_reconcileKeeping {τ : Type} [Unmarked τ] (f : τ → TeamPoint) {held : Option BillingAccount}
    {Q : Option UUID → Ctx (World B) RowKey → World B → Prop}
    (hmembers : ∀ v, (c.pending v).members = v.members)
    (hX : (teamProtocol B keeps).Stable c.held X) (hw : X w) (hnone : ∀ w', X w' → Q none c w')
    (hsome : ∀ k ids e w', X w' → Spares tenant k ids w' →
      (keeps tenant → (RowKey.account tenant, .exclusive) ∈ c.held → FirstAdministrator tenant k w') →
      Q (some k) ((c.buffer (World.suspend ids)).buffer fun w => w.record e) w') :
    (teamProtocol B keeps).wp ((reconcileKeeping host tenant held : Tx B τ _).mapPoint f) Q
      (fun _ _ _ => True) c w := by
  have hrows : ∀ v id, (c.pending v).teamRow tenant id = v.teamRow tenant id := fun v id =>
    teamRow_congr (by rw [hmembers]) tenant
  refine Protocol.wp_seqVia (Protocol.wp_reads (Code.reads_mapPoint f (reads_memberLimit tenant held)) hX hw
    (fun limit w1 hw1 => ?_) fun _ _ _ _ _ => trivial)
  split
  · exact Protocol.wp_pure (hnone w1 hw1)
  refine Protocol.wp_seqVia (Protocol.wp_select hX hw1 (fun w2 hw2 _ _ => ?_) fun _ _ _ => trivial)
  cases hfind : ((c.pending w2).activeTeam tenant).find? fun x => decide (x.2.role = .admin) with
  | none => exact Protocol.wp_pure (hnone w2 hw2)
  | some administrator =>
      obtain ⟨k, mk⟩ := administrator
      obtain ⟨hk, hadmin, hfirst⟩ := find_activeTeam hfind
      show (teamProtocol B keeps).wp ((suspendOthers host tenant (k, mk) _).mapPoint f) _ _ _ _
      unfold suspendOthers
      dsimp only
      split
      · exact Protocol.wp_pure (hnone w2 hw2)
      set ids := (((c.pending w2).activeTeam tenant).map Prod.fst).filter fun id => id ≠ k
      have hspares : Spares tenant k ids w2 := by
        intro id hid
        obtain ⟨hid, hne⟩ := List.mem_filter.1 hid
        obtain ⟨⟨id', m⟩, hmem, rfl⟩ := List.mem_map.1 hid
        obtain ⟨hrow, hactive⟩ := mem_activeTeam_iff.1 hmem
        refine ⟨of_decide_eq_true hne, m, mk, by rw [← hrows]; exact hrow, by rw [← hrows]; exact hk,
          fun hrole => hfirst id' m hrow (isAdministrator_iff.2 ⟨hactive, hrole⟩)⟩
      have hadministrator : FirstAdministrator tenant k w2 :=
        ⟨mk, by rw [← hrows]; exact hk, hadmin, fun id m hm => hfirst id m (by rw [hrows]; exact hm)⟩
      -- With the lock held the administrator stays the first one.
      have hA : (teamProtocol B keeps).Stable c.held fun v => X v ∧ Spares tenant k ids v ∧
          (keeps tenant → (RowKey.account tenant, .exclusive) ∈ c.held → FirstAdministrator tenant k v) :=
        hX.and ((stable_spares c.held tenant k ids).and fun v v' hi h hk hlock =>
          stable_first hk hlock k v v' hi (h hk hlock))
      refine Protocol.wp_seqVia (Protocol.wp_write hA ⟨hw2, hspares, fun _ _ => hadministrator⟩
        (fun w3 h3 _ _ => ?_) fun _ _ _ => trivial)
      refine Protocol.wp_seqVia (Protocol.wp_seqVia (Protocol.wp_select hA h3 (fun w4 h4 _ _ => ?_)
        fun _ _ _ => trivial))
      refine Protocol.wp_write hA h4 (fun w5 h5 _ _ => ?_) fun _ _ _ => trivial
      exact Protocol.wp_pure (hsome k ids _ w5 h5.1 h5.2.1 h5.2.2)

/-! ## `team` -/

theorem reads_teamRead (held : Option BillingAccount) (actor : UUID × TenantMember) :
    (teamRead tenant held actor : Tx B TeamPoint _).Reads :=
  Code.reads_bind (Code.reads_select _ _) fun _ => Code.reads_bind (reads_memberLimit _ _) fun _ =>
    Code.reads_pure _

/-- The commit of a reconciliation without a lock is what the protocol promises. -/
theorem reconciled_commits (hspares : Spares tenant k ids w)
    (hc : ∀ v, (c.pending v).roster = (World.suspend ids v).roster) :
    (teamProtocol B keeps).CommitsAt (.reconciled tenant (some k)) (fun _ => True) (fun _ _ => True) c w := by
  refine Protocol.commitsAt_of (stable_spares c.held tenant k ids) hspares (fun _ _ => trivial)
    fun v hv _ _ => ?_
  obtain ⟨hmembers, haccounts, hclock⟩ := roster_eq (hc v)
  have hrow : ∀ t id, (c.pending v).teamRow t id = editRow suspending ids id (v.teamRow t id) :=
    fun t id => teamRow_edit (fun _ => rfl) (by rw [hmembers]; exact get?_suspend ids v id)
  refine ⟨trivial, ⟨hclock, fun t => ?_⟩, trivial, fun _ => trivial⟩
  simp only [teamGuarantee]
  split
  · next ht =>
      subst ht
      exact suspends_of_spares hv (hrow tenant) (by rw [haccounts]; rfl)
  · next ht =>
      exact untouched_edit (hrow t) (by rw [haccounts]; rfl) (seats_of_spares hv) ht

theorem wp_team (caller : Caller) (subject : String) :
    (teamProtocol B keeps).wp (team host caller tenant subject) (fun _ _ _ => True) (fun _ _ _ => True)
      idle w := by
  have nothing := fun K => Protocol.stable_const (P := teamProtocol B keeps) K True
  refine wp_teamTransaction (Protocol.wp_seq (wp_requireAdmin host (nothing _) trivial fun actor w1 _ _ => ?_))
  rw [← Code.mapPoint_id (reconcileKeeping host tenant none)]
  refine Protocol.wp_seq (wp_reconcileKeeping host id (fun _ => rfl) (nothing _) trivial
    (fun w2 _ => ?_) fun k ids e w2 _ hspares _ => ?_)
  · refine Protocol.wp_seq (Protocol.wp_reads (reads_teamRead none actor) (nothing _) trivial
      (fun read w3 _ => ?_) fun _ _ _ _ _ => trivial)
    refine Protocol.wp_pure (Protocol.commitsAt_of (nothing _) trivial (fun _ _ => trivial)
      fun v _ _ _ => ⟨trivial, ⟨rfl, fun t => ?_⟩, trivial, fun _ => trivial⟩)
    simp only [teamGuarantee]
    split
    · exact ⟨rfl, fun id => Or.inl rfl⟩
    · exact ⟨rfl, fun id => rfl⟩
  · refine Protocol.wp_seq (Protocol.wp_reads (reads_teamRead none actor)
      (stable_spares _ tenant k ids) hspares (fun read w3 h3 => ?_) fun _ _ _ _ _ => trivial)
    exact Protocol.wp_pure (reconciled_commits h3 fun _ => rfl)

end Protocol

/-! ## Deliveries -/

/-- The writes of a delivery for a tenant: the members become `u` of what they were, and of the accounts
    only the tenant's changes, which stays. -/
structure Delivers (tenant : UUID) (u : Table UUID TenantMember → Table UUID TenantMember)
    (w w' : World B) : Prop where
  members : w'.members = u w.members
  clock : w'.clock = w.clock
  others : ∀ t, t ≠ tenant → w'.accounts.get? t = w.accounts.get? t
  account : (w.accounts.get? tenant).isSome → (w'.accounts.get? tenant).isSome

/-- A write of a delivery that leaves members alone. -/
def Beside (tenant : UUID) (f : World B → World B) : Prop :=
  ∀ w, Delivers tenant id w (f w)

section Delivers

variable {tenant : UUID} {u : Table UUID TenantMember → Table UUID TenantMember} {w w' w'' : World B}

theorem Delivers.refl (tenant : UUID) (w : World B) : Delivers tenant id w w :=
  ⟨rfl, rfl, fun _ _ => rfl, fun h => h⟩

theorem Delivers.trans (h : Delivers tenant u w w') (h' : Delivers tenant id w' w'') :
    Delivers tenant u w w'' :=
  ⟨h'.members.trans h.members, h'.clock.trans h.clock,
    fun t ht => (h'.others t ht).trans (h.others t ht), fun hs => h'.account (h.account hs)⟩

theorem beside_of_roster {f : World B → World B} (tenant : UUID) (h : ∀ w, (f w).roster = w.roster) :
    Beside tenant f := by
  intro w
  obtain ⟨hmembers, haccounts, hclock⟩ := roster_eq (h w)
  exact ⟨hmembers, hclock, fun _ _ => by rw [haccounts], fun hs => by rw [haccounts]; exact hs⟩

theorem beside_updateAccount (tenant : UUID) (f : BillingAccount → BillingAccount) :
    Beside tenant (World.updateAccount tenant f : World B → World B) := by
  refine fun w => ⟨rfl, rfl, fun t ht => Table.get?_update_of_ne _ ht f, fun hs => ?_⟩
  show ((w.accounts.update tenant f).get? tenant).isSome
  rw [Table.get?_update_self, Option.isSome_map]
  exact hs

theorem get?_insertAccount_self (tenant : UUID) (a : BillingAccount) (w : World B) :
    ((World.insertAccount tenant a w).accounts.get? tenant).isSome := by
  show ((w.accounts.insert tenant a).get? tenant).isSome
  cases h : w.accounts.get? tenant with
  | none => rw [Table.get?_insert_self h, Option.isSome_some]
  | some a' => rw [Table.get?_insert_of_some h, Option.isSome_some]

theorem beside_insertAccount (tenant : UUID) (a : BillingAccount) :
    Beside tenant (World.insertAccount tenant a : World B → World B) :=
  fun w => ⟨rfl, rfl, fun _ ht => Table.get?_insert_of_ne _ ht a, fun _ => get?_insertAccount_self tenant a w⟩

end Delivers

section Deliveries

variable {keeps : UUID → Prop} {tenant : UUID} {u : Table UUID TenantMember → Table UUID TenantMember}
  {c : Ctx (World B) RowKey} {w : World B}

/-- A delivery that holds the lock of the account. -/
structure Delivering (tenant : UUID) (u : Table UUID TenantMember → Table UUID TenantMember)
    (c : Ctx (World B) RowKey) : Prop where
  reset : c.reset = idle
  lock : (RowKey.account tenant, .exclusive) ∈ c.held
  writes : ∀ v, Delivers tenant u v (c.pending v)

def suspendedIn (ids : List UUID) (members : Table UUID TenantMember) : Table UUID TenantMember :=
  members.map fun id m => if id ∈ ids then { m with status := .suspended } else m

/-- What a delivery may make of the members: nothing, or what a reconciliation does that keeps the first
    administrator. -/
def Settles (keeps : UUID → Prop) (tenant : UUID) (u : Table UUID TenantMember → Table UUID TenantMember)
    (w : World B) : Prop :=
  u = id ∨ ∃ k ids, u = suspendedIn ids ∧ Spares tenant k ids w ∧
    (keeps tenant → FirstAdministrator tenant k w)

theorem stable_settles (hK : (RowKey.account tenant, .exclusive) ∈ c.held) :
    (teamProtocol B keeps).Stable c.held (Settles keeps tenant u) := by
  rintro v v' hi (h | ⟨k, ids, h, hspares, hfirst⟩)
  · exact Or.inl h
  · exact Or.inr ⟨k, ids, h, stable_spares _ tenant k ids v v' hi hspares,
      fun hk => stable_first hk hK k v v' hi (hfirst hk)⟩

/-- Statements that leave members alone. -/
theorem wp_delivering {α : Type} {x : Tx B TeamPoint α} (hx : x.Local (Beside tenant))
    {Q : α → Ctx (World B) RowKey → World B → Prop} (h : Delivering tenant u c)
    (hw : Settles keeps tenant u w)
    (hQ : ∀ r c' w', Delivering tenant u c' → Settles keeps tenant u w' → Q r c' w') :
    (teamProtocol B keeps).wp x Q (fun _ _ _ => True) c w := by
  refine Protocol.wp_local hx (stable_settles h.lock) hw (fun r c' w' hc hw' => ?_) fun _ _ _ _ _ => trivial
  refine hQ r c' w' ⟨hc.reset.trans h.reset, hc.held h.lock, fun v => (h.writes v).trans ?_⟩ hw'
  exact hc.relate (Delivers.refl tenant) (fun _ _ _ => Delivers.trans) (fun f hf => hf) v

/-- The commit of an event's effect is what the protocol promises. -/
theorem Delivering.commits (h : Delivering tenant u c) (hw : Settles keeps tenant u w) (e : BillingEvent) :
    (teamProtocol B keeps).CommitsAt (.billing (.settled e (some tenant))) (fun _ => True)
      (fun c _ => c = idle) c w := by
  refine Protocol.commitsAt_of (stable_settles h.lock) hw (fun _ _ => trivial)
    fun v hv _ _ => ⟨trivial, ⟨(h.writes v).clock, fun t => ?_⟩, h.reset, fun _ => trivial⟩
  obtain ⟨hmembers, -, hothers, haccount⟩ := h.writes v
  simp only [teamGuarantee]
  rcases hv with rfl | ⟨k, ids, rfl, hspares, hfirst⟩
  · have hrow : ∀ t id, (c.pending v).teamRow t id = v.teamRow t id := fun t id =>
      teamRow_congr (by rw [hmembers, id_eq]) t
    split
    · next ht =>
        subst ht
        refine ⟨h.lock, ⟨haccount, fun id m hm => ⟨m, by rw [hrow, hm], .refl m⟩⟩, fun _ hadmin => ?_⟩
        obtain ⟨k, hk⟩ := hasAdministrator_iff.1 hadmin
        obtain ⟨mk, hmk, ha⟩ := world_isAdministrator_iff.1 hk
        exact hasAdministrator_iff.2 ⟨k, world_isAdministrator_iff.2 ⟨mk, by rw [hrow, hmk], ha⟩⟩
    · next ht => exact ⟨hothers t (Ne.symm ht), hrow t⟩
  · have hrow : ∀ t id, (c.pending v).teamRow t id = editRow suspending ids id (v.teamRow t id) :=
      fun t id => teamRow_edit (fun _ => rfl) (by rw [hmembers]; exact get?_suspend ids v id)
    split
    · next ht =>
        subst ht
        refine ⟨h.lock, ⟨haccount, fun id m hm => ?_⟩, fun hk _ => ?_⟩
        · rw [hrow, hm]
          refine ⟨_, rfl, ?_⟩
          split
          · exact .suspended m
          · exact .refl m
        · -- The administrator that is kept is not suspended.
          obtain ⟨mk, hmk, ha, -⟩ := hfirst hk
          refine hasAdministrator_iff.2 ⟨k, world_isAdministrator_iff.2 ⟨mk, ?_, ha⟩⟩
          rw [hrow, editRow_of_notMem (fun hid => (hspares k hid).1 rfl), hmk]
    · next ht =>
        exact untouched_edit (hrow t) (hothers t (Ne.symm ht)) (seats_of_spares hspares) ht

variable (host : Host B Page) (cfg : BillingSettings)

/-- Applying an event under the lock of the account, from where the session has an account to lock. -/
theorem wp_applyEventTo_team {e : BillingEvent} {identity : Option BusinessIdentity}
    {held : AccountObject} {Q : Bool → Ctx (World B) RowKey → World B → Prop} (hc : c.reset = idle)
    (hwrites : ∀ v, Delivers tenant id v (c.pending v))
    (hA : (teamProtocol B keeps).Stable c.held fun v => ((c.pending v).accounts.get? tenant).isSome)
    (hw : ((c.pending w).accounts.get? tenant).isSome)
    (hQ : ∀ r u c' w', Delivering tenant u c' → Settles keeps tenant u w' → Q r c' w') :
    (teamProtocol B keeps).wp ((applyEventTo host cfg tenant e identity held).mapPoint TeamPoint.billing) Q
      (fun _ _ _ => True) c w := by
  refine Protocol.wp_seqVia (Protocol.wp_selectLocking hA hw (fun w1 h1 _ _ hrow => ?_)
    (fun w1 r _ _ _ hrow => ?_) fun _ _ _ => trivial)
  · rw [Option.map_eq_none_iff.1 hrow] at h1
    exact absurd h1 (by simp)
  obtain ⟨a, -, rfl⟩ := Option.map_eq_some_iff.1 hrow
  have h1 : Delivering tenant id (c.take (.account tenant) .exclusive) := ⟨hc, by simp, hwrites⟩
  have hrecord : ∀ e, Beside tenant fun w : World B => w.record e := fun _ =>
    beside_of_roster tenant fun _ => rfl
  refine Protocol.wp_seqVia (wp_delivering (Code.local_mapPoint _ (local_accountEntity
    (beside_insertAccount tenant) _ _)) h1 (Or.inl rfl) fun account c2 w2 h2 hw2 => ?_)
  refine Protocol.wp_seqVia (wp_delivering (Code.local_mapPoint _ (local_query _)) h2 hw2
    fun now c3 w3 h3 hw3 => ?_)
  refine Protocol.wp_seqVia (wp_delivering (Code.local_mapPoint _ (Code.local_onlyIf _ fun _ =>
    local_recordPaymentOf (fun _ _ => beside_of_roster tenant fun _ => rfl)
      (fun _ _ => beside_of_roster tenant fun _ => rfl) _ _)) h3 hw3 fun _ c4 w4 h4 hw4 => ?_)
  refine Protocol.wp_seqVia (wp_delivering (Code.local_mapPoint _ (Code.local_onlyIf _ fun _ =>
    local_applyBusinessIdentity host hrecord (fun _ _ => beside_of_roster tenant fun _ => rfl) _ _ _))
    h4 hw4 fun _ c5 w5 h5 hw5 => ?_)
  -- What is left after the reconciliation, whatever it has made of the members.
  have flush : ∀ {u c6 w6} (result : BillingAccount × Bool), Delivering tenant u c6 →
      Settles keeps tenant u w6 →
      (teamProtocol B keeps).wp ((flushAccount tenant ⟨account.loaded, result.1⟩ >>= fun _ =>
        pure result.2 : Tx B BillingPoint _).mapPoint TeamPoint.billing) Q (fun _ _ _ => True) c6 w6 :=
    fun result h6 hw6 => Protocol.wp_seqVia (wp_delivering (Code.local_mapPoint _ (local_flushAccount
      (beside_updateAccount tenant) _)) h6 hw6 fun _ c7 w7 h7 hw7 => Protocol.wp_pure (hQ _ _ c7 w7 h7 hw7))
  refine Protocol.wp_seqVia ?_
  unfold Code.onlyIf
  split
  · refine Protocol.wp_seqVia (wp_reconcileKeeping host TeamPoint.billing (fun v => (h5.writes v).members)
      (Protocol.stable_const _ True) trivial (fun w6 _ => ?_) fun k ids event w6 _ hspares hfirst => ?_)
    · exact Protocol.wp_pure (flush _ h5 (Or.inl rfl))
    · refine Protocol.wp_pure (flush _ (u := suspendedIn ids) ⟨h5.reset, h5.lock, fun v => ?_⟩
        (Or.inr ⟨k, ids, rfl, hspares, fun hk => hfirst hk h5.lock⟩))
      obtain ⟨hmembers, hclock, hothers, haccount⟩ := h5.writes v
      exact ⟨congrArg (suspendedIn ids) hmembers, hclock, hothers, haccount⟩
  · exact Protocol.wp_pure (flush _ h5 hw5)

/-- The effect of an event on its tenant, in a session that has written nothing. -/
theorem wp_applyToTenant_team {e : BillingEvent} {identity : Option BusinessIdentity}
    {Q : Bool → Ctx (World B) RowKey → World B → Prop} (hc : c.reset = idle) (hpending : c.pending = id)
    (hQ : ∀ r u c' w', Delivering tenant u c' → Settles keeps tenant u w' → Q r c' w') :
    (teamProtocol B keeps).wp ((applyToTenant host cfg (some tenant) e identity).mapPoint TeamPoint.billing) Q
      (fun _ _ _ => True) c w := by
  -- What is left once the session has an account to lock.
  have apply : ∀ {c1 w1} (previous : AccountObject), c1.reset = idle →
      (∀ v, Delivers tenant id v (c1.pending v)) →
      (teamProtocol B keeps).Stable c1.held (fun v => ((c1.pending v).accounts.get? tenant).isSome) →
      ((c1.pending w1).accounts.get? tenant).isSome →
      (teamProtocol B keeps).wp ((applyEventTo host cfg tenant e identity previous >>= fun applied =>
        Code.onlyIf applied (notifyBillingEvent tenant) >>= fun _ => pure applied
          : Tx B BillingPoint _).mapPoint TeamPoint.billing) Q (fun _ _ _ => True) c1 w1 := by
    intro c1 w1 previous hreset hwrites hA hw
    refine Protocol.wp_seqVia (wp_applyEventTo_team host cfg hreset hwrites hA hw
      fun applied u c2 w2 h2 hw2 => ?_)
    refine Protocol.wp_seqVia (wp_delivering (Code.local_mapPoint _ (Code.local_onlyIf _ fun _ =>
      local_notifyBillingEvent _)) h2 hw2 fun _ c3 w3 h3 hw3 => ?_)
    exact Protocol.wp_pure (hQ applied u c3 w3 h3 hw3)
  have nothing := fun K => Protocol.stable_const (P := teamProtocol B keeps) K True
  have hwrites : ∀ v, Delivers tenant id v (c.pending v) := fun v => by
    rw [hpending]
    exact .refl tenant v
  refine Protocol.wp_seqVia (Protocol.wp_select (nothing _) trivial (fun w1 _ _ _ => ?_)
    fun _ _ _ => trivial)
  cases hrow : (c.pending w1).accounts.get? tenant with
  | some a =>
      refine Protocol.wp_seqVia (Protocol.wp_pure (apply _ hc hwrites ?_ (by rw [hrow]; rfl)))
      rw [hpending]
      exact stable_account_there c.held tenant
  | none =>
      -- The account is inserted, so that the session's own view has it from here on.
      refine Protocol.wp_seqVia (Protocol.wp_seqVia (Protocol.wp_local (Code.local_mapPoint _
        (local_claim (W := Beside tenant) _ _)) (nothing _) trivial (fun _ c2 w2 hg2 _ => ?_)
        fun _ _ _ _ _ => trivial))
      refine Protocol.wp_seqVia (Protocol.wp_local (Code.local_mapPoint _
        (local_referTo (W := Beside tenant) _ _)) (nothing _) trivial (fun _ c3 w3 hg3 _ => ?_)
        fun _ _ _ _ _ => trivial)
      refine Protocol.wp_seqVia (Protocol.wp_write (nothing _) trivial (fun w4 _ _ _ => ?_)
        fun _ _ _ => trivial)
      have hg := (hg2.trans hg3).buffer (beside_insertAccount tenant .created)
      have hthere : ∀ v, (((c3.buffer (World.insertAccount tenant .created)).pending v).accounts.get?
          tenant).isSome := fun v => get?_insertAccount_self tenant _ _
      refine Protocol.wp_pure (apply _ (hg.reset.trans hc) (fun v => (hwrites v).trans ?_)
        (fun v v' _ _ => hthere v') (hthere w4))
      exact hg.relate (Delivers.refl tenant) (fun _ _ _ => Delivers.trans) (fun f hf => hf) v

/-- A commit that leaves the teams alone. -/
theorem quiet_commits {point : TeamPoint} (hc : c.reset = idle)
    (hpending : ∀ v, (c.pending v).roster = v.roster)
    (hpoint : ∀ H t v v', Untouched t v v' → teamGuarantee (B := B) keeps point H t v v') :
    (teamProtocol B keeps).CommitsAt point (fun _ => True) (fun c _ => c = idle) c w :=
  Protocol.commitsAt_of (Protocol.stable_const _ True) trivial (fun _ _ => trivial)
    fun v _ _ _ => ⟨trivial, ⟨(roster_eq (hpending v)).2.2, fun t =>
      hpoint _ t _ _ (untouched_of_roster (hpending v) t)⟩, hc, fun _ => trivial⟩

/-- Locking an event's row. -/
theorem wp_lockEvent_team {event : String} {Q : Option BillingEventRow → Ctx (World B) RowKey → World B → Prop}
    (hQ : ∀ row c' w', c'.reset = idle → c'.pending = id → Q row c' w') :
    (teamProtocol B keeps).wp ((lockEvent event).mapPoint TeamPoint.billing) Q (fun _ _ _ => True) idle w :=
  Protocol.wp_selectLocking (Protocol.stable_const _ True) trivial
    (fun w1 _ _ _ _ => hQ _ _ w1 rfl rfl) (fun w1 _ _ _ _ _ => hQ _ _ w1 rfl rfl) fun _ _ _ => trivial

theorem roster_updateEvent (event : String) (f : BillingEventRow → BillingEventRow) (w : World B) :
    (World.updateEvent event f w).roster = w.roster := rfl

theorem wp_applyUnderLock_team (target : Option UUID) (e : BillingEvent)
    (identity : Option BusinessIdentity) (w : World B) :
    (teamProtocol B keeps).wp ((applyUnderLock host cfg target e identity).mapPoint TeamPoint.billing)
      (fun _ c _ => c = idle) (fun _ c _ => c = idle) idle w := by
  have nothing := fun K => Protocol.stable_const (P := teamProtocol B keeps) K True
  refine Protocol.wp_transactionVia TeamPoint.billing (D := fun _ _ => True) (fun _ h => h)
    (fun _ => Protocol.stable_const _ _) (fun _ _ _ _ => rfl) ?_
  refine Protocol.wp_seqVia (wp_lockEvent_team fun found c1 w1 hc1 hpending => ?_)
  refine Protocol.wp_seqVia ?_
  cases found with
  | none => trivial
  | some row =>
      refine Protocol.wp_pure ?_
      split
      · exact Protocol.wp_pure (quiet_commits hc1 (fun v => by rw [hpending]; rfl) fun _ _ _ _ h => h)
      cases target with
      | none =>
          refine Protocol.wp_seqVia (Protocol.wp_pure (Protocol.wp_seqVia (Protocol.wp_select (nothing _)
            trivial (fun w2 _ _ _ => ?_) fun _ _ _ => trivial)))
          refine Protocol.wp_seqVia (Protocol.wp_write (nothing _) trivial (fun w3 _ _ _ => ?_)
            fun _ _ _ => trivial)
          exact Protocol.wp_pure (quiet_commits hc1 (fun v => by rw [Ctx.buffer_pending, hpending]; rfl)
            fun _ _ _ _ h => h)
      | some tenant =>
          refine Protocol.wp_seqVia (wp_applyToTenant_team host cfg hc1 hpending
            fun applied u c2 w2 h2 hw2 => ?_)
          refine Protocol.wp_seqVia (wp_delivering (Code.local_mapPoint _ (local_query _)) h2 hw2
            fun now c3 w3 h3 hw3 => ?_)
          refine Protocol.wp_seqVia (wp_delivering (Code.local_mapPoint _ (local_save
            (beside_of_roster tenant (roster_updateEvent _ _)))) h3 hw3 fun _ c4 w4 h4 hw4 => ?_)
          exact Protocol.wp_pure (h4.commits hw4 e)

theorem wp_markFailed_team (event : String) (exc : Failure) (w : World B) :
    (teamProtocol B keeps).wp ((markFailed event exc).mapPoint TeamPoint.billing) (fun _ _ _ => True)
      (fun _ _ _ => True) idle w := by
  refine Protocol.wp_transactionVia TeamPoint.billing (D := fun _ _ => True) (fun _ h => h)
    (fun _ => Protocol.stable_const _ _) (fun _ _ _ _ => trivial) ?_
  -- Whether there is a row to mark or not, the teams stay as they are.
  have commits : ∀ {c1 : Ctx (World B) RowKey} {w1 : World B}, (∀ v, (c1.pending v).roster = v.roster) →
      (teamProtocol B keeps).CommitsAt (.billing (.marked event)) (fun _ => True) (fun _ _ => True) c1 w1 :=
    fun hpending => Protocol.commitsAt_of (Protocol.stable_const _ True) trivial (fun _ _ => trivial)
      fun v _ _ _ => ⟨trivial, ⟨(roster_eq (hpending v)).2.2, fun t =>
        untouched_of_roster (hpending v) t⟩, trivial, fun _ => trivial⟩
  refine Protocol.wp_seqVia (wp_lockEvent_team fun found c1 w1 _ hpending => ?_)
  cases found with
  | none => exact Protocol.wp_pure (commits fun v => by rw [hpending]; rfl)
  | some row =>
      refine Protocol.wp_seqVia (Protocol.wp_write (Protocol.stable_const _ True) trivial
        (fun w2 _ _ _ => ?_) fun _ _ _ => trivial)
      exact Protocol.wp_pure (commits fun v => by rw [Ctx.buffer_pending, hpending]; rfl)

theorem wp_insertEvent_team (event : String) (row : BillingEventRow) (w : World B) :
    (teamProtocol B keeps).wp ((insertEvent event row).mapPoint TeamPoint.billing) (fun _ c _ => c = idle)
      (fun _ c _ => c = idle) idle w := by
  refine Protocol.wp_tryVia (Protocol.wp_transactionVia TeamPoint.billing (D := fun _ _ => True)
    (fun _ h => h) (fun _ => Protocol.stable_const _ _) ?_ ?_)
  · intro exc w1 _ _
    show (teamProtocol B keeps).wp
      ((if exc = .integrity then pure false else .raise exc : Tx B BillingPoint Bool).mapPoint _) _ _ _ w1
    split
    · exact Protocol.wp_pure rfl
    · exact rfl
  have nothing := fun K => Protocol.stable_const (P := teamProtocol B keeps) K True
  refine Protocol.wp_seqVia (Protocol.wp_local (Code.local_mapPoint _ (local_claimAt
    (W := Keeps World.roster) _ _ _)) (nothing _) trivial (fun _ c1 w1 hc1 _ => ?_) fun _ _ _ _ _ => trivial)
  refine Protocol.wp_seqVia (Protocol.wp_local (Code.local_mapPoint _ (local_referToTenant
    (W := Keeps World.roster) _ _)) (nothing _) trivial (fun _ c2 w2 hc2 _ => ?_) fun _ _ _ _ _ => trivial)
  refine Protocol.wp_seqVia (Protocol.wp_write (nothing _) trivial (fun w3 _ _ _ => ?_) fun _ _ _ => trivial)
  have hgrows : (idle : Ctx (World B) RowKey).Grows (Keeps World.roster)
      (c2.buffer (World.insertEvent event row)) := (hc1.trans hc2).buffer fun _ => rfl
  exact Protocol.wp_pure (quiet_commits hgrows.reset (fun v => hgrows.project (fun _ hu v => hu v) v)
    fun _ _ _ _ h => h)

/-- A delivery keeps the protocol of team operations. -/
theorem wp_deliverEvent_team {provider : BillingProvider B} {event : ProviderEvent} {payload : B}
    (w : World B) :
    (teamProtocol B keeps).wp ((deliverEvent host cfg provider event payload).mapPoint TeamPoint.billing)
      (fun _ _ _ => True) (fun _ _ _ => True) idle w :=
  wp_deliverEventVia host cfg TeamPoint.billing (D := fun _ => True) (fun _ _ => trivial)
    (fun row s => Protocol.wp_mono (wp_insertEvent_team event.id row s) (fun _ h => h)
      (fun _ _ _ _ h => ⟨h, fun _ => trivial⟩) fun _ _ _ _ h => h)
    (fun target _ identity s => Protocol.wp_mono
      (wp_applyUnderLock_team host cfg target _ identity s) (fun _ h => h)
      (fun _ _ _ _ h => ⟨h, trivial⟩) fun _ _ _ _ h => h)
    (wp_markFailed_team event.id) w

end Deliveries

end Rubrica
