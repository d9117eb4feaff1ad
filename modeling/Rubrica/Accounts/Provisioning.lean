import Rubrica.Accounts.Registration

set_option autoImplicit false

/-! # What a call of `provision_owner` does

A call under a new user and new names always succeeds: it creates a tenant, or binds a membership that
belonged to nobody, or finds everything in place (`provisionOwner_alone`). A membership that was bound to
another user of the same address is not found, so the address gets one more tenant. -/

namespace Rubrica

open Transactions

variable {B Page : Type} {host : Host B Page}

/-! ## The call -/

/-- The owner's membership of a new tenant. -/
def TenantMember.owning (owner : String) (user : Option UUID) (tenant : UUID) (now : Int) : TenantMember :=
  ⟨tenant, owner, user, .admin, .active, some now, now, none⟩

/-- Core with a new tenant, its owner and its account. -/
def World.created (host : Host B Page) (payload : TenantProvision) (owner : String) (names : ProvisionNames)
    (w : World B) : World B :=
  World.insertAccount names.tenant .created
    (World.insertMember names.member (.owning owner payload.ownerUserId names.tenant w.clock)
      (World.insertTenant names.tenant (.provisioned (host.strip payload.name) names.slug payload.countryCode)
        w))

/-- What a call under a new user leaves. -/
inductive Provisions (host : Host B Page) (payload : TenantProvision) (owner : String) (user : UUID)
    (names : ProvisionNames) (w : World B) : World B → Prop where
  | create (absent : (w.administered host (some user) owner).head? = none) :
      Provisions host payload owner user names w (w.created host payload owner names)
  | bind (present : (w.administered host (some user) owner).head? ≠ none) (id : UUID) (m : TenantMember)
      (found : w.members.get? id = some m) (free : m.authUserUuid = none) :
      Provisions host payload owner user names w (w.bindMember id (some user))
  | read (present : (w.administered host (some user) owner).head? ≠ none) :
      Provisions host payload owner user names w w

section Mentions

variable {w : World B} {id : UUID}

theorem tenant_of_not_mentions (h : ¬w.Mentions id) : w.tenants.get? id = none := by
  rw [Option.eq_none_iff_forall_ne_some]
  exact fun t ht => h (Or.inl ⟨t, ht⟩)

theorem account_of_not_mentions (h : ¬w.Mentions id) : w.accounts.get? id = none := by
  rw [Option.eq_none_iff_forall_ne_some]
  exact fun a ha => h (Or.inr (Or.inl ⟨a, ha⟩))

theorem member_of_not_mentions (h : ¬w.Mentions id) : w.members.get? id = none := by
  rw [Option.eq_none_iff_forall_ne_some]
  exact fun m hm => h (Or.inr (Or.inr (Or.inl ⟨m, hm⟩)))

theorem ne_of_not_mentions (h : ¬w.Mentions id) {k : UUID} {m : TenantMember} (hm : w.members.get? k = some m) :
    m.tenantId ≠ id ∧ m.authUserUuid ≠ some id :=
  ⟨fun he => h (Or.inr (Or.inr (Or.inr ⟨k, m, hm, Or.inl he⟩))),
    fun he => h (Or.inr (Or.inr (Or.inr ⟨k, m, hm, Or.inr he⟩)))⟩

/-- No row of a member has what only a row that mentions the identifier has. -/
theorem any_members_eq_false (h : ¬w.Mentions id) {p : TenantMember → Bool}
    (hp : ∀ m, p m = true → m.tenantId = id ∨ m.authUserUuid = some id) :
    (w.members.any fun _ m => p m) = false := by
  rw [Bool.eq_false_iff]
  intro hany
  obtain ⟨k, m, hm, hpm⟩ := Table.any_iff.1 hany
  obtain ⟨htenant, huser⟩ := ne_of_not_mentions h hm
  exact (hp m hpm).elim htenant huser

end Mentions

section Alone

variable {payload : TenantProvision} {owner : String} {user : UUID} {names : ProvisionNames} {w : World B}

theorem flushMember_alone {u : World B → World B} {id : UUID} {m : TenantMember}
    (hmember : ((u w).members.any fun _ m' =>
      m'.tenantId = m.tenantId && m'.authUserId = m.authUserId) = false)
    (huser : ∀ v, m.authUserUuid = some v → ((u w).members.any fun _ m' =>
      m'.tenantId = m.tenantId && m'.authUserUuid = some v && m'.deletedAt.isNone) = false)
    (htenant : ((u w).tenants.get? m.tenantId).isSome = true) :
    (flushMember id m : Tx B TeamPoint Unit).alone u w = ⟨.ok (), World.insertMember id m ∘ u, w⟩ := by
  unfold flushMember
  rw [Code.alone_bind_of (alone_claim hmember), Code.alone_bind_of (alone_claimChanged huser),
    Code.alone_bind_of (alone_referTo htenant), alone_save]

theorem createAccount_alone {u : World B → World B} {tenant : UUID}
    (haccount : ((u w).accounts.get? tenant).isSome = false)
    (htenant : ((u w).tenants.get? tenant).isSome = true) :
    (createAccount tenant : Tx B TeamPoint AccountObject).alone u w =
      ⟨.ok ⟨.created, .created⟩, World.insertAccount tenant .created ∘ u, w⟩ := by
  unfold createAccount
  rw [Code.alone_bind_of (alone_claim haccount), Code.alone_bind_of (alone_referTo htenant),
    Code.alone_bind_of (alone_save _)]
  rfl

theorem createOwned_alone (htenant : ¬w.Mentions names.tenant)
    (huser : ∀ v, payload.ownerUserId = some v → ¬w.Mentions v) :
    ∃ u, (createOwned host payload owner names).alone id w = ⟨.ok (names.tenant, .admin), u, w⟩ ∧
      u w = w.created host payload owner names := by
  have hthere : (((World.insertTenant names.tenant
      (.provisioned (host.strip payload.name) names.slug payload.countryCode) ∘ id) w).tenants.get?
        names.tenant).isSome = true := by
    show ((w.tenants.insert _ _).get? names.tenant).isSome = true
    rw [Table.get?_insert_self (tenant_of_not_mentions htenant)]
    rfl
  have haccount : (w.accounts.get? names.tenant).isSome = false := by
    rw [account_of_not_mentions htenant]
    rfl
  have hmember : (w.members.any fun _ m' => m'.tenantId = names.tenant && m'.authUserId = owner) = false := by
    refine any_members_eq_false htenant fun m hm => Or.inl ?_
    simp only [Bool.and_eq_true, decide_eq_true_eq] at hm
    exact hm.1
  have hbound : ∀ v, payload.ownerUserId = some v → (w.members.any fun _ m' =>
      m'.tenantId = names.tenant && m'.authUserUuid = some v && m'.deletedAt.isNone) = false := by
    refine fun v hv => any_members_eq_false (huser v hv) fun m hm => Or.inr ?_
    simp only [Bool.and_eq_true, decide_eq_true_eq] at hm
    exact hm.1.2
  refine ⟨World.insertAccount names.tenant .created ∘
    (World.insertMember names.member (.owning owner payload.ownerUserId names.tenant w.clock) ∘
      (World.insertTenant names.tenant
        (.provisioned (host.strip payload.name) names.slug payload.countryCode) ∘ id)), ?_, rfl⟩
  unfold createOwned utcNow query
  rw [Code.alone_select_bind, Code.alone_bind_of (alone_save _), Code.alone_select_bind,
    Code.alone_bind_of (flushMember_alone hmember hbound hthere)]
  exact Code.alone_bind_of (createAccount_alone (by exact haccount) (by exact hthere))

/-- A membership that is found for an owner without a user belongs to nobody, or to the user. -/
theorem readOwned_alone {existing : UUID × MemberRole} (huser : ¬w.Mentions user)
    (hpresent : (w.administered host (some user) owner).head? ≠ none) :
    ∃ u, (readOwned host (some user) owner existing).alone id w = ⟨.ok existing, u, w⟩ ∧
      Provisions host payload owner user names w (u w) := by
  unfold readOwned query
  rw [Code.alone_select_bind]
  cases hfound : ((id w).members.select fun _ m =>
      m.tenantId = existing.1 && m.isIdentity host (some user) owner).head? with
  | none => exact ⟨id, rfl, .read hpresent⟩
  | some x =>
      obtain ⟨k, m⟩ := x
      obtain ⟨hm, -⟩ := Table.mem_select_iff.1 (List.mem_of_mem_head? hfound)
      show ∃ u, (Code.onlyIf (m.authUserUuid = none) _ >>= fun _ => _ : Tx B TeamPoint _).alone id w = _ ∧ _
      unfold Code.onlyIf
      by_cases hfree : m.authUserUuid = none
      · have hclaim : ∀ v, some user = some v → (w.members.any fun _ m' =>
            m'.tenantId = existing.1 && m'.authUserUuid = some v && m'.deletedAt.isNone) = false := by
          intro v hv
          obtain rfl := Option.some.inj hv
          refine any_members_eq_false huser fun m hm => Or.inr ?_
          simp only [Bool.and_eq_true, decide_eq_true_eq] at hm
          exact hm.1.2
        refine ⟨World.bindMember k (some user) ∘ id, ?_, .bind hpresent k m hm hfree⟩
        rw [if_pos hfree]
        have hbind : ((claimChanged none (some user) (RowKey.memberUser existing.1) fun v w =>
            w.members.any fun _ m' => m'.tenantId = existing.1 && m'.authUserUuid = some v &&
              m'.deletedAt.isNone) >>= fun _ => (save (World.bindMember k (some user)) :
                Tx B TeamPoint Unit)).alone id w = ⟨.ok (), World.bindMember k (some user) ∘ id, w⟩ := by
          rw [Code.alone_bind_of (alone_claimChanged hclaim), alone_save]
        exact Code.alone_bind_of hbind
      · refine ⟨id, ?_, .read hpresent⟩
        rw [if_neg hfree]
        rfl

/-- **A call of `provision_owner`** under a user and names that core does not know. -/
theorem provisionOwner_alone (hpayload : payload.ownerUserId = some user) (huser : ¬w.Mentions user)
    (htenant : ¬w.Mentions names.tenant) :
    ∃ r w', (provisionOwner host payload names).alone id w = ⟨.ok r, id, w'⟩ ∧
      Provisions host payload (host.lower (host.strip payload.ownerEmail)) user names w w' := by
  have hbody : ∃ r u, (provisionFor host payload (host.lower (host.strip payload.ownerEmail)) names
      (w.administered host (some user) (host.lower (host.strip payload.ownerEmail))).head?).alone id w =
        ⟨.ok r, u, w⟩ ∧ Provisions host payload (host.lower (host.strip payload.ownerEmail)) user names w
          (u w) := by
    unfold provisionFor
    split
    · next existing hsome =>
        rw [hpayload]
        obtain ⟨u, halone, hprov⟩ := readOwned_alone huser (by rw [hsome]; simp)
        exact ⟨_, u, halone, hprov⟩
    · next hnone =>
        have hfree : ∀ v, payload.ownerUserId = some v → ¬w.Mentions v := by
          intro v hv
          obtain rfl := Option.some.inj (hpayload.symm.trans hv)
          exact huser
        obtain ⟨u, halone, hu⟩ := createOwned_alone htenant hfree
        exact ⟨_, u, halone, hu ▸ .create hnone⟩
  obtain ⟨r, u, halone, hprov⟩ := hbody
  refine ⟨r, u w, ?_, hprov⟩
  have hrun : ((query fun w => (w.administered host payload.ownerUserId
      (host.lower (host.strip payload.ownerEmail))).head?) >>= fun existing =>
        (provisionFor host payload (host.lower (host.strip payload.ownerEmail)) names existing >>= fun read =>
          (pure (read, TeamPoint.plain) : Tx B TeamPoint _))).alone id w = ⟨.ok (r, .plain), u, w⟩ := by
    unfold query
    rw [Code.alone_select_bind, hpayload, id_eq, Code.alone_bind_of halone]
    rfl
  unfold provisionOwner
  rw [Code.alone_transaction _ (by rw [hrun]), hrun]

end Alone

/-! ## The tenants of an address -/

/-- The memberships by which an address administers tenants that are not deleted. -/
def World.owners (address : String) (w : World B) : List (UUID × TenantMember) :=
  w.members.select fun _ m => m.authUserId = address && m.role = .admin && m.deletedAt.isNone &&
    (w.tenants.get? m.tenantId).any fun t => t.deletedAt.isNone

/-- The address owns one tenant, and the tenant has its account. -/
def World.OneTenant (address : String) (w : World B) : Prop :=
  ∃ x, w.owners address = [x] ∧ (w.liveAccount x.2.tenantId).isSome

/-- What registrations keep: no membership of the address waits for its user, and its tenants have their
    accounts. -/
structure World.Owned (address : String) (w : World B) : Prop where
  bound : ∀ k m, w.members.get? k = some m → m.authUserId = address → m.authUserUuid ≠ none
  account : ∀ x ∈ w.owners address, (w.liveAccount x.2.tenantId).isSome

section Owners

variable {payload : TenantProvision} {owner address : String} {user : UUID} {names : ProvisionNames}
  {w w' : World B}

/-- A new user of the address is not found to administer anything. -/
theorem administered_eq_nil (h : w.Owned address) (hlower : host.lower address = address)
    (huser : ¬w.Mentions user) : w.administered host (some user) address = [] := by
  rw [World.administered, List.flatMap_eq_nil_iff]
  intro t _
  rw [List.map_eq_nil_iff, Table.select_eq_nil_iff]
  intro k m hm
  have hidentity : m.isIdentity host (some user) address = false := by
    rw [Bool.eq_false_iff]
    intro hid
    simp only [TenantMember.isIdentity, Option.isSome_some, Bool.true_and, Bool.or_eq_true,
      Bool.and_eq_true, decide_eq_true_eq, Option.isNone_iff_eq_none] at hid
    rcases hid with hid | ⟨hnone, hid⟩
    · exact (ne_of_not_mentions huser hm).2 hid
    · exact h.bound k m hm (hid.trans hlower) hnone
  simp [hidentity]

theorem mentions_bindMember {id k : UUID} (h : (w.bindMember k (some user)).Mentions id) :
    w.Mentions id ∨ id = user := by
  have hrow : ∀ k' m', (w.bindMember k (some user)).members.get? k' = some m' →
      ∃ m, w.members.get? k' = some m ∧ m'.tenantId = m.tenantId ∧
        (m'.authUserUuid = m.authUserUuid ∨ m'.authUserUuid = some user) := by
    intro k' m' hm'
    have hm' : (w.members.update k fun m => { m with authUserUuid := some user }).get? k' = some m' := hm'
    rw [Table.get?_update] at hm'
    split at hm'
    · obtain ⟨m, hm, rfl⟩ := Option.map_eq_some_iff.1 hm'
      exact ⟨m, hm, rfl, Or.inr rfl⟩
    · exact ⟨m', hm', rfl, Or.inl rfl⟩
  rcases h with ht | ha | ⟨m', hm'⟩ | ⟨k', m', hm', htenant | huser⟩
  · exact Or.inl (Or.inl ht)
  · exact Or.inl (Or.inr (Or.inl ha))
  · obtain ⟨m, hm, -⟩ := hrow id m' hm'
    exact Or.inl (Or.inr (Or.inr (Or.inl ⟨m, hm⟩)))
  · obtain ⟨m, hm, he, -⟩ := hrow k' m' hm'
    exact Or.inl (Or.inr (Or.inr (Or.inr ⟨k', m, hm, Or.inl (he.symm.trans htenant)⟩)))
  · obtain ⟨m, hm, -, he | he⟩ := hrow k' m' hm'
    · exact Or.inl (Or.inr (Or.inr (Or.inr ⟨k', m, hm, Or.inr (he.symm.trans huser)⟩)))
    · exact Or.inr (Option.some.inj (huser.symm.trans he))

theorem mentions_created {id : UUID} (hpayload : payload.ownerUserId = some user)
    (h : (w.created host payload owner names).Mentions id) :
    w.Mentions id ∨ id = user ∨ id = names.tenant ∨ id = names.member := by
  rcases h with ⟨t, ht⟩ | ⟨a, ha⟩ | ⟨m, hm⟩ | ⟨k, m, hm, hid⟩
  · rcases Table.get?_insert_eq_some ht with ht | ⟨rfl, -⟩
    · exact Or.inl (Or.inl ⟨t, ht⟩)
    · exact Or.inr (Or.inr (Or.inl rfl))
  · rcases Table.get?_insert_eq_some ha with ha | ⟨rfl, -⟩
    · exact Or.inl (Or.inr (Or.inl ⟨a, ha⟩))
    · exact Or.inr (Or.inr (Or.inl rfl))
  · rcases Table.get?_insert_eq_some hm with hm | ⟨rfl, -⟩
    · exact Or.inl (Or.inr (Or.inr (Or.inl ⟨m, hm⟩)))
    · exact Or.inr (Or.inr (Or.inr rfl))
  · rcases Table.get?_insert_eq_some hm with hm | ⟨-, rfl⟩
    · exact Or.inl (Or.inr (Or.inr (Or.inr ⟨k, m, hm, hid⟩)))
    · rcases hid with hid | hid
      · exact Or.inr (Or.inr (Or.inl hid.symm))
      · exact Or.inr (Or.inl (Option.some.inj (hid.symm.trans hpayload)))

/-- A call brings no identifier into core but those it was given. -/
theorem mentions_of_provisions {id : UUID} (hpayload : payload.ownerUserId = some user)
    (h : Provisions host payload owner user names w w') (hid : w'.Mentions id) :
    w.Mentions id ∨ id = user ∨ id = names.tenant ∨ id = names.member := by
  cases h with
  | create absent => exact mentions_created hpayload hid
  | bind present k m found free => exact (mentions_bindMember hid).imp_right Or.inl
  | read present => exact Or.inl hid

theorem owners_created (htenant : ¬w.Mentions names.tenant) (hmember : ¬w.Mentions names.member) :
    (w.created host payload owner names).owners address = w.owners address ++
      if owner = address then
        [(names.member, .owning owner payload.ownerUserId names.tenant w.clock)] else [] := by
  unfold World.owners
  show (w.members.insert names.member (.owning owner payload.ownerUserId names.tenant w.clock)).select _ = _
  rw [Table.select_insert_of_free (member_of_not_mentions hmember)]
  refine congrArg₂ (· ++ ·) (Table.select_congr fun k m hm => ?_) ?_
  · show _ = (_ && (w.tenants.get? m.tenantId).any _)
    rw [← Table.get?_insert_of_ne w.tenants (ne_of_not_mentions htenant hm).1
      (.provisioned (host.strip payload.name) names.slug payload.countryCode)]
    rfl
  · have hlive : (((w.created host payload owner names).tenants.get? names.tenant).any
        fun t => t.deletedAt.isNone) = true := by
      show (((w.tenants.insert names.tenant _).get? names.tenant).any _) = true
      rw [Table.get?_insert_self (tenant_of_not_mentions htenant)]
      rfl
    by_cases h : owner = address
    · subst h
      simp [TenantMember.owning, hlive]
    · simp [TenantMember.owning, h]

theorem owners_bindMember {k : UUID} {m : TenantMember} (h : w.Owned address)
    (hm : w.members.get? k = some m) (hfree : m.authUserUuid = none) :
    (w.bindMember k (some user)).owners address = w.owners address := by
  have hother : m.authUserId ≠ address := fun he => h.bound k m hm he hfree
  show (w.members.update k fun m => { m with authUserUuid := some user }).select _ = _
  refine Table.select_update_of_not fun r hr => ?_
  obtain rfl := Option.some.inj (hm.symm.trans hr)
  simp [hother]

/-- **What a call does for an address**: one more tenant where the owner is this address, nothing where it is
    another one. -/
theorem owners_of_provisions (h : w.Owned address) (hlower : host.lower address = address)
    (hpayload : payload.ownerUserId = some user) (huser : ¬w.Mentions user)
    (htenant : ¬w.Mentions names.tenant) (hmember : ¬w.Mentions names.member)
    (hprov : Provisions host payload owner user names w w') :
    w'.Owned address ∧ if owner = address then ∃ x, x.2.authUserUuid = some user ∧
      w'.owners address = w.owners address ++ [x] else w'.owners address = w.owners address := by
  cases hprov with
  | create absent =>
      have howners : (w.created host payload owner names).owners address = w.owners address ++
          if owner = address then
            [(names.member, .owning owner payload.ownerUserId names.tenant w.clock)] else [] :=
        owners_created htenant hmember
      refine ⟨⟨fun k m hm he => ?_, fun x hx => ?_⟩, ?_⟩
      · rcases Table.get?_insert_eq_some hm with hm | ⟨-, rfl⟩
        · exact h.bound k m hm he
        · simp [TenantMember.owning, hpayload]
      · rw [howners] at hx
        rcases List.mem_append.1 hx with hx | hx
        · obtain ⟨a, ha⟩ := Option.isSome_iff_exists.1 (h.account x hx)
          obtain ⟨ha, hdeleted⟩ := Option.filter_eq_some_iff.1 ha
          show ((w.accounts.insert names.tenant .created).get? x.2.tenantId |>.filter _).isSome
          rw [Table.get?_insert_of_some ha, Option.filter_some, if_pos hdeleted]
          rfl
        · split at hx
          · obtain rfl := List.mem_singleton.1 hx
            show ((w.accounts.insert names.tenant .created).get? names.tenant |>.filter _).isSome
            rw [Table.get?_insert_self (account_of_not_mentions htenant)]
            rfl
          · exact absurd hx List.not_mem_nil
      · rw [howners]
        split
        · exact ⟨_, hpayload, rfl⟩
        · rw [List.append_nil]
  | bind present k m found free =>
      have howners : (w.bindMember k (some user)).owners address = w.owners address :=
        owners_bindMember h found free
      refine ⟨⟨fun k' m' hm' he => ?_, fun x hx => h.account x (howners ▸ hx)⟩, ?_⟩
      · have hm' : (w.members.update k fun m => { m with authUserUuid := some user }).get? k' = some m' := hm'
        rw [Table.get?_update] at hm'
        split at hm'
        · obtain ⟨m0, -, rfl⟩ := Option.map_eq_some_iff.1 hm'
          simp
        · exact h.bound k' m' hm' he
      · rw [if_neg, howners]
        rintro rfl
        exact present (by rw [administered_eq_nil h hlower huser]; rfl)
  | read present =>
      refine ⟨h, ?_⟩
      rw [if_neg]
      rintro rfl
      exact present (by rw [administered_eq_nil h hlower huser]; rfl)

end Owners

end Rubrica
