import Rubrica.Accounts.Provisioning
import Rubrica.Transactions.Rules

set_option autoImplicit false

/-! # One tenant per registration

Attempts to register an address, of which any step may fail. The tenant is committed in core before the
user is committed in the authentication service, and it is bound to a user that may never come to be: an
attempt that fails in between leaves a tenant that no later attempt finds, since each has a new user
(`not_one_tenant`). After an attempt that succeeds the address has one tenant exactly where no other attempt
had its call carried out by core (`one_tenant`). -/

namespace Rubrica

open Transactions

variable {B Page : Type} {host : Host B Page} {cfg : RegistrationSettings} {address : String}

/-! ## The protocol -/

/-- What registrations promise each other, as far as an address and the identifiers in core go. -/
def addressProtocol (B : Type) (address : String) :
    Protocol (Directory B) DirectoryKey RegistrationPoint where
  inv d := d.core.Owned address
  guar point H d d' :=
    match point with
    | .plain => d'.core = d.core
    | .issued _ _ _ => d'.core = d.core
    | .provisioning owner user =>
        (∀ id, d'.core.Mentions id → d.core.Mentions id ∨ (.name id, LockMode.exclusive) ∈ H) ∧
          ¬d.core.Mentions user ∧
          if owner = address then ∃ x, x.2.authUserUuid = some user ∧
            d'.core.owners address = d.core.owners address ++ [x]
          else d'.core.owners address = d.core.owners address
  env d d' := ∃ now, d' = { d with core := { d.core with clock := now } }
  cond _ _ := True
  lossy := True

section Stable

variable {H : Rights DirectoryKey}

theorem stable_unmentioned {id : UUID} (h : (.name id, LockMode.exclusive) ∈ H) :
    (addressProtocol B address).Stable H fun d => ¬d.core.Mentions id := by
  rintro d d' ⟨-, -, ⟨now, rfl⟩ | ⟨point, H', hcompat, -, hg⟩⟩ hid
  · exact hid
  · cases point with
    | provisioning owner user =>
        intro hid'
        rcases hg.1 id hid' with hid' | hheld
        · exact hid hid'
        · exact hcompat.ne_of_exclusive h hheld rfl
    | _ =>
        have hg : d'.core = d.core := hg
        rw [hg]
        exact hid

theorem stable_ids {names : RegistrationNames} (h : names.rights ⊆ H) :
    (addressProtocol B address).Stable H fun d => ∀ id ∈ names.ids, ¬d.core.Mentions id := by
  intro d d' hi hids id hid
  exact stable_unmentioned (h (List.mem_map_of_mem hid)) d d' hi (hids id hid)

/-- A tenant of the address stays one. -/
theorem stable_owner (user : UUID) :
    (addressProtocol B address).Stable H fun d => ∃ x ∈ d.core.owners address, x.2.authUserUuid = some user := by
  rintro d d' ⟨-, -, ⟨now, rfl⟩ | ⟨point, H', -, -, hg⟩⟩ ⟨x, hx, huser⟩
  · exact ⟨x, hx, huser⟩
  · cases point with
    | provisioning owner user' =>
        obtain ⟨-, -, hg⟩ := hg
        split at hg
        · obtain ⟨y, -, howners⟩ := hg
          exact ⟨x, by rw [howners]; exact List.mem_append_left _ hx, huser⟩
        · exact ⟨x, by rw [hg]; exact hx, huser⟩
    | _ =>
        have hg : d'.core = d.core := hg
        exact ⟨x, by rw [hg]; exact hx, huser⟩

end Stable

/-! ## An attempt -/

/-- Writes of the authentication service. -/
def KeepsCore (u : Directory B → Directory B) : Prop :=
  ∀ d, (u d).core = d.core

theorem local_claimEntry (entry : DirectoryKey) (taken : Directory B → Bool) :
    (claimEntry entry taken : RegistrationTx B Unit).Local KeepsCore :=
  Code.local_bind (Code.local_selectLocking _ _ _ _) fun _ => Code.local_require _ _

theorem local_addUser (payload : PublicRegistration) (names : RegistrationNames) :
    ((addUser host payload names).tryCatch conflicting : RegistrationTx B Unit).Local KeepsCore :=
  Code.local_tryCatch (Code.local_bind (local_claimEntry _ _) fun _ => Code.local_write _ fun _ => rfl)
    fun _ => ⟨_, rfl⟩

theorem local_identify (payload : PublicRegistration) (names : RegistrationNames) :
    (identify host cfg payload names : RegistrationTx B Unit).Local KeepsCore := by
  unfold identify
  cases payload.identityDocument with
  | none => exact Code.local_pure _
  | some document =>
      exact Code.local_tryCatch (Code.local_bind (local_claimEntry _ _) fun _ =>
        Code.local_write _ fun _ => rfl) fun _ => ⟨_, rfl⟩

theorem local_consumePending (user : UUID) (purpose : String) (now : Int) (tokens : List Nat) :
    (consumePending user purpose now tokens : RegistrationTx B Unit).Local KeepsCore := by
  induction tokens with
  | nil => exact Code.local_pure _
  | cons token tokens ih =>
      exact Code.local_bind (Code.local_selectLocking _ _ _ _) fun _ => Code.local_bind
        (Code.local_onlyIf _ fun _ => Code.local_write _ fun _ => rfl) fun _ => ih

theorem local_issueToken (user : UUID) (purpose : String) (ttl : Int) (token : Nat) :
    (issueToken user purpose ttl token : RegistrationTx B Unit).Local KeepsCore :=
  Code.local_bind (Code.local_select _ _) fun _ => Code.local_bind (Code.local_select _ _) fun _ =>
    Code.local_bind (local_consumePending _ _ _ _) fun _ => Code.local_bind (Code.local_select _ _) fun _ =>
      Code.local_write _ fun _ => rfl

section Attempt

variable {c : Ctx (Directory B) DirectoryKey} {d : Directory B} {payload : PublicRegistration}
  {names : RegistrationNames}

/-- What the call to core leaves: the tenant of the user, where the address is the owner's. -/
theorem wp_provisionAccountTenant {Q : Unit → Ctx (Directory B) DirectoryKey → Directory B → Prop}
    (hlower : host.lower address = address) (hc : ∀ d, (c.pending d).core = d.core)
    (hheld : names.rights ⊆ c.held) (hnew : ∀ id ∈ names.ids, ¬d.core.Mentions id)
    (hQ : ∀ d, (payload.owner host = address →
      ∃ x ∈ d.core.owners address, x.2.authUserUuid = some names.user) → Q () c d) :
    (addressProtocol B address).wp (provisionAccountTenant host payload names) Q (fun _ _ _ => True) c d := by
  refine Protocol.wp_seq (Protocol.wp_effect (stable_ids hheld) hnew (fun d hids hinv _ => ?_)
    fun _ _ _ => trivial)
  have huser : ¬d.core.Mentions names.user := hids _ (by simp [RegistrationNames.ids])
  have htenant : ¬d.core.Mentions names.core.tenant := hids _ (by simp [RegistrationNames.ids])
  have hmember : ¬d.core.Mentions names.core.member := hids _ (by simp [RegistrationNames.ids])
  let body : TenantProvision := ⟨some names.user, payload.normalizedEmail host, host.strip payload.name,
    payload.identityDocument.map IdentityDocument.issuingCountry⟩
  obtain ⟨r, w', halone, hprov⟩ : ∃ r w',
      (provisionOwner host body names.core).alone id d.core = ⟨.ok r, id, w'⟩ ∧
        Provisions host body (payload.owner host) names.user names.core d.core w' :=
    provisionOwner_alone rfl huser htenant
  have hpending : ∀ d : Directory B, (c.pending d).provisioned host body names.core =
      d.provisioned host body names.core := by
    intro d
    unfold Directory.provisioned
    rw [hc]
  have hended : d.provisioned host body names.core = ⟨.ok r, id, w'⟩ := halone
  obtain ⟨howned, howners⟩ := owners_of_provisions hinv hlower rfl huser htenant hmember hprov
  replace howners : if payload.owner host = address then ∃ x, x.2.authUserUuid = some names.user ∧
      w'.owners address = d.core.owners address ++ [x] else
        w'.owners address = d.core.owners address := howners
  show (addressProtocol B address).inv { d with core := (d.provisioned host body names.core).shared } ∧
    (addressProtocol B address).guar (.provisioning (payload.owner host) names.user) c.held d
      { d with core := (d.provisioned host body names.core).shared } ∧ _
  rw [hended]
  refine ⟨howned, ⟨fun id hid => ?_, huser, howners⟩, ?_⟩
  · refine (mentions_of_provisions rfl hprov hid).imp_right fun hid => hheld (List.mem_map_of_mem ?_)
    rcases hid with rfl | rfl | rfl <;> simp [RegistrationNames.ids]
  · -- The response is read, and says that the call succeeded.
    have howner : payload.owner host = address →
        ∃ x ∈ w'.owners address, x.2.authUserUuid = some names.user := by
      intro h
      rw [if_pos h] at howners
      obtain ⟨x, hx, howners⟩ := howners
      exact ⟨x, by rw [howners]; exact List.mem_append_right _ (List.mem_singleton.2 rfl), hx⟩
    have hstable : (addressProtocol B address).Stable c.held fun d => payload.owner host = address →
        ∃ x ∈ d.core.owners address, x.2.authUserUuid = some names.user :=
      fun d d' hi h he => stable_owner names.user d d' hi (h he)
    refine Protocol.wp_seq (Protocol.wp_select hstable howner (fun d hd _ _ => ?_) fun _ _ _ => trivial)
    exact Protocol.wp_require (fun _ => hQ d hd) fun _ => trivial

theorem wp_register (hlower : host.lower address = address) (hnew : ∀ id ∈ names.ids, ¬d.core.Mentions id) :
    (addressProtocol B address).wp (register host cfg payload names)
      (fun _ _ d => payload.owner host = address →
        ∃ x ∈ d.core.owners address, x.2.authUserUuid = some names.user)
      (fun _ _ _ => True) (.start names.rights) d := by
  have hids : ∀ c : Ctx (Directory B) DirectoryKey, names.rights ⊆ c.held →
      (addressProtocol B address).Stable c.held fun d => ∀ id ∈ names.ids, ¬d.core.Mentions id :=
    fun c hc => stable_ids hc
  refine Protocol.wp_transaction (D := fun _ _ => True) (fun _ h => h) (fun _ => Protocol.stable_const _ _)
    (fun _ _ _ _ => trivial) ?_
  refine Protocol.wp_seq (Protocol.wp_local (local_addUser payload names) (hids _ fun _ h => h) hnew
    (fun _ c1 d1 hc1 h1 => ?_) fun _ _ _ _ _ => trivial)
  have hrole : (Code.write .plain fun d => { d with roles := d.roles ++ [(names.user, "signature_admin")] } :
      RegistrationTx B Unit).Local KeepsCore := Code.local_write _ fun _ => rfl
  refine Protocol.wp_seq (Protocol.wp_local hrole (hids _ hc1.held) h1
    (fun _ c2 d2 hc2 h2 => ?_) fun _ _ _ _ _ => trivial)
  have hc2 := hc1.trans hc2
  refine Protocol.wp_seq (Protocol.wp_local (local_identify payload names) (hids _ hc2.held) h2
    (fun _ c3 d3 hc3 h3 => ?_) fun _ _ _ _ _ => trivial)
  have hc3 := hc2.trans hc3
  refine Protocol.wp_seq (Protocol.wp_local (local_issueToken _ _ _ _) (hids _ hc3.held) h3
    (fun _ c4 d4 hc4 h4 => ?_) fun _ _ _ _ _ => trivial)
  have hc4 := hc3.trans hc4
  have hcore : ∀ d, (c4.pending d).core = d.core := hc4.project (f := Directory.core) fun _ hu => hu
  refine Protocol.wp_seq (wp_provisionAccountTenant hlower hcore hc4.held h4 fun d5 h5 => ?_)
  have hstable : (addressProtocol B address).Stable c4.held fun d => payload.owner host = address →
      ∃ x ∈ d.core.owners address, x.2.authUserUuid = some names.user :=
    fun d d' hi h he => stable_owner names.user d d' hi (h he)
  refine Protocol.wp_seq (Protocol.wp_select hstable h5 (fun d6 h6 _ _ => ?_) fun _ _ _ => trivial)
  refine Protocol.wp_pure (Protocol.commitsAt_of hstable h6 (fun _ _ => trivial) fun d7 h7 hinv _ => ?_)
  have hinv : d7.core.Owned address := hinv
  refine ⟨?_, hcore d7, ?_, fun _ => trivial⟩
  · show ((c4.pending d7).core).Owned address
    rw [hcore]
    exact hinv
  · rw [hcore]
    exact h7

end Attempt

/-! ## Runs -/

/-- The user of a call for the address that core carries out in a step. -/
def provisionedAt (address : String) (x : RegistrationStep B) : Option UUID :=
  match x.1.publishes x.2 with
  | some (.provisioning owner user) => if owner = address then some user else none
  | _ => none

section Runs

variable {Y Z : RegistrationSystem B} {steps past future : List (RegistrationStep B)}

theorem registrations_governed (hlower : host.lower address = address) :
    (addressProtocol B address).Governs (fun _ _ _ => True) (fun _ _ _ => True) (registrations host cfg) where
  lasting := Protocol.lasting_true
  lasting_raise := Protocol.lasting_true
  starts := by
    rintro base code d - ⟨payload, names, rfl, hnew, rfl⟩
    exact Protocol.wp_mono (wp_register hlower hnew) (fun _ h => h) (fun _ _ _ _ _ => trivial)
      fun _ _ _ _ h => h
  env := by
    rintro d d' hinv ⟨now, rfl⟩
    exact ⟨⟨now, rfl⟩, hinv.bound, hinv.account⟩
  lossy := fun _ => trivial
  fault := fun _ _ _ => trivial

theorem meets_address (X : RegistrationSystem B) (l : RegistrationLabel B) :
    (addressProtocol B address).Meets X l :=
  fun _ _ _ => trivial

/-- Nobody has a membership under the address. -/
def Unknown (address : String) (d : Directory B) : Prop :=
  ∀ k m, d.core.members.get? k = some m → m.authUserId ≠ address

theorem owners_of_unknown {d : Directory B} (h : Unknown address d) : d.core.owners address = [] := by
  refine Table.select_eq_nil_iff.2 fun k m hm => ?_
  simp [h k m hm]

theorem owned_of_unknown {d : Directory B} (h : Unknown address d) : d.core.Owned address where
  bound k m hm he := absurd he (h k m hm)
  account x hx := by
    rw [owners_of_unknown h] at hx
    exact absurd hx List.not_mem_nil

/-- The tenants of an address are those of the calls that were carried out for it, each of another user. -/
theorem owners_of_run (hlower : host.lower address = address) (hrun : Run (registrations host cfg) Y steps Z)
    (hidle : Y.sessions = []) (hunknown : Unknown address Y.shared) :
    (Z.shared.core.owners address).map (fun x => x.2.authUserUuid) =
      (steps.filterMap (provisionedAt address)).map some ∧ (steps.filterMap (provisionedAt address)).Nodup := by
  refine (registrations_governed hlower).induct (Protocol.good_of_idle _ (owned_of_unknown hunknown) hidle)
    hrun (fun x _ => meets_address x.1 x.2)
    (motive := fun steps d => (d.core.owners address).map (fun x => x.2.authUserUuid) =
      (steps.filterMap (provisionedAt address)).map some ∧
        (steps.filterMap (provisionedAt address)).Nodup) ?_ ?_
  · rw [owners_of_unknown hunknown]
    exact ⟨rfl, List.nodup_nil⟩
  intro past X l d' ⟨howners, hnodup⟩ hinv hinv' _ hmove
  rw [List.filterMap_append]
  -- A step that carries out no call for the address keeps its tenants.
  have kept : provisionedAt address (X, l) = none →
      d'.core.owners address = X.shared.core.owners address →
      (d'.core.owners address).map (fun x => x.2.authUserUuid) =
        (past.filterMap (provisionedAt address) ++ [(X, l)].filterMap (provisionedAt address)).map some ∧
          (past.filterMap (provisionedAt address) ++ [(X, l)].filterMap (provisionedAt address)).Nodup := by
    intro hnone hsame
    rw [List.filterMap_cons_none hnone, List.filterMap_nil, List.append_nil, hsame]
    exact ⟨howners, hnodup⟩
  unfold Protocol.Moves at hmove
  cases hpub : X.publishes l with
  | none =>
      have hnone : provisionedAt address (X, l) = none := by
        unfold provisionedAt
        rw [hpub]
      rw [hpub] at hmove
      refine kept hnone ?_
      rcases hmove with rfl | ⟨now, rfl⟩
      · rfl
      · rfl
  | some point =>
      rw [hpub] at hmove
      obtain ⟨H, hg⟩ := hmove
      cases point with
      | provisioning owner user =>
          obtain ⟨-, huser, hg⟩ := hg
          have hat : provisionedAt address (X, l) = if owner = address then some user else none := by
            unfold provisionedAt
            rw [hpub]
          split at hg
          · next he =>
              rw [if_pos he] at hat
              obtain ⟨x, hx, hsame⟩ := hg
              rw [List.filterMap_cons_some hat, List.filterMap_nil, List.map_append, hsame, List.map_append,
                howners, List.map_singleton, List.map_singleton, hx]
              refine ⟨rfl, List.nodup_append_comm.1 (List.nodup_cons.2 ⟨fun hmem => ?_, hnodup⟩)⟩
              -- The user is new, and those before are bound to memberships.
              have hsome : some user ∈ (X.shared.core.owners address).map fun x => x.2.authUserUuid := by
                rw [howners]
                exact List.mem_map_of_mem hmem
              obtain ⟨⟨k, m⟩, hm, hbound⟩ := List.mem_map.1 hsome
              exact (ne_of_not_mentions huser (Table.mem_select_iff.1 hm).1).2 hbound
          · next he =>
              rw [if_neg he] at hat
              exact kept hat hg
      | _ =>
          have hcore : d'.core = X.shared.core := hg
          have hnone : provisionedAt address (X, l) = none := by
            unfold provisionedAt
            rw [hpub]
          exact kept hnone (by rw [hcore])

/-- A call for the address that is no different from `a` is the only one. -/
theorem eq_singleton_of_forall {α : Type} {l : List α} {a : α} (hnodup : l.Nodup) (hmem : a ∈ l)
    (h : ∀ b ∈ l, b = a) : l = [a] := by
  cases l with
  | nil => exact absurd hmem List.not_mem_nil
  | cons b rest =>
      obtain rfl := h b List.mem_cons_self
      cases rest with
      | nil => rfl
      | cons c rest =>
          obtain rfl := h c (List.mem_cons_of_mem _ List.mem_cons_self)
          exact absurd List.mem_cons_self (List.nodup_cons.1 hnodup).1

/-- **One tenant per registration.** Attempts to register run from a state in which nobody has a membership
    under an address. Once one of them for this address has succeeded, the address has one tenant, with its
    account, exactly where core has carried out no call for it but the one of this attempt. -/
theorem one_tenant (hlower : host.lower address = address) (hrun : Run (registrations host cfg) Y steps Z)
    (hidle : Y.sessions = []) (hunknown : Unknown address Y.shared) {X : RegistrationSystem B}
    {payload : PublicRegistration} {names : RegistrationNames}
    (hsteps : steps = past ++ (X, startRegistration host cfg payload names) :: future)
    (howner : payload.owner host = address) (hret : Z.returned X.sessions.length = some ()) :
    Z.shared.core.OneTenant address ↔
      ∀ x ∈ steps, ∀ user, provisionedAt address x = some user → user = names.user := by
  obtain ⟨howners, hnodup⟩ := owners_of_run hlower hrun hidle hunknown
  have hgov : (addressProtocol B address).Governs (fun _ _ _ => True) (fun _ _ _ => True)
      (registrations host cfg) := registrations_governed hlower
  have hgood : (addressProtocol B address).Good (fun _ _ _ => True) (fun _ _ _ => True) Y :=
    Protocol.good_of_idle _ (owned_of_unknown hunknown) hidle
  have hmeets : ∀ {steps : List (RegistrationStep B)}, ∀ x ∈ steps, (addressProtocol B address).Meets x.1 x.2 :=
    fun x _ => meets_address x.1 x.2
  have howned : Z.shared.core.Owned address := (hgov.good hgood hrun hmeets).inv
  -- The attempt that succeeded has got a tenant.
  have hmem : names.user ∈ steps.filterMap (provisionedAt address) := by
    obtain ⟨hbefore, ⟨payload', names', hrights, hnew, hcode⟩, X', hstep, hafter⟩ := (hsteps ▸ hrun).split
    have hX := hgov.good hgood hbefore hmeets
    obtain ⟨rfl, hX'⟩ := hX.start hgov ⟨payload', names', hrights, hnew, hcode⟩ hstep
    have hids : names.ids = names'.ids :=
      List.map_injective_iff.2 (fun _ _ he => DirectoryKey.name.inj (Prod.mk.inj he).1) hrights
    have hlasting : (addressProtocol B address).Lasting
        (fun (_ : Unit) (_ : Ctx (Directory B) DirectoryKey) d => payload.owner host = address →
          ∃ x ∈ d.core.owners address, x.2.authUserUuid = some names.user) :=
      fun _ _ d d' hr h he => (stable_owner names.user).rely hr (h he)
    have hj : (X.sessions ++ [⟨.start names.rights, register host cfg payload names⟩])[X.sessions.length]? =
        some ⟨.start names.rights, register host cfg payload names⟩ := by
      simp
    obtain ⟨c, hpost⟩ := hgov.follow hX' hafter hmeets hlasting hj
      (wp_register hlower (hids ▸ hnew)) hret
    obtain ⟨x, hx, huser⟩ := hpost howner
    have hsome : some names.user ∈ (steps.filterMap (provisionedAt address)).map some := by
      rw [← howners, ← huser]
      exact List.mem_map_of_mem hx
    obtain ⟨user, hmem, he⟩ := List.mem_map.1 hsome
    exact Option.some.inj he ▸ hmem
  constructor
  · rintro ⟨x, hone, -⟩ y hy user huser
    have hmem' : user ∈ steps.filterMap (provisionedAt address) := List.mem_filterMap.2 ⟨y, hy, huser⟩
    rw [hone] at howners
    have hlength : (steps.filterMap (provisionedAt address)).length = 1 := by
      rw [← List.length_map (f := some), ← howners]
      rfl
    obtain ⟨a, ha⟩ := List.length_eq_one_iff.1 hlength
    rw [ha] at hmem hmem'
    exact (List.mem_singleton.1 hmem').trans (List.mem_singleton.1 hmem).symm
  · intro hall
    have hone := eq_singleton_of_forall hnodup hmem fun b hb => by
      obtain ⟨y, hy, hb⟩ := List.mem_filterMap.1 hb
      exact hall y hy b hb
    rw [hone] at howners
    have hlength : (Z.shared.core.owners address).length = 1 := by
      rw [← List.length_map (f := fun x => x.2.authUserUuid), howners]
      rfl
    obtain ⟨x, hx⟩ := List.length_eq_one_iff.1 hlength
    exact ⟨x, hx, howned.account x (hx ▸ List.mem_singleton.2 rfl)⟩

/-- Nobody has registered. -/
def emptyDirectory : RegistrationSystem SampleBytes where
  shared := ⟨∅, [], ∅, ∅, World.empty SampleBytes⟩
  sessions := []

theorem unknown_emptyDirectory : Unknown address emptyDirectory.shared := by
  intro k m hm
  exact absurd hm (by simp [emptyDirectory, World.empty])

def sampleRegistration : RegistrationSettings := ⟨"key", 60⟩

def ann : PublicRegistration := ⟨"Ann", "ann@example.com", none⟩

/-- The names of an attempt, from a number on. -/
def namesFrom (n : Nat) : RegistrationNames :=
  ⟨n, n + 1, n, ⟨n, "!"⟩, ⟨n + 2, n + 3, "ann"⟩⟩

def startAnn (n : Nat) : RegistrationLabel SampleBytes :=
  startRegistration sampleHost sampleRegistration ann (namesFrom n)

/-- Where the step starts an attempt, core does not know its names. -/
def namesUnknown (x : RegistrationStep SampleBytes) : Bool :=
  match x.2 with
  | .start base _ => base.all fun h => match h.1 with
    | .name id => !decide (x.1.shared.core.Mentions id)
    | _ => true
  | _ => true

/-- Attempts that start with unknown names are a run. -/
theorem replay_registrations {labels : List (RegistrationLabel SampleBytes)}
    {Y Z : RegistrationSystem SampleBytes} {steps : List (RegistrationStep SampleBytes)}
    (hlabels : ∀ l ∈ labels, (∃ n, l = startAnn n) ∨ (∃ i, l = .run i) ∨ ∃ i, l = .fail i)
    (hnew : steps.all namesUnknown = true) (h : Y.replay labels = some (steps, Z)) :
    Run (registrations sampleHost sampleRegistration) Y steps Z := by
  refine System.replay_steps_run h fun x hx => ?_
  have hl : x.2 ∈ labels := System.replay_labels h ▸ List.mem_map_of_mem hx
  have hx := List.all_eq_true.1 hnew x hx
  obtain ⟨X, l⟩ := x
  rcases hlabels l hl with ⟨n, rfl⟩ | ⟨i, rfl⟩ | ⟨i, rfl⟩
  · refine ⟨ann, namesFrom n, rfl, fun id hid => ?_, rfl⟩
    have hid := List.all_eq_true.1 hx (.name id, .exclusive) (List.mem_map_of_mem hid)
    simpa using hid
  · trivial
  · trivial

theorem runs_registrations {i n : Nat} : ∀ l ∈ (Label.runs i n : List (RegistrationLabel SampleBytes)),
    (∃ n, l = startAnn n) ∨ (∃ i, l = .run i) ∨ ∃ i, l = .fail i :=
  fun _ hl => Or.inr (Or.inl ⟨i, List.eq_of_mem_replicate hl⟩)

/-- An attempt that fails after `n` statements, and one that succeeds. -/
def retry (n : Nat) : List (RegistrationLabel SampleBytes) :=
  (startAnn 1 :: (Label.runs 0 n ++ [.fail 0])) ++ startAnn 11 :: Label.runs 1 11

theorem retry_registrations (n : Nat) : ∀ l ∈ retry n,
    (∃ n, l = startAnn n) ∨ (∃ i, l = .run i) ∨ ∃ i, l = .fail i :=
  List.forall_mem_append.2 ⟨List.forall_mem_cons.2 ⟨Or.inl ⟨1, rfl⟩, List.forall_mem_append.2
    ⟨runs_registrations, List.forall_mem_singleton.2 (Or.inr (Or.inr ⟨0, rfl⟩))⟩⟩,
      List.forall_mem_cons.2 ⟨Or.inl ⟨11, rfl⟩, runs_registrations⟩⟩

/-- The step in which the second attempt starts. -/
theorem retry_split {n : Nat} {Y Z : RegistrationSystem SampleBytes}
    {steps : List (RegistrationStep SampleBytes)} (h : Y.replay (retry n) = some (steps, Z)) :
    ∃ past X future, steps = past ++ (X, startAnn 11) :: future ∧ steps[n + 2]? = some (X, startAnn 11) := by
  obtain ⟨past, rest, rfl, hpast, hrest⟩ := List.map_eq_append_iff.1 (System.replay_labels h)
  obtain ⟨⟨X, l⟩, future, rfl, rfl, -⟩ := List.map_eq_cons_iff.1 hrest
  have hlength : past.length = n + 2 := by
    rw [← List.length_map (f := Prod.snd), hpast]
    simp [Label.runs]
  refine ⟨past, X, future, rfl, ?_⟩
  rw [← hlength, List.getElem?_append_right (Nat.le_refl _), Nat.sub_self]
  rfl

/-- A retry after the first attempt has failed before its call. -/
theorem one_tenant_retry :
    ∃ steps Z, Run (registrations sampleHost sampleRegistration) emptyDirectory steps Z ∧
      Z.returned 0 = none ∧ Z.returned 1 = some () ∧ Z.shared.core.OneTenant (ann.owner sampleHost) := by
  obtain ⟨steps, Z, hreplay, hp⟩ := System.exists_replay (Y := emptyDirectory) (retry 3)
    (p := fun steps Z => steps.all namesUnknown && (Z.returned 0 = none && (Z.returned 1 = some () &&
      (steps[3 + 2]?.any (fun x => x.1.sessions.length = 1) &&
        steps.all fun x => (provisionedAt (ann.owner sampleHost) x).all fun user => user = 11)))) (by decide)
  simp only [Bool.and_eq_true, decide_eq_true_eq] at hp
  obtain ⟨hnew, hfirst, hsecond, hstart, hcalls⟩ := hp
  have hrun := replay_registrations (retry_registrations 3) hnew hreplay
  obtain ⟨past, X, future, hsteps, hX⟩ := retry_split hreplay
  rw [hX] at hstart
  have hX : X.sessions.length = 1 := of_decide_eq_true hstart
  refine ⟨steps, Z, hrun, hfirst, hsecond, (one_tenant rfl hrun rfl unknown_emptyDirectory hsteps rfl
    (hX ▸ hsecond)).2 fun x hx user huser => ?_⟩
  have hcall := List.all_eq_true.1 hcalls x hx
  rw [huser] at hcall
  exact of_decide_eq_true hcall

/-- A retry after the first attempt has failed behind its call: the address gets a second tenant. -/
theorem not_one_tenant :
    ¬∀ (steps past future : List (RegistrationStep SampleBytes)) (X Z : RegistrationSystem SampleBytes),
      Run (registrations sampleHost sampleRegistration) emptyDirectory steps Z →
        steps = past ++ (X, startRegistration sampleHost sampleRegistration ann (namesFrom 11)) :: future →
          Z.returned X.sessions.length = some () →
            Z.shared.core.OneTenant (ann.owner sampleHost) := by
  intro h
  obtain ⟨steps, Z, hreplay, hp⟩ := System.exists_replay (Y := emptyDirectory) (retry 8)
    (p := fun steps Z => steps.all namesUnknown && (Z.returned 1 = some () &&
      (steps[8 + 2]?.any (fun x => x.1.sessions.length = 1) &&
        (Z.shared.core.owners (ann.owner sampleHost)).length = 2))) (by decide)
  simp only [Bool.and_eq_true, decide_eq_true_eq] at hp
  obtain ⟨hnew, hsecond, hstart, howners⟩ := hp
  obtain ⟨past, X, future, hsteps, hX⟩ := retry_split hreplay
  rw [hX] at hstart
  have hX : X.sessions.length = 1 := of_decide_eq_true hstart
  obtain ⟨x, hone, -⟩ := h steps past future X Z (replay_registrations (retry_registrations 8) hnew hreplay)
    hsteps (hX ▸ hsecond)
  rw [hone] at howners
  exact absurd howners (by simp)

end Runs

end Rubrica
