import Rubrica.Accounts.Registration
import Rubrica.Transactions.Deeds
import Rubrica.Transactions.Notes

set_option autoImplicit false

/-! # A workspace after suspension

`create_personal_after_suspension`, of which any number run at once for one subject. A call locks the memberships
it has found; what another call commits in the meantime it does not see. -/

namespace Rubrica

open Transactions

variable {B Page : Type} (host : Host B Page)

/-! ## The call -/

/-- Where in a call a statement stands. -/
inductive ReactivationPoint where
  | plain
  | team (point : TeamPoint)
  /-- Commits the new workspace. -/
  | created

instance instUnmarkedReactivation : Unmarked ReactivationPoint := ⟨.plain⟩

structure TenantCreate where
  name : String
  countryCode : Option String

structure TenantRead where
  id : UUID
  tenant : Tenant
  role : MemberRole
  deriving DecidableEq, Repr

section Programs

variable (caller : Caller) (subject : String)

/-- A membership of the subject that is not deleted. -/
def TenantMember.isMembership (m : TenantMember) : Bool :=
  m.isIdentity host caller subject && m.deletedAt.isNone

def World.memberships (w : World B) : List (UUID × TenantMember) :=
  w.members.select fun _ m => m.isMembership host caller subject

/-- The row of a membership, if it still is one. -/
def World.membership (id : UUID) (w : World B) : Option TenantMember :=
  (w.members.get? id).filter fun m => m.isMembership host caller subject

/-- `SELECT .. FOR UPDATE` locks the rows it has found one after another, each as it is by then. -/
def lockMemberships : List UUID → Tx B ReactivationPoint (List (UUID × TenantMember))
  | [] => pure []
  | id :: ids => do
    let found ← queryForUpdate (fun w => (w.membership host caller subject id).map fun _ => .member id)
      fun w => w.membership host caller subject id
    let rest ← lockMemberships ids
    pure ((found.map fun m => (id, m)).toList ++ rest)

/-- The membership of a new workspace. -/
def TenantMember.reactivated (tenant : UUID) (user : Option UUID) (joined created : Int) : TenantMember :=
  ⟨tenant, host.lower subject, user, .admin, .active, some joined, created, none⟩

/-- `create_personal_after_suspension`, for the memberships it has locked. -/
def createPersonalFor (payload : TenantCreate) (user : Option UUID) (names : ProvisionNames)
    (memberships : List (UUID × TenantMember)) : Tx B ReactivationPoint TenantRead := do
  Code.require (∀ x ∈ memberships, x.2.status ≠ .active) (.error "An active workspace already exists" 409)
  Code.require (∃ x ∈ memberships, x.2.status = .suspended)
    (.error "No suspended workspace access was found" 409)
  let tenant := Tenant.provisioned (host.strip payload.name) names.slug payload.countryCode
  save (World.insertTenant names.tenant tenant)
  let joined ← utcNow
  let created ← utcNow
  (flushMember names.member (.reactivated host subject names.tenant user joined created)).mapPoint .team
  let _ ← createAccount names.tenant
  audit none subject "tenant.personal_created_after_suspension" "tenant" names.tenant
    [("suspended_membership_count", .int memberships.length)]
  pure ⟨names.tenant, tenant, .admin⟩

def createPersonalAfterSuspension (payload : TenantCreate) (userId : Option String) (names : ProvisionNames) :
    Tx B ReactivationPoint TenantRead :=
  Code.transaction .plain do
    let ids ← query fun w => (w.memberships host caller subject).map Prod.fst
    let memberships ← lockMemberships host caller subject ids
    let read ← createPersonalFor host subject payload ((present userId).bind host.parseUuid) names memberships
    pure (read, .created)

end Programs

/-! ## Calls of one subject -/

abbrev ReactivationSystem (B : Type) := System (World B) RowKey ReactivationPoint Failure TenantRead
abbrev ReactivationLabel (B : Type) := Label (World B) RowKey ReactivationPoint Failure TenantRead
abbrev ReactivationStep (B : Type) := ReactivationSystem B × ReactivationLabel B

section Runs

variable (subject : String) (userId : Option String)

/-- The user that `membership_identity_filter` finds in the context of the request, which is where the endpoint
    has the `user_id` from. -/
def contextUser : Caller :=
  (present userId).bind host.parseUuid

/-- A call begins, under names that are new. -/
def startReactivation (payload : TenantCreate) (names : ProvisionNames) : ReactivationLabel B :=
  .start [(.name names.tenant, .exclusive), (.name names.member, .exclusive)]
    (createPersonalAfterSuspension host (contextUser host userId) subject payload userId names)

/-- Calls of one subject. Nobody else changes memberships meanwhile. -/
def reactivationRuns : Setting (World B) RowKey ReactivationPoint Failure TenantRead where
  starts base code w := ∃ payload names, ¬w.Mentions names.tenant ∧ ¬w.Mentions names.member ∧
    Label.start base code = startReactivation host subject userId payload names
  env w w' := w'.members = w.members
  lossy := True

def World.activeMemberships (w : World B) : List (UUID × TenantMember) :=
  (w.memberships host (contextUser host userId) subject).filter fun x => x.2.status = .active

/-- Where a workspace is committed, the subject still has no active membership. -/
def stillSuspended (x : ReactivationStep B) : Bool :=
  match x.1.executes x.2 with
  | some (.created, _) => (x.1.shared.activeMemberships host subject userId).isEmpty
  | _ => true

/-- One call has succeeded at most, and one active membership has come of the calls. -/
structure OneWorkspace (Z : ReactivationSystem B) : Prop where
  success : ∀ i j a b, Z.returned i = some a → Z.returned j = some b → i = j
  active : (Z.shared.activeMemberships host subject userId).length ≤ 1

/-! ## The story of the calls -/

inductive ReactivationNote where
  /-- Has not begun, or has failed. -/
  | idle
  /-- Has drawn the name of a membership. -/
  | drawn (member : UUID)
  | created

abbrev ReactivationScene (B : Type) := Scene (World B) RowKey ReactivationNote Unit

structure Reactivating (S : ReactivationScene B) : Prop where
  drawn : ∀ i m, S.note i = .drawn m →
    S.shared.members.get? m = none ∧ (RowKey.name m, LockMode.exclusive) ∈ S.held i
  apart : ∀ i j m, S.note i = .drawn m → S.note j = .drawn m → i = j
  once : S.told.length ≤ 1
  known : S.told ≠ [] → S.shared.activeMemberships host subject userId ≠ []
  active : (S.shared.activeMemberships host subject userId).length ≤ S.told.length
  created : ∀ i, S.note i = .created → (i, ()) ∈ S.told

def reactivationStory : Story (World B) RowKey ReactivationPoint ReactivationNote Unit where
  inv := Reactivating host subject userId
  tell
    | .created, _ => some ()
    | _, _ => none
  fits _ _ := True
  cond
    | .created, S => S.shared.activeMemberships host subject userId = []
    | _, _ => True
  fails _ := True
  crashes := True

variable {host subject userId} {S : ReactivationScene B} {i : Nat} {g : ReactivationNote} {H : Rights RowKey}

theorem activeMemberships_congr {w w' : World B} (h : w'.members = w.members) :
    w'.activeMemberships host subject userId = w.activeMemberships host subject userId := by
  unfold World.activeMemberships World.memberships
  rw [h]

/-- A call draws the name of a membership. -/
theorem Reactivating.draw {m : UUID} (h : Reactivating host subject userId S)
    (hnew : S.shared.members.get? m = none) (hH : (RowKey.name m, LockMode.exclusive) ∈ H)
    (hfree : ∀ j, (RowKey.name m, LockMode.exclusive) ∉ S.held j) :
    Reactivating host subject userId (S.turn i none S.shared H (.drawn m)) := by
  have other : ∀ j, S.note j ≠ .drawn m := fun j hj => hfree j (h.drawn j m hj).2
  refine ⟨fun j n hj => ?_, fun a b n ha hb => ?_, by simpa using h.once, by simpa using h.known,
    by simpa using h.active, fun j hj => ?_⟩
  · rw [Scene.turn_note] at hj
    rw [Scene.turn_held]
    split at hj
    · next hji =>
      cases hj
      rw [if_pos hji]
      exact ⟨hnew, hH⟩
    · next hji =>
      rw [if_neg hji]
      exact h.drawn j n hj
  · rw [Scene.turn_note] at ha hb
    split at ha
    · next hai =>
      cases ha
      split at hb
      · next hbi => rw [hai, hbi]
      · exact absurd hb (other b)
    · split at hb
      · cases hb
        exact absurd ha (other a)
      · exact h.apart a b n ha hb
  · rw [Scene.turn_note] at hj
    split at hj
    · exact absurd hj (by simp)
    · simpa using h.created j hj

/-- A turn that changes no membership, of a call that keeps its name or is over. -/
theorem Reactivating.turn (h : Reactivating host subject userId S) {w : World B}
    (hw : w.members = S.shared.members)
    (hg : g = .idle ∨ g = S.note i ∧ ∀ m, g = .drawn m → (RowKey.name m, LockMode.exclusive) ∈ H) :
    Reactivating host subject userId (S.turn i none w H g) := by
  have hactive : w.activeMemberships host subject userId = S.shared.activeMemberships host subject userId :=
    activeMemberships_congr hw
  have keeps : ∀ j, g ≠ .idle → (S.turn i none w H g).note j = S.note j := by
    intro j hidle
    rw [Scene.turn_note]
    split
    · next hji => exact hji ▸ (hg.resolve_left hidle).1
    · rfl
  have note : ∀ j n, (S.turn i none w H g).note j = n → n ≠ .idle → S.note j = n := by
    intro j n hj hn
    by_cases hidle : g = .idle
    · rw [Scene.turn_note] at hj
      split at hj
      · exact absurd (hj.symm.trans hidle) hn
      · exact hj
    · exact (keeps j hidle).symm.trans hj
  refine ⟨fun j n hj => ⟨?_, ?_⟩, fun a b n ha hb => ?_, by simpa using h.once, fun htold => ?_, ?_, fun j hj => ?_⟩
  · rw [Scene.turn_shared, hw]
    exact (h.drawn j n (note j _ hj (by simp))).1
  · rw [Scene.turn_held]
    split
    · next hji =>
      rw [Scene.turn_note, if_pos hji] at hj
      rcases hg with hidle | ⟨-, hH⟩
      · rw [hidle] at hj
        exact absurd hj (by simp)
      · exact hH n hj
    · exact (h.drawn j n (note j _ hj (by simp))).2
  · exact h.apart a b n (note a _ ha (by simp)) (note b _ hb (by simp))
  · rw [Scene.turn_shared, hactive]
    exact h.known (by simpa using htold)
  · rw [Scene.turn_shared, hactive]
    simpa using h.active
  · simpa using h.created j (note j _ hj (by simp))

/-- The commit of a workspace. -/
theorem Reactivating.create {m : UUID} {row : TenantMember} (h : Reactivating host subject userId S) {w : World B}
    (hi : S.note i = .drawn m) (hw : w.members = S.shared.members.insert m row)
    (hrow : row.isMembership host (contextUser host userId) subject = true) (hactive : row.status = .active)
    (hnone : S.shared.activeMemberships host subject userId = []) :
    Reactivating host subject userId (S.turn i (some ()) w H .created) := by
  have hfree := (h.drawn i m hi).1
  have htold : S.told = [] := by
    by_contra htold
    exact h.known htold hnone
  have hone : w.activeMemberships host subject userId = [(m, row)] := by
    unfold World.activeMemberships World.memberships at hnone ⊢
    rw [hw, Table.select_insert_of_free hfree, List.filter_append, hnone]
    simp [hrow, hactive]
  have note : ∀ j n, (S.turn i (some ()) w H .created).note j = .drawn n → j ≠ i ∧ S.note j = .drawn n := by
    intro j n hj
    rw [Scene.turn_note] at hj
    split at hj
    · exact absurd hj (by simp)
    · next hji => exact ⟨hji, hj⟩
  refine ⟨fun j n hj => ?_, fun a b n ha hb => ?_, by simp [htold], fun _ => ?_, ?_, fun j hj => ?_⟩
  · obtain ⟨hji, hj⟩ := note j n hj
    have hne : m ≠ n := fun hmn => hji (h.apart j i n hj (hmn ▸ hi))
    rw [Scene.turn_shared, Scene.turn_held, if_neg hji, hw, Table.get?_insert_of_ne _ hne.symm]
    exact h.drawn j n hj
  · exact h.apart a b n (note a n ha).2 (note b n hb).2
  · rw [Scene.turn_shared, hone]
    simp
  · rw [Scene.turn_shared, hone]
    simp
  · rw [Scene.turn_note] at hj
    split at hj
    · next hji => simp [hji]
    · simpa [htold] using h.created j hj

/-! ## The calls keep to the story -/

/-- A call that has committed says so. -/
def Reactivated (_ : TenantRead) (_ : Ctx (World B) RowKey) (g : ReactivationNote) : Prop :=
  g = .created

variable {α : Type} {c : Ctx (World B) RowKey} {m : UUID}

/-- The writes that change no membership. -/
abbrev MembersKept : (World B → World B) → Prop :=
  Keeps World.members

/-- Statements before the commit. -/
def ReactivationPoint.isQuiet : ReactivationPoint → Prop
  | created => False
  | _ => True

/-- A stretch of the call that changes no membership. -/
theorem follows_aside {x : Tx B ReactivationPoint α} (hx : x.Local MembersKept) (hV : x.Within (·.isQuiet))
    {Q : α → Ctx (World B) RowKey → ReactivationNote → Prop}
    (hQ : ∀ a c', c'.base = c.base → (∀ w, (c'.pending w).members = (c.pending w).members) → Q a c' (.drawn m)) :
    (reactivationStory host subject userId).follows i x Q (fun _ _ _ => True) c (.drawn m) := by
  have hsame : ∀ {S : ReactivationScene B} {H : Rights RowKey} {pt : ReactivationPoint}, pt.isQuiet →
      Reactivating host subject userId S → S.note i = .drawn m → (.name m, .exclusive) ∈ H →
        Reactivating host subject userId
          (S.turn i ((reactivationStory host subject userId).tell pt S.shared) S.shared H (.drawn m)) := by
    intro S H pt hpt hinv hi hH
    cases pt with
    | created => exact absurd hpt id
    | _ =>
        refine hinv.turn rfl (Or.inr ⟨hi.symm, fun n hn => ?_⟩)
        cases hn
        exact hH
  exact Story.follows_local hx hV (Code.locksOnly_true x) (fun _ _ => trivial)
    (fun S pt hpt hinv hi => hsame hpt hinv hi (hinv.drawn i m hi).2)
    (fun S pt r hpt _ hinv hi _ => hsame hpt hinv hi (List.mem_cons_of_mem _ (hinv.drawn i m hi).2))
    (fun _ S hinv hi => ⟨.idle, hinv.turn rfl (Or.inl rfl), trivial⟩)
    (fun a c' hc _ => hQ a c' hc.base fun w => hc.project (fun u hu w => hu w) w) fun _ _ _ => trivial

/-- A write that changes no membership. -/
theorem follows_save {u : World B → World B} (hu : ∀ w, (u w).members = w.members)
    {Q : Unit → Ctx (World B) RowKey → ReactivationNote → Prop}
    (hQ : ∀ c', c'.base = c.base → (∀ w, (c'.pending w).members = (c.pending w).members) → Q () c' (.drawn m)) :
    (reactivationStory host subject userId).follows i (save u) Q (fun _ _ _ => True) c (.drawn m) :=
  follows_aside (local_save hu) ⟨trivial, fun _ => trivial, trivial⟩ fun _ => hQ

theorem within_query (f : World B → α) : (query f : Tx B ReactivationPoint α).Within (·.isQuiet) :=
  ⟨trivial, fun _ => trivial, trivial⟩

theorem within_queryForUpdate (row : World B → Option RowKey) (f : World B → α) :
    (queryForUpdate row f : Tx B ReactivationPoint α).Within (·.isQuiet) :=
  ⟨trivial, fun _ => trivial, trivial⟩

theorem within_require {p : Prop} [Decidable p] {e : Failure} :
    (Code.require p e : Tx B ReactivationPoint Unit).Within (·.isQuiet) := by
  unfold Code.require
  split <;> trivial

theorem within_claim (entry : RowKey) (taken : World B → Bool) :
    (claim entry taken : Tx B ReactivationPoint Unit).Within (·.isQuiet) :=
  Code.within_bind ⟨trivial, fun _ => trivial, trivial⟩ fun _ => within_require

theorem within_referTo (row : RowKey) (there : World B → Bool) :
    (referTo row there : Tx B ReactivationPoint Unit).Within (·.isQuiet) :=
  Code.within_bind ⟨trivial, fun _ => trivial, trivial⟩ fun _ => within_require

theorem within_lockMemberships {caller : Caller} (ids : List UUID) :
    (lockMemberships host caller subject ids).Within (·.isQuiet) := by
  induction ids with
  | nil => trivial
  | cons id ids ih => exact Code.within_bind (within_queryForUpdate _ _) fun _ => Code.within_bind ih fun _ => trivial

theorem local_lockMemberships {caller : Caller} {W : (World B → World B) → Prop} (ids : List UUID) :
    (lockMemberships host caller subject ids).Local W := by
  induction ids with
  | nil => trivial
  | cons id ids ih =>
      exact Code.local_bind (local_queryForUpdate _ _) fun _ => Code.local_bind ih fun _ => Code.local_pure _

/-- The flush of the new membership. -/
theorem follows_flushMember {row : TenantMember} {Q : Unit → Ctx (World B) RowKey → ReactivationNote → Prop}
    (hQ : ∀ c', c'.base = c.base → (∀ w, (c'.pending w).members = (c.pending w).members.insert m row) →
      Q () c' (.drawn m)) :
    (reactivationStory host subject userId).follows i ((flushMember m row).mapPoint .team) Q (fun _ _ _ => True) c
      (.drawn m) := by
  have hteam : ∀ {β : Type} (x : Tx B TeamPoint β),
      (x.mapPoint ReactivationPoint.team).Within (·.isQuiet) := fun x => Code.within_mapPoint (fun _ => trivial) x
  unfold flushMember
  simp only [Code.mapPoint_bind]
  refine Story.follows_bind.2 (follows_aside (Code.local_mapPoint _ (local_claim _ _)) (hteam _)
    fun _ c1 hbase1 hkept1 => Story.follows_bind.2 (follows_aside (Code.local_mapPoint _ (local_claimChanged _ _ _ _))
      (hteam _) fun _ c2 hbase2 hkept2 => Story.follows_bind.2 (follows_aside
        (Code.local_mapPoint _ (local_referTo _ _)) (hteam _) fun _ c3 hbase3 hkept3 => ?_)))
  show Story.follows _ i (Code.write (ReactivationPoint.team .plain) (World.insertMember m row)) _ _ _ _
  refine Story.follows_write trivial (fun _ S hinv _ hi => ⟨.idle, Reactivating.turn hinv rfl (Or.inl rfl), trivial⟩)
    fun S hinv hH hi _ => ?_
  refine Story.Turns.same hinv hH hi (hQ _ ?_ fun w => ?_)
  · rw [Ctx.buffer_base, hbase3, hbase2, hbase1]
  · show ((c3.pending w).members.insert m row) = _
    rw [hkept3, hkept2, hkept1]

theorem follows_createPersonalFor {payload : TenantCreate} {names : ProvisionNames}
    {found : List (UUID × TenantMember)} {Q : TenantRead → Ctx (World B) RowKey → ReactivationNote → Prop}
    (hQ : ∀ a c' row, c'.base = c.base → row.isMembership host (contextUser host userId) subject = true →
      row.status = .active →
      (∀ w, (c'.pending w).members = (c.pending w).members.insert names.member row) → Q a c' (.drawn names.member)) :
    (reactivationStory host subject userId).follows i
      (createPersonalFor host subject payload ((present userId).bind host.parseUuid) names found) Q
      (fun _ _ _ => True) c (.drawn names.member) := by
  unfold createPersonalFor createAccount audit utcNow
  refine Story.follows_bind.2 (follows_aside (Code.local_require _ _) within_require fun _ c1 hbase1 hkept1 => ?_)
  refine Story.follows_bind.2 (follows_aside (Code.local_require _ _) within_require fun _ c2 hbase2 hkept2 => ?_)
  refine Story.follows_bind.2 (follows_save (by exact fun _ => rfl) fun c3 hbase3 hkept3 => ?_)
  refine Story.follows_bind.2 (follows_aside (local_query _) (within_query _) fun joined c4 hbase4 hkept4 => ?_)
  refine Story.follows_bind.2 (follows_aside (local_query _) (within_query _) fun created c5 hbase5 hkept5 => ?_)
  refine Story.follows_bind.2 (follows_flushMember fun c6 hbase6 hinserted => ?_)
  refine Story.follows_bind.2 (Story.follows_bind.2 (follows_aside (local_claim _ _) (within_claim _ _)
    fun _ c7 hbase7 hkept7 => ?_))
  refine Story.follows_bind.2 (follows_aside (local_referTo _ _) (within_referTo _ _) fun _ c8 hbase8 hkept8 => ?_)
  refine Story.follows_bind.2 (follows_save (by exact fun _ => rfl) fun c9 hbase9 hkept9 => ?_)
  refine Story.follows_bind.2 (Story.follows_bind.2 (follows_aside (local_query _) (within_query _)
    fun _ c10 hbase10 hkept10 => ?_))
  refine follows_save (by exact fun _ => rfl) fun c11 hbase11 hkept11 => hQ _ _
    (.reactivated host subject names.tenant (contextUser host userId) joined created) ?_ ?_ rfl fun w => ?_
  · rw [hbase11, hbase10, hbase9, hbase8, hbase7, hbase6, hbase5, hbase4, hbase3, hbase2, hbase1]
  · cases huser : contextUser host userId <;>
      simp [TenantMember.isMembership, TenantMember.isIdentity, TenantMember.reactivated]
  · rw [hkept11, hkept10, hkept9, hkept8, hkept7, hinserted, hkept5, hkept4, hkept3, hkept2, hkept1]
    rfl

/-- A transaction that is rolled back. -/
theorem follows_abandoned {e : Failure} {Q : TenantRead → Ctx (World B) RowKey → ReactivationNote → Prop} :
    (reactivationStory host subject userId).follows i (.step .plain .rollback (fun _ => .raise e) (.raise e)) Q
      (fun _ _ _ => True) c g := by
  have hidle : ∀ {S : ReactivationScene B} {H : Rights RowKey}, Reactivating host subject userId S →
      (reactivationStory host subject userId).Turns i S none S.shared H fun _ => True :=
    fun hinv => ⟨.idle, hinv.turn rfl (Or.inl rfl), trivial⟩
  exact ⟨trivial, fun S hinv _ _ => ⟨fun _ => hidle hinv, fun _ => hidle hinv⟩⟩

theorem follows_createPersonalAfterSuspension {payload : TenantCreate} {names : ProvisionNames}
    {base : Rights RowKey} :
    (reactivationStory host subject userId).follows i
      (createPersonalAfterSuspension host (contextUser host userId) subject payload userId names) Reactivated
      (fun _ _ _ => True) (.start base) (.drawn names.member) := by
  refine Story.follows_transaction (Story.follows_mono (Q := fun x c g => x.2 = .created ∧ g = .drawn names.member ∧
      ∃ row : TenantMember, row.isMembership host (contextUser host userId) subject = true ∧
        row.status = .active ∧ ∀ w, (c.pending w).members = w.members.insert names.member row)
    (E := fun _ _ _ => True) ?_ (fun x c g hx => ?_) fun e c g _ => follows_abandoned)
  · refine Story.follows_bind.2 (follows_aside (local_query _) (within_query _) fun ids c1 _ hkept1 => ?_)
    refine Story.follows_bind.2 (follows_aside (local_lockMemberships _) (within_lockMemberships _)
      fun found c2 _ hkept2 => ?_)
    refine Story.follows_bind.2 (follows_createPersonalFor fun read c3 row _ hrow hactive hinserted =>
      ⟨rfl, rfl, row, hrow, hactive, fun w => ?_⟩)
    rw [hinserted, hkept2, hkept1]
    rfl
  · obtain ⟨hpoint, rfl, row, hrow, hactive, hinserted⟩ := hx
    rw [hpoint]
    refine ⟨trivial, fun _ S hinv _ _ => ⟨.idle, Reactivating.turn hinv rfl (Or.inl rfl), follows_abandoned⟩,
      fun S hinv _ hi hcond => ?_⟩
    have hcreate := fun H => Reactivating.create (H := H) hinv hi (hinserted S.shared) hrow hactive hcond
    exact ⟨⟨.created, hcreate _, rfl⟩, ⟨.created, hcreate _, follows_abandoned⟩⟩

theorem reactivationStory_told :
    (reactivationStory host subject userId).Told Reactivated .idle (reactivationRuns host subject userId) where
  starts S i base code hinv hstart _ _ hfree := by
    obtain ⟨payload, names, -, hmember, heq⟩ := hstart
    obtain ⟨rfl, rfl⟩ := Label.start.inj heq
    have hnew : S.shared.members.get? names.member = none := by
      rw [Option.eq_none_iff_forall_ne_some]
      exact fun row hrow => hmember (Or.inr (Or.inr (Or.inl ⟨row, hrow⟩)))
    refine ⟨.drawn names.member, Reactivating.draw hinv hnew (by simp) fun j hj => ?_, ?_⟩
    · exact absurd (hfree _ .exclusive (by simp) j _ hj rfl) (by simp [LockMode.conflicts])
    · exact Story.follows_mono follows_createPersonalAfterSuspension (fun _ _ _ h => ⟨trivial, h⟩) fun _ _ _ h => h
  env S w hinv hw := by
    have hturn : { S with shared := w } = S.turn 0 none w (S.held 0) (S.note 0) := by simp [Scene.turn]
    rw [hturn]
    exact Reactivating.turn hinv hw (Or.inr ⟨rfl, fun m hm => (hinv.drawn 0 m hm).2⟩)
  crashes _ S i base _ hinv := ⟨.idle, Reactivating.turn hinv rfl (Or.inl rfl), trivial⟩

theorem reactivationStory_meets {x : ReactivationStep B} (h : stillSuspended host subject userId x = true) :
    (reactivationStory host subject userId).Meets .idle x where
  cond steps note i pt act _ _ hex := by
    cases pt with
    | created =>
        unfold stillSuspended at h
        rw [hex] at h
        exact List.isEmpty_iff.1 h
    | _ => trivial
  fails _ _ _ _ _ := trivial
  crashes _ _ := trivial

/-- **One workspace after suspension.** Where a workspace is committed only while the subject still has no active
    membership, one call succeeds at most, and the subject has at most one active membership. -/
theorem one_workspace {Y Z : ReactivationSystem B} {steps : List (ReactivationStep B)}
    (hrun : Run (reactivationRuns host subject userId) Y steps Z) (hidle : Y.sessions = [])
    (hsuspended : ∀ x ∈ Y.shared.memberships host (contextUser host userId) subject, x.2.status = .suspended)
    (hstill : ∀ x ∈ steps, stillSuspended host subject userId x = true) : OneWorkspace host subject userId Z := by
  have hnone : Y.shared.activeMemberships host subject userId = [] := by
    refine List.filter_eq_nil_iff.2 fun x hx => ?_
    simp [hsuspended x hx]
  obtain ⟨note, hkeeps, -⟩ := Story.keeps_of_run reactivationStory_told hrun hidle
    ⟨by simp, by simp, by simp, by simp, by simp [hnone], by simp⟩
    fun x hx => reactivationStory_meets (hstill x hx)
  have hinv : Reactivating host subject userId (Z.scene _ steps note) := hkeeps.inv
  have htold : ∀ i a, Z.returned i = some a → (i, ()) ∈ toldIn (reactivationStory host subject userId).tell steps := by
    intro i a ha
    unfold System.returned at ha
    split at ha
    · next c r hi =>
      exact hinv.created i (hkeeps.follows i _ hi).2
    · exact absurd ha (by simp)
  refine ⟨fun i j a b ha hb => ?_, hinv.active.trans hinv.once⟩
  have hi := htold i a ha
  have hj := htold j b hb
  have honce : (toldIn (reactivationStory host subject userId).tell steps).length ≤ 1 := hinv.once
  obtain ⟨x, hx⟩ := List.length_eq_one_iff.1 (Nat.le_antisymm honce (List.length_pos_of_mem hi))
  rw [hx, List.mem_singleton] at hi hj
  exact congrArg Prod.fst (hi.trans hj.symm)

end Runs

/-! ### Two calls -/

/-- A subject whose one membership is suspended. -/
def suspendedMember : ReactivationSystem SampleBytes where
  shared :=
    { World.empty SampleBytes with
      members := (∅ : Table UUID TenantMember).insert 2
        ⟨1, "a", none, .member, .suspended, some 0, 0, none⟩ }
  sessions := []

def startPersonal (tenant : UUID) : ReactivationLabel SampleBytes :=
  startReactivation sampleHost "a" none ⟨"A", some "BR"⟩ ⟨tenant, tenant + 1, "slug"⟩

/-- The names of a label that begins a call are new. -/
def namesUnused (x : ReactivationStep SampleBytes) : Bool :=
  match x.2 with
  | .start base _ => base.all fun y => match y.1 with
      | .name id => !decide (x.1.shared.Mentions id)
      | _ => true
  | _ => true

theorem replay_reactivations {labels : List (ReactivationLabel SampleBytes)}
    {Y Z : ReactivationSystem SampleBytes} {steps : List (ReactivationStep SampleBytes)}
    (hlabels : ∀ l ∈ labels, (∃ tenant, l = startPersonal tenant) ∨ ∃ i, l = .run i)
    (hnew : steps.all namesUnused = true) (h : Y.replay labels = some (steps, Z)) :
    Run (reactivationRuns sampleHost "a" none) Y steps Z := by
  refine System.replay_steps_run h fun x hx => ?_
  have hl : x.2 ∈ labels := System.replay_labels h ▸ List.mem_map_of_mem hx
  have hx := List.all_eq_true.1 hnew x hx
  obtain ⟨X, l⟩ := x
  obtain ⟨tenant, rfl⟩ | ⟨i, rfl⟩ := hlabels l hl
  · simp only [namesUnused, startPersonal, startReactivation, List.all_cons, List.all_nil, Bool.and_true,
      Bool.and_eq_true, Bool.not_eq_true', decide_eq_false_iff_not] at hx
    exact ⟨⟨"A", some "BR"⟩, ⟨tenant, tenant + 1, "slug"⟩, hx.1, hx.2, rfl⟩
  · trivial

theorem personal_runs {i n : Nat} : ∀ l ∈ (Label.runs i n : List (ReactivationLabel SampleBytes)),
    (∃ tenant, l = startPersonal tenant) ∨ ∃ i, l = .run i :=
  fun _ hl => Or.inr ⟨i, List.eq_of_mem_replicate hl⟩

/-- The second call finds the workspace of the first. -/
theorem one_workspace_twice :
    ∃ steps Z, Run (reactivationRuns sampleHost "a" none) suspendedMember steps Z ∧
      (Z.returned 0).isSome = true ∧ Z.hasRaised 1 = true ∧ OneWorkspace sampleHost "a" none Z := by
  obtain ⟨steps, Z, hreplay, hp⟩ := System.exists_replay (Y := suspendedMember)
    (startPersonal 10 :: (Label.runs 0 14 ++ startPersonal 20 :: Label.runs 1 4))
    (p := fun steps Z => (steps.all namesUnused && steps.all (stillSuspended sampleHost "a" none)) &&
      ((Z.returned 0).isSome && Z.hasRaised 1)) (by decide +kernel)
  simp only [Bool.and_eq_true] at hp
  have hrun := replay_reactivations (List.forall_mem_cons.2 ⟨Or.inl ⟨10, rfl⟩, List.forall_mem_append.2
    ⟨personal_runs, List.forall_mem_cons.2 ⟨Or.inl ⟨20, rfl⟩, personal_runs⟩⟩⟩) hp.1.1 hreplay
  exact ⟨steps, Z, hrun, hp.2.1, hp.2.2,
    one_workspace hrun rfl (by decide +kernel) (List.all_eq_true.1 hp.1.2)⟩

/-- The second call waits for the row that it has found and does not see the one that the first has inserted. -/
theorem not_one_workspace :
    ¬∀ (host : Host SampleBytes String) (subject : String) (userId : Option String)
        (Y Z : ReactivationSystem SampleBytes) (steps : List (ReactivationStep SampleBytes)),
      Run (reactivationRuns host subject userId) Y steps Z → Y.sessions = [] →
        (∀ x ∈ Y.shared.memberships host (contextUser host userId) subject, x.2.status = .suspended) →
          OneWorkspace host subject userId Z := by
  intro h
  obtain ⟨steps, Z, hreplay, hp⟩ := System.exists_replay (Y := suspendedMember)
    (startPersonal 10 :: startPersonal 20 :: (Label.runs 1 1 ++ (Label.runs 0 14 ++ Label.runs 1 13)))
    (p := fun steps Z => steps.all namesUnused &&
      decide ((Z.shared.activeMemberships sampleHost "a" none).length = 2)) (by decide +kernel)
  simp only [Bool.and_eq_true, decide_eq_true_eq] at hp
  have hrun := replay_reactivations (List.forall_mem_cons.2 ⟨Or.inl ⟨10, rfl⟩, List.forall_mem_cons.2
    ⟨Or.inl ⟨20, rfl⟩, List.forall_mem_append.2 ⟨personal_runs,
      List.forall_mem_append.2 ⟨personal_runs, personal_runs⟩⟩⟩⟩) hp.1 hreplay
  have hactive := (h sampleHost "a" none suspendedMember Z steps hrun rfl (by decide +kernel)).active
  omega

end Rubrica
