import Rubrica.Teams.Reconciliation
import Rubrica.Transactions.Atomic

set_option autoImplicit false

/-! # Administrators and seats

What team operations and webhooks keep together, in any interleaving: the seats of the plan
(`seats_respected`), and, where whoever suspends members finds the administrator it keeps still active,
an administrator of every tenant (`administrator_kept`). -/

namespace Rubrica

open Transactions

variable {B Page : Type}

/-! ## Calls -/

/-- What clients and the payment provider call, with the identifiers a call draws. -/
inductive TeamCall (B : Type) where
  | addMember (users : UserClient) (caller : Caller) (id tenant : UUID) (payload : MemberCreate)
      (subject : String)
  | inviteMember (users : UserClient) (caller : Caller) (id tenant : UUID) (payload : MemberInvitation)
      (subject : String)
  | team (caller : Caller) (tenant : UUID) (subject : String)
  | updateTeam (caller : Caller) (tenant : UUID) (active : List UUID) (subject : String)
  | updateMemberRole (caller : Caller) (tenant id : UUID) (role : {role : MemberRole // role ≠ .admin})
      (subject : String)
  | webhook (provider : BillingProvider B) (payload : B) (signature : String)

inductive TeamAnswer where
  | created
  | team (read : TeamRead)
  | webhook (read : WebhookRead)
  deriving DecidableEq, Repr

def TeamCall.isWebhook : TeamCall B → Bool
  | webhook _ _ _ => true
  | _ => false

section Calls

variable (host : Host B Page) (cfg : BillingSettings)

def TeamCall.run : TeamCall B → Tx B TeamPoint TeamAnswer
  | addMember users caller id tenant payload subject =>
      Rubrica.addMember host users caller id tenant payload subject >>= fun _ => pure .created
  | inviteMember users caller id tenant payload subject =>
      Rubrica.inviteMember host users caller id tenant payload subject >>= fun _ => pure .created
  | team caller tenant subject =>
      Rubrica.team host caller tenant subject >>= fun r => pure (.team r)
  | updateTeam caller tenant active subject =>
      Rubrica.updateTeam host caller tenant active subject >>= fun r => pure (.team r)
  | updateMemberRole caller tenant id role subject =>
      Rubrica.updateMemberRole host caller tenant id role subject >>= fun r => pure (.team r)
  | webhook provider payload signature =>
      (receiveWebhook host cfg provider payload signature).mapPoint .billing >>= fun r =>
        pure (.webhook r)

/-- Any number of calls. The clock moves on; nobody else writes members or accounts. -/
def teamWork : Setting (World B) RowKey TeamPoint Failure TeamAnswer where
  starts base code _ := base = [] ∧ ∃ call : TeamCall B, code = call.run host cfg
  env w w' := w.clock ≤ w'.clock ∧ ∀ tenant, Untouched tenant w w'
  lossy := True

/-- Every call keeps the protocol. -/
theorem wp_teamCall {keeps : UUID → Prop} (call : TeamCall B) (w : World B) :
    (teamProtocol B keeps).wp (call.run host cfg) (fun _ _ _ => True) (fun _ _ _ => True) idle w := by
  have answer : ∀ {α : Type} {x : Tx B TeamPoint α} (g : α → TeamAnswer),
      (teamProtocol B keeps).wp x (fun _ _ _ => True) (fun _ _ _ => True) idle w →
      (teamProtocol B keeps).wp (x >>= fun r => pure (g r)) (fun _ _ _ => True) (fun _ _ _ => True) idle w :=
    fun g hx => Protocol.wp_seq (Protocol.wp_mono hx (fun _ h => h) (fun _ _ _ _ _ => trivial)
      fun _ _ _ _ _ => trivial)
  cases call with
  | addMember users caller id tenant payload subject =>
      exact answer _ (wp_addMember host users caller id payload subject)
  | inviteMember users caller id tenant payload subject =>
      exact answer _ (wp_inviteMember host users caller id payload subject)
  | team caller tenant subject => exact answer _ (wp_team host caller subject)
  | updateTeam caller tenant active subject => exact answer _ (wp_updateTeam host caller active subject)
  | updateMemberRole caller tenant id role subject =>
      exact answer _ (wp_updateMemberRole host caller id role subject)
  | webhook provider payload signature =>
      refine answer _ ?_
      unfold receiveWebhook
      cases verifiedEvent provider payload signature with
      | error exc => trivial
      | ok event => exact wp_deliverEvent_team host cfg w

theorem teamWork_governed (keeps : UUID → Prop) :
    (teamProtocol B keeps).Governs (fun _ _ _ => True) (fun _ _ _ => True) (teamWork host cfg) where
  lasting := Protocol.lasting_true
  lasting_raise := Protocol.lasting_true
  starts := by
    rintro base code w - ⟨rfl, call, rfl⟩
    exact wp_teamCall host cfg call w
  env _ _ _ h := ⟨h, trivial⟩
  lossy _ := trivial
  fault _ _ _ := trivial

end Calls

/-! ## Administrators -/

/-- A step of a run of team calls, with the system it is taken in. -/
abbrev TeamSystem (B : Type) : Type :=
  System (World B) RowKey TeamPoint Failure TeamAnswer

abbrev TeamLabel (B : Type) : Type :=
  Label (World B) RowKey TeamPoint Failure TeamAnswer

abbrev TeamStep (B : Type) : Type :=
  TeamSystem B × TeamLabel B

/-- Who suspends members of the tenant in this step finds the administrator that it keeps still active: the
    caller of `update_team`, or the administrator that `team` has chosen. -/
def keepsActive (tenant : UUID) (x : TeamStep B) : Bool :=
  match x.1.executes x.2 with
  | some (.updated t actor _ _, _) => t ≠ tenant || x.1.shared.isAdministrator t actor
  | some (.reconciled t (some kept), _) => t ≠ tenant || x.1.shared.isAdministrator t kept
  | _ => true

section Runs

variable {host : Host B Page} {cfg : BillingSettings} {tenant : UUID} {Y Z : TeamSystem B}
  {steps : List (TeamStep B)}

theorem meets_of_keepsActive (h : ∀ x ∈ steps, keepsActive tenant x = true) :
    ∀ x ∈ steps, (teamProtocol B fun t => t = tenant).Meets x.1 x.2 := by
  intro x hx point act hex
  have h := h x hx
  unfold keepsActive at h
  rw [hex] at h
  cases point with
  | updated t actor since limit =>
      intro ht
      simpa [show t = tenant from ht] using h
  | reconciled t kept =>
      cases kept with
      | none => trivial
      | some kept =>
          intro ht
          simpa [show t = tenant from ht] using h
  | _ => trivial

theorem hasAdministrator_congr {w w' : World B} (h : ∀ id, w'.teamRow tenant id = w.teamRow tenant id)
    (hw : w.hasAdministrator tenant = true) : w'.hasAdministrator tenant = true := by
  obtain ⟨k, hk⟩ := hasAdministrator_iff.1 hw
  obtain ⟨mk, hmk, ha⟩ := world_isAdministrator_iff.1 hk
  exact hasAdministrator_iff.2 ⟨k, world_isAdministrator_iff.2 ⟨mk, (h k).trans hmk, ha⟩⟩

/-- One step: what a commit promises leaves an administrator, where it finds the one it keeps. -/
theorem guar_hasAdministrator (keeps : UUID → Prop) {point : TeamPoint} {H : Rights RowKey} {w w' : World B}
    (hkeeps : keeps tenant) (hcond : (teamProtocol B keeps).cond point w)
    (hg : teamGuarantee keeps point H tenant w w') (hw : w.hasAdministrator tenant = true) :
    w'.hasAdministrator tenant = true := by
  -- Where the commit is one of another tenant, nothing of this one changes.
  have elsewhere : Untouched tenant w w' → w'.hasAdministrator tenant = true :=
    fun h => hasAdministrator_congr h.rows hw
  cases point with
  | plain => exact elsewhere hg
  | added t since limit =>
      simp only [teamGuarantee] at hg
      split at hg
      · exact hg.1.administrator hkeeps hw
      · exact elsewhere hg
  | roleUpdated t =>
      simp only [teamGuarantee] at hg
      split at hg
      · exact hg.administrator hkeeps hw
      · exact elsewhere hg
  | updated t actor since limit =>
      simp only [teamGuarantee] at hg
      split at hg
      · next ht =>
          subst ht
          obtain ⟨m, hm, ha⟩ := world_isAdministrator_iff.1 (hcond hkeeps)
          exact hasAdministrator_iff.2
            ⟨actor, world_isAdministrator_iff.2 ⟨m, hg.2.2.1.trans hm, ha⟩⟩
      · exact elsewhere hg
  | reconciled t kept =>
      simp only [teamGuarantee] at hg
      split at hg
      · next ht =>
          subst ht
          cases kept with
          | none =>
              refine hasAdministrator_congr (fun id => ?_) hw
              rcases hg.rows id with h | ⟨m, k, mk, -, -, hsome, -⟩
              · exact h
              · exact absurd hsome (by simp)
          | some kept =>
              obtain ⟨m, hm, ha⟩ := world_isAdministrator_iff.1 (hcond hkeeps)
              refine hasAdministrator_iff.2 ⟨kept, world_isAdministrator_iff.2 ⟨m, ?_, ha⟩⟩
              rcases hg.rows kept with h | ⟨m', k, mk, -, -, hsome, hne, -⟩
              · exact h.trans hm
              · exact absurd (Option.some.inj hsome) hne
      · exact elsewhere hg
  | billing point =>
      cases point with
      | settled e target =>
          cases target with
          | none => exact elsewhere hg
          | some t =>
              simp only [teamGuarantee] at hg
              split at hg
              · exact hg.administrator hkeeps hw
              · exact elsewhere hg
      | _ => exact elsewhere hg

/-- **An administrator is kept.** In every state that team calls and webhooks reach, as long as whoever
    suspends members of the tenant finds the administrator it keeps still active when it commits. -/
theorem administrator_kept (hrun : Run (teamWork host cfg) Y steps Z) (hidle : Y.sessions = [])
    (hkept : ∀ x ∈ steps, keepsActive tenant x = true) (hadmin : Y.shared.hasAdministrator tenant = true) :
    Z.shared.hasAdministrator tenant = true := by
  refine (teamWork_governed host cfg fun t => t = tenant).induct (Protocol.good_of_idle _ trivial hidle) hrun
    (meets_of_keepsActive hkept) (motive := fun _ w => w.hasAdministrator tenant = true) hadmin ?_
  intro past X l w' hX _ _ hmeets hmove
  unfold Protocol.Moves at hmove
  split at hmove
  · next point hpub =>
      obtain ⟨H, -, hg⟩ := hmove
      exact guar_hasAdministrator (fun t => t = tenant) rfl (hmeets.publishes hpub) (hg tenant) hX
  · rcases hmove with h | ⟨-, h⟩
    · rw [h]
      exact hX
    · exact hasAdministrator_congr (h tenant).rows hX

/-- An administrator of tenant 1. -/
def sampleAdministrator (subject : String) (joinedAt : Int) : TenantMember where
  tenantId := 1
  authUserId := subject
  authUserUuid := none
  role := .admin
  status := .active
  joinedAt := some joinedAt
  createdAt := 0
  deletedAt := none

/-- Tenant 1 with two administrators and a plan of one seat, and nobody at work. -/
def twoAdministrators : TeamSystem SampleBytes where
  shared :=
    { oneTenant.shared with
      members := ((∅ : Table UUID TenantMember).insert 1 (sampleAdministrator "a" 1)).insert 2
        (sampleAdministrator "b" 2) }
  sessions := []

def startCall (call : TeamCall SampleBytes) : TeamLabel SampleBytes :=
  .start [] (call.run sampleHost .default)

theorem allows_startCall (call : TeamCall SampleBytes) (Y : TeamSystem SampleBytes) :
    (teamWork sampleHost .default).Allows Y (startCall call) :=
  ⟨rfl, call, rfl⟩

/-- `team` suspends the second administrator. -/
theorem administrator_kept_team :
    ∃ steps Z, Run (teamWork sampleHost .default) twoAdministrators steps Z ∧
      (Z.shared.members.select fun _ m => m.isActive 1).map Prod.fst = [1] ∧
      Z.shared.hasAdministrator 1 = true := by
  let labels : List (TeamLabel SampleBytes) := startCall (.team none 1 "a") :: Label.runs 0 11
  obtain ⟨steps, Z, hreplay, hp⟩ := System.exists_replay (Y := twoAdministrators) labels
    (p := fun steps Z => steps.all (keepsActive 1) &&
      (Z.shared.members.select fun _ m => m.isActive 1).map Prod.fst = [1]) (by decide)
  obtain ⟨hkept, hactive⟩ := Bool.and_eq_true_iff.1 hp
  have hallow : ∀ l ∈ labels, ∀ Y, (teamWork sampleHost .default).Allows Y l :=
    List.forall_mem_cons.2 ⟨allows_startCall _, Setting.allows_runs⟩
  have hrun := System.replay_run hallow hreplay
  exact ⟨steps, Z, hrun, of_decide_eq_true hactive,
    administrator_kept hrun rfl (List.all_eq_true.1 hkept) (by decide)⟩

/-- The second administrator keeps itself and is about to commit; `team` suspends it, and the commit
    suspends the first one. -/
def teamDuringUpdate : List (TeamLabel SampleBytes) :=
  startCall (.updateTeam none 1 [2] "b") ::
    (Label.runs 0 9 ++ startCall (.team none 1 "a") :: (Label.runs 1 11 ++ Label.runs 0 3))

/-- Without the condition a tenant can lose its administrators. -/
theorem not_administrator_kept :
    ¬∀ (steps : List (TeamStep SampleBytes)) (Z : TeamSystem SampleBytes),
      Run (teamWork sampleHost .default) twoAdministrators steps Z →
        ∀ tenant, twoAdministrators.shared.hasAdministrator tenant = true →
          Z.shared.hasAdministrator tenant = true := by
  intro h
  obtain ⟨steps, Z, hreplay, hp⟩ := System.exists_replay (Y := twoAdministrators) teamDuringUpdate
    (p := fun _ Z => !Z.shared.hasAdministrator 1) (by decide)
  have hallow : ∀ l ∈ teamDuringUpdate, ∀ Y, (teamWork sampleHost .default).Allows Y l :=
    List.forall_mem_cons.2 ⟨allows_startCall _, List.forall_mem_append.2 ⟨Setting.allows_runs,
      List.forall_mem_cons.2 ⟨allows_startCall _, List.forall_mem_append.2
        ⟨Setting.allows_runs, Setting.allows_runs⟩⟩⟩⟩
  have hkept := h steps Z (System.replay_run hallow hreplay) 1 (by decide)
  simp [hkept] at hp

end Runs

/-! ## Calls that are rejected -/

section Atomic

variable (host : Host B Page)

theorem local_lockTeam {W : (World B → World B) → Prop} (tenant : UUID) :
    (lockTeam tenant : Tx B TeamPoint _).Local W :=
  Code.local_bind (local_queryForUpdate _ _) fun _ => Code.local_bind (Code.local_orRaise _ _) fun _ =>
    Code.local_pure _

theorem local_requireSeats {W : (World B → World B) → Prop} (limit : Option Nat) (members : Nat) :
    (requireSeats limit members : Tx B TeamPoint _).Local W := by
  cases limit with
  | none => exact Code.local_pure _
  | some n => exact Code.local_require _ _

theorem local_admission {W : (World B → World B) → Prop} (caller : Caller) (tenant : UUID)
    (subject : String) : (admission host caller tenant subject : Tx B TeamPoint _).Local W :=
  Code.local_bind (local_lockTeam _) fun _ => Code.local_bind (local_requireRole host _ _ _ _ _) fun _ =>
    Code.local_bind (local_liveTenant _) fun _ => Code.local_bind (local_businessFeaturesEnabled _ _) fun _ =>
      Code.local_bind (Code.local_require _ _) fun _ => Code.local_bind (local_memberLimit _ _) fun _ =>
        Code.local_bind (local_query _) fun _ => Code.local_bind (local_requireSeats _ _) fun _ =>
          Code.local_pure _

theorem local_flushMember {W : (World B → World B) → Prop} {id : UUID} {m : TenantMember}
    (hW : W (World.insertMember id m)) : (flushMember id m : Tx B TeamPoint _).Local W :=
  Code.local_bind (local_claim _ _) fun _ => Code.local_bind (local_claimChanged _ _ _ _) fun _ =>
    Code.local_bind (local_referTo _ _) fun _ => local_save hW

/-- Calls of clients are single transactions. -/
theorem TeamCall.atomic (cfg : BillingSettings) {call : TeamCall B} (h : call.isWebhook = false) :
    (call.run host cfg).Atomic fun exc => exc ≠ Faulty.fault := by
  have answer : ∀ {α : Type} {body : Tx B TeamPoint (α × TeamPoint)} (g : α → TeamAnswer),
      body.Local (fun _ => True) →
      (Code.transaction .plain body >>= fun r => pure (g r)).Atomic fun exc => exc ≠ Faulty.fault :=
    fun g hbody => (hbody.atomic fun h => h rfl).map g
  cases call with
  | webhook provider payload signature => exact absurd h (by simp [isWebhook])
  | addMember users caller id tenant payload subject =>
      exact answer _ (Code.local_bind local_clock fun _ =>
        Code.local_bind (local_admission host _ _ _) fun _ =>
        Code.local_bind (local_orRaiseFrom _) fun _ => Code.local_bind local_clock fun _ =>
        Code.local_bind (Code.local_tryCatch (local_flushMember trivial) fun _ => ⟨_, rfl⟩) fun _ =>
        Code.local_bind (local_audit (fun _ => trivial) _ _ _ _ _ _) fun _ => Code.local_pure _)
  | inviteMember users caller id tenant payload subject =>
      exact answer _ (Code.local_bind local_clock fun _ =>
        Code.local_bind (local_admission host _ _ _) fun _ => Code.local_bind (local_query _) fun _ =>
        Code.local_bind (Code.local_require _ _) fun _ =>
        Code.local_bind (local_orRaiseFrom _) fun _ => Code.local_bind local_clock fun _ =>
        Code.local_bind (local_audit (fun _ => trivial) _ _ _ _ _ _) fun _ =>
        Code.local_bind (local_flushMember trivial) fun _ => Code.local_pure _)
  | team caller tenant subject =>
      exact answer _ (Code.local_bind (local_requireRole host _ _ _ _ _) fun _ =>
        Code.local_bind (local_reconcileKeeping host (fun _ => trivial) (fun _ => trivial) _ _) fun _ =>
        Code.local_bind (local_teamRead _ _ _) fun _ => Code.local_pure _)
  | updateTeam caller tenant active subject =>
      exact answer _ (Code.local_bind (local_lockTeam _) fun _ =>
        Code.local_bind (local_requireRole host _ _ _ _ _) fun _ => Code.local_bind (local_query _) fun _ =>
        Code.local_bind (Code.local_require _ _) fun _ => Code.local_bind (Code.local_require _ _) fun _ =>
        Code.local_bind (local_memberLimit _ _) fun _ => Code.local_bind (local_requireSeats _ _) fun _ =>
        Code.local_bind (Code.local_onlyIf _ fun _ => Code.local_bind (local_save trivial) fun _ =>
          local_audit (fun _ => trivial) _ _ _ _ _ _) fun _ =>
        Code.local_bind (local_teamRead _ _ _) fun _ => Code.local_pure _)
  | updateMemberRole caller tenant id role subject =>
      exact answer _ (Code.local_bind (local_lockTeam _) fun _ =>
        Code.local_bind (local_requireRole host _ _ _ _ _) fun _ =>
        Code.local_bind (local_queryForUpdate _ _) fun _ => Code.local_bind (Code.local_orRaise _ _) fun _ =>
        Code.local_bind (Code.local_require _ _) fun _ =>
        Code.local_bind (Code.local_onlyIf _ fun _ => Code.local_bind (local_save trivial) fun _ =>
          local_audit (fun _ => trivial) _ _ _ _ _ _) fun _ =>
        Code.local_bind (local_teamRead _ _ _) fun _ => Code.local_pure _)

end Atomic

/-! ## Seats -/

/-- The seats of a tenant's plan at this clock. -/
def World.seatLimit (tenant : UUID) (w : World B) : Option Nat :=
  match w.liveAccount tenant with
  | none => some 1
  | some a => a.memberLimit w.clock

theorem memberLimit_alone (tenant : UUID) (u : World B → World B) (w : World B) :
    (memberLimit tenant none : Tx B TeamPoint _).alone u w = ⟨.ok ((u w).seatLimit tenant), u, w⟩ := by
  unfold memberLimit World.seatLimit
  rw [query, Code.alone_select_bind, utcNow, query, Code.alone_select_bind]
  cases (u w).liveAccount tenant <;> rfl

/-- A tenant with more active members than seats is closed to all of them. -/
theorem requireRole_overLimit (host : Host B Page) {caller : Caller} {tenant : UUID} {subject : String}
    {roles : Option (List MemberRole)} {u : World B → World B} {w : World B} {n : Nat}
    (hlimit : (u w).seatLimit tenant = some n) (hcount : n < (u w).activeCount tenant) :
    ∃ exc, ((requireRole host caller tenant subject roles false : Tx B TeamPoint _).alone u w).result =
      .error exc := by
  have exceeds : (teamOverLimit tenant : Tx B TeamPoint Bool).alone u w = ⟨.ok true, u, w⟩ := by
    unfold teamOverLimit
    rw [query, Code.alone_select_bind, Code.alone_bind_ok (memberLimit_alone tenant u w), hlimit]
    show Ended.mk (.ok (decide (n < (u w).activeCount tenant))) u w = _
    rw [decide_eq_true hcount]
  unfold requireRole
  rw [query, Code.alone_select_bind]
  cases (u w).activeMember host caller subject tenant with
  | none => exact ⟨_, rfl⟩
  | some member =>
      show ∃ exc, ((Code.require _ _ >>= _ : Tx B TeamPoint _).alone u w).result = .error exc
      by_cases hroles : ∀ rs ∈ roles, member.2.role ∈ rs
      · rw [Code.alone_require_bind hroles, if_neg Bool.false_ne_true, Code.alone_bind_ok exceeds,
          Code.alone_require_bind_not (by simp)]
        exact ⟨_, rfl⟩
      · rw [Code.alone_require_bind_not hroles]
        exact ⟨_, rfl⟩

/-- The step commits a new member, or a selection of members, of the tenant; under a lock taken at
    `since`, for a limit. -/
def seatsAt (x : TeamStep B) : Option (UUID × Int × Option Nat) :=
  match x.1.publishes x.2 with
  | some (.added tenant since limit) => some (tenant, since, limit)
  | some (.updated tenant _ since limit) => some (tenant, since, limit)
  | _ => none

section Runs

variable {host : Host B Page} {cfg : BillingSettings} {Y Z : TeamSystem B} {steps : List (TeamStep B)}

theorem moves_seated {keeps : UUID → Prop} {X : TeamSystem B} {l : TeamLabel B} {w' : World B}
    (hmove : (teamProtocol B keeps).Moves X l w') {tenant : UUID} {since : Int} {limit : Option Nat}
    (h : seatsAt (X, l) = some (tenant, since, limit)) : Seated tenant since limit X.shared w' := by
  unfold Protocol.Moves at hmove
  unfold seatsAt at h
  split at h
  · next t s n hpub =>
      obtain ⟨rfl, rfl, rfl⟩ : t = tenant ∧ s = since ∧ n = limit := by simpa using h
      rw [hpub] at hmove
      obtain ⟨H, -, hg⟩ := hmove
      have hg := hg t
      rw [teamGuarantee, if_pos rfl] at hg
      exact hg.2
  · next t actor s n hpub =>
      obtain ⟨rfl, rfl, rfl⟩ : t = tenant ∧ s = since ∧ n = limit := by simpa using h
      rw [hpub] at hmove
      obtain ⟨H, -, hg⟩ := hmove
      have hg := hg t
      rw [teamGuarantee, if_pos rfl] at hg
      exact hg.2.2.2
  · exact absurd h (by simp)

/-- **Seats.** In any interleaving of team calls and webhooks: a new member or a selection is committed
    only with as many active members as the account, as it stands, has seats for at a clock since it was
    locked; a call of a client that is rejected has changed nothing; and a tenant with more active members
    than seats is closed to all of them. -/
theorem seats_respected (hrun : Run (teamWork host cfg) Y steps Z) (hidle : Y.sessions = []) :
    (∀ x ∈ steps, ∀ X', x.1.step x.2 = some X' → ∀ tenant since limit,
      seatsAt x = some (tenant, since, limit) → Seated tenant since limit x.1.shared X'.shared) ∧
    (∀ i c exc, Z.sessions[i]? = some ⟨c, .raise exc⟩ → exc ≠ Faulty.fault →
      (∀ x ∈ steps, ∀ base code, x.2 = .start base code → x.1.sessions.length = i →
        ∃ call : TeamCall B, call.isWebhook = false ∧ code = call.run host cfg) →
      ∀ x ∈ steps, x.2.session = some i → ∀ X', x.1.step x.2 = some X' → X'.shared = x.1.shared) ∧
    ∀ (w : World B) (u : World B → World B) tenant n, (u w).seatLimit tenant = some n →
      n < (u w).activeCount tenant → ∀ caller subject roles,
        ∃ exc, ((requireRole host caller tenant subject roles false : Tx B TeamPoint _).alone u w).result =
          .error exc := by
  refine ⟨fun x hx X' hstep tenant since limit h => ?_, fun i c exc hraised hexc hstart => ?_,
    fun w u tenant n hlimit hcount caller subject roles => requireRole_overLimit host hlimit hcount⟩
  · have hmeets : ∀ x ∈ steps, (teamProtocol B fun _ => False).Meets x.1 x.2 := by
      intro x _ point act _
      cases point with
      | updated t actor since limit => exact fun h => h.elim
      | reconciled t kept => cases kept <;> first | trivial | exact fun h => h.elim
      | _ => trivial
    exact moves_seated ((teamWork_governed host cfg _).moves (Protocol.good_of_idle _ trivial hidle) hrun
      hmeets hx hstep) h
  · refine hrun.rejected (R := fun exc => exc ≠ Faulty.fault) (fun h => h rfl) hidle (fun x hx base code hcode hi => ?_) hraised hexc
    obtain ⟨call, hcall, rfl⟩ := hstart x hx base code hcode hi
    exact TeamCall.atomic host cfg hcall

/-- A selection of one member for the one seat, and one of two members. -/
def selections : List (TeamLabel SampleBytes) :=
  startCall (.updateTeam none 1 [1] "a") ::
    (Label.runs 0 12 ++ startCall (.updateTeam none 1 [1, 2] "a") :: Label.runs 1 6)

theorem seats_respected_selections :
    ∃ steps Z, Run (teamWork sampleHost .default) twoAdministrators steps Z ∧
      steps.filterMap seatsAt = [(1, 0, some 1)] ∧ Z.shared.activeCount 1 = 1 ∧
      (∀ x ∈ steps, ∀ X', x.1.step x.2 = some X' → ∀ tenant since limit,
        seatsAt x = some (tenant, since, limit) → Seated tenant since limit x.1.shared X'.shared) := by
  obtain ⟨steps, Z, hreplay, hp⟩ := System.exists_replay (Y := twoAdministrators) selections
    (p := fun steps Z => steps.filterMap seatsAt = [(1, 0, some 1)] && Z.shared.activeCount 1 = 1) (by decide)
  obtain ⟨hseats, hcount⟩ := Bool.and_eq_true_iff.1 hp
  have hallow : ∀ l ∈ selections, ∀ Y, (teamWork sampleHost .default).Allows Y l :=
    List.forall_mem_cons.2 ⟨allows_startCall _, List.forall_mem_append.2 ⟨Setting.allows_runs,
      List.forall_mem_cons.2 ⟨allows_startCall _, Setting.allows_runs⟩⟩⟩
  have hrun := System.replay_run hallow hreplay
  exact ⟨steps, Z, hrun, of_decide_eq_true hseats, of_decide_eq_true hcount,
    (seats_respected hrun rfl).1⟩

end Runs

end Rubrica
