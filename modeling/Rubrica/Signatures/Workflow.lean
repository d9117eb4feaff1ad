import Rubrica.Signatures.Answering
import Rubrica.Signatures.Calls
import Rubrica.Signatures.Deliveries
import Rubrica.Signatures.Managing

set_option autoImplicit false

/-! # Runs of the workflow

Any number of calls run at once, and each may fail or die between any two statements. Every call keeps the
protocol (`workflow_governed`), so what is said about a run is said about the moves it makes, one after the
other, and about the steps in between (`World.Rests`). -/

namespace Rubrica

open Transactions

variable {B Page α : Type}

/-! ## Calls -/

/-- A call that changes something. -/
inductive WorkflowCall (B : Type) where
  | manage (caller : Caller) (actor : String) (x : Management B)
  | view (token authUserId : String)
  | sign (caller : Caller) (call : SignCall) (names : SigningNames)
  | decline (token authUserId : String)
  | webhook (provider : BillingProvider B) (payload : B) (signature : String)

/-- The identifiers it draws for rows. -/
def Management.rows : Management B → List UUID
  | .createDocument _ _ id _ => [id]
  | .createRequest _ id => [id]
  | .addSigner _ _ id _ => [id]
  | _ => []

/-- The names it draws for objects. -/
def Management.objects : Management B → List UUID
  | .createDocument _ _ _ name => [name]
  | .addVersion _ _ name => [name]
  | _ => []

namespace WorkflowCall

def rows : WorkflowCall B → List UUID
  | .manage _ _ x => x.rows
  | .sign _ _ names => [names.signature]
  | _ => []

def objects : WorkflowCall B → List UUID
  | .manage _ _ x => x.objects
  | .sign _ _ names => [names.object]
  | _ => []

/-- What it draws is its own. -/
def rights (x : WorkflowCall B) : Rights RowKey :=
  (x.rows ++ x.objects).map fun id => (.name id, .exclusive)

/-- What it draws is new. -/
structure Fresh (x : WorkflowCall B) (w : World B) : Prop where
  rows : ∀ id ∈ x.rows, w.toArchive.Unused id
  objects : ∀ name ∈ x.objects, w.toArchive.Unreferenced name

section Host

variable (host : Host B Page) (cfg : Settings) (services : SigningServices B)

def run : WorkflowCall B → Workflow B Unit
  | .manage caller actor x => x.run host cfg services caller actor
  | .view token authUserId => forget (viewDocument host token authUserId)
  | .sign caller call names => forget (Rubrica.sign host cfg services caller call names)
  | .decline token authUserId => forget (Rubrica.decline host token authUserId)
  | .webhook provider payload signature =>
      forget ((receiveWebhook host cfg.billing provider payload signature).mapPoint .billing)

end Host

end WorkflowCall

/-! ## Runs -/

abbrev WorkflowSystem (B : Type) : Type :=
  System (World B) RowKey (WorkflowPoint B) Failure Unit

abbrev WorkflowLabel (B : Type) : Type :=
  Label (World B) RowKey (WorkflowPoint B) Failure Unit

/-- A step of a run, with the system it is taken in. -/
abbrev WorkflowStep (B : Type) : Type :=
  WorkflowSystem B × WorkflowLabel B

/-- The move that a step commits. -/
def movedBy (x : WorkflowStep B) : Option (Move B) :=
  match x.1.publishes x.2 with
  | some (.made m) => some m
  | _ => none

/-- The moves of a run, in order. -/
def movesOf (steps : List (WorkflowStep B)) : List (Move B) :=
  steps.filterMap movedBy

section Host

variable (host : Host B Page) (cfg : Settings) (services : SigningServices B)

/-- Nobody but the workflow writes documents, requests, signers or signatures, and the clock moves on. -/
def workflowRuns (z : Circumstances B) : Setting (World B) RowKey (WorkflowPoint B) Failure Unit where
  starts base code w := ∃ x : WorkflowCall B, base = x.rights ∧ code = x.run host cfg services ∧ x.Fresh w
  env := (workflowProtocol host cfg services z).env
  lossy := z.lossy

end Host

/-! ## Every call keeps the protocol -/

section Calls

variable {host : Host B Page} {cfg : Settings} {services : SigningServices B} {z : Circumstances B}
  {base : Rights RowKey} {w : World B}

/-- A program that keeps the protocol from its start. -/
abbrev KeepsProtocol (host : Host B Page) (cfg : Settings) (services : SigningServices B) (z : Circumstances B)
    (base : Rights RowKey) (w : World B) (x : Workflow B α) : Prop :=
  (workflowProtocol host cfg services z).wp x (fun _ _ _ => True) (fun _ _ _ => True) (.start base) w

theorem keepsProtocol_forget {x : Workflow B α} (hb : KeepsProtocol host cfg services z base w x) :
    KeepsProtocol host cfg services z base w (forget x) :=
  Protocol.wp_seq (Protocol.wp_mono hb (fun _ h => h) (fun _ _ _ _ _ => trivial) fun _ _ _ _ _ => trivial)

theorem row_mem_rights {x : WorkflowCall B} {id : UUID} (h : id ∈ x.rows) :
    (RowKey.name id, LockMode.exclusive) ∈ x.rights :=
  List.mem_map_of_mem (List.mem_append_left _ h)

theorem object_mem_rights {x : WorkflowCall B} {name : UUID} (h : name ∈ x.objects) :
    (RowKey.name name, LockMode.exclusive) ∈ x.rights :=
  List.mem_map_of_mem (List.mem_append_right _ h)

theorem wp_management (caller : Caller) (actor : String) (x : Management B)
    (hw : (WorkflowCall.manage caller actor x).Fresh w) :
    KeepsProtocol host cfg services z (WorkflowCall.manage caller actor x).rights w
      (x.run host cfg services caller actor) := by
  cases x with
  | createDocument payload content id name =>
      exact keepsProtocol_forget (wp_createDocument _ content id name (row_mem_rights List.mem_cons_self)
        (object_mem_rights List.mem_cons_self) (hw.rows id List.mem_cons_self)
        (hw.objects name List.mem_cons_self))
  | addVersion identifier upload name =>
      exact keepsProtocol_forget (wp_addVersion identifier _ name (object_mem_rights List.mem_cons_self)
        (hw.objects name List.mem_cons_self))
  | deleteDocument identifier force => exact keepsProtocol_forget (wp_deleteDocument identifier actor force)
  | createRequest payload id =>
      exact keepsProtocol_forget (wp_createRequest _ id (row_mem_rights List.mem_cons_self)
        (hw.rows id List.mem_cons_self))
  | addSigner identifier payload id token =>
      exact keepsProtocol_forget (wp_addSigner identifier payload actor id token
        (row_mem_rights List.mem_cons_self) (hw.rows id List.mem_cons_self))
  | createSigningLink identifier nonce => exact keepsProtocol_forget (wp_createSigningLink identifier actor nonce)
  | revokeSignerLink identifier signer => exact keepsProtocol_forget (wp_revokeSignerLink identifier signer actor)
  | openRequest identifier mode => exact keepsProtocol_forget (wp_openRequest identifier actor mode)
  | cancelRequest identifier => exact keepsProtocol_forget (wp_cancelRequest identifier actor)

theorem wp_workflowCall (x : WorkflowCall B) (hw : x.Fresh w) :
    KeepsProtocol host cfg services z x.rights w (x.run host cfg services) := by
  cases x with
  | manage caller actor x => exact wp_management caller actor x hw
  | view token authUserId => exact keepsProtocol_forget (wp_viewDocument token authUserId)
  | sign caller call names =>
      exact keepsProtocol_forget (wp_sign call names (row_mem_rights List.mem_cons_self)
        (object_mem_rights List.mem_cons_self) (hw.rows _ List.mem_cons_self) (hw.objects _ List.mem_cons_self))
  | decline token authUserId => exact keepsProtocol_forget (wp_decline token authUserId)
  | webhook provider payload signature =>
      refine keepsProtocol_forget ?_
      unfold receiveWebhook
      cases verifiedEvent provider payload signature with
      | error e => trivial
      | ok event => exact wp_deliverEvent_workflow provider event payload

variable (host cfg services z) in
theorem workflow_governed :
    (workflowProtocol host cfg services z).Governs (fun _ _ _ => True) (fun _ _ _ => True)
      (workflowRuns host cfg services z) where
  lasting := Protocol.lasting_true
  lasting_raise := Protocol.lasting_true
  starts := by
    rintro base code w - ⟨x, rfl, rfl, hfresh⟩
    exact wp_workflowCall x hfresh
  env _ _ _ h := ⟨h, trivial⟩
  lossy h := h
  fault _ _ _ := trivial

end Calls

/-! ## One step after the other -/

section Runs

variable {host : Host B Page} {cfg : Settings} {services : SigningServices B} {z : Circumstances B}
  {Y Z : WorkflowSystem B} {steps : List (WorkflowStep B)}

/-- A step that makes no move: an object that a signature refers to stays, and so do the free signatures. -/
structure World.Rests (z : Circumstances B) (w w' : World B) : Prop where
  archive : w'.toArchive = w.toArchive
  objects : z.reliable → ¬z.lossy → ∀ key b, w.objects key = some b → ¬w.toArchive.Unreferenced key.name →
    w'.objects key = some b
  quota : z.steady → ∀ tenant, w'.quota tenant = w.quota tenant

/-- A step that makes a move. -/
structure World.MovesTo (host : Host B Page) (cfg : Settings) (services : SigningServices B) (z : Circumstances B)
    (m : Move B) (w w' : World B) : Prop where
  cond : z.cond (.made m) w
  allowed : ∃ H, m.Allowed host cfg services z.reliable H w ∧ (z.steady → Accounting H m.signing w w')
  archive : w'.toArchive = m.apply w.toArchive
  objects : w'.objects = w.objects

theorem quota_of_accounts {w w' : World B} (h : w'.accounts = w.accounts) (tenant : UUID) :
    w'.quota tenant = w.quota tenant := by
  rw [World.quota, World.quota, World.accountOf, World.accountOf, h]

theorem objects_put_of_some {w : World B} {key k : StorageKey} {content : B} (h : w.objects k = some content)
    (b : B) : (w.put key b).objects k = some content := by
  by_cases hk : k = key
  · subst hk
    rw [World.put, h, Option.isSome_some, if_pos rfl, h]
  · rw [objects_put_of_ne hk, h]

theorem World.Rests.refl (w : World B) : w.Rests z w :=
  ⟨rfl, fun _ _ _ _ h _ => h, fun _ _ => rfl⟩

/-- Each step of a run makes the move it commits, or none. -/
theorem moved {x : WorkflowStep B} {w' : World B} (hmeets : (workflowProtocol host cfg services z).Meets x.1 x.2)
    (h : (workflowProtocol host cfg services z).Moves x.1 x.2 w') :
    (movedBy x = none ∧ x.1.shared.Rests z w') ∨
      ∃ m, movedBy x = some m ∧ x.1.shared.MovesTo host cfg services z m w' := by
  unfold movedBy
  cases hp : x.1.publishes x.2 with
  | none =>
      simp only [Protocol.Moves, hp] at h
      rcases h with rfl | ⟨harchive, -, hobjects, haccounts⟩
      · exact Or.inl ⟨rfl, .refl _⟩
      · refine Or.inl ⟨rfl, harchive, fun hr _ key b hb _ => ?_, fun hs => quota_of_accounts (haccounts hs)⟩
        rw [hobjects hr, hb]
  | some point =>
      simp only [Protocol.Moves, hp] at h
      obtain ⟨H, hg⟩ := h
      cases point with
      | plain =>
          refine Or.inl ⟨rfl, toArchive_of_estate hg, fun _ _ key b hb _ => ?_,
            fun _ => quota_of_accounts (accounts_of_estate hg)⟩
          rw [objects_of_estate hg, hb]
      | billing point =>
          obtain ⟨harchive, hobjects, -, haccounts⟩ := hg
          refine Or.inl ⟨rfl, harchive, fun _ _ key b hb _ => by rw [hobjects, hb], fun hs tenant => ?_⟩
          exact (haccounts hs).quota tenant fun _ hx => nomatch hx
      | putting key b =>
          obtain ⟨-, rfl⟩ := hg
          refine Or.inl ⟨rfl, toArchive_put key b, fun _ _ key' b' hb' _ => ?_,
            fun _ => quota_of_accounts (accounts_put key b)⟩
          exact objects_put_of_some hb' b
      | discarding key =>
          obtain ⟨-, hunreferenced, rfl⟩ := hg
          refine Or.inl ⟨rfl, rfl, fun _ hl key' b hb hreferenced => ?_, fun _ _ => rfl⟩
          have hne : key' ≠ key := by
            rintro rfl
            exact hreferenced (hunreferenced hl)
          rw [objects_discard_of_ne hne, hb]
      | made m =>
          obtain ⟨hallowed, harchive, hobjects, -, haccounts⟩ := hg
          exact Or.inr ⟨m, rfl, hmeets.publishes hp, ⟨H, hallowed, haccounts⟩, harchive, hobjects⟩

/-- Each step of a run, seen from outside. -/
theorem workflow_step (hrun : Run (workflowRuns host cfg services z) Y steps Z) (hstart : Y.sessions = [])
    (hmeets : ∀ x ∈ steps, (workflowProtocol host cfg services z).Meets x.1 x.2) {x : WorkflowStep B}
    (hx : x ∈ steps) {X' : WorkflowSystem B} (hstep : x.1.step x.2 = some X') :
    (movedBy x = none ∧ x.1.shared.Rests z X'.shared) ∨
      ∃ m, movedBy x = some m ∧ x.1.shared.MovesTo host cfg services z m X'.shared :=
  moved (hmeets x hx) ((workflow_governed host cfg services z).moves
    ((workflowProtocol host cfg services z).good_of_idle trivial hstart) hrun hmeets hx hstep)

/-- **Induction over the moves of a run.** -/
theorem workflow_induct (hrun : Run (workflowRuns host cfg services z) Y steps Z) (hstart : Y.sessions = [])
    (hmeets : ∀ x ∈ steps, (workflowProtocol host cfg services z).Meets x.1 x.2)
    {motive : List (Move B) → World B → Prop} (base : motive [] Y.shared)
    (rest : ∀ ms w w', motive ms w → w.Rests z w' → motive ms w')
    (move : ∀ ms w w' m, motive ms w → w.MovesTo host cfg services z m w' → motive (ms ++ [m]) w') :
    motive (movesOf steps) Z.shared := by
  refine (workflow_governed host cfg services z).induct (motive := fun past w => motive (movesOf past) w)
    ((workflowProtocol host cfg services z).good_of_idle trivial hstart) hrun hmeets base fun past X l w' ih _ _ hl hm => ?_
  rw [movesOf, List.filterMap_append]
  rcases moved (x := (X, l)) hl hm with ⟨hnone, hrests⟩ | ⟨m, hsome, hmoves⟩
  · rw [List.filterMap_cons_none hnone, List.filterMap_nil, List.append_nil]
    exact rest _ _ _ ih hrests
  · rw [List.filterMap_cons_some hsome, List.filterMap_nil]
    exact move _ _ _ _ ih hmoves

end Runs

/-! ## Scripts -/

section Scripts

variable (host : Host B Page) (cfg : Settings) (services : SigningServices B) {Y : WorkflowSystem B}

/-- What happens next in a run that is replayed: a call begins, or a session executes a statement. -/
abbrev Script (B : Type) : Type :=
  List (WorkflowCall B ⊕ Nat)

def labelOf : WorkflowCall B ⊕ Nat → WorkflowLabel B
  | .inl x => .start x.rights (x.run host cfg services)
  | .inr i => .run i

instance (id : UUID) (a : Archive) : Decidable (a.Unused id) :=
  decidable_of_iff (a.documents.get? id = none ∧ a.requests.get? id = none ∧ a.signers.get? id = none ∧
    a.signatures.get? id = none) ⟨fun ⟨h1, h2, h3, h4⟩ => ⟨h1, h2, h3, h4⟩, fun ⟨h1, h2, h3, h4⟩ => ⟨h1, h2, h3, h4⟩⟩

instance (name : UUID) (a : Archive) : Decidable (a.Unreferenced name) :=
  decidable_of_iff ((a.signatures.any fun _ x => x.artifactStorageKey.any fun key => key.name = name) = false) (by
    rw [← Bool.not_eq_true, Table.any_iff]
    constructor
    · intro h id x key hx hkey hname
      exact h ⟨id, x, hx, by simp [hkey, hname]⟩
    · rintro h ⟨id, x, hx, hany⟩
      obtain ⟨key, hkey, hname⟩ := (Option.any_eq_true _ _).1 hany
      exact h id x key hx hkey (of_decide_eq_true hname))

instance (x : WorkflowCall B) (w : World B) : Decidable (x.Fresh w) :=
  decidable_of_iff ((∀ id ∈ x.rows, w.toArchive.Unused id) ∧ ∀ name ∈ x.objects, w.toArchive.Unreferenced name)
    ⟨fun ⟨h1, h2⟩ => ⟨h1, h2⟩, fun ⟨h1, h2⟩ => ⟨h1, h2⟩⟩

/-- What the calls of a script draw is new where they begin. -/
def drawsFresh : Script B → List (WorkflowStep B) → Bool
  | .inl x :: script, y :: steps => decide (x.Fresh y.1.shared) && drawsFresh script steps
  | .inr _ :: script, _ :: steps => drawsFresh script steps
  | _, _ => true

theorem allows_script {z : Circumstances B} {script : Script B} {steps : List (WorkflowStep B)}
    {Z : WorkflowSystem B} (h : Y.replay (script.map (labelOf host cfg services)) = some (steps, Z))
    (hfresh : drawsFresh script steps = true) :
    ∀ x ∈ steps, (workflowRuns host cfg services z).Allows x.1 x.2 := by
  induction script generalizing Y steps with
  | nil =>
      obtain ⟨rfl, rfl⟩ := Prod.mk.inj (Option.some.inj h)
      simp
  | cons next script ih =>
      obtain ⟨Y', -, h⟩ := Option.bind_eq_some_iff.1 h
      obtain ⟨⟨steps', Z'⟩, hrest, h⟩ := Option.map_eq_some_iff.1 h
      obtain ⟨rfl, rfl⟩ := Prod.mk.inj h
      rw [List.forall_mem_cons]
      cases next with
      | inl x =>
          obtain ⟨hx, hscript⟩ := Bool.and_eq_true_iff.1 hfresh
          exact ⟨⟨x, rfl, rfl, of_decide_eq_true hx⟩, ih hrest hscript⟩
      | inr i => exact ⟨trivial, ih hrest hfresh⟩

/-- A script that replays is a run of its labels. -/
theorem exists_labelled (z : Circumstances B) (script : Script B)
    {p : List (WorkflowStep B) → WorkflowSystem B → Bool}
    (h : ((Y.replay (script.map (labelOf host cfg services))).any fun r =>
      drawsFresh script r.1 && p r.1 r.2) = true) :
    ∃ steps Z, Run (workflowRuns host cfg services z) Y steps Z ∧
      steps.map Prod.snd = script.map (labelOf host cfg services) ∧ p steps Z = true := by
  obtain ⟨steps, Z, hreplay, hp⟩ := System.exists_replay (Y := Y) _ (p := fun steps Z =>
    drawsFresh script steps && p steps Z) h
  obtain ⟨hfresh, hp⟩ := Bool.and_eq_true_iff.1 hp
  exact ⟨steps, Z, System.replay_steps_run hreplay (allows_script host cfg services hreplay hfresh),
    System.replay_labels hreplay, hp⟩

/-- A script that replays is a run. -/
theorem exists_script (z : Circumstances B) (script : Script B)
    {p : List (WorkflowStep B) → WorkflowSystem B → Bool}
    (h : ((Y.replay (script.map (labelOf host cfg services))).any fun r =>
      drawsFresh script r.1 && p r.1 r.2) = true) :
    ∃ steps Z, Run (workflowRuns host cfg services z) Y steps Z ∧ p steps Z = true := by
  obtain ⟨steps, Z, hrun, -, hp⟩ := exists_labelled host cfg services z script h
  exact ⟨steps, Z, hrun, hp⟩

end Scripts

/-- Calls one after the other, each with the number of its statements. -/
def serial (calls : List (WorkflowCall B × Nat)) : Script B :=
  (calls.zipIdx.map fun x => .inl x.1.1 :: List.replicate x.1.2 (.inr x.2)).flatten

/-! ## A request to compute with -/

/-- A workspace without documents. -/
def emptyWorkspace : WorkflowSystem SampleBytes :=
  ⟨{ sampleWorkspace (sampleRequest .open) (sampleSigner "signer@x" .pending) with
    documents := ∅,
    versions := ∅,
    requests := ∅,
    signers := ∅,
    objects := fun _ => none }, []⟩

def sampleToken : String :=
  requestToken sampleHost sampleSettings 20 "nonce"

def managed (x : Management SampleBytes) : WorkflowCall SampleBytes :=
  .manage none "author@x" x

/-- A document, a request for it with one signer, and its link. -/
def leaseOpened : List (WorkflowCall SampleBytes × Nat) :=
  [(managed (.createDocument ⟨"workspace", "Lease", "lease.pdf", "application/pdf", "author@x"⟩ samplePdf 10 11), 18),
    (managed (.createRequest ⟨10, 100, "author@x"⟩ 20), 14),
    (managed (.addSigner "20" leaseSigner 30 "unused"), 13),
    (managed (.openRequest "20" .evidence), 14), (managed (.createSigningLink "20" "nonce"), 16)]

def signLease : WorkflowCall SampleBytes :=
  .sign none ⟨sampleToken, "signer@x", sampleCommand, none⟩ ⟨40, 41, 42⟩

/-- The signer signs. -/
def leaseSigned : List (WorkflowCall SampleBytes × Nat) :=
  leaseOpened ++ [(signLease, 24)]

end Rubrica
