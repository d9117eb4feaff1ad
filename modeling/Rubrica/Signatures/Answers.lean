import Rubrica.Signatures.Lifecycle
import Rubrica.Signatures.MemoryRuns

set_option autoImplicit false

/-! # Answers

Who has signed or declined keeps that answer, in both workflows, unless somebody who declined signs: outside
certificate mode `sign` looks for a signature only. -/

namespace Rubrica

open Transactions

variable {B Page : Type}

/-- Whoever signs in this step has not declined. -/
def sparesDeclined (x : WorkflowStep B) : Bool :=
  match x.1.executes x.2 with
  | some (.made (.sign y), _) => (x.1.shared.signers.get? y.signature.signerId).all fun s => s.status ≠ .declined
  | _ => true

/-- The same, of the point at which a statement is executed. -/
def Spared (point : WorkflowPoint B) (w : World B) : Prop :=
  match point with
  | .made (.sign y) => ∀ s, w.signers.get? y.signature.signerId = some s → s.status ≠ .declined
  | _ => True

/-- Every signer who has answered has the same answer later. -/
def World.AnswersStand (w w' : World B) : Prop :=
  ∀ signer s, w.signers.get? signer = some s → s.status.IsAnswer →
    ∃ s', w'.signers.get? signer = some s' ∧ s'.status = s.status

/-- Nobody who is a signer of a completed request has declined. -/
def World.CompletedUndeclined (w : World B) : Prop :=
  ∀ id r, w.requests.get? id = some r → r.status = .completed →
    ∀ signer s, w.signers.get? signer = some s → s.signatureRequestId = id → s.status ≠ .declined

/-- The same of the in-memory workflow. -/
def Memory.AnswersStand (m m' : Memory B) : Prop :=
  ∀ signer s, m.signers.get? signer = some s → s.status.IsAnswer →
    ∃ s', m'.signers.get? signer = some s' ∧ s'.status = s.status

def Memory.CompletedUndeclined (m : Memory B) : Prop :=
  ∀ id r, m.requests.get? id = some r → r.status = .completed → ∀ s ∈ m.signersOf id, s.status ≠ .declined

section Moves

variable {host : Host B Page} {cfg : Settings} {services : SigningServices B} {reliable : Prop} {m : Move B}
  {H : Rights RowKey} {w w' : World B}

/-- Only a signing changes an answer, and only that of somebody who declined. -/
theorem Move.Allowed.answersStand (h : m.Allowed host cfg services reliable H w) (hspared : Spared (.made m) w)
    (hw' : w'.toArchive = m.apply w.toArchive) : w.AnswersStand w' := by
  intro signer s hs hanswer
  have hget : w'.signers = m.onSigners w.signers := congrArg Archive.signers hw'
  rw [hget]
  -- A change of one signer who had not answered, or that keeps the status.
  have hupdate : ∀ {other : UUID} {s0 : Signer} {f : Signer → Signer}, w.signers.get? other = some s0 →
      (f s0).status = s0.status ∨ ¬s0.status.IsAnswer →
      ∃ s', (w.signers.update other f).get? signer = some s' ∧ s'.status = s.status := by
    intro other s0 f hs0 hkeep
    rw [Table.get?_update]
    split
    · next hk =>
        subst hk
        obtain rfl := Option.some.inj (hs.symm.trans hs0)
        exact ⟨f s, by rw [hs, Option.map_some], hkeep.resolve_right fun hn => hn hanswer⟩
    · exact ⟨s, hs, rfl⟩
  cases h with
  | addSigner => exact ⟨s, Table.get?_insert_of_some hs, rfl⟩
  | revokeLink lock row => exact hupdate row (Or.inl rfl)
  | view lock request status row own pending => exact hupdate row (Or.inr (by simp [SignerStatus.IsAnswer, pending]))
  | decline lock request status row own unanswered =>
      exact hupdate row (Or.inr fun h => h.elim unanswered.1 unanswered.2)
  | @sign x r s0 allowed =>
      obtain ⟨hs0, -, -⟩ := signerOf_eq_some allowed.signer
      exact hupdate hs0 (Or.inr fun h => h.elim allowed.unsigned (hspared s0 hs0))
  | _ => exact ⟨s, hs, rfl⟩

end Moves

section Runs

variable {host : Host B Page} {cfg : Settings} {services : SigningServices B} {Y Z : WorkflowSystem B}
  {steps : List (WorkflowStep B)} {past : List (Memory B × MemoryCall B)} {m : Memory B}

theorem spared_of_sparesDeclined (h : ∀ x ∈ steps, sparesDeclined x = true) :
    ∀ x ∈ steps, (workflowProtocol host cfg services ⟨False, False, True, Spared⟩).Meets x.1 x.2 := by
  intro x hx point act hex
  have hspares := h x hx
  unfold sparesDeclined at hspares
  rw [hex] at hspares
  show Spared point x.1.shared
  cases point with
  | made m =>
      cases m with
      | sign y =>
          intro s hs
          simpa [hs] using hspares
      | _ => trivial
  | _ => trivial

/-- **An answer is final.** In every run of either workflow in which nobody signs who has declined, each step
    leaves the answers that were given, and no request is completed that has a signer who declined. -/
theorem answer_final (hrun : Run (workflowRuns host cfg services (anyCircumstances B)) Y steps Z)
    (hstart : Y.sessions = []) (hempty : Y.shared.toArchive = .empty)
    (hspares : ∀ x ∈ steps, sparesDeclined x = true) (hmemory : MemoryRun host cfg (Memory.empty B) past m)
    (hmemorySpares : ∀ y ∈ past, y.2.spares host y.1 = true) :
    ((∀ x ∈ steps, ∀ X', x.1.step x.2 = some X' → x.1.shared.AnswersStand X'.shared) ∧
        Z.shared.CompletedUndeclined) ∧
      (∀ y ∈ past, y.1.AnswersStand (y.2.after host cfg y.1)) ∧ m.CompletedUndeclined := by
  refine ⟨⟨fun x hx X' hstep => ?_, fun id r hr hstatus signer s hs hown => ?_⟩, ?_⟩
  · rcases workflow_step (z := ⟨False, False, True, Spared⟩) hrun hstart (spared_of_sparesDeclined hspares) hx hstep
      with ⟨-, hrests⟩ | ⟨m, -, hmoves⟩
    · intro signer s hs _
      exact ⟨s, (congrArg (fun a : Archive => a.signers.get? signer) hrests.archive).trans hs, rfl⟩
    · obtain ⟨H, hallowed, -⟩ := hmoves.allowed
      exact hallowed.answersStand hmoves.cond hmoves.archive
  · have hsound := (holds_of_run hrun hstart (fun _ _ _ _ _ => trivial) hempty id).sound hr
    have hsigned := (hsound.completed.1 hstatus).2.2 (signer, s) (mem_signersOf.2 ⟨hs, hown⟩)
    simp [show s.status = .signed from hsigned]
  · obtain ⟨hsound, hlater⟩ := hmemory.later Memory.empty_sound hmemorySpares
    refine ⟨fun y hy => (hlater y hy).answers, fun id r hr hstatus s hs => ?_⟩
    simp [hsound.completed id r hr hstatus s hs]

end Runs

/-- The signer signs, in both workflows. -/
theorem answer_final_leaseSigned :
    ∃ steps Z, Run (workflowRuns sampleHost sampleSettings sampleServices (anyCircumstances SampleBytes))
        emptyWorkspace steps Z ∧ (Z.shared.requests.get? 20).map SignatureRequest.status = some .completed ∧
      ∃ past m, MemoryRun sampleHost sampleSettings (Memory.empty SampleBytes) past m ∧
        (m.requests.get? 20).map SignatureRequestRead.status = some .completed ∧
        ((∀ x ∈ steps, ∀ X', x.1.step x.2 = some X' → x.1.shared.AnswersStand X'.shared) ∧
            Z.shared.CompletedUndeclined) ∧
          (∀ y ∈ past, y.1.AnswersStand (y.2.after sampleHost sampleSettings y.1)) ∧ m.CompletedUndeclined := by
  obtain ⟨steps, Z, hrun, hp⟩ := exists_script sampleHost sampleSettings sampleServices (Y := emptyWorkspace)
    (anyCircumstances SampleBytes) (serial leaseSigned)
    (p := fun steps Z => steps.all sparesDeclined &&
      (Z.shared.requests.get? 20).map SignatureRequest.status = some .completed) (by decide +kernel)
  obtain ⟨hspares, hstatus⟩ := Bool.and_eq_true_iff.1 hp
  have hmemory := memoryRun_trail sampleHost sampleSettings (Memory.empty SampleBytes)
    (memoryLease ++ [signMemoryLease]) (by decide +kernel)
  exact ⟨steps, Z, hrun, of_decide_eq_true hstatus, _, _, hmemory, by decide +kernel,
    answer_final hrun rfl rfl (List.all_eq_true.1 hspares) hmemory (by decide +kernel)⟩

/-- The signer declines. -/
def declineLease : WorkflowCall SampleBytes :=
  .decline sampleToken "signer@x"

/-- Without the condition who declined can sign, in both workflows. -/
theorem not_answer_final :
    (¬∀ steps Z, Run (workflowRuns sampleHost sampleSettings sampleServices (anyCircumstances SampleBytes))
        emptyWorkspace steps Z →
          ∀ x ∈ steps, ∀ X', x.1.step x.2 = some X' → x.1.shared.AnswersStand X'.shared) ∧
      ¬∀ past m, MemoryRun sampleHost sampleSettings (Memory.empty SampleBytes) past m →
        ∀ y ∈ past, y.1.AnswersStand (y.2.after sampleHost sampleSettings y.1) := by
  constructor
  · intro hall
    obtain ⟨steps, Z, hrun, hp⟩ := exists_script sampleHost sampleSettings sampleServices (Y := emptyWorkspace)
      (anyCircumstances SampleBytes) (serial (leaseOpened ++ [(declineLease, 7), (signLease, 24)]))
      (p := fun steps _ => steps.any fun x => (x.1.shared.signers.get? 30).any (fun s => s.status = .declined) &&
        (x.1.step x.2).any fun X' => (X'.shared.signers.get? 30).all fun s => s.status ≠ .declined)
      (by decide +kernel)
    obtain ⟨x, hx, hp⟩ := List.any_eq_true.1 hp
    obtain ⟨hdeclined, hp⟩ := Bool.and_eq_true_iff.1 hp
    obtain ⟨s, hs, hdeclined⟩ := (Option.any_eq_true _ _).1 hdeclined
    obtain ⟨X', hX', hsigned⟩ := (Option.any_eq_true _ _).1 hp
    have hdeclined := of_decide_eq_true hdeclined
    obtain ⟨s', hs', hstatus⟩ := hall steps Z hrun x hx X' hX' 30 s hs (Or.inr hdeclined)
    simp [hs', hstatus, hdeclined] at hsigned
  · intro hall
    have hmemory := memoryRun_trail sampleHost sampleSettings (Memory.empty SampleBytes)
      (memoryLease ++ [.decline "token" "signer@x", signMemoryLease]) (by decide +kernel)
    have hp : ((trailOf sampleHost sampleSettings (memoryLease ++ [.decline "token" "signer@x", signMemoryLease])
        (Memory.empty SampleBytes)).any fun y => (y.1.signers.get? 30).any (fun s => s.status = .declined) &&
          ((y.2.after sampleHost sampleSettings y.1).signers.get? 30).all fun s => s.status ≠ .declined) = true := by
      decide +kernel
    obtain ⟨y, hy, hp⟩ := List.any_eq_true.1 hp
    obtain ⟨hdeclined, hsigned⟩ := Bool.and_eq_true_iff.1 hp
    obtain ⟨s, hs, hdeclined⟩ := (Option.any_eq_true _ _).1 hdeclined
    have hdeclined := of_decide_eq_true hdeclined
    obtain ⟨s', hs', hstatus⟩ := hall _ _ hmemory y hy 30 s hs (Or.inr hdeclined)
    simp [hs', hstatus, hdeclined] at hsigned

end Rubrica
