import Rubrica.Signatures.Storing

set_option autoImplicit false

/-! # Free signatures

The free signatures of a tenant are counted with the signing itself: what is used is the number of signings on
record that were made without paid or complimentary access, in any interleaving with the events of the billing
provider, and a signing that raises uses none. -/

namespace Rubrica

open Transactions

variable {B Page : Type}

/-! ## Signings that count -/

/-- The tenant of the document that the request is for. -/
def World.tenantOfRequest (request : UUID) (w : World B) : Option UUID :=
  (w.requests.get? request).bind fun r => (w.documents.get? r.documentId).map Document.tenantId

/-- The step commits a signing for the tenant, and at the instant it was counted the tenant had neither
    complimentary nor paid access. -/
def countsFor (tenant : UUID) (x : WorkflowStep B) : Bool :=
  ((movedBy x).bind Move.signing).any fun y =>
    decide (x.1.shared.tenantOfRequest y.request = some tenant) &&
      !((x.1.shared.accountOf tenant).hasUnlimitedSignatures ||
        (x.1.shared.accountOf tenant).paidAccessEnabled y.countedAt)

/-- Accounts are changed by the workflow and by deliveries only. -/
abbrev steadyAccounts (B : Type) : Circumstances B :=
  ⟨False, True, True, fun _ _ => True⟩

section Steps

variable {host : Host B Page} {cfg : Settings} {services : SigningServices B} {reliable : Prop}
  {H : Rights RowKey} {w w' : World B} {m : Move B} {y : Signing B}

theorem signing_eq_some (h : m.signing = some y) : m = .sign y := by
  cases m with
  | sign x => exact congrArg Move.sign (Option.some.inj h)
  | _ => exact absurd h (by simp [Move.signing])

/-- A signing is counted for the tenant of its document. -/
theorem Move.Allowed.tenantOfRequest (h : m.Allowed host cfg services reliable H w) (hm : m.signing = some y) :
    w.tenantOfRequest y.request = some y.tenant := by
  obtain rfl := signing_eq_some hm
  cases h with
  | sign allowed =>
      obtain ⟨d, hd, htenant⟩ := allowed.tenant
      have hd : w.documents.get? _ = some d := hd
      rw [World.tenantOfRequest, allowed.request, Option.bind_some, hd, Option.map_some, htenant]

end Steps

section Runs

variable {host : Host B Page} {cfg : Settings} {services : SigningServices B} {Y Z : WorkflowSystem B}
  {steps : List (WorkflowStep B)} {x : WorkflowStep B} {X' : WorkflowSystem B} {i : Nat}

/-- A step uses a free signature that is left where it commits a signing that counts, and none otherwise. -/
theorem quota_step (hrun : Run (workflowRuns host cfg services (steadyAccounts B)) Y steps Z)
    (hidle : Y.sessions = []) (hx : x ∈ steps) (hstep : x.1.step x.2 = some X') (tenant : UUID) :
    (countsFor tenant x = true ∧ (x.1.shared.quota tenant).used < (x.1.shared.quota tenant).limit ∧
        X'.shared.quota tenant = (x.1.shared.quota tenant).charged) ∨
      (countsFor tenant x = false ∧ X'.shared.quota tenant = x.1.shared.quota tenant) := by
  rcases workflow_step hrun hidle (fun _ _ _ _ _ => trivial) hx hstep with ⟨hnone, hrests⟩ | ⟨m, hm, hmoves⟩
  · refine Or.inr ⟨?_, hrests.quota trivial tenant⟩
    rw [countsFor, hnone]
    rfl
  obtain ⟨H, hallowed, haccounting⟩ := hmoves.allowed
  have haccounting := haccounting trivial
  unfold countsFor
  rw [hm, Option.bind_some]
  cases hsigning : m.signing with
  | none =>
      refine Or.inr ⟨rfl, haccounting.quota tenant fun y hy => ?_⟩
      rw [hsigning] at hy
      exact absurd hy (by simp)
  | some y =>
      have hof := hallowed.tenantOfRequest hsigning
      rw [Option.any_some, hof]
      by_cases htenant : y.tenant = tenant
      · subst htenant
        by_cases hmetered : y.Metered x.1.shared
        · obtain ⟨hleft, hcharged⟩ := haccounting.charge y hsigning hmetered
          refine Or.inl ⟨?_, hleft, hcharged⟩
          simpa [Signing.Metered] using hmetered
        · refine Or.inr ⟨?_, haccounting.quota _ fun y' hy' _ => ?_⟩
          · simpa [Signing.Metered, ← Bool.not_eq_true] using hmetered
          · obtain rfl := Option.some.inj (hsigning.symm.trans hy')
            exact hmetered
      · refine Or.inr ⟨?_, haccounting.quota _ fun y' hy' heq => ?_⟩
        · simp [htenant]
        · obtain rfl := Option.some.inj (hsigning.symm.trans hy')
          exact absurd heq htenant

/-- What is used at the end of a run: what was used before, and the signings that count. -/
theorem quota_of_run (hrun : Run (workflowRuns host cfg services (steadyAccounts B)) Y steps Z)
    (hidle : Y.sessions = []) {tenant : UUID}
    (hstart : (Y.shared.quota tenant).used ≤ (Y.shared.quota tenant).limit) :
    (Z.shared.quota tenant).used = (Y.shared.quota tenant).used + steps.countP (countsFor tenant) ∧
      (Z.shared.quota tenant).limit = (Y.shared.quota tenant).limit ∧
      (Z.shared.quota tenant).used ≤ (Z.shared.quota tenant).limit := by
  induction hrun with
  | nil => exact ⟨rfl, rfl, hstart⟩
  | @snoc steps X X' l before allowed taken ih =>
      obtain ⟨hused, hlimit, hle⟩ := ih
      have hmem : (X, l) ∈ steps ++ [(X, l)] := by simp
      rw [List.countP_append, List.countP_singleton]
      rcases quota_step (before.snoc allowed taken) hidle hmem taken tenant with
        ⟨hcounts, hleft, hcharged⟩ | ⟨hcounts, hsame⟩
      · rw [hcharged, hcounts]
        simp only [Quota.charged, if_true]
        have hleft : (X.shared.quota tenant).used < (X.shared.quota tenant).limit := hleft
        omega
      · rw [hsame, hcounts]
        simp only [Bool.false_eq_true, if_false]
        omega

/-! ## Signings that raise -/

/-- Nothing that the session did has changed what anybody has used. -/
def LeavesQuotas (l : List (WorkflowDeed B)) : Prop :=
  ∀ d ∈ l, ∀ tenant, d.after.quota tenant = d.before.quota tenant

theorem HasDoneNothing.leavesQuotas {l : List (WorkflowDeed B)} (h : HasDoneNothing l) : LeavesQuotas l :=
  fun d hd tenant => congrArg (World.quota tenant) (h d hd)

theorem HasStored.leavesQuotas {key : StorageKey} {l : List (WorkflowDeed B)} (h : HasStored key l) :
    LeavesQuotas l := by
  obtain ⟨w, content, -, rfl⟩ := h
  intro d hd tenant
  obtain rfl := List.mem_singleton.1 hd
  exact quota_of_accounts (accounts_put key content) tenant

/-- An operation that stores an object on its way and raises, also at its commit or where it discards the object. -/
theorem ensures_storing_leavesQuotas {α β : Type} {J : World B → Prop} {F : WorkflowPoint B → Prop}
    {before : Workflow B β} {key : β → StorageKey} {after : β → Workflow B (α × WorkflowPoint B)}
    (hbefore : before.ensures J F (fun x v l => HasStored (key x) l ∧
        (after x).ensures J F (fun r _ l' => l' = l ∧ ∃ m, r.2 = .made m ∧ m.object = some (key x))
          (fun _ _ l' => l' = l) v l) (fun _ _ l => HasDoneNothing l) id []) :
    (storing before key after).ensures J F (fun _ _ _ => True) (fun _ _ l => LeavesQuotas l) id [] := by
  refine Code.ensures_bind.2 (Code.ensures_rollingBack (Code.ensures_mono hbefore ?_ fun _ _ l h => h.leavesQuotas))
  rintro x v l ⟨hstored, hafter⟩
  have hdiscarded : ∀ w : World B, LeavesQuotas (l ++ [⟨.discarding (key x), w, w.discard (key x)⟩]) := by
    intro w d hd tenant
    rcases List.mem_append.1 hd with hl | hlast
    · exact hstored.leavesQuotas d hl tenant
    · obtain rfl := List.mem_singleton.1 hlast
      rfl
  refine Code.ensures_tryCatch.2 (Code.ensures_transaction (Code.ensures_mono hafter ?_ ?_))
  · rintro r v' _ ⟨rfl, -⟩
    exact ⟨⟨fun _ => hstored.leavesQuotas, fun w _ => hdiscarded w⟩, fun _ _ => trivial⟩
  · rintro e v' _ rfl
    exact ⟨fun _ => hstored.leavesQuotas, fun w _ => hdiscarded w⟩

theorem ensures_sign_leavesQuotas {J : World B → Prop} {F : WorkflowPoint B → Prop} (caller : Caller)
    (call : SignCall) (names : SigningNames) : ((WorkflowCall.sign caller call names).run host cfg services).ensures
      J F (fun _ _ _ => True) (fun _ _ l => LeavesQuotas l) id [] := by
  have hsign : (sign host cfg services caller call names).ensures J F (fun _ _ _ => True)
      (fun _ _ l => LeavesQuotas l) id [] := by
    unfold sign
    split
    · exact fun d hd => nomatch hd
    · exact ensures_storing_leavesQuotas (ensures_prepareSignature call names)
  exact Code.ensures_seq hsign (fun _ _ _ h => h) fun _ _ _ h => h

/-- **Free signatures are counted exactly.** In every state of every run the tenant has used as many as there were
    signings without paid or complimentary access, and never more than it has; and a signing that raises, wherever
    its statements failed, has used none. -/
theorem free_signatures_counted (hrun : Run (workflowRuns host cfg services (steadyAccounts B)) Y steps Z)
    (hidle : Y.sessions = []) {tenant : UUID} (hstart : (Y.shared.quota tenant).used = 0) :
    (Z.shared.quota tenant).used = steps.countP (countsFor tenant) ∧
      (Z.shared.quota tenant).used ≤ (Z.shared.quota tenant).limit ∧
      ∀ i, (∀ x ∈ steps, ∀ base code, x.2 = .start base code → x.1.sessions.length = i →
          ∃ caller call names, code = (WorkflowCall.sign caller call names).run host cfg services) →
        Undisturbed (fun _ => True) (fun _ => True) i steps → Z.hasRaised i = true →
        LeavesQuotas (deedsOf i steps) := by
  have hwithin : (Y.shared.quota tenant).used ≤ (Y.shared.quota tenant).limit := by omega
  have hquota := quota_of_run hrun hidle hwithin
  refine ⟨?_, hquota.2.2, fun i hsigns hi hraised => ?_⟩
  · rw [hquota.1, hstart, Nat.zero_add]
  · refine (hrun.ended hidle hi (Q := fun _ => True) (E := LeavesQuotas) fun x hx base code hcode hlen => ?_).2 hraised
    obtain ⟨caller, call, names, rfl⟩ := hsigns x hx base code hcode hlen
    exact ensures_sign_leavesQuotas caller call names

/-- A request with one signer, in a workspace without complimentary access. -/
def meteredLease : WorkflowSystem SampleBytes :=
  ⟨{ openLease.shared with
    accounts := (∅ : Table UUID BillingAccount).insert 1 .created }, []⟩

/-- One signing, which counts. -/
theorem free_signatures_counted_meteredLease :
    ∃ steps Z, Run (workflowRuns sampleHost sampleSettings sampleServices (steadyAccounts SampleBytes)) meteredLease
      steps Z ∧ (Z.shared.quota 1).used = steps.countP (countsFor 1) ∧ steps.countP (countsFor 1) = 1 := by
  obtain ⟨steps, Z, hrun, hp⟩ := exists_script sampleHost sampleSettings sampleServices (Y := meteredLease)
    (steadyAccounts SampleBytes) (serial [(signOpenLease, 24)])
    (p := fun steps _ => decide (steps.countP (countsFor 1) = 1)) (by decide +kernel)
  exact ⟨steps, Z, hrun, (free_signatures_counted hrun rfl (by decide)).1, of_decide_eq_true hp⟩

end Runs

end Rubrica
