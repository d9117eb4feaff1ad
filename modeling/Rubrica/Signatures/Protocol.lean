import Rubrica.Signatures.Moves
import Rubrica.Transactions.Knowledge

set_option autoImplicit false

/-! # The workflow in any interleaving

What the sessions of the workflow promise each other: who commits a move is permitted to make it, objects in
the store come and go under names that their session drew, and an account changes under its lock. Deliveries
of billing events take part. -/

namespace Rubrica

open Transactions

variable {B Page : Type}

/-! ## Accounts -/

/-- The free signatures of a tenant: how many are used, of how many. -/
structure Quota where
  used : Nat
  limit : Nat
  deriving DecidableEq, Repr

def Quota.charged (q : Quota) : Quota :=
  { q with used := q.used + 1 }

def BillingAccount.quota (a : BillingAccount) : Quota :=
  ⟨a.signaturesUsed, a.freeSignaturesLimit⟩

/-- The account of a tenant, or the one it would get. -/
def World.accountOf (tenant : UUID) (w : World B) : BillingAccount :=
  (w.accounts.get? tenant).getD .created

def World.quota (tenant : UUID) (w : World B) : Quota :=
  (w.accountOf tenant).quota

/-- The tenant had neither complimentary nor paid access when the signing was counted. -/
def Signing.Metered (x : Signing B) (w : World B) : Prop :=
  ¬((w.accountOf x.tenant).hasUnlimitedSignatures = true ∨
    (w.accountOf x.tenant).paidAccessEnabled x.countedAt = true)

def Move.signing : Move B → Option (Signing B)
  | .sign x => some x
  | _ => none

/-- What a commit does to the accounts: a row changes under its lock, a new one appears under its entry, and
    a signing that is metered counts. -/
structure Accounting (H : Rights RowKey) (signing : Option (Signing B)) (w w' : World B) : Prop where
  row : ∀ t a, w.accounts.get? t = some a → w'.accounts.get? t ≠ some a → (RowKey.account t, LockMode.exclusive) ∈ H
  entry : ∀ t, w.accounts.get? t = none → w'.accounts.get? t ≠ none → (RowKey.accountOf t, LockMode.exclusive) ∈ H
  quota : ∀ t, (∀ x ∈ signing, x.tenant = t → ¬x.Metered w) → w'.quota t = w.quota t
  charge : ∀ x ∈ signing, x.Metered w → (w.quota x.tenant).used < (w.quota x.tenant).limit ∧
    w'.quota x.tenant = (w.quota x.tenant).charged

theorem Accounting.same {H : Rights RowKey} {w w' : World B} (h : w'.accounts = w.accounts) :
    Accounting H none w w' :=
  ⟨fun t a ha hne => absurd (h ▸ ha) hne, fun t ha hne => absurd (h ▸ ha) hne,
    fun t _ => by simp [World.quota, World.accountOf, h], fun _ hx => absurd hx (by simp)⟩

/-! ## What is seen of a state -/

structure Estate (B : Type) where
  archive : Archive
  accounts : Table UUID BillingAccount
  objects : StorageKey → Option B
  clock : Int

def World.estate (w : World B) : Estate B :=
  ⟨w.toArchive, w.accounts, w.objects, w.clock⟩

/-! ## The protocol -/

/-- What is assumed of runs: whether the store keeps its objects, whether accounts change by the workflow
    and by deliveries only, whether an acknowledgement can be lost, and where statements are executed. -/
structure Circumstances (B : Type) where
  reliable : Prop
  steady : Prop
  lossy : Prop
  cond : WorkflowPoint B → World B → Prop

section Protocol

variable (host : Host B Page) (cfg : Settings) (services : SigningServices B) (z : Circumstances B)

/-- What the commit or outside write at a point may do. -/
def workflowGuarantee (point : WorkflowPoint B) (H : Rights RowKey) (w w' : World B) : Prop :=
  match point with
  | .made m => m.Allowed host cfg services z.reliable H w ∧ w'.toArchive = m.apply w.toArchive ∧
      w'.objects = w.objects ∧ w'.clock = w.clock ∧ (z.steady → Accounting H m.signing w w')
  | .putting key content => (RowKey.name key.name, LockMode.exclusive) ∈ H ∧ w' = w.put key content
  | .discarding key => (RowKey.name key.name, LockMode.exclusive) ∈ H ∧
      (¬z.lossy → w.toArchive.Unreferenced key.name) ∧ w' = w.discard key
  | .plain => w'.estate = w.estate
  | .billing _ => w'.toArchive = w.toArchive ∧ w'.objects = w.objects ∧ w'.clock = w.clock ∧
      (z.steady → Accounting H none w w')

def workflowProtocol : Protocol (World B) RowKey (WorkflowPoint B) where
  inv _ := True
  guar := workflowGuarantee host cfg services z
  env w w' := w'.toArchive = w.toArchive ∧ w.clock ≤ w'.clock ∧ (z.reliable → w'.objects = w.objects) ∧
    (z.steady → w'.accounts = w.accounts)
  cond := z.cond
  lossy := z.lossy

end Protocol

/-! ## What others cannot break -/

section Stable

variable {host : Host B Page} {cfg : Settings} {services : SigningServices B} {z : Circumstances B}
  {K : Rights RowKey} {w w' : World B} {A : World B → Prop}

theorem toArchive_of_estate (h : w'.estate = w.estate) : w'.toArchive = w.toArchive :=
  congrArg Estate.archive h

theorem accounts_of_estate (h : w'.estate = w.estate) : w'.accounts = w.accounts :=
  congrArg Estate.accounts h

theorem objects_of_estate (h : w'.estate = w.estate) : w'.objects = w.objects :=
  congrArg Estate.objects h

theorem toArchive_put (key : StorageKey) (b : B) : (w.put key b).toArchive = w.toArchive := by
  unfold World.put
  split <;> rfl

theorem accounts_put (key : StorageKey) (b : B) : (w.put key b).accounts = w.accounts := by
  unfold World.put
  split <;> rfl

theorem objects_put_of_ne {key k : StorageKey} (h : k ≠ key) (b : B) : (w.put key b).objects k = w.objects k := by
  unfold World.put
  split
  · rfl
  · exact Function.update_of_ne h _ _

theorem objects_discard_self (key : StorageKey) : (w.discard key).objects key = none :=
  Function.update_self _ _ _

theorem objects_discard_of_ne {key k : StorageKey} (h : k ≠ key) : (w.discard key).objects k = w.objects k :=
  Function.update_of_ne h _ _

/-- Somebody else leaves the archive or makes a move under rights of its own. -/
theorem interferes_archive (h : (workflowProtocol host cfg services z).Interferes K w w') :
    w'.toArchive = w.toArchive ∨ ∃ H, ∃ m : Move B, K.Compatible H ∧
      m.Allowed host cfg services z.reliable H w ∧ w'.toArchive = m.apply w.toArchive := by
  obtain ⟨-, -, henv | ⟨point, H, hcompat, -, hg⟩⟩ := h
  · exact Or.inl henv.1
  · cases point with
    | plain => exact Or.inl (toArchive_of_estate hg)
    | billing point => exact Or.inl hg.1
    | made m => exact Or.inr ⟨H, m, hcompat, hg.1, hg.2.1⟩
    | putting key b =>
        obtain ⟨-, rfl⟩ := hg
        exact Or.inl (toArchive_put key b)
    | discarding key =>
        obtain ⟨-, -, rfl⟩ := hg
        exact Or.inl rfl

/-- What is said about the archive alone lasts when no compatible move ends it. -/
theorem stable_archive {A : Archive → Prop}
    (h : ∀ H (m : Move B) (w : World B), K.Compatible H → m.Allowed host cfg services z.reliable H w → A w.toArchive →
      A (m.apply w.toArchive)) :
    (workflowProtocol host cfg services z).Stable K fun w => A w.toArchive := by
  intro w w' hi hA
  rcases interferes_archive hi with hsame | ⟨H, m, hcompat, hallowed, hmove⟩
  · rw [hsame]
    exact hA
  · rw [hmove]
    exact h H m w hcompat hallowed hA

theorem notMem_of_compatible {H : Rights RowKey} {k : RowKey} (h : K.Compatible H)
    (hk : (k, LockMode.exclusive) ∈ K) : (k, LockMode.exclusive) ∉ H :=
  fun hk' => h.ne_of_exclusive hk hk' rfl

/-- Under the lock of a request its slice stays. -/
theorem stable_slice {id : UUID} {σ : Slice} (hlock : (RowKey.request id, LockMode.exclusive) ∈ K)
    (hσ : σ.request ≠ none) :
    (workflowProtocol host cfg services z).Stable K fun w : World B => w.toArchive.slice id = σ := by
  refine stable_archive (A := fun a => a.slice id = σ) fun H m w hcompat hallowed hA => ?_
  rw [hallowed.slice (notMem_of_compatible hcompat hlock) (by rw [← hA] at hσ; exact hσ), hA]

theorem stable_version (K : Rights RowKey) (k : UUID × Nat) (v : DocumentVersion) :
    (workflowProtocol host cfg services z).Stable K fun w : World B => w.versions.get? k = some v :=
  stable_archive (A := fun a => a.versions.get? k = some v) fun _ _ _ _ _ hA => Move.version_apply hA

theorem stable_ofTenant (K : Rights RowKey) (id tenant : UUID) :
    (workflowProtocol host cfg services z).Stable K fun w : World B => w.toArchive.OfTenant id tenant :=
  stable_archive (A := fun a => a.OfTenant id tenant) fun _ _ _ _ _ hA => Move.ofTenant_apply hA

/-- A name stays unused while it is held. -/
theorem stable_unused {id : UUID} (hname : (RowKey.name id, LockMode.exclusive) ∈ K) :
    (workflowProtocol host cfg services z).Stable K fun w : World B => w.toArchive.Unused id :=
  stable_archive (A := fun a => a.Unused id) fun _ _ _ hcompat hallowed hA =>
    hallowed.unused (notMem_of_compatible hcompat hname) hA

/-- Under the lock of a document its row stays. -/
theorem stable_document {id : UUID} {d : Document} (hlock : (RowKey.document id, LockMode.exclusive) ∈ K) :
    (workflowProtocol host cfg services z).Stable K fun w : World B => w.documents.get? id = some d :=
  stable_archive (A := fun a => a.documents.get? id = some d) fun _ _ _ hcompat hallowed hA =>
    hallowed.document (notMem_of_compatible hcompat hlock) hA

/-- Under the lock of a request that is in progress its document stays. -/
theorem stable_live {id : UUID} {σ : Slice} {r : SignatureRequest}
    (hlock : (RowKey.request id, LockMode.exclusive) ∈ K) (hσ : σ.request = some r)
    (hstatus : r.status = .draft ∨ r.status = .open) :
    (workflowProtocol host cfg services z).Stable K fun w : World B =>
      w.toArchive.slice id = σ ∧ w.toArchive.Live r.documentId := by
  refine stable_archive (A := fun a => a.slice id = σ ∧ a.Live r.documentId) fun H m w hcompat hallowed hA => ?_
  have hr : w.requests.get? id = some r := (congrArg Slice.request hA.1).trans hσ
  have hfree := notMem_of_compatible hcompat hlock
  exact ⟨(hallowed.slice hfree (by rw [hr]; simp)).trans hA.1, hallowed.live hfree hr hstatus hA.2⟩

theorem inProgress_congr {document id : UUID} (h : w'.toArchive = w.toArchive) :
    w'.inProgress document id = w.inProgress document id := by
  have hrequests : w'.requests = w.requests := congrArg Archive.requests h
  rw [World.inProgress, World.inProgress, hrequests]

/-- Under the lock of a document no request of it becomes in progress. -/
theorem stable_notInProgress {document : UUID} (hlock : (RowKey.document document, LockMode.exclusive) ∈ K)
    (p : UUID → Prop) : (workflowProtocol host cfg services z).Stable K fun w : World B =>
      ∀ id, w.inProgress document id = true → p id := by
  intro w w' hi hA id hactive
  rcases interferes_archive hi with hsame | ⟨H, m, hcompat, hallowed, hmove⟩
  · exact hA id ((inProgress_congr hsame).symm.trans hactive)
  · exact hA id (hallowed.inProgress (fun mode hmem => hcompat.ne_of_exclusive hlock hmem rfl) hmove hactive)

/-- Under its lock a request that is in progress stays so. -/
theorem stable_inProgress {document id : UUID} (hlock : (RowKey.request id, LockMode.exclusive) ∈ K) :
    (workflowProtocol host cfg services z).Stable K fun w : World B => w.inProgress document id = true := by
  intro w w' hi hactive
  rcases interferes_archive hi with hsame | ⟨H, m, hcompat, hallowed, hmove⟩
  · exact (inProgress_congr hsame).trans hactive
  · have hthere : w.requests.get? id ≠ none := by
      intro hnone
      simp [World.inProgress, hnone] at hactive
    have hrequest : w'.requests.get? id = w.requests.get? id :=
      congrArg Slice.request ((congrArg (Archive.slice id) hmove).trans
        (hallowed.slice (notMem_of_compatible hcompat hlock) hthere))
    rw [World.inProgress, hrequest]
    exact hactive

theorem stable_onlyFor {id : UUID} {hash : String} (hentry : (RowKey.tokenHash hash, LockMode.exclusive) ∈ K) :
    (workflowProtocol host cfg services z).Stable K fun w : World B => w.toArchive.OnlyFor id hash :=
  stable_archive (A := fun a => a.OnlyFor id hash) fun _ _ _ hcompat hallowed hA =>
    hallowed.onlyFor (notMem_of_compatible hcompat hentry) hA

theorem stable_unreferenced {name : UUID} (hname : (RowKey.name name, LockMode.exclusive) ∈ K) :
    (workflowProtocol host cfg services z).Stable K fun w : World B => w.toArchive.Unreferenced name :=
  stable_archive (A := fun a => a.Unreferenced name) fun _ _ _ hcompat hallowed hA =>
    hallowed.unreferenced (notMem_of_compatible hcompat hname) hA

/-- Somebody else leaves an object alone whose name is held. -/
theorem stable_object {key : StorageKey} {b : Option B} (hname : (RowKey.name key.name, LockMode.exclusive) ∈ K) :
    (workflowProtocol host cfg services z).Stable K fun w => z.reliable → w.objects key = b := by
  rintro w w' ⟨-, -, henv | ⟨point, H, hcompat, -, hg⟩⟩ hA hreliable
  · rw [henv.2.2.1 hreliable, hA hreliable]
  have hne : ∀ {other : StorageKey}, (RowKey.name other.name, LockMode.exclusive) ∈ H → key ≠ other := by
    rintro other hmem rfl
    exact notMem_of_compatible hcompat hname hmem
  cases point with
  | plain => rw [objects_of_estate hg, hA hreliable]
  | billing point => rw [hg.2.1, hA hreliable]
  | made m => rw [hg.2.2.1, hA hreliable]
  | putting other content =>
      obtain ⟨hmem, rfl⟩ := hg
      rw [objects_put_of_ne (hne hmem), hA hreliable]
  | discarding other =>
      obtain ⟨hmem, -, rfl⟩ := hg
      rw [objects_discard_of_ne (hne hmem), hA hreliable]

/-- Somebody else keeps to the locks and entries of accounts. -/
theorem interferes_accounts (h : (workflowProtocol host cfg services z).Interferes K w w') (hsteady : z.steady) :
    w'.accounts = w.accounts ∨ ∃ H signing, K.Compatible H ∧ Accounting H signing w w' := by
  obtain ⟨-, -, henv | ⟨point, H, hcompat, -, hg⟩⟩ := h
  · exact Or.inl (henv.2.2.2 hsteady)
  · cases point with
    | plain => exact Or.inl (accounts_of_estate hg)
    | billing point => exact Or.inr ⟨H, none, hcompat, hg.2.2.2 hsteady⟩
    | made m => exact Or.inr ⟨H, m.signing, hcompat, hg.2.2.2.2 hsteady⟩
    | putting key b =>
        obtain ⟨-, rfl⟩ := hg
        exact Or.inl (accounts_put key b)
    | discarding key =>
        obtain ⟨-, -, rfl⟩ := hg
        exact Or.inl rfl

/-- Under the lock of an account it stays. -/
theorem stable_accountRow {t : UUID} {a : BillingAccount} (hlock : (RowKey.account t, LockMode.exclusive) ∈ K) :
    (workflowProtocol host cfg services z).Stable K fun w : World B =>
      z.steady → w.accounts.get? t = some a := by
  intro w w' hi hA hsteady
  rcases interferes_accounts hi hsteady with hsame | ⟨H, signing, hcompat, hacc⟩
  · rw [hsame, hA hsteady]
  · by_contra hne
    exact notMem_of_compatible hcompat hlock (hacc.row t a (hA hsteady) hne)

/-- Under the entry of a missing account it stays missing. -/
theorem stable_noAccount {t : UUID} (hentry : (RowKey.accountOf t, LockMode.exclusive) ∈ K) :
    (workflowProtocol host cfg services z).Stable K fun w : World B =>
      z.steady → w.accounts.get? t = none := by
  intro w w' hi hA hsteady
  rcases interferes_accounts hi hsteady with hsame | ⟨H, signing, hcompat, hacc⟩
  · rw [hsame, hA hsteady]
  · by_contra hne
    exact notMem_of_compatible hcompat hentry (hacc.entry t (hA hsteady) hne)

end Stable

end Rubrica
