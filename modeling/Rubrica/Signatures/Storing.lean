import Rubrica.Signatures.Lifecycle
import Rubrica.Transactions.Deeds

set_option autoImplicit false

/-! # All or nothing

The store and the database share no transaction: an upload or a signing puts its object first and discards it
again where it raises later, also at its commit. Whatever the other sessions do, nothing of a call that raised
remains, and the object of one that returned is there with a row that refers to it. -/

namespace Rubrica

open Transactions

variable {B Page α β γ : Type}

/-- What a session of the workflow has done. -/
abbrev WorkflowDeed (B : Type) : Type :=
  Deed (World B) (WorkflowPoint B)

/-! ## What remains -/

/-- Nothing but the object under the key may have changed. -/
structure World.OnlyAt (key : StorageKey) (w w' : World B) : Prop where
  others : ∀ other, other ≠ key → w'.objects other = w.objects other
  rows : { w' with objects := w.objects } = w

/-- Nothing of what the session did remains: it has changed nothing, or has stored an object that is no longer there
    after its last deed. -/
inductive LeavesNothing : List (WorkflowDeed B) → Prop where
  | nothing {deeds : List (WorkflowDeed B)} (same : ∀ d ∈ deeds, d.after = d.before) : LeavesNothing deeds
  | discarded {key : StorageKey} {content : B} {w w' v v' : World B} (free : w.objects key = none)
      (put : w.OnlyAt key w') (discard : v.OnlyAt key v') (gone : v'.objects key = none) :
      LeavesNothing [⟨.putting key content, w, w'⟩, ⟨.discarding key, v, v'⟩]

/-- A row of the archive refers to the object. -/
def Archive.Refers (key : StorageKey) (a : Archive) : Prop :=
  (∃ k v, a.versions.get? k = some v ∧ v.storageKey = key) ∨
    ∃ id x, a.signatures.get? id = some x ∧ x.artifactStorageKey = some key

/-- One new object remains, and a row refers to it. -/
inductive StoresOne : List (WorkflowDeed B) → Prop where
  | stored {key : StorageKey} {content : B} {m : Move B} {w v v' : World B} (free : w.objects key = none)
      (same : v'.objects = v.objects) (kept : v'.objects key ≠ none) (refers : v'.toArchive.Refers key) :
      StoresOne [⟨.putting key content, w, w.put key content⟩, ⟨.made m, v, v'⟩]

theorem onlyAt_put (key : StorageKey) (content : B) (w : World B) : w.OnlyAt key (w.put key content) := by
  refine ⟨fun other hne => objects_put_of_ne hne content, ?_⟩
  unfold World.put
  split <;> rfl

theorem onlyAt_discard (key : StorageKey) (w : World B) : w.OnlyAt key (w.discard key) :=
  ⟨fun _ hne => objects_discard_of_ne hne, rfl⟩

theorem leavesNothing_discard {key : StorageKey} {content : B} {w v : World B} (free : w.objects key = none) :
    LeavesNothing [⟨.putting key content, w, w.put key content⟩, ⟨.discarding key, v, v.discard key⟩] :=
  .discarded free (onlyAt_put key content w) (onlyAt_discard key v) (objects_discard_self key)

/-- The object that a row of the move refers to. -/
def Move.object : Move B → Option StorageKey
  | .createDocument _ _ version => some version.storageKey
  | .addVersion _ _ version => some version.storageKey
  | .sign x => x.signature.artifactStorageKey
  | _ => none

/-! ## Versions are numbered -/

/-- The versions of a document are numbered up to the one it is at. -/
def Archive.Numbered (a : Archive) : Prop :=
  ∀ id n v, a.versions.get? (id, n) = some v → ∃ d, a.documents.get? id = some d ∧ n ≤ d.version

section Allowed

variable {host : Host B Page} {cfg : Settings} {services : SigningServices B} {reliable : Prop}
  {H : Rights RowKey} {w : World B} {m : Move B} {key : StorageKey}

theorem Archive.Numbered.unnumbered {a : Archive} (h : a.Numbered) {id : UUID} {n : Nat}
    (hn : ∀ d, a.documents.get? id = some d → d.version < n) : a.versions.get? (id, n) = none := by
  cases hv : a.versions.get? (id, n) with
  | none => rfl
  | some v =>
      obtain ⟨d, hd, hle⟩ := h id n v hv
      exact absurd (hn d hd) (Nat.not_lt.2 hle)

theorem Move.Allowed.numbered (h : m.Allowed host cfg services reliable H w) (hw : w.toArchive.Numbered) :
    (m.apply w.toArchive).Numbered := by
  intro id n v hv
  cases h with
  | @createDocument id' d' v' name fresh version =>
      rcases Table.get?_insert_eq_some hv with hold | ⟨hk, -⟩
      · obtain ⟨d, hd, hle⟩ := hw id n v hold
        exact ⟨d, Table.get?_insert_of_some hd, hle⟩
      · obtain ⟨rfl, rfl⟩ := Prod.mk.inj hk
        exact ⟨d', Table.get?_insert_self fresh _, Nat.le_of_eq version.symm⟩
  | @addVersion id' number v' d' lock document next =>
      have hd' := (liveDocument_eq_some.1 document).1
      -- The document is at the new version; every other one stays where it is.
      have hat : ∀ d, w.documents.get? id = some d → n ≤ d.version ∨ id = id' ∧ n = number →
          ∃ d, (w.documents.update id' (.revised number v')).get? id = some d ∧ n ≤ d.version := by
        intro d hd hn
        by_cases hid : id = id'
        · subst hid
          obtain rfl := Option.some.inj (hd'.symm.trans hd)
          refine ⟨d'.revised number v', by rw [Table.get?_update_self, hd, Option.map_some], ?_⟩
          show n ≤ number
          rcases hn with hn | ⟨-, hn⟩ <;> omega
        · refine ⟨d, (Table.get?_update_of_ne _ hid _).trans hd, ?_⟩
          exact hn.resolve_right fun h => hid h.1
      rcases Table.get?_insert_eq_some hv with hold | ⟨hk, -⟩
      · obtain ⟨d, hd, hle⟩ := hw id n v hold
        exact hat d hd (Or.inl hle)
      · obtain ⟨rfl, rfl⟩ := Prod.mk.inj hk
        exact hat d' hd' (Or.inr ⟨rfl, rfl⟩)
  | @deleteDocument id' ids now d' lock document =>
      obtain ⟨d, hd, hle⟩ := hw id n v hv
      by_cases hid : id = id'
      · subst hid
        exact ⟨d.deleted now, by
          show (w.documents.update id _).get? id = _
          rw [Table.get?_update_self, hd, Option.map_some], hle⟩
      · exact ⟨d, (Table.get?_update_of_ne _ hid _).trans hd, hle⟩
  | _ => exact hw id n v hv

/-- A move with an object puts a row on record that refers to it. -/
theorem Move.Allowed.refers (h : m.Allowed host cfg services reliable H w) (hw : w.toArchive.Numbered)
    (hobject : m.object = some key) : (m.apply w.toArchive).Refers key := by
  cases h with
  | @createDocument id d v name fresh =>
      have hfree : w.versions.get? (id, 1) = none :=
        hw.unnumbered fun d hd => absurd (fresh.symm.trans hd) (by simp)
      exact Or.inl ⟨(id, 1), v, Table.get?_insert_self hfree _, Option.some.inj hobject⟩
  | @addVersion id number v d lock document next =>
      have hd := (liveDocument_eq_some.1 document).1
      have hfree : w.versions.get? (id, number) = none := hw.unnumbered fun d' hd' => by
        obtain rfl := Option.some.inj (hd.symm.trans hd')
        omega
      exact Or.inl ⟨(id, number), v, Table.get?_insert_self hfree _, Option.some.inj hobject⟩
  | @sign x r s allowed => exact Or.inr ⟨x.id, x.signature, Table.get?_insert_self allowed.fresh _, hobject⟩
  | _ => exact absurd hobject (by simp [Move.object])

/-- Who commits a move with an object has it in the store. -/
theorem Move.Allowed.objectStored (h : m.Allowed host cfg services reliable H w) (hobject : m.object = some key)
    (hreliable : reliable) : w.objects key ≠ none := by
  cases h with
  | createDocument _ _ _ _ _ stored =>
      obtain ⟨content, hcontent, -⟩ := stored hreliable
      rw [← Option.some.inj hobject, hcontent]
      simp
  | addVersion _ _ _ stored =>
      obtain ⟨content, hcontent, -⟩ := stored hreliable
      rw [← Option.some.inj hobject, hcontent]
      simp
  | sign allowed =>
      obtain ⟨key', hkey', -, hstored⟩ := allowed.stored
      rw [Option.some.inj (hobject.symm.trans hkey'), hstored hreliable]
      simp
  | _ => exact absurd hobject (by simp [Move.object])

end Allowed

/-! ## Stretches -/

section Local

variable {W : (World B → World B) → Prop} (host : Host B Page)

theorem local_lockedAccount (hinsert : ∀ t a, W (World.insertAccount t a)) (tenant : UUID)
    (held : Option BillingAccount) : (lockedAccount tenant held : Workflow B _).Local W :=
  Code.local_bind (local_queryForUpdate _ _) fun _ => local_accountEntity (hinsert tenant) _ _

theorem local_consumeDocument (hinsert : ∀ t a, W (World.insertAccount t a))
    (hupdate : ∀ t f, W (World.updateAccount t f)) (tenant : UUID) (held : Option BillingAccount) :
    (consumeDocument tenant held : Workflow B _).Local W :=
  Code.local_bind (local_lockedAccount hinsert tenant held) fun _ => Code.local_bind (local_query _) fun _ =>
    Code.local_bind (Code.local_orRaise _ _) fun _ => local_flushAccount (hupdate tenant) _

theorem local_consumeSignature (hinsert : ∀ t a, W (World.insertAccount t a))
    (hupdate : ∀ t f, W (World.updateAccount t f)) (tenant : UUID) :
    (consumeSignature tenant : Workflow B _).Local W :=
  Code.local_bind (local_lockedAccount hinsert tenant none) fun _ => Code.local_bind (local_query _) fun _ =>
    Code.local_ite (Code.local_bind (local_flushAccount (hupdate tenant) _) fun _ => Code.local_pure _)
      (Code.local_bind (Code.local_require _ _) fun _ =>
        Code.local_bind (local_flushAccount (hupdate tenant) _) fun _ => Code.local_pure _)

theorem local_requireCertificate (request : UUID × SignatureRequest) (signer : Signer)
    (certificate : Option CertificateGrant) : (requireCertificate request signer certificate : Workflow B _).Local W :=
  Code.local_bind (Code.local_require _ _) fun _ => Code.local_bind (Code.local_require _ _) fun _ =>
    Code.local_onlyIf _ fun _ => Code.local_bind (Code.local_require _ _) fun _ =>
      Code.local_bind (local_query _) fun _ => Code.local_require _ _

theorem local_frozenVersion (request : SignatureRequest) : (frozenVersion request : Workflow B _).Local W :=
  Code.local_bind (local_query _) fun _ => Code.local_bind (Code.local_orRaise _ _) fun _ =>
    Code.local_bind (local_query _) fun _ => Code.local_bind (Code.local_orRaise _ _) fun _ => Code.local_pure _

theorem local_originalOf (request : SignatureRequest) (version : DocumentVersion)
    (certificate : Option CertificateGrant) : (originalOf host request version certificate).Local W := by
  refine Code.local_bind (local_getObject _) fun original => Code.local_bind (Code.local_require _ _) fun _ => ?_
  split
  · exact Code.local_raise _
  · exact Code.local_bind (Code.local_require _ _) fun _ => Code.local_pure _

theorem local_serviceResult (x : Except Failure α) : (serviceResult x : Workflow B α).Local W := by
  cases x with
  | ok a => exact Code.local_pure a
  | error e => exact Code.local_raise e

end Local

/-! ## What uploads and signings do -/

section Ensures

variable {J : World B → Prop} {F : WorkflowPoint B → Prop}
  {u : World B → World B} {l : List (WorkflowDeed B)} {x : Workflow B α}

/-- The session has stored its object. -/
def HasStored (key : StorageKey) (l : List (WorkflowDeed B)) : Prop :=
  ∃ w content, w.objects key = none ∧ l = [⟨.putting key content, w, w.put key content⟩]

/-- Nothing the session did has changed anything. -/
def HasDoneNothing (l : List (WorkflowDeed B)) : Prop :=
  ∀ d ∈ l, d.after = d.before

/-- Statements whose writes leave what `g` shows (the store, say), and the program after them. -/
theorem ensures_beside {f : α → Workflow B β} {Q : β → (World B → World B) → List (WorkflowDeed B) → Prop}
    {E : Failure → (World B → World B) → List (WorkflowDeed B) → Prop} {g : World B → γ} (hx : x.Local (Keeps g))
    (hu : Keeps g u) (hE : ∀ e v, E e v l) (hf : ∀ a v, Keeps g v → (f a).ensures J F Q E v l) :
    (x >>= f).ensures J F Q E u l :=
  Code.ensures_quiet hx hu (fun _ _ hf hv w => (hf _).trans (hv w)) hf hE

/-- An object is stored, or it was there already. -/
theorem ensures_putObject {key : StorageKey} {content : B} {f : Unit → Workflow B β}
    {Q : β → (World B → World B) → List (WorkflowDeed B) → Prop} (hu : Keeps World.objects u)
    (hf : ∀ l, HasStored key l → (f ()).ensures J F Q (fun _ _ l => HasDoneNothing l) u l) :
    (putObject key content >>= f).ensures J F Q (fun _ _ l => HasDoneNothing l) u [] := by
  refine Code.ensures_bind.2 (Code.ensures_bind.2 (Code.ensures_effect (fun w _ => ?_) fun _ d hd => nomatch hd))
  have hobjects : (u w).objects = w.objects := hu w
  refine Code.ensures_require (fun hfree => ?_) fun htaken d hd => ?_
  · rw [hobjects, Option.isSome_eq_false_iff, Option.isNone_iff_eq_none] at hfree
    exact hf _ ⟨w, content, hfree, rfl⟩
  · rw [hobjects, Bool.not_eq_false] at htaken
    obtain rfl := List.mem_singleton.1 hd
    exact if_pos htaken

/-- The object is stored, and the move that refers to it is made. -/
def HasCommitted (l : List (WorkflowDeed B)) : Prop :=
  ∃ key content w m v v', w.objects key = none ∧ Move.object m = some key ∧
    l = [⟨.putting key content, w, w.put key content⟩, ⟨.made m, v, v'⟩]

/-- An operation that stores an object on its way, and then makes a move for it. -/
theorem ensures_storingMove {before : Workflow B β} {key : β → StorageKey}
    {after : β → Workflow B (α × WorkflowPoint B)} {P : StorageKey → Move B → Prop}
    (hF : ∀ key, ¬F (.discarding key))
    (hbefore : before.ensures J F (fun x v l => HasStored (key x) l ∧
        (after x).ensures J F (fun r _ l' => l' = l ∧ ∃ m, r.2 = .made m ∧ P (key x) m)
          (fun _ _ l' => l' = l) v l) (fun _ _ l => HasDoneNothing l) id []) :
    (storing before key after).ensures J F
      (fun _ _ l => ∃ key content w m v v', w.objects key = none ∧ P key m ∧
        l = [⟨.putting key content, w, w.put key content⟩, ⟨.made m, v, v'⟩])
      (fun _ _ l => LeavesNothing l) id [] := by
  refine Code.ensures_bind.2 (Code.ensures_rollingBack (Code.ensures_mono hbefore ?_ fun _ _ l h => .nothing h))
  rintro x v _ ⟨⟨w, content, hfree, rfl⟩, hafter⟩
  refine Code.ensures_tryCatch.2 (Code.ensures_transaction (Code.ensures_mono hafter ?_ ?_))
  · rintro ⟨r, point⟩ v' _ ⟨rfl, m, rfl, hm⟩
    refine ⟨⟨fun hF' => absurd hF' (hF _), fun _ _ => leavesNothing_discard hfree⟩, fun s _ => ?_⟩
    exact ⟨key x, content, w, m, s, v' s, hfree, hm, rfl⟩
  · rintro e v' _ rfl
    exact ⟨fun hF' => absurd hF' (hF _), fun _ _ => leavesNothing_discard hfree⟩

/-- An operation that stores an object on its way. -/
theorem ensures_storing {before : Workflow B β} {key : β → StorageKey}
    {after : β → Workflow B (α × WorkflowPoint B)} (hF : ∀ key, ¬F (.discarding key))
    (hbefore : before.ensures J F (fun x v l => HasStored (key x) l ∧
        (after x).ensures J F (fun r _ l' => l' = l ∧ ∃ m, r.2 = .made m ∧ m.object = some (key x))
          (fun _ _ l' => l' = l) v l) (fun _ _ l => HasDoneNothing l) id []) :
    (storing before key after).ensures J F (fun _ _ l => HasCommitted l) (fun _ _ l => LeavesNothing l) id [] :=
  ensures_storingMove (P := fun key m => m.object = some key) hF hbefore

/-- Statements after an object was stored. -/
theorem ensures_after {f : α → Workflow B β} {Q : β → (World B → World B) → List (WorkflowDeed B) → Prop}
    (hx : x.Local fun _ => True) (hf : ∀ a v, (f a).ensures J F Q (fun _ _ l' => l' = l) v l) :
    (x >>= f).ensures J F Q (fun _ _ l' => l' = l) u l :=
  Code.ensures_quiet hx trivial (fun _ _ _ _ => trivial) (fun a v _ => hf a v) fun _ _ => rfl

variable {host : Host B Page} {cfg : Settings} {services : SigningServices B} {caller : Caller}

theorem ensures_createDocument (hF : ∀ key, ¬F (.discarding key)) (payload : DocumentCreate) (content : B)
    (id name : UUID) : (createDocument host caller payload content id name).ensures J F
      (fun _ _ l => HasCommitted l) (fun _ _ l => LeavesNothing l) (fun w => w) [] := by
  unfold createDocument
  split
  · exact .nothing fun d hd => nomatch hd
  have none : HasDoneNothing ([] : List (WorkflowDeed B)) := fun d hd => nomatch hd
  refine ensures_storing hF (ensures_beside (g := World.objects) (local_query _) (fun _ => rfl) (fun _ _ => none)
    fun _ v1 h1 => ?_)
  refine ensures_beside (Code.local_orRaise _ _) h1 (fun _ _ => none) fun tenant v2 h2 => ?_
  refine ensures_beside (local_requireSeat host caller _ _ _) h2 (fun _ _ => none) fun member v3 h3 => ?_
  refine ensures_beside (local_consumeDocument (fun _ _ _ => rfl) (fun _ _ _ => rfl) _ _) h3 (fun _ _ => none)
    fun _ v4 h4 => ?_
  refine ensures_putObject h4 fun l hstored => ⟨hstored, ?_⟩
  refine ensures_after (local_referTo _ _) fun _ _ => ensures_after (local_save trivial) fun _ _ => ?_
  refine ensures_after (local_save trivial) fun _ _ => ensures_after (local_audit (fun _ => trivial) _ _ _ _ _ _)
    fun _ _ => ensures_after (local_documentRead _ _) fun _ _ => ?_
  exact ⟨rfl, _, rfl, rfl⟩

theorem ensures_addVersion (hF : ∀ key, ¬F (.discarding key)) (identifier : String) (upload : VersionUpload B)
    (name : UUID) : (addVersion host caller identifier upload name).ensures J F
      (fun _ _ l => HasCommitted l) (fun _ _ l => LeavesNothing l) id [] := by
  unfold addVersion
  split
  · exact .nothing fun d hd => nomatch hd
  have none : HasDoneNothing ([] : List (WorkflowDeed B)) := fun d hd => nomatch hd
  refine ensures_storing hF (ensures_beside (g := World.objects) (local_documentOf host _ _) (fun _ => rfl)
    (fun _ _ => none) fun item v1 h1 => ?_)
  refine ensures_beside (local_requireSeat host caller _ _ _) h1 (fun _ _ => none) fun member v2 h2 => ?_
  refine ensures_beside (local_query _) h2 (fun _ _ => none) fun frozen v3 h3 => ?_
  refine ensures_beside (Code.local_require _ _) h3 (fun _ _ => none) fun _ v4 h4 => ?_
  refine ensures_putObject h4 fun l hstored => ⟨hstored, ?_⟩
  refine ensures_after (local_claim _ _) fun _ _ => ensures_after (local_save trivial) fun _ _ => ?_
  refine ensures_after (local_save trivial) fun _ _ => ensures_after (local_audit (fun _ => trivial) _ _ _ _ _ _)
    fun _ _ => ensures_after (local_documentRead _ _) fun _ _ => ?_
  exact ⟨rfl, _, rfl, rfl⟩

/-- The end of `sign`: the artifact is stored, and the signing that refers to it is made. -/
theorem ensures_composed (hu : Keeps World.objects u) (call : SignCall) (names : SigningNames)
    (signer : UUID × Signer) (request : UUID × SignatureRequest) (document : Document) (country : Option String)
    (countedAt : Int) (original : B) :
    (composeArtifact host cfg services call names signer request document country countedAt original >>=
      fun composed => pure ⟨composed.1, signer.2, request.2, composed.2⟩).ensures J F
      (fun x v l => HasStored x.key l ∧ (recordSignature x).ensures J F
        (fun r _ l' => l' = l ∧ ∃ y, r.2 = .made (.sign y) ∧ y.request = request.1 ∧
          (Move.sign y).object = some x.key) (fun _ _ l' => l' = l) v l)
      (fun _ _ l => HasDoneNothing l) u [] := by
  have none : HasDoneNothing ([] : List (WorkflowDeed B)) := fun d hd => nomatch hd
  refine Code.ensures_bind.2 ?_
  refine ensures_beside (local_query _) hu (fun _ _ => none) fun now v1 h1 => ?_
  refine ensures_beside (local_query _) h1 (fun _ _ => none) fun existing v2 h2 => ?_
  refine ensures_beside (local_serviceResult _) h2 (fun _ _ => none) fun generated v3 h3 => ?_
  refine ensures_beside (local_serviceResult _) h3 (fun _ _ => none) fun finished v4 h4 => ?_
  refine ensures_beside (local_documentOwnerStorageId host _) h4 (fun _ _ => none) fun owner v5 h5 => ?_
  refine ensures_putObject h5 fun l hstored => ⟨hstored, ?_⟩
  refine ensures_after (local_query _) fun taken _ => ensures_after (Code.local_require _ _) fun _ _ => ?_
  refine ensures_after (local_save trivial) fun _ _ => ensures_after (local_save trivial) fun _ _ => ?_
  refine ensures_after (local_audit (fun _ => trivial) _ _ _ _ _ _) fun _ _ =>
    ensures_after (local_query _) fun pending _ => ?_
  refine ensures_after (Code.local_onlyIf _ fun _ => Code.local_bind
    (local_audit (fun _ => trivial) _ _ _ _ _ _) fun _ => local_save trivial) fun _ _ => ?_
  exact ⟨rfl, _, rfl, rfl, rfl⟩

/-- `sign` up to the storage of the artifact, and what comes after it. -/
theorem ensures_prepareSignature (call : SignCall) (names : SigningNames) :
    (prepareSignature host cfg services caller call names).ensures J F
      (fun x v l => HasStored x.key l ∧ (recordSignature x).ensures J F
        (fun r _ l' => l' = l ∧ ∃ m, r.2 = .made m ∧ m.object = some x.key) (fun _ _ l' => l' = l) v l)
      (fun _ _ l => HasDoneNothing l) id [] := by
  have none : HasDoneNothing ([] : List (WorkflowDeed B)) := fun d hd => nomatch hd
  have hrecord : ∀ e, Keeps World.objects fun w : World B => w.record e := fun _ _ => rfl
  refine ensures_beside (g := World.objects) (local_resolveRequest host hrecord _ _ _ _ _ _) (fun _ => rfl)
    (fun _ _ => none) fun found v1 h1 => ?_
  refine ensures_beside (Code.local_require _ _) h1 (fun _ _ => none) fun _ v2 h2 => ?_
  refine ensures_beside (local_requireCertificate _ _ _) h2 (fun _ _ => none) fun _ v3 h3 => ?_
  refine ensures_beside (local_frozenVersion _) h3 (fun _ _ => none) fun frozen v4 h4 => ?_
  refine ensures_beside (local_query _) h4 (fun _ _ => none) fun tenant v5 h5 => ?_
  refine ensures_beside (local_requireRepresentation _ _) h5 (fun _ _ => none) fun _ v6 h6 => ?_
  refine ensures_beside (local_consumeSignature (fun _ _ _ => rfl) (fun _ _ _ => rfl) _) h6 (fun _ _ => none)
    fun countedAt v7 h7 => ?_
  refine ensures_beside (local_originalOf host _ _ _) h7 (fun _ _ => none) fun original v8 h8 => ?_
  refine Code.ensures_mono (ensures_composed h8 _ _ _ _ _ _ _ _) ?_ fun _ _ _ h => h
  rintro x v l ⟨hstored, hafter⟩
  refine ⟨hstored, Code.ensures_mono hafter ?_ fun _ _ _ h => h⟩
  rintro r v' l' ⟨hl, y, hmade, -, hobject⟩
  exact ⟨hl, _, hmade, hobject⟩

theorem ensures_sign (hF : ∀ key, ¬F (.discarding key)) (call : SignCall) (names : SigningNames) :
    (sign host cfg services caller call names).ensures J F (fun _ _ l => HasCommitted l)
      (fun _ _ l => LeavesNothing l) id [] := by
  unfold sign
  split
  · exact .nothing fun d hd => nomatch hd
  exact ensures_storing hF (ensures_prepareSignature call names)

end Ensures

/-! ## Runs -/

/-- The store keeps its objects. -/
abbrev reliableStore (B : Type) : Circumstances B :=
  ⟨True, False, True, fun _ _ => True⟩

/-- The calls that store an object. -/
inductive WorkflowCall.Stores : WorkflowCall B → Prop where
  | createDocument {caller : Caller} {actor : String} {payload : DocumentCreate} {content : B} {id name : UUID} :
      Stores (.manage caller actor (.createDocument payload content id name))
  | addVersion {caller : Caller} {actor identifier : String} {upload : VersionUpload B} {name : UUID} :
      Stores (.manage caller actor (.addVersion identifier upload name))
  | sign {caller : Caller} {call : SignCall} {names : SigningNames} : Stores (.sign caller call names)

section Runs

variable {host : Host B Page} {cfg : Settings} {services : SigningServices B} {Y Z : WorkflowSystem B}
  {steps : List (WorkflowStep B)} {i : Nat}

theorem ensures_stores {J : World B → Prop} {F : WorkflowPoint B → Prop} (hF : ∀ key, ¬F (.discarding key))
    {x : WorkflowCall B} (hx : x.Stores) : (x.run host cfg services).ensures J F (fun _ _ l => HasCommitted l)
      (fun _ _ l => LeavesNothing l) id [] := by
  cases hx with
  | createDocument =>
      exact Code.ensures_seq (ensures_createDocument hF _ _ _ _) (fun _ _ _ h => h) fun _ _ _ h => h
  | addVersion => exact Code.ensures_seq (ensures_addVersion hF _ _ _) (fun _ _ _ h => h) fun _ _ _ h => h
  | sign => exact Code.ensures_seq (ensures_sign hF _ _) (fun _ _ _ h => h) fun _ _ _ h => h

theorem numbered_of_run (hrun : Run (workflowRuns host cfg services (reliableStore B)) Y steps Z)
    (hidle : Y.sessions = []) (hnumbered : Y.shared.toArchive.Numbered) : Z.shared.toArchive.Numbered := by
  refine workflow_induct (motive := fun _ w => w.toArchive.Numbered) hrun hidle (fun _ _ _ _ _ => trivial)
    hnumbered (fun _ w w' ih hrests => ?_) fun _ w w' m ih hmoves => ?_
  · rw [hrests.archive]
    exact ih
  · obtain ⟨H, hallowed, -⟩ := hmoves.allowed
    rw [hmoves.archive]
    exact hallowed.numbered ih

/-- **All or nothing.** Whatever runs beside it and wherever its statements fail, a call that stores an object
    leaves nothing where it raises, and one new object with a row that refers to it where it returns. -/
theorem stores_or_nothing (hrun : Run (workflowRuns host cfg services (reliableStore B)) Y steps Z)
    (hidle : Y.sessions = []) (hnumbered : Y.shared.toArchive.Numbered)
    (hstart : ∀ x ∈ steps, ∀ base code, x.2 = .start base code → x.1.sessions.length = i →
      ∃ call : WorkflowCall B, call.Stores ∧ code = call.run host cfg services)
    (hi : Undisturbed (fun _ => True) (fun point => ∀ key, point ≠ .discarding key) i steps) :
    (Z.hasRaised i = true → LeavesNothing (deedsOf i steps)) ∧
      (Z.hasReturned i = true → StoresOne (deedsOf i steps)) := by
  obtain ⟨hreturned, hraised⟩ := hrun.ended hidle hi (Q := HasCommitted) (E := LeavesNothing)
    fun x hx base code hcode hlen => by
      obtain ⟨call, hcall, rfl⟩ := hstart x hx base code hcode hlen
      exact ensures_stores (fun key h => h key rfl) hcall
  refine ⟨hraised, fun hended => ?_⟩
  obtain ⟨key, content, w, m, v, v', hfree, hobject, hdeeds⟩ := hreturned hended
  -- The commit is a step of the run: it makes the move.
  have hcommit : (⟨.made m, v, v'⟩ : WorkflowDeed B) ∈ deedsOf i steps := by
    rw [hdeeds]
    simp
  obtain ⟨x, hx, X', -, hstep, hpub, hv, hv'⟩ := mem_deedsOf hcommit
  have hmeets : ∀ x ∈ steps, (workflowProtocol host cfg services (reliableStore B)).Meets x.1 x.2 :=
    fun _ _ _ _ _ => trivial
  have hmade : movedBy x = some m := by
    rw [movedBy, hpub]
  obtain ⟨hnone, -⟩ | ⟨m', hm', hmoves⟩ := workflow_step hrun hidle hmeets hx hstep
  · exact absurd (hmade.symm.trans hnone) (by simp)
  obtain rfl := Option.some.inj (hmade.symm.trans hm')
  obtain rfl : x.1.shared = v := hv
  obtain rfl : X'.shared = v' := hv'
  obtain ⟨H, hallowed, -⟩ := hmoves.allowed
  have hnow : x.1.shared.toArchive.Numbered := by
    obtain ⟨past, rest, rfl⟩ := List.append_of_mem hx
    exact numbered_of_run hrun.split.1 hidle hnumbered
  rw [hdeeds]
  refine .stored hfree hmoves.objects ?_ ?_
  · rw [hmoves.objects]
    exact hallowed.objectStored hobject trivial
  · rw [hmoves.archive]
    exact hallowed.refers hnow hobject

/-- A script disturbs nobody. -/
theorem undisturbed_of_labels {script : Script B} {J : World B → Prop} {F : WorkflowPoint B → Prop}
    (hlabels : steps.map Prod.snd = script.map (labelOf host cfg services)) (hJ : ∀ x ∈ steps, J x.1.shared) :
    Undisturbed J F i steps := by
  have hlabel : ∀ x ∈ steps, ∃ next, labelOf host cfg services next = x.2 := by
    intro x hx
    have hmem : x.2 ∈ steps.map Prod.snd := List.mem_map_of_mem hx
    rw [hlabels] at hmem
    obtain ⟨next, -, hnext⟩ := List.mem_map.1 hmem
    exact ⟨next, hnext⟩
  refine ⟨fun x hx _ => hJ x hx, fun x hx hfail => ?_, fun x hx => ?_⟩
  · obtain ⟨next, hnext⟩ := hlabel x hx
    cases next <;> exact absurd (hnext.trans hfail) (by simp [labelOf])
  · obtain ⟨next, hnext⟩ := hlabel x hx
    rw [← hnext]
    cases next <;> simp [labelOf]

/-- The calls of a script begin. -/
theorem started_of_labels {script : Script B} (hlabels : steps.map Prod.snd = script.map (labelOf host cfg services)) :
    ∀ x ∈ steps, ∀ base code, x.2 = .start base code →
      ∃ call, .inl call ∈ script ∧ code = call.run host cfg services := by
  intro x hx base code hcode
  have hmem : x.2 ∈ steps.map Prod.snd := List.mem_map_of_mem hx
  rw [hlabels, hcode] at hmem
  obtain ⟨next, hnext, hlabel⟩ := List.mem_map.1 hmem
  cases next with
  | inl call =>
      cases hlabel
      exact ⟨call, hnext, rfl⟩
  | inr i => exact absurd hlabel (by simp [labelOf])

theorem sampleWorkspace_numbered (r : SignatureRequest) (s : Signer) :
    (sampleWorkspace r s).toArchive.Numbered := by
  intro id n v hv
  obtain ⟨hk, -⟩ := (Table.get?_insert_eq_some hv).resolve_left (by simp)
  obtain ⟨rfl, rfl⟩ := Prod.mk.inj hk
  exact ⟨sampleDocument, rfl, Nat.le_refl _⟩

/-- A request with one signer, who has a link. -/
def openLease : WorkflowSystem SampleBytes :=
  ⟨sampleWorkspace (sampleRequest .open) (sampleSigner "signer@x" .pending), []⟩

def signOpenLease : WorkflowCall SampleBytes :=
  .sign none ⟨"token", "signer@x", sampleCommand, none⟩ ⟨40, 41, 42⟩

/-- The signer signs. -/
theorem stores_or_nothing_openLease :
    ∃ steps Z, Run (workflowRuns sampleHost sampleSettings sampleServices (reliableStore SampleBytes)) openLease
      steps Z ∧ Z.hasReturned 0 = true ∧ StoresOne (deedsOf 0 steps) := by
  obtain ⟨steps, Z, hrun, hlabels, hp⟩ := exists_labelled sampleHost sampleSettings sampleServices (Y := openLease)
    (reliableStore SampleBytes) (serial [(signOpenLease, 24)]) (p := fun _ Z => Z.hasReturned 0) (by decide +kernel)
  refine ⟨steps, Z, hrun, hp, (stores_or_nothing hrun rfl (sampleWorkspace_numbered _ _) ?_ ?_).2 hp⟩
  · intro x hx base code hcode _
    obtain ⟨call, hcall, rfl⟩ := started_of_labels hlabels x hx base code hcode
    obtain rfl : call = signOpenLease := by simpa [serial] using hcall
    exact ⟨signOpenLease, .sign, rfl⟩
  · exact undisturbed_of_labels hlabels fun _ _ => trivial

end Runs

end Rubrica
