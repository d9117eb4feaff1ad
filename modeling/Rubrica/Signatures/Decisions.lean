import Rubrica.Signatures.Signing
import Rubrica.Transactions.Solo

set_option autoImplicit false

/-! # Decisions

When the checks that the operations share let a call pass, alone: everything such a check has looked at is
a structure, and the check passes exactly when the structure can be filled. -/

namespace Rubrica

open Transactions

variable {B Page α β : Type}

/-! ## Results of statements -/

section Results

variable {u : World B → World B} {w : World B}

theorem result_query_bind (f : World B → α) (g : α → Workflow B β) :
    (query f >>= g).result u w = (g (f (u w))).result u w := rfl

theorem alone_query_bind (f : World B → α) (g : α → Workflow B β) :
    (query f >>= g).alone u w = (g (f (u w))).alone u w := rfl

theorem result_utcNow_bind (g : Int → Workflow B β) :
    (utcNow >>= g).result u w = (g (u w).clock).result u w := rfl

theorem alone_utcNow_bind (g : Int → Workflow B β) :
    (utcNow >>= g).alone u w = (g (u w).clock).alone u w := rfl

theorem alone_audit (request : Option UUID) (actorId action entityType : String) (entityId : UUID)
    (metadata : Dict) :
    (audit request actorId action entityType entityId metadata : Workflow B Unit).alone u w =
      ⟨.ok (), (fun v => v.record ⟨request, (u w).clock, actorId, action, entityType, entityId, metadata⟩) ∘ u,
        w⟩ := rfl

theorem alone_audit_bind (request : Option UUID) (actorId action entityType : String) (entityId : UUID)
    (metadata : Dict) (g : Unit → Workflow B β) :
    (audit request actorId action entityType entityId metadata >>= g).alone u w =
      (g ()).alone
        ((fun v => v.record ⟨request, (u w).clock, actorId, action, entityType, entityId, metadata⟩) ∘ u) w := rfl

theorem alone_selectRow (lock : Bool) (row : World B → Option RowKey) (f : World B → α) :
    (selectRow lock row f).alone u w = ⟨.ok (f (u w)), u, w⟩ := by
  cases lock <;> rfl

theorem result_orRaise_bind {o : Option α} {e : Failure} {g : α → Workflow B β} {b : β} :
    (Code.orRaise o e >>= g).result u w = .ok b ↔ ∃ a, o = some a ∧ (g a).result u w = .ok b := by
  cases o with
  | none => exact ⟨fun h => absurd h (by rintro ⟨⟩), fun ⟨_, h, _⟩ => absurd h (by simp)⟩
  | some a => exact ⟨fun h => ⟨a, rfl, h⟩, fun ⟨_, h, hb⟩ => Option.some.inj h ▸ hb⟩

theorem result_require_bind {p : Prop} [Decidable p] {e : Failure} {g : Unit → Workflow B β} {b : β} :
    (Code.require p e >>= g).result u w = .ok b ↔ p ∧ (g ()).result u w = .ok b := by
  by_cases hp : p
  · rw [Code.require, if_pos hp]
    exact ⟨fun h => ⟨hp, h⟩, And.right⟩
  · rw [Code.require, if_neg hp]
    exact ⟨fun h => absurd h (by rintro ⟨⟩), fun h => absurd h.1 hp⟩

/-- A check that only looks passes on what it has found. -/
theorem result_looks_bind {x : Workflow B α} (hx : x.Looks) {g : α → Workflow B β} {b : β} :
    (x >>= g).result u w = .ok b ↔ ∃ a, x.result u w = .ok a ∧ (g a).result u w = .ok b := by
  rw [Code.result_bind_looks hx]
  cases x.result u w with
  | ok a => exact ⟨fun h => ⟨a, rfl, h⟩, fun ⟨_, h, hb⟩ => Except.ok.inj h ▸ hb⟩
  | error e => exact ⟨fun h => absurd h (by rintro ⟨⟩), fun ⟨_, h, _⟩ => absurd h (by rintro ⟨⟩)⟩

theorem result_selectRow_bind {lock : Bool} {row : World B → Option RowKey} {f : World B → α}
    {g : α → Workflow B β} : (selectRow lock row f >>= g).result u w = (g (f (u w))).result u w := by
  show ((selectRow lock row f >>= g).alone u w).result = _
  rw [Code.alone_bind_of (alone_selectRow _ _ _)]

theorem claim_ok {entry : RowKey} {taken : World B → Bool} {x : Unit} :
    (claim entry taken : Workflow B Unit).result u w = .ok x ↔ taken (u w) = false := by
  show (Code.require (taken (u w) = false) Failure.integrity : Workflow B Unit).result u w = .ok x ↔ _
  unfold Code.require
  split
  · next h => exact ⟨fun _ => h, fun _ => rfl⟩
  · next h => exact ⟨fun hx => absurd hx (by rintro ⟨⟩), fun ht => absurd ht h⟩

theorem result_pure {a b : α} : (pure a : Workflow B α).result u w = .ok b ↔ a = b :=
  ⟨fun h => Except.ok.inj h, fun h => h ▸ rfl⟩

end Results

/-! ## Seats -/

/-- How many active members the plan of a tenant allows. -/
def World.seats (tenant : UUID) (w : World B) : Option Nat :=
  match w.liveAccount tenant with
  | none => some 1
  | some a => a.memberLimit w.clock

/-- The plan of the tenant has a seat for each active member. -/
def World.WithinSeats (tenant : UUID) (w : World B) : Prop :=
  ∀ n ∈ w.seats tenant, (w.members.select fun _ m => m.isActive tenant).length ≤ n

instance (tenant : UUID) (w : World B) : Decidable (w.WithinSeats tenant) := by
  unfold World.WithinSeats
  infer_instance

theorem alone_memberLimit {u : World B → World B} {w : World B} (tenant : UUID) :
    (memberLimit tenant none : Workflow B _).alone u w = ⟨.ok ((u w).seats tenant), u, w⟩ := by
  unfold memberLimit World.seats
  rw [alone_query_bind, alone_utcNow_bind]
  cases (u w).liveAccount tenant <;> rfl

theorem alone_teamOverLimit {u : World B → World B} {w : World B} (tenant : UUID) :
    (teamOverLimit tenant : Workflow B Bool).alone u w = ⟨.ok (!decide ((u w).WithinSeats tenant)), u, w⟩ := by
  unfold teamOverLimit
  rw [alone_query_bind, Code.alone_bind_of (alone_memberLimit tenant)]
  refine congrArg (fun b => Ended.mk (Except.ok b) u w) ?_
  rw [← decide_not, Bool.eq_iff_iff, decide_eq_true_iff, World.WithinSeats]
  cases (u w).seats tenant with
  | none => simp
  | some n => simp

/-! ## Access -/

section Host

variable (host : Host B Page) (caller : Caller)

/-- What `require_role` has checked. -/
structure Seat (tenant : UUID) (subject : String) (roles : Option (List MemberRole)) (w : World B)
    (m : UUID × TenantMember) : Prop where
  member : w.activeMember host caller subject tenant = some m
  role : ∀ rs ∈ roles, m.2.role ∈ rs
  seats : w.WithinSeats tenant

/-- What `_require_document_access` has checked. -/
structure MaySee (id : UUID) (document : Document) (actor : String) (request : Option UUID) (w : World B)
    (m : UUID × TenantMember) : Prop where
  seat : Seat host caller document.tenantId actor none w m
  sees : m.2.role = .admin ∨ host.lower document.createdBy = host.lower actor ∨
    w.invited id request (host.lower actor) = true

variable {host caller} {u : World B → World B} {w : World B}

theorem requireSeat_ok {tenant : UUID} {subject : String} {roles : Option (List MemberRole)}
    {x : (UUID × TenantMember) × Option BillingAccount} :
    (requireSeat host caller tenant subject roles).result u w = .ok x ↔
      Seat host caller tenant subject roles (u w) x.1 ∧ x.2 = (u w).liveAccount tenant := by
  unfold requireSeat
  rw [result_query_bind, result_orRaise_bind]
  constructor
  · rintro ⟨m, hm, h⟩
    rw [result_require_bind, result_query_bind, result_query_bind, result_utcNow_bind, result_require_bind,
      result_pure] at h
    obtain ⟨hrole, hseats, rfl⟩ := h
    exact ⟨⟨hm, hrole, hseats⟩, rfl⟩
  · rintro ⟨h, hx⟩
    refine ⟨x.1, h.member, ?_⟩
    rw [result_require_bind, result_query_bind, result_query_bind, result_utcNow_bind, result_require_bind,
      result_pure]
    exact ⟨h.role, h.seats, Prod.ext rfl hx.symm⟩

theorem requireDocumentAccess_ok {id : UUID} {document : Document} {actor : String} {request : Option UUID}
    {a : Option BillingAccount} :
    (requireDocumentAccess host caller id document actor request).result u w = .ok a ↔
      (∃ m, MaySee host caller id document actor request (u w) m) ∧
        a = (u w).liveAccount document.tenantId := by
  unfold requireDocumentAccess
  rw [result_looks_bind (local_requireSeat host caller _ _ _)]
  constructor
  · rintro ⟨x, hx, h⟩
    obtain ⟨hseat, haccount⟩ := requireSeat_ok.1 hx
    split at h
    · next hsees =>
        exact ⟨⟨x.1, hseat, hsees.imp_right Or.inl⟩, (result_pure.1 h).symm.trans haccount⟩
    · rw [result_query_bind, result_require_bind] at h
      exact ⟨⟨x.1, hseat, Or.inr (Or.inr h.1)⟩, (result_pure.1 h.2).symm.trans haccount⟩
  · rintro ⟨⟨m, hseat, hsees⟩, rfl⟩
    refine ⟨(m, _), requireSeat_ok.2 ⟨hseat, rfl⟩, ?_⟩
    by_cases hknown : m.2.role = .admin ∨ host.lower document.createdBy = host.lower actor
    · rw [if_pos hknown]
      exact result_pure.2 rfl
    · rw [if_neg hknown, result_query_bind, result_require_bind]
      exact ⟨(hsees.resolve_left fun h => hknown (Or.inl h)).resolve_left fun h => hknown (Or.inr h),
        result_pure.2 rfl⟩

theorem requireRequestAccess_ok {id : UUID} {request : SignatureRequest} {actor : String}
    {x : Document × Option BillingAccount} :
    (requireRequestAccess host caller id request actor).result u w = .ok x ↔
      (u w).documents.get? request.documentId = some x.1 ∧
        (∃ m, MaySee host caller request.documentId x.1 actor (some id) (u w) m) ∧
        x.2 = (u w).liveAccount x.1.tenantId := by
  unfold requireRequestAccess
  rw [result_query_bind, result_orRaise_bind]
  constructor
  · rintro ⟨d, hd, h⟩
    obtain ⟨a, ha, h⟩ := (result_looks_bind (local_requireDocumentAccess host caller _ _ _ _)).1 h
    obtain rfl := result_pure.1 h
    exact ⟨hd, requireDocumentAccess_ok.1 ha⟩
  · rintro ⟨hd, hsee⟩
    refine ⟨x.1, hd, (result_looks_bind (local_requireDocumentAccess host caller _ _ _ _)).2 ⟨x.2, ?_, rfl⟩⟩
    exact requireDocumentAccess_ok.2 hsee

theorem liveDocument_ok {id : UUID} {lock : Bool} {d : Document} :
    (liveDocument id lock).result u w = .ok d ↔ (u w).liveDocument id = some d := by
  unfold liveDocument
  rw [result_selectRow_bind]
  cases (u w).liveDocument id with
  | none => exact ⟨fun h => absurd h (by rintro ⟨⟩), fun h => absurd h (by simp)⟩
  | some d' => exact ⟨fun h => congrArg some (Except.ok.inj h), fun h => Option.some.inj h ▸ rfl⟩

theorem liveRequest_ok {id : UUID} {lock : Bool} {r : SignatureRequest} :
    (liveRequest id lock).result u w = .ok r ↔ (u w).liveRequest id = some r := by
  unfold liveRequest
  rw [result_selectRow_bind]
  cases (u w).liveRequest id with
  | none => exact ⟨fun h => absurd h (by rintro ⟨⟩), fun h => absurd h (by simp)⟩
  | some r' => exact ⟨fun h => congrArg some (Except.ok.inj h), fun h => Option.some.inj h ▸ rfl⟩

theorem requestFromToken_ok {token : String} {lock : Bool} {x : UUID × SignatureRequest} :
    (requestFromToken host token lock).result u w = .ok x ↔
      (u w).requestOfHash (host.sha256 (host.encode token)) = some x := by
  unfold requestFromToken
  dsimp only
  rw [result_selectRow_bind]
  cases (u w).requestOfHash (host.sha256 (host.encode token)) with
  | none => exact ⟨fun h => absurd h (by rintro ⟨⟩), fun h => absurd h (by simp)⟩
  | some x' => exact ⟨fun h => congrArg some (Except.ok.inj h), fun h => Option.some.inj h ▸ rfl⟩

theorem documentOf_ok {identifier : String} {lock : Bool} {x : UUID × Document} :
    (documentOf host identifier lock).result u w = .ok x ↔
      host.parseUuid identifier = some x.1 ∧ (u w).liveDocument x.1 = some x.2 := by
  unfold documentOf
  rw [result_orRaise_bind]
  constructor
  · rintro ⟨id, hid, h⟩
    obtain ⟨d, hd, h⟩ := (result_looks_bind (local_liveDocument _ _)).1 h
    obtain rfl := result_pure.1 h
    exact ⟨hid, liveDocument_ok.1 hd⟩
  · rintro ⟨hid, hd⟩
    exact ⟨x.1, hid, (result_looks_bind (local_liveDocument _ _)).2 ⟨x.2, liveDocument_ok.2 hd, rfl⟩⟩

theorem requestOf_ok {identifier : String} {lock : Bool} {x : UUID × SignatureRequest} :
    (requestOf host identifier lock).result u w = .ok x ↔
      host.parseUuid identifier = some x.1 ∧ (u w).liveRequest x.1 = some x.2 := by
  unfold requestOf
  rw [result_orRaise_bind]
  constructor
  · rintro ⟨id, hid, h⟩
    obtain ⟨r, hr, h⟩ := (result_looks_bind (local_liveRequest _ _)).1 h
    obtain rfl := result_pure.1 h
    exact ⟨hid, liveRequest_ok.1 hr⟩
  · rintro ⟨hid, hr⟩
    exact ⟨x.1, hid, (result_looks_bind (local_liveRequest _ _)).2 ⟨x.2, liveRequest_ok.2 hr, rfl⟩⟩

theorem signerOf_ok {identifier : String} {request : UUID} {x : UUID × Signer} :
    (signerOf host identifier request).result u w = .ok x ↔
      host.parseUuid identifier = some x.1 ∧ (u w).signers.get? x.1 = some x.2 ∧
        x.2.signatureRequestId = request := by
  unfold signerOf
  rw [result_orRaise_bind]
  constructor
  · rintro ⟨id, hid, h⟩
    obtain ⟨s, hs, h⟩ := result_orRaise_bind.1 h
    obtain rfl := result_pure.1 h
    obtain ⟨hget, hown⟩ := Option.filter_eq_some_iff.1 hs
    exact ⟨hid, hget, of_decide_eq_true hown⟩
  · rintro ⟨hid, hget, hown⟩
    exact ⟨x.1, hid, result_orRaise_bind.2
      ⟨x.2, Option.filter_eq_some_iff.2 ⟨hget, decide_eq_true hown⟩, rfl⟩⟩

end Host

/-! ## Reading -/

/-- A list comprehension shows what its rows show, one after the other. -/
theorem alone_readEach {ρ γ : Type} {read : ρ → Workflow B (List α)} {key : α → γ} {f : ρ → List γ}
    {u : World B → World B} {w : World B} {rows : List ρ}
    (h : ∀ x ∈ rows, ∃ l, (read x).alone u w = ⟨.ok l, u, w⟩ ∧ l.map key = f x) :
    ∃ l, (readEach read rows).alone u w = ⟨.ok l, u, w⟩ ∧ l.map key = rows.flatMap f := by
  induction rows with
  | nil => exact ⟨[], rfl, rfl⟩
  | cons x rest ih =>
      obtain ⟨hx, hrest⟩ := List.forall_mem_cons.1 h
      obtain ⟨l, hl, hkey⟩ := hx
      obtain ⟨others, hothers, hkeys⟩ := ih hrest
      refine ⟨l ++ others, ?_, ?_⟩
      · unfold readEach
        rw [Code.alone_bind_of hl, Code.alone_bind_of hothers]
        rfl
      · rw [List.map_append, hkey, hkeys, List.flatMap_cons]

theorem local_readEach {ρ : Type} {W : (World B → World B) → Prop} {read : ρ → Workflow B (List α)}
    (h : ∀ x, (read x).Local W) (rows : List ρ) : (readEach read rows).Local W := by
  induction rows with
  | nil => exact Code.local_pure _
  | cons x rest ih =>
      exact Code.local_bind (h x) fun _ => Code.local_bind ih fun _ => Code.local_pure _

/-- A transaction that is rolled back in any case is its result. -/
theorem alone_reading {x : Workflow B α} {W : (World B → World B) → Prop} (hx : x.Local W) (w : World B) :
    (reading x).alone id w = ⟨x.result id w, id, w⟩ := by
  unfold reading Code.rollingBack Code.result
  rw [Code.alone_tryCatch]
  have hbind := Code.alone_bind x (fun a =>
    (.step .plain .rollback (fun _ => .pure a) (.raise Faulty.fault) : Workflow B α)) id w
  rw [show x >>= _ = x.bind _ from rfl, hbind, Code.alone_local hx]
  cases hr : (x.alone id w).result <;> rfl

end Rubrica
