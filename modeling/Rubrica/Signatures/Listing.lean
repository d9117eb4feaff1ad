import Rubrica.Signatures.Decisions

set_option autoImplicit false

/-! # Lists and direct access

`list_requests` and `list_documents` select in one query what `get_request` and `get_document` decide step
by step. Both are brought to one form here, a condition on rows, and the two conditions are compared: they
differ in exactly four ways for requests, in one for documents. -/

namespace Rubrica

open Transactions

variable {B Page α : Type} (host : Host B Page) (caller : Caller) (actor : String)

/-! ## What a list holds -/

/-- Does the actor administer the tenant, by any of the memberships that identify it? -/
def World.administers (tenant : UUID) (w : World B) : Bool :=
  w.members.any fun _ m => m.isActive tenant && m.isIdentity host caller actor && m.role = .admin

/-- The memberships that show a row of a tenant: all of the actor's where `known`, else those of an
    administrator. -/
def World.showing (tenant : UUID) (known : Bool) (w : World B) : List (UUID × TenantMember) :=
  w.members.select fun _ m =>
    m.isActive tenant && m.isIdentity host caller actor && (m.role = .admin || known)

variable {host caller actor} {w : World B}

theorem activeMember_iff {tenant : UUID} :
    (∃ m, w.activeMember host caller actor tenant = some m) ↔
      ∃ id m, w.members.get? id = some m ∧ m.isActive tenant = true ∧
        m.isIdentity host caller actor = true := by
  unfold World.activeMember
  rw [← Option.isSome_iff_exists, Option.isSome_iff_ne_none, Ne, List.head?_eq_none_iff,
    Table.select_eq_nil_iff]
  simp [and_comm]

theorem showing_ne_nil {tenant : UUID} {known : Bool} :
    w.showing host caller actor tenant known ≠ [] ↔
      w.administers host caller actor tenant = true ∨
        known = true ∧ ∃ m, w.activeMember host caller actor tenant = some m := by
  rw [activeMember_iff, World.administers, Table.any_iff, World.showing, Ne, Table.select_eq_nil_iff]
  cases known with
  | false => simp [and_assoc]
  | true =>
      simp only [Bool.or_true, Bool.and_true, Bool.and_eq_true, decide_eq_true_eq, true_and]
      constructor
      · intro h
        push Not at h
        obtain ⟨id, m, hget, hm⟩ := h
        exact Or.inr ⟨id, m, hget, by simpa using hm⟩
      · rintro (⟨id, m, hget, hm, -⟩ | ⟨id, m, hget, hm⟩) h
        · exact absurd hm (by simpa using h id m hget)
        · exact absurd hm (by simpa using h id m hget)

theorem activeMember_administers {tenant : UUID} {m : UUID × TenantMember}
    (h : w.activeMember host caller actor tenant = some m) (hrole : m.2.role = .admin) :
    w.administers host caller actor tenant = true := by
  obtain ⟨hget, hm⟩ := Table.mem_select_iff.1 (List.mem_of_mem_head? h)
  exact Table.any_iff.2 ⟨m.1, m.2, hget, by simpa [hrole, and_comm] using hm⟩

theorem administers_activeMember {tenant : UUID} (h : w.administers host caller actor tenant = true) :
    ∃ m, w.activeMember host caller actor tenant = some m := by
  obtain ⟨id, m, hget, hm⟩ := Table.any_iff.1 h
  simp only [Bool.and_eq_true] at hm
  exact activeMember_iff.2 ⟨id, m, hget, hm.1⟩

theorem mem_documentsFor {x : UUID × Document} :
    x ∈ w.documentsFor host caller actor ↔ w.liveDocument x.1 = some x.2 ∧
      (w.administers host caller actor x.2.tenantId = true ∨
        (host.lower x.2.createdBy = host.lower actor ∨ w.invited x.1 none (host.lower actor) = true) ∧
          ∃ m, w.activeMember host caller actor x.2.tenantId = some m) := by
  have hshown : w.showing host caller actor x.2.tenantId
      (host.lower x.2.createdBy = host.lower actor || w.invited x.1 none (host.lower actor)) ≠ [] ↔ _ :=
    showing_ne_nil
  rw [Bool.or_eq_true, decide_eq_true_iff] at hshown
  rw [← hshown, World.documentsFor, List.mem_flatMap]
  simp only [List.mem_map, List.mem_insertionSort, Bool.or_assoc]
  constructor
  · rintro ⟨y, hy, m, hm, rfl⟩
    obtain ⟨hget, hlive⟩ := Table.mem_select_iff.1 hy
    exact ⟨Option.filter_eq_some_iff.2 ⟨hget, hlive⟩, List.ne_nil_of_mem hm⟩
  · rintro ⟨hlive, hne⟩
    obtain ⟨hget, hlive⟩ := Option.filter_eq_some_iff.1 hlive
    obtain ⟨m, hm⟩ := List.exists_mem_of_ne_nil _ hne
    exact ⟨x, Table.mem_select_iff.2 ⟨hget, hlive⟩, m, hm, rfl⟩

theorem mem_requestsFor {x : UUID × SignatureRequest} :
    x ∈ w.requestsFor host caller actor ↔ w.liveRequest x.1 = some x.2 ∧
      ∃ d, w.liveDocument x.2.documentId = some d ∧
        (w.administers host caller actor d.tenantId = true ∨
          (host.lower x.2.createdBy = host.lower actor ∨ w.isSigner x.1 (host.lower actor) = true) ∧
            ∃ m, w.activeMember host caller actor d.tenantId = some m) := by
  have hshown (d : Document) : w.showing host caller actor d.tenantId
      (host.lower x.2.createdBy = host.lower actor || w.isSigner x.1 (host.lower actor)) ≠ [] ↔ _ :=
    showing_ne_nil
  simp only [Bool.or_eq_true, decide_eq_true_iff] at hshown
  simp only [← hshown, World.requestsFor, List.mem_flatMap, List.mem_map, List.mem_insertionSort, Bool.or_assoc,
    Option.mem_toList]
  constructor
  · rintro ⟨y, hy, d, hd, m, hm, rfl⟩
    obtain ⟨hget, hlive⟩ := Table.mem_select_iff.1 hy
    exact ⟨Option.filter_eq_some_iff.2 ⟨hget, hlive⟩, d, hd, List.ne_nil_of_mem hm⟩
  · rintro ⟨hlive, d, hd, hne⟩
    obtain ⟨hget, hlive⟩ := Option.filter_eq_some_iff.1 hlive
    obtain ⟨m, hm⟩ := List.exists_mem_of_ne_nil _ hne
    exact ⟨x, Table.mem_select_iff.2 ⟨hget, hlive⟩, d, hd, m, hm, rfl⟩

/-! ## What the two sides come to -/

section Sides

variable (host caller actor) (identifier : String) (w : World B)

/-- A document that is not deleted, of a team that the actor belongs to. -/
structure OwnDocument (x : UUID × Document) (m : UUID × TenantMember) : Prop where
  parsed : host.parseUuid identifier = some x.1
  document : w.liveDocument x.1 = some x.2
  seat : Seat host caller x.2.tenantId actor none w m

/-- A request that is not deleted, and its document, of a team that the actor belongs to. -/
structure OwnRequest (x : UUID × SignatureRequest) (d : Document) (m : UUID × TenantMember) : Prop where
  parsed : host.parseUuid identifier = some x.1
  request : w.liveRequest x.1 = some x.2
  document : w.documents.get? x.2.documentId = some d
  seat : Seat host caller d.tenantId actor none w m

def DocumentListed : Prop :=
  ∃ document reads, host.parseUuid identifier = some document ∧
    (listDocuments host caller actor).result id w = .ok reads ∧ document ∈ reads.map DocumentRead.id

def DocumentGot : Prop :=
  ∃ read, (getDocument host caller identifier actor).result id w = .ok read

def RequestListed : Prop :=
  ∃ request reads, host.parseUuid identifier = some request ∧
    (listRequests host caller actor).result id w = .ok reads ∧ request ∈ reads.map SignatureRequestRead.id

def RequestGot : Prop :=
  ∃ read, (getRequest host caller identifier actor).result id w = .ok read

end Sides

theorem local_readListedDocument {W : (World B → World B) → Prop} (x : UUID × Document) :
    (readListedDocument x : Workflow B _).Local W :=
  Code.local_bind (local_teamOverLimit _) fun _ => Code.local_ite (Code.local_pure _)
    (Code.local_bind (local_documentRead _ _) fun _ => Code.local_pure _)

theorem local_readListed {W : (World B → World B) → Prop} (x : UUID × SignatureRequest) :
    (readListed x : Workflow B _).Local W :=
  Code.local_bind (local_liveDocument _ _) fun _ => Code.local_bind (local_teamOverLimit _) fun _ =>
    Code.local_ite (Code.local_pure _)
      (Code.local_bind (local_requestRead _ _ _) fun _ => Code.local_pure _)

section

variable (host caller actor w)

theorem listDocuments_ids : ∃ reads, (listDocuments host caller actor).result id w = .ok reads ∧
    reads.map DocumentRead.id = (w.documentsFor host caller actor).flatMap fun x =>
      if w.WithinSeats x.2.tenantId then [x.1] else [] := by
  have hrow : ∀ x ∈ w.documentsFor host caller actor, ∃ l,
      (readListedDocument x).alone id w = ⟨.ok l, id, w⟩ ∧
        l.map DocumentRead.id = if w.WithinSeats x.2.tenantId then [x.1] else [] := by
    intro x _
    unfold readListedDocument
    rw [Code.alone_bind_of (alone_teamOverLimit _)]
    by_cases hseats : w.WithinSeats x.2.tenantId
    · rw [if_pos hseats, if_neg (by simpa using hseats)]
      exact ⟨_, rfl, rfl⟩
    · rw [if_neg hseats, if_pos (by simpa using hseats)]
      exact ⟨_, rfl, rfl⟩
  obtain ⟨l, hl, hids⟩ := alone_readEach hrow
  refine ⟨l, ?_, hids⟩
  unfold Code.result listDocuments
  rw [alone_reading (W := fun _ => False) (Code.local_bind (local_query _) fun _ => local_readEach local_readListedDocument _)]
  exact congrArg Ended.result hl

theorem listRequests_ids : ∃ reads, (listRequests host caller actor).result id w = .ok reads ∧
    reads.map SignatureRequestRead.id = (w.requestsFor host caller actor).flatMap fun x =>
      if (w.liveDocument x.2.documentId).any fun d => w.WithinSeats d.tenantId then [x.1] else [] := by
  have hrow : ∀ x ∈ w.requestsFor host caller actor, ∃ l,
      (readListed x).alone id w = ⟨.ok l, id, w⟩ ∧ l.map SignatureRequestRead.id =
        if (w.liveDocument x.2.documentId).any fun d => w.WithinSeats d.tenantId then [x.1] else [] := by
    intro x hx
    obtain ⟨-, d, hd, -⟩ := mem_requestsFor.1 hx
    have hlook : (liveDocument x.2.documentId false).result id w = .ok d := liveDocument_ok.2 hd
    unfold readListed
    rw [Code.alone_bind_looks_ok (local_liveDocument _ _) hlook, Code.alone_bind_of (alone_teamOverLimit _)]
    simp only [hd, Option.any_some, decide_eq_true_iff]
    by_cases hseats : w.WithinSeats d.tenantId
    · rw [if_pos hseats, if_neg (by simpa using hseats)]
      exact ⟨_, rfl, rfl⟩
    · rw [if_neg hseats, if_pos (by simpa using hseats)]
      exact ⟨_, rfl, rfl⟩
  obtain ⟨l, hl, hids⟩ := alone_readEach hrow
  refine ⟨l, ?_, hids⟩
  unfold Code.result listRequests
  rw [alone_reading (W := fun _ => False) (Code.local_bind (local_query _) fun _ => local_readEach local_readListed _)]
  exact congrArg Ended.result hl

end

variable {identifier : String}

theorem documentListed_iff : DocumentListed host caller actor identifier w ↔
    ∃ x m, OwnDocument host caller actor identifier w x m ∧
      (w.administers host caller actor x.2.tenantId = true ∨
        host.lower x.2.createdBy = host.lower actor ∨ w.invited x.1 none (host.lower actor) = true) := by
  obtain ⟨reads, hreads, hids⟩ := listDocuments_ids host caller actor w
  constructor
  · rintro ⟨document, reads', hid, hreads', hmem⟩
    obtain rfl := Except.ok.inj (hreads.symm.trans hreads')
    rw [hids, List.mem_flatMap] at hmem
    obtain ⟨x, hx, hmem⟩ := hmem
    split at hmem
    · next hseats =>
        obtain rfl := List.mem_singleton.1 hmem
        obtain ⟨hlive, hshown⟩ := mem_documentsFor.1 hx
        have hm : ∃ m, w.activeMember host caller actor x.2.tenantId = some m :=
          hshown.elim administers_activeMember And.right
        obtain ⟨m, hm⟩ := hm
        exact ⟨x, m, ⟨hid, hlive, hm, fun _ h => absurd h (by simp), hseats⟩, hshown.imp_right And.left⟩
    · exact absurd hmem (List.not_mem_nil)
  · rintro ⟨x, m, hown, hshown⟩
    refine ⟨x.1, reads, hown.parsed, hreads, hids ▸ List.mem_flatMap.2 ⟨x, ?_, ?_⟩⟩
    · exact mem_documentsFor.2 ⟨hown.document, hshown.imp_right fun h => ⟨h, m, hown.seat.member⟩⟩
    · rw [if_pos hown.seat.seats]
      exact List.mem_singleton_self _

theorem documentGot_iff : DocumentGot host caller actor identifier w ↔
    ∃ x m, OwnDocument host caller actor identifier w x m ∧
      (m.2.role = .admin ∨ host.lower x.2.createdBy = host.lower actor ∨
        w.invited x.1 none (host.lower actor) = true) := by
  unfold DocumentGot getDocument Code.result
  rw [alone_reading (W := fun _ => False) (Code.local_bind (local_documentOf host _ _) fun _ =>
    Code.local_bind (local_requireDocumentAccess host caller _ _ _ _) fun _ => local_documentRead _ _)]
  simp only [result_looks_bind (local_documentOf host _ _), documentOf_ok,
    result_looks_bind (local_requireDocumentAccess host caller _ _ _ _), requireDocumentAccess_ok]
  constructor
  · rintro ⟨read, x, ⟨hid, hx⟩, a, ⟨⟨m, hm⟩, -⟩, -⟩
    exact ⟨x, m, ⟨hid, hx, hm.seat⟩, hm.sees⟩
  · rintro ⟨x, m, hown, hsees⟩
    exact ⟨_, x, ⟨hown.parsed, hown.document⟩, _, ⟨⟨m, hown.seat, hsees⟩, rfl⟩, rfl⟩

theorem requestListed_iff : RequestListed host caller actor identifier w ↔
    ∃ x d m, OwnRequest host caller actor identifier w x d m ∧ d.deletedAt = none ∧
      (w.administers host caller actor d.tenantId = true ∨
        host.lower x.2.createdBy = host.lower actor ∨ w.isSigner x.1 (host.lower actor) = true) := by
  obtain ⟨reads, hreads, hids⟩ := listRequests_ids host caller actor w
  constructor
  · rintro ⟨request, reads', hid, hreads', hmem⟩
    obtain rfl := Except.ok.inj (hreads.symm.trans hreads')
    rw [hids, List.mem_flatMap] at hmem
    obtain ⟨x, hx, hmem⟩ := hmem
    obtain ⟨hlive, d, hd, hshown⟩ := mem_requestsFor.1 hx
    simp only [hd, Option.any_some, decide_eq_true_iff] at hmem
    split at hmem
    · next hseats =>
        obtain rfl := List.mem_singleton.1 hmem
        have hm : ∃ m, w.activeMember host caller actor d.tenantId = some m :=
          hshown.elim administers_activeMember And.right
        obtain ⟨m, hm⟩ := hm
        obtain ⟨hget, hnone⟩ := Option.filter_eq_some_iff.1 hd
        exact ⟨x, d, m, ⟨hid, hlive, hget, hm, fun _ h => absurd h (by simp), hseats⟩,
          Option.isNone_iff_eq_none.1 hnone, hshown.imp_right And.left⟩
    · exact absurd hmem (List.not_mem_nil)
  · rintro ⟨x, d, m, hown, hnone, hshown⟩
    have hd : w.liveDocument x.2.documentId = some d :=
      Option.filter_eq_some_iff.2 ⟨hown.document, Option.isNone_iff_eq_none.2 hnone⟩
    refine ⟨x.1, reads, hown.parsed, hreads, hids ▸ List.mem_flatMap.2 ⟨x, ?_, ?_⟩⟩
    · exact mem_requestsFor.2 ⟨hown.request, d, hd, hshown.imp_right fun h => ⟨h, m, hown.seat.member⟩⟩
    · rw [hd, Option.any_some, if_pos (decide_eq_true hown.seat.seats)]
      exact List.mem_singleton_self _

/-- Of a request that is not deleted, the invitations to its document that are its own are its signers. -/
theorem invited_own {request : UUID} {r : SignatureRequest} (h : w.liveRequest request = some r)
    (subject : String) : w.invited r.documentId (some request) subject = w.isSigner request subject := by
  obtain ⟨hget, hlive⟩ := Option.filter_eq_some_iff.1 h
  rw [Bool.eq_iff_iff, World.invited, World.isSigner, Table.any_iff, Table.any_iff]
  constructor
  · rintro ⟨id, s, hs, hp⟩
    simp only [Bool.and_eq_true, Option.all_some, decide_eq_true_iff] at hp
    exact ⟨id, s, hs, by simpa [hp.1.2] using hp.1.1⟩
  · rintro ⟨id, s, hs, hp⟩
    simp only [Bool.and_eq_true, decide_eq_true_iff] at hp
    obtain ⟨rfl, hp⟩ := hp
    exact ⟨id, s, hs, by simpa [hget, hlive] using hp⟩

theorem requestGot_iff : RequestGot host caller actor identifier w ↔
    ∃ x d m, OwnRequest host caller actor identifier w x d m ∧
      (m.2.role = .admin ∨ host.lower d.createdBy = host.lower actor ∨
        w.isSigner x.1 (host.lower actor) = true) := by
  unfold RequestGot getRequest Code.result
  rw [alone_reading (W := fun _ => False) (Code.local_bind (local_requestOf host _ _) fun _ =>
    Code.local_bind (local_requireRequestAccess host caller _ _ _) fun _ => local_requestRead _ _ _)]
  simp only [result_looks_bind (local_requestOf host _ _), requestOf_ok,
    result_looks_bind (local_requireRequestAccess host caller _ _ _), requireRequestAccess_ok]
  constructor
  · rintro ⟨read, x, ⟨hid, hx⟩, a, ⟨hd, ⟨m, hm⟩, -⟩, -⟩
    exact ⟨x, a.1, m, ⟨hid, hx, hd, hm.seat⟩, invited_own hx _ ▸ hm.sees⟩
  · rintro ⟨x, d, m, hown, hsees⟩
    refine ⟨_, x, ⟨hown.parsed, hown.request⟩, (d, w.liveAccount d.tenantId), ⟨hown.document, ⟨m, hown.seat, ?_⟩, rfl⟩, rfl⟩
    exact (invited_own hown.request _).symm ▸ hsees

/-! ## Where they differ -/

section Drift

variable (host caller actor) (identifier : String) (w : World B)

/-- A request of the actor's team whose document is not deleted, and of which the actor is not a signer. -/
structure UnsignedRequest (x : UUID × SignatureRequest) (d : Document) (m : UUID × TenantMember) : Prop
    extends OwnRequest host caller actor identifier w x d m where
  kept : d.deletedAt = none
  other : w.isSigner x.1 (host.lower actor) = false

/-- The ways in which the list of requests says something else than direct access. -/
inductive RequestDrift : Prop where
  /-- The document is deleted: the request is not listed, and whoever could see it still can. -/
  | deletedDocument {x : UUID × SignatureRequest} {d : Document} {m : UUID × TenantMember}
      (own : OwnRequest host caller actor identifier w x d m) (deleted : d.deletedAt ≠ none)
      (sees : m.2.role = .admin ∨ host.lower d.createdBy = host.lower actor ∨
        w.isSigner x.1 (host.lower actor) = true)
  /-- The author of a request on the document of somebody else is shown it and refused. -/
  | requestAuthor {x : UUID × SignatureRequest} {d : Document} {m : UUID × TenantMember}
      (own : UnsignedRequest host caller actor identifier w x d m) (role : m.2.role ≠ .admin)
      (author : host.lower x.2.createdBy = host.lower actor)
      (document : host.lower d.createdBy ≠ host.lower actor)
  /-- The author of the document is admitted to a request of somebody else and not shown it. -/
  | documentAuthor {x : UUID × SignatureRequest} {d : Document} {m : UUID × TenantMember}
      (own : UnsignedRequest host caller actor identifier w x d m)
      (role : w.administers host caller actor d.tenantId = false)
      (author : host.lower x.2.createdBy ≠ host.lower actor)
      (document : host.lower d.createdBy = host.lower actor)
  /-- Direct access finds a membership without the role of another one that identifies the actor too. -/
  | secondMembership {x : UUID × SignatureRequest} {d : Document} {m : UUID × TenantMember}
      (own : UnsignedRequest host caller actor identifier w x d m) (role : m.2.role ≠ .admin)
      (second : w.administers host caller actor d.tenantId = true)
      (author : host.lower x.2.createdBy ≠ host.lower actor)
      (document : host.lower d.createdBy ≠ host.lower actor)

/-- Documents differ by a second membership only. -/
structure DocumentDrift (x : UUID × Document) (m : UUID × TenantMember) : Prop
    extends OwnDocument host caller actor identifier w x m where
  role : m.2.role ≠ .admin
  second : w.administers host caller actor x.2.tenantId = true
  author : host.lower x.2.createdBy ≠ host.lower actor
  other : w.invited x.1 none (host.lower actor) = false

end Drift

theorem OwnDocument.unique {x y : UUID × Document} {m n : UUID × TenantMember}
    (hx : OwnDocument host caller actor identifier w x m) (hy : OwnDocument host caller actor identifier w y n) :
    x = y ∧ m = n := by
  have hid := Option.some.inj (hx.parsed.symm.trans hy.parsed)
  have hd : x.2 = y.2 := Option.some.inj (hx.document.symm.trans (hid ▸ hy.document))
  obtain rfl := Prod.ext hid hd
  exact ⟨rfl, Option.some.inj (hx.seat.member.symm.trans hy.seat.member)⟩

theorem OwnRequest.unique {x y : UUID × SignatureRequest} {d e : Document} {m n : UUID × TenantMember}
    (hx : OwnRequest host caller actor identifier w x d m)
    (hy : OwnRequest host caller actor identifier w y e n) : x = y ∧ d = e ∧ m = n := by
  have hid := Option.some.inj (hx.parsed.symm.trans hy.parsed)
  have hr : x.2 = y.2 := Option.some.inj (hx.request.symm.trans (hid ▸ hy.request))
  obtain rfl := Prod.ext hid hr
  obtain rfl := Option.some.inj (hx.document.symm.trans hy.document)
  exact ⟨rfl, rfl, Option.some.inj (hx.seat.member.symm.trans hy.seat.member)⟩

theorem documentDrift_iff : (¬(DocumentListed host caller actor identifier w ↔
      DocumentGot host caller actor identifier w)) ↔
    ∃ x m, DocumentDrift host caller actor identifier w x m := by
  rw [documentListed_iff, documentGot_iff]
  constructor
  · intro hne
    by_contra hnone
    refine hne ⟨?_, ?_⟩
    · rintro ⟨x, m, hown, hshown⟩
      refine ⟨x, m, hown, ?_⟩
      by_contra hrefused
      push Not at hrefused
      obtain ⟨hrole, hauthor, hother⟩ := hrefused
      exact hnone ⟨x, m, hown, hrole, hshown.resolve_right fun h => h.elim hauthor hother, hauthor,
        Bool.eq_false_iff.2 hother⟩
    · rintro ⟨x, m, hown, hsees⟩
      exact ⟨x, m, hown, hsees.imp_left (activeMember_administers hown.seat.member)⟩
  · rintro ⟨x, m, hdrift⟩ hagree
    obtain ⟨y, n, hown, hsees⟩ := hagree.1 ⟨x, m, hdrift.toOwnDocument, Or.inl hdrift.second⟩
    obtain ⟨rfl, rfl⟩ := hdrift.toOwnDocument.unique hown
    obtain hrole | hauthor | hother := hsees
    · exact hdrift.role hrole
    · exact hdrift.author hauthor
    · exact Bool.false_ne_true (hdrift.other.symm.trans hother)

section Own

variable {x : UUID × SignatureRequest} {d : Document} {m : UUID × TenantMember}

theorem OwnRequest.listed_iff (own : OwnRequest host caller actor identifier w x d m) :
    RequestListed host caller actor identifier w ↔ d.deletedAt = none ∧
      (w.administers host caller actor d.tenantId = true ∨
        host.lower x.2.createdBy = host.lower actor ∨ w.isSigner x.1 (host.lower actor) = true) := by
  rw [requestListed_iff]
  constructor
  · rintro ⟨y, e, n, hown, h⟩
    obtain ⟨rfl, rfl, rfl⟩ := own.unique hown
    exact h
  · exact fun h => ⟨x, d, m, own, h⟩

theorem OwnRequest.got_iff (own : OwnRequest host caller actor identifier w x d m) :
    RequestGot host caller actor identifier w ↔
      (m.2.role = .admin ∨ host.lower d.createdBy = host.lower actor ∨
        w.isSigner x.1 (host.lower actor) = true) := by
  rw [requestGot_iff]
  constructor
  · rintro ⟨y, e, n, hown, h⟩
    obtain ⟨rfl, rfl, rfl⟩ := own.unique hown
    exact h
  · exact fun h => ⟨x, d, m, own, h⟩

/-- Whoever is shown a request and refused has created it, or has a second membership. -/
theorem OwnRequest.drift_of_listed (own : OwnRequest host caller actor identifier w x d m)
    (hlisted : RequestListed host caller actor identifier w)
    (hgot : ¬RequestGot host caller actor identifier w) : RequestDrift host caller actor identifier w := by
  obtain ⟨hkept, hshown⟩ := own.listed_iff.1 hlisted
  rw [own.got_iff] at hgot
  push Not at hgot
  obtain ⟨hrole, hdocument, hother⟩ := hgot
  have hunsigned : UnsignedRequest host caller actor identifier w x d m :=
    ⟨own, hkept, Bool.eq_false_iff.2 hother⟩
  by_cases hauthor : host.lower x.2.createdBy = host.lower actor
  · exact .requestAuthor hunsigned hrole hauthor hdocument
  · exact .secondMembership hunsigned hrole (hshown.resolve_right fun h => h.elim hauthor hother) hauthor
      hdocument

/-- Whoever is admitted to a request and not shown it has created its document, or that is deleted. -/
theorem OwnRequest.drift_of_got (own : OwnRequest host caller actor identifier w x d m)
    (hgot : RequestGot host caller actor identifier w)
    (hlisted : ¬RequestListed host caller actor identifier w) :
    RequestDrift host caller actor identifier w := by
  rw [own.listed_iff] at hlisted
  have hsees := own.got_iff.1 hgot
  by_cases hkept : d.deletedAt = none
  · obtain ⟨hadmin, hshown⟩ := not_or.1 fun h => hlisted ⟨hkept, h⟩
    obtain ⟨hauthor, hother⟩ := not_or.1 hshown
    have hrole : m.2.role ≠ .admin := fun h => hadmin (activeMember_administers own.seat.member h)
    exact .documentAuthor ⟨own, hkept, Bool.eq_false_iff.2 hother⟩ (Bool.eq_false_iff.2 hadmin) hauthor
      ((hsees.resolve_left hrole).resolve_right hother)
  · exact .deletedDocument own hkept hsees

end Own

theorem RequestDrift.not_agree (h : RequestDrift host caller actor identifier w) :
    ¬(RequestListed host caller actor identifier w ↔ RequestGot host caller actor identifier w) := by
  cases h with
  | deletedDocument own deleted sees =>
      exact fun h => deleted (own.listed_iff.1 (h.2 (own.got_iff.2 sees))).1
  | requestAuthor own role author document =>
      intro h
      have hgot := h.1 (own.listed_iff.2 ⟨own.kept, Or.inr (Or.inl author)⟩)
      obtain hrole | hauthor | hother := own.got_iff.1 hgot
      · exact role hrole
      · exact document hauthor
      · exact Bool.false_ne_true (own.other.symm.trans hother)
  | documentAuthor own role author document =>
      intro h
      have hlisted := h.2 (own.got_iff.2 (Or.inr (Or.inl document)))
      obtain hrole | hauthor | hother := (own.listed_iff.1 hlisted).2
      · exact Bool.false_ne_true (role.symm.trans hrole)
      · exact author hauthor
      · exact Bool.false_ne_true (own.other.symm.trans hother)
  | secondMembership own role second author document =>
      intro h
      have hgot := h.1 (own.listed_iff.2 ⟨own.kept, Or.inl second⟩)
      obtain hrole | hauthor | hother := own.got_iff.1 hgot
      · exact role hrole
      · exact document hauthor
      · exact Bool.false_ne_true (own.other.symm.trans hother)

theorem requestDrift_iff : ¬(RequestListed host caller actor identifier w ↔
      RequestGot host caller actor identifier w) ↔ RequestDrift host caller actor identifier w := by
  refine ⟨fun hne => ?_, RequestDrift.not_agree⟩
  by_cases hlisted : RequestListed host caller actor identifier w
  · obtain ⟨x, d, m, own, -⟩ := requestListed_iff.1 hlisted
    exact own.drift_of_listed hlisted fun hgot => hne ⟨fun _ => hgot, fun _ => hlisted⟩
  · by_cases hgot : RequestGot host caller actor identifier w
    · obtain ⟨x, d, m, own, -⟩ := requestGot_iff.1 hgot
      exact own.drift_of_got hgot hlisted
    · exact absurd ⟨fun h => absurd h hlisted, fun h => absurd h hgot⟩ hne

/-- Lists and direct access say the same about an identifier exactly when nothing of it drifts. -/
theorem listing_agrees_iff (host : Host B Page) (caller : Caller) (actor identifier : String) (w : World B) :
    ((RequestListed host caller actor identifier w ↔ RequestGot host caller actor identifier w) ↔
      ¬RequestDrift host caller actor identifier w) ∧
    ((DocumentListed host caller actor identifier w ↔ DocumentGot host caller actor identifier w) ↔
      ¬∃ x m, DocumentDrift host caller actor identifier w x m) :=
  ⟨(not_iff_comm.1 requestDrift_iff).symm, (not_iff_comm.1 documentDrift_iff).symm⟩

/-- The administrator who deletes a document still gets its completed request, which no list shows. -/
def deletedWorkspace : World SampleBytes :=
  (sampleWorkspace (sampleRequest .completed) (sampleSigner "signer@x" .signed)).updateDocument 10 (.deleted 1)

theorem deletedWorkspace_disagrees :
    ¬∀ (caller : Caller) (actor identifier : String) (w : World SampleBytes),
      (RequestListed sampleHost caller actor identifier w ↔ RequestGot sampleHost caller actor identifier w) ∧
        (DocumentListed sampleHost caller actor identifier w ↔
          DocumentGot sampleHost caller actor identifier w) := by
  intro h
  have hgot : RequestGot sampleHost none "admin@x" "20" deletedWorkspace := ⟨_, rfl⟩
  obtain ⟨request, reads, -, hreads, hmem⟩ := (h none "admin@x" "20" deletedWorkspace).1.2 hgot
  have hnone : (listRequests sampleHost none "admin@x").result id deletedWorkspace = .ok [] := rfl
  obtain rfl := Except.ok.inj (hnone.symm.trans hreads)
  exact absurd hmem List.not_mem_nil

end Rubrica
