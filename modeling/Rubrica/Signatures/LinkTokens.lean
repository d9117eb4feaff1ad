import Rubrica.Migrations.Chain
import Rubrica.Signatures.Frozen
import Rubrica.Signatures.Links

set_option autoImplicit false

/-! # Tokens of signing links

A token is the HMAC of the request's identifier and a nonce; for a request that had an integer before the
migration it is the token that was made of the integer. So no two links have one token, and the link that was
created last is the one that a request is found by. -/

namespace Rubrica

open Texts Transactions

variable {B Page : Type}

/-! ## Payloads -/

/-- `token_identifier` of `_request_token`. -/
def tokenIdentifier (request : UUID) : String :=
  if request ≤ 0x7FFFFFFF then toString request else uuidString request

def tokenPayload (request : UUID) (nonce : String) : String :=
  "rubrica-request:" ++ tokenIdentifier request ++ ":" ++ nonce

/-- The token of a request before the migration, of its integer. -/
def integerToken (host : Host B Page) (cfg : Settings) (request : Nat) (nonce : String) : String :=
  host.hmac cfg.evidenceSecret (host.encode ("rubrica-request:" ++ toString request ++ ":" ++ nonce))

theorem tokenIdentifier_injective : Function.Injective tokenIdentifier := by
  have hmixed : ∀ n m : Nat, toString n ≠ uuidString m := by
    intro n m h
    have hhyphen : '-' ∈ (toString n).toList := h ▸ hyphen_mem_uuidString m
    exact absurd (isDigit_of_mem_toString hhyphen) (by decide)
  intro n m h
  unfold tokenIdentifier at h
  split at h <;> split at h
  · exact toString_injective h
  · exact absurd h (hmixed n m)
  · exact absurd h.symm (hmixed m n)
  · exact uuidString_injective h

theorem colon_notMem_tokenIdentifier (request : UUID) : ':' ∉ (tokenIdentifier request).toList := by
  intro h
  unfold tokenIdentifier at h
  split at h
  · exact absurd (isDigit_of_mem_toString h) (by decide)
  · exact (hexDigit_of_mem_uuidString h).elim (fun h => absurd h (by decide)) fun h => absurd h (by decide)

/-- What ends at the first occurrence of an element. -/
theorem append_cons_inj {α : Type} {a : α} {x y s t : List α} (hx : a ∉ x) (hy : a ∉ y)
    (h : x ++ a :: s = y ++ a :: t) : x = y ∧ s = t := by
  induction x generalizing y with
  | nil =>
      cases y with
      | nil => exact ⟨rfl, (List.cons.inj h).2⟩
      | cons b y =>
          obtain ⟨rfl, -⟩ := List.cons.inj h
          exact absurd List.mem_cons_self hy
  | cons b x ih =>
      cases y with
      | nil =>
          obtain ⟨rfl, -⟩ := List.cons.inj h
          exact absurd List.mem_cons_self hx
      | cons c y =>
          obtain ⟨rfl, htail⟩ := List.cons.inj h
          obtain ⟨rfl, rfl⟩ := ih (fun hmem => hx (List.mem_cons_of_mem _ hmem))
            (fun hmem => hy (List.mem_cons_of_mem _ hmem)) htail
          exact ⟨rfl, rfl⟩

theorem toList_tokenPayload (request : UUID) (nonce : String) : (tokenPayload request nonce).toList =
    "rubrica-request:".toList ++ ((tokenIdentifier request).toList ++ ':' :: nonce.toList) := by
  unfold tokenPayload
  generalize tokenIdentifier request = identifier
  simp

/-- **A payload tells the request and the nonce**, whatever the nonce is. -/
theorem tokenPayload_injective : Function.Injective fun x : UUID × String => tokenPayload x.1 x.2 := by
  rintro ⟨n, nonce⟩ ⟨m, nonce'⟩ h
  have hpayload : tokenPayload n nonce = tokenPayload m nonce' := h
  have hlist := toList_tokenPayload n nonce ▸ toList_tokenPayload m nonce' ▸ congrArg String.toList hpayload
  obtain ⟨hidentifier, hnonce⟩ := append_cons_inj (colon_notMem_tokenIdentifier n) (colon_notMem_tokenIdentifier m)
    (List.append_cancel_left hlist)
  obtain rfl := tokenIdentifier_injective (String.toList_inj.1 hidentifier)
  obtain rfl := String.toList_inj.1 hnonce
  rfl

/-- A URL tells its token. -/
theorem signingUrl_injective (cfg : Settings) : Function.Injective (signingUrl cfg) := by
  intro token token' h
  have hlist := congrArg String.toList h
  simp only [signingUrl, String.toList_append] at hlist
  exact String.toList_inj.1 (List.append_cancel_left hlist)

/-! ## The newest link -/

/-- The nonce of the newest of the links of a request. -/
def newestLink (issued : List (UUID × String)) (request : UUID) : Option String :=
  ((issued.filter fun x => x.1 = request).getLast?).map Prod.snd

/-- The link that a move creates. -/
def Move.link : Move B → Option (UUID × String)
  | .createLink request nonce _ => some (request, nonce)
  | _ => none

/-- The links that a run creates, in the order in which they are committed. -/
def linksOf (ms : List (Move B)) : List (UUID × String) :=
  ms.filterMap Move.link

/-- The rows of the requests are as their newest links have left them. A request without a link lacks the nonce
    or the hash: before there were nonces, links were stored as hashes. -/
structure World.Linked (host : Host B Page) (cfg : Settings) (issued : List (UUID × String)) (w : World B) :
    Prop where
  unique : ∀ request request' r r' hash, w.requests.get? request = some r → w.requests.get? request' = some r' →
    r.signingTokenHash = some hash → r'.signingTokenHash = some hash → request' = request
  there : ∀ x ∈ issued, ∃ r, w.requests.get? x.1 = some r
  newest : ∀ request r nonce, w.requests.get? request = some r → newestLink issued request = some nonce →
    r.signingTokenNonce = some nonce ∧ r.signingTokenHash = some (linkHash host cfg request nonce)
  unlinked : ∀ request r, w.requests.get? request = some r → newestLink issued request = none →
    r.signingTokenNonce = none ∨ r.signingTokenHash = none

section Runs

variable {host : Host B Page} {cfg : Settings} {services : SigningServices B} {z : Circumstances B}
  {Y Z : WorkflowSystem B} {steps : List (WorkflowStep B)} {w w' : World B} {m : Move B}
  {issued : List (UUID × String)} {request : UUID} {r r' : SignatureRequest}

theorem newestLink_snoc_self (issued : List (UUID × String)) (request : UUID) (nonce : String) :
    newestLink (issued ++ [(request, nonce)]) request = some nonce := by
  simp [newestLink, List.filter_append]

theorem newestLink_snoc_of_ne (issued : List (UUID × String)) {request other : UUID} (h : request ≠ other)
    (nonce : String) : newestLink (issued ++ [(other, nonce)]) request = newestLink issued request := by
  simp [newestLink, List.filter_append, Ne.symm h]

theorem mem_of_newestLink {nonce : String} (h : newestLink issued request = some nonce) :
    (request, nonce) ∈ issued := by
  obtain ⟨⟨request', nonce'⟩, hlast, rfl⟩ := Option.map_eq_some_iff.1 h
  obtain ⟨hmem, hrequest⟩ := List.mem_filter.1 (List.mem_of_mem_getLast? hlast)
  obtain rfl : request' = request := of_decide_eq_true hrequest
  exact hmem

/-- Only a new link changes the nonce or the hash of a request. -/
theorem SignatureRequest.Becomes.link (h : r.Becomes request m r') :
    (∃ nonce hash, m = .createLink request nonce hash) ∨
      (r'.signingTokenNonce = r.signingTokenNonce ∧ r'.signingTokenHash = r.signingTokenHash) := by
  cases h with
  | linked => exact Or.inl ⟨_, _, rfl⟩
  | _ => exact Or.inr ⟨rfl, rfl⟩

theorem World.MovesTo.requestThere (h : w.MovesTo host cfg services z m w') (hr : w.requests.get? request = some r) :
    ∃ r', w'.requests.get? request = some r' := by
  obtain ⟨r', hr', -⟩ := ((h.sliceStep request).keeps).status r hr
  exact ⟨r', hr'⟩

/-- A move that creates no link. -/
theorem World.Linked.other (hw : w.Linked host cfg issued) (h : w.MovesTo host cfg services z m w')
    (hm : m.link = none) : w'.Linked host cfg issued := by
  have hrow : ∀ request r', w'.requests.get? request = some r' →
      (w.requests.get? request = none ∧ r'.signingTokenHash = none) ∨ ∃ r, w.requests.get? request = some r ∧
        r'.signingTokenNonce = r.signingTokenNonce ∧ r'.signingTokenHash = r.signingTokenHash := by
    intro request r' hr'
    rcases (h.sliceStep request).request hr' with ⟨hnone, rfl, -⟩ | ⟨r, hr, hbecomes⟩
    · obtain ⟨H, hallowed, -⟩ := h.allowed
      cases hallowed with
      | createRequest name fresh reference status evidence unfinished unlinked => exact Or.inl ⟨hnone, unlinked⟩
    · refine Or.inr ⟨r, hr, hbecomes.link.resolve_left ?_⟩
      rintro ⟨nonce, hash, rfl⟩
      exact absurd hm (by simp [Move.link])
  refine ⟨fun request request' r r' hash hr hr' hhash hhash' => ?_, fun x hx => ?_,
    fun request r' nonce hr' hnew => ?_, fun request r' hr' hnew => ?_⟩
  · rcases hrow request r hr with ⟨-, hnone⟩ | ⟨r0, hr0, -, heq⟩
    · exact absurd (hhash.symm.trans hnone) (by simp)
    · rcases hrow request' r' hr' with ⟨-, hnone⟩ | ⟨r0', hr0', -, heq'⟩
      · exact absurd (hhash'.symm.trans hnone) (by simp)
      · exact hw.unique _ _ r0 r0' hash hr0 hr0' (heq.symm.trans hhash) (heq'.symm.trans hhash')
  · obtain ⟨r, hr⟩ := hw.there x hx
    exact h.requestThere hr
  · rcases hrow request r' hr' with ⟨hnone, -⟩ | ⟨r, hr, hnonce, hhash⟩
    · obtain ⟨r, hr⟩ := hw.there _ (mem_of_newestLink hnew)
      exact absurd (hnone.symm.trans hr) (by simp)
    · rw [hnonce, hhash]
      exact hw.newest request r nonce hr hnew
  · rcases hrow request r' hr' with ⟨-, hnone⟩ | ⟨r, hr, hnonce, hhash⟩
    · exact Or.inr hnone
    · rw [hnonce, hhash]
      exact hw.unlinked request r hr hnew

/-- A new link. -/
theorem World.Linked.created {nonce hash : String} (hw : w.Linked host cfg issued)
    (h : w.MovesTo host cfg services z (.createLink request nonce hash) w') :
    w'.Linked host cfg (issued ++ [(request, nonce)]) := by
  obtain ⟨H, hallowed, -⟩ := h.allowed
  cases hallowed with
  | createLink lock row status token entry free =>
      subst token
      have hrows : w'.requests = w.requests.update request (.linked nonce (linkHash host cfg request nonce)) :=
        congrArg Archive.requests h.archive
      have hother : ∀ other, other ≠ request → w'.requests.get? other = w.requests.get? other := by
        intro other hne
        rw [hrows, Table.get?_update_of_ne _ hne]
      have hself : ∀ r', w'.requests.get? request = some r' → r'.signingTokenNonce = some nonce ∧
          r'.signingTokenHash = some (linkHash host cfg request nonce) := by
        intro r' hr'
        rw [hrows, Table.get?_update_self, row] at hr'
        obtain rfl := Option.some.inj hr'
        exact ⟨rfl, rfl⟩
      refine ⟨fun k k' r r' hash hr hr' hhash hhash' => ?_, fun x hx => ?_, fun k r' other hr' hnew => ?_,
        fun k r' hr' hnew => ?_⟩
      · by_cases hk : k = request
        · by_cases hk' : k' = request
          · rw [hk, hk']
          · obtain rfl := Option.some.inj (hhash.symm.trans (hself r (hk ▸ hr)).2)
            exact absurd (free k' r' (hother k' hk' ▸ hr') hhash') hk'
        · by_cases hk' : k' = request
          · obtain rfl := Option.some.inj (hhash'.symm.trans (hself r' (hk' ▸ hr')).2)
            exact absurd (free k r (hother k hk ▸ hr) hhash) hk
          · exact hw.unique k k' r r' hash (hother k hk ▸ hr) (hother k' hk' ▸ hr') hhash hhash'
      · rcases List.mem_append.1 hx with hold | hnew
        · obtain ⟨r, hr⟩ := hw.there x hold
          exact h.requestThere hr
        · obtain rfl := List.mem_singleton.1 hnew
          exact h.requestThere row
      · by_cases hk : k = request
        · subst hk
          rw [newestLink_snoc_self] at hnew
          obtain rfl := Option.some.inj hnew
          exact hself r' hr'
        · rw [newestLink_snoc_of_ne _ hk] at hnew
          exact hw.newest k r' other (hother k hk ▸ hr') hnew
      · by_cases hk : k = request
        · rw [hk, newestLink_snoc_self] at hnew
          exact absurd hnew (by simp)
        · rw [newestLink_snoc_of_ne _ hk] at hnew
          exact hw.unlinked k r' (hother k hk ▸ hr') hnew

theorem linked_of_run (hrun : Run (workflowRuns host cfg services (anyCircumstances B)) Y steps Z)
    (hstart : Y.sessions = []) (hw : Y.shared.Linked host cfg issued) :
    Z.shared.Linked host cfg (issued ++ linksOf (movesOf steps)) := by
  refine workflow_induct (motive := fun ms w => w.Linked host cfg (issued ++ linksOf ms)) hrun hstart
    (fun _ _ _ _ _ => trivial) (by simpa [linksOf] using hw) (fun ms w w' ih hrests => ?_)
    fun ms w w' m ih hmoves => ?_
  · have hrows : w'.requests = w.requests := congrArg Archive.requests hrests.archive
    exact ⟨hrows ▸ ih.unique, hrows ▸ ih.there, hrows ▸ ih.newest, hrows ▸ ih.unlinked⟩
  · rw [linksOf, List.filterMap_append]
    cases hm : m.link with
    | none =>
        rw [List.filterMap_cons_none hm, List.filterMap_nil, List.append_nil]
        exact ih.other hmoves hm
    | some x =>
        rw [List.filterMap_cons_some hm, List.filterMap_nil, ← List.append_assoc]
        cases m with
        | createLink request nonce hash =>
            obtain rfl := Option.some.inj hm
            exact ih.created hmoves
        | _ => exact absurd hm (by simp [Move.link])

/-! ## What a link leads to -/

/-- `get_signing_link` returns the newest link. -/
theorem getSigningLink_ok_iff (hw : w.Linked host cfg issued) (hnonces : ∀ x ∈ issued, x.2 ≠ "") {caller : Caller}
    {identifier actor url : String} :
    (getSigningLink host cfg caller identifier actor).result id w = .ok url ↔
      ∃ request r d m nonce, host.parseUuid identifier = some request ∧ w.liveRequest request = some r ∧
        w.documents.get? r.documentId = some d ∧ MaySee host caller r.documentId d actor (some request) w m ∧
        newestLink issued request = some nonce ∧ url = signingUrl cfg (requestToken host cfg request nonce) := by
  unfold getSigningLink Code.result
  rw [alone_reading (W := fun _ => False)]
  swap
  · exact Code.local_bind (local_requestOf host _ _) fun _ =>
      Code.local_bind (local_requireRequestAccess host caller _ _ _) fun _ =>
        Code.local_bind (Code.local_orRaise _ _) fun _ => Code.local_bind (Code.local_require _ _) fun _ =>
          Code.local_pure _
  simp only [result_looks_bind (local_requestOf host _ _), requestOf_ok,
    result_looks_bind (local_requireRequestAccess host caller _ _ _), requireRequestAccess_ok,
    result_orRaise_bind, result_require_bind, result_pure]
  constructor
  · rintro ⟨⟨request, r⟩, ⟨hid, hlive⟩, ⟨d, a⟩, ⟨hd, ⟨m, hm⟩, -⟩, nonce, hnonce, hhash, rfl⟩
    obtain ⟨hr, -⟩ := Option.filter_eq_some_iff.1 hlive
    have hnonce : r.signingTokenNonce = some nonce := (Option.filter_eq_some_iff.1 hnonce).1
    refine ⟨request, r, d, m, nonce, hid, hlive, hd, hm, ?_, rfl⟩
    cases hnew : newestLink issued request with
    | none =>
        rcases hw.unlinked request r hr hnew with hnone | hnone
        · exact absurd (hnone.symm.trans hnonce) (by simp)
        · exact absurd (hnone.symm.trans hhash) (by simp)
    | some newest => exact (hw.newest request r newest hr hnew).1.symm.trans hnonce
  · rintro ⟨request, r, d, m, nonce, hid, hlive, hd, hm, hnew, rfl⟩
    obtain ⟨hnonce, hhash⟩ := hw.newest request r nonce (Option.filter_eq_some_iff.1 hlive).1 hnew
    refine ⟨(request, r), ⟨hid, hlive⟩, (d, w.liveAccount d.tenantId), ⟨hd, ⟨m, hm⟩, rfl⟩, nonce, ?_, hhash, rfl⟩
    exact Option.filter_eq_some_iff.2 ⟨hnonce, decide_eq_true (hnonces _ (mem_of_newestLink hnew))⟩

/-- A token leads to a request where it has the hash of the newest link. -/
theorem World.Linked.resolves_iff (hw : w.Linked host cfg issued) {nonce : String}
    (hlive : w.liveRequest request = some r) (hnew : newestLink issued request = some nonce) (token : String) :
    Resolves host token request w ↔
      host.sha256 (host.encode token) = host.sha256 (host.encode (requestToken host cfg request nonce)) := by
  obtain ⟨hr, hnone⟩ := Option.filter_eq_some_iff.1 hlive
  obtain ⟨-, hhash⟩ := hw.newest request r nonce hr hnew
  unfold Resolves
  simp only [requestFromToken_ok, id_eq]
  constructor
  · rintro ⟨y, hy, hrequest⟩
    obtain ⟨hfound, hp⟩ := Table.mem_select_iff.1 (List.mem_of_mem_head? hy)
    rw [hrequest, hr] at hfound
    obtain ⟨htoken, -⟩ := Bool.and_eq_true_iff.1 hp
    rw [← Option.some.inj hfound, hhash] at htoken
    exact (Option.some.inj (of_decide_eq_true htoken)).symm
  · intro heq
    have hmem : (request, r) ∈ w.requests.select fun _ r =>
        r.signingTokenHash = some (host.sha256 (host.encode token)) && r.deletedAt.isNone :=
      Table.mem_select_iff.2 ⟨hr, Bool.and_eq_true_iff.2 ⟨decide_eq_true (by rw [heq]; exact hhash), hnone⟩⟩
    obtain ⟨y, hy⟩ := Option.ne_none_iff_exists'.1
      fun hnil => List.ne_nil_of_mem hmem (List.head?_eq_none_iff.1 hnil)
    refine ⟨y, hy, ?_⟩
    obtain ⟨hfound, hp⟩ := Table.mem_select_iff.1 (List.mem_of_mem_head? hy)
    have htoken : y.2.signingTokenHash = some (host.sha256 (host.encode token)) :=
      of_decide_eq_true (Bool.and_eq_true_iff.1 hp).1
    exact hw.unique request y.1 r y.2 _ hr hfound (by rw [heq]; exact hhash) htoken

end Runs

/-! ## Before and after the migration -/

section Migrated

variable {host : Host B Page} {cfg : Settings}

/-- What is relied on of the hash functions: no two texts have one hash. -/
structure CollisionFree (host : Host B Page) : Prop where
  sha256 : Function.Injective fun s => host.sha256 (host.encode s)
  hmac : ∀ key, Function.Injective fun s => host.hmac key (host.encode s)

theorem requestToken_eq (htext : host.uuidText = uuidString) (cfg : Settings) (request : UUID) (nonce : String) :
    requestToken host cfg request nonce = host.hmac cfg.evidenceSecret (host.encode (tokenPayload request nonce)) := by
  unfold requestToken tokenPayload tokenIdentifier
  rw [htext]

theorem integerToken_eq {n : Nat} (h : n < 2 ^ 31) (nonce : String) :
    requestToken host cfg n nonce = integerToken host cfg n nonce := by
  have hle : n ≤ 0x7FFFFFFF := by omega
  unfold requestToken integerToken
  rw [if_pos hle]

theorem requestToken_injective (htext : host.uuidText = uuidString) (hfree : CollisionFree host) {x y : UUID × String}
    (h : requestToken host cfg x.1 x.2 = requestToken host cfg y.1 y.2) : x = y := by
  rw [requestToken_eq htext, requestToken_eq htext] at h
  exact tokenPayload_injective (hfree.hmac _ h)

/-- **Links survive the migration.** SQL computes `UUID(int=n)` of every integer, no two of one, and keeps every
    join; the token of a migrated request is the one of its integer; no two payloads are the same, and no two tokens
    have one URL; and in every run from a migrated database on, `get_signing_link` returns the newest link of a
    request to everybody whom it admits, and of all tokens that were ever issued that link's is the one that leads
    to the request. -/
theorem links_survive (cfg : Settings) (services : SigningServices B) (htext : host.uuidText = uuidString)
    (hfree : CollisionFree host) :
    (∀ n < 2 ^ 31, migratedId n = uuidOfInt n ∧ String.ofList (migratedText (toHex n)) = uuidString n) ∧
    (∀ n < 2 ^ 31, ∀ k < 2 ^ 31, migratedId n = migratedId k → n = k) ∧
    (∀ (pg : Postgres) (db : Tables Nat Nat String Unit), db.Keyed → db.Small →
      (∀ a ∈ db.audits, a.castable pg = true) → ∃ db', upgrade0007 pg db = .ok db' ∧ db'.joins = db.joins) ∧
    (∀ n < 2 ^ 31, ∀ request, migratedId n = some request → ∀ nonce,
      requestToken host cfg request nonce = integerToken host cfg n nonce) ∧
    (Function.Injective fun x : UUID × String => tokenPayload x.1 x.2) ∧ Function.Injective (signingUrl cfg) ∧
    ∀ (Y Z : WorkflowSystem B) steps issued,
      Run (workflowRuns host cfg services (anyCircumstances B)) Y steps Z → Y.sessions = [] →
      Y.shared.Linked host cfg issued → (∀ x ∈ issued ++ linksOf (movesOf steps), x.2 ≠ "") →
      (∀ caller identifier actor url,
        (getSigningLink host cfg caller identifier actor).result id Z.shared = .ok url ↔
          ∃ request r d m nonce, host.parseUuid identifier = some request ∧
            Z.shared.liveRequest request = some r ∧ Z.shared.documents.get? r.documentId = some d ∧
            MaySee host caller r.documentId d actor (some request) Z.shared m ∧
            newestLink (issued ++ linksOf (movesOf steps)) request = some nonce ∧
            url = signingUrl cfg (requestToken host cfg request nonce)) ∧
      ∀ request r nonce, Z.shared.liveRequest request = some r →
        newestLink (issued ++ linksOf (movesOf steps)) request = some nonce →
        ∀ x ∈ issued ++ linksOf (movesOf steps),
          Resolves host (requestToken host cfg x.1 x.2) request Z.shared ↔ x = (request, nonce) := by
  have hmigrated : ∀ n < 2 ^ 31, migratedId n = some n := by
    intro n hn
    rw [(migratedId_eq (by omega)).1, uuidOfInt, if_pos (by omega)]
  refine ⟨fun n hn => migratedId_eq (by omega), fun n hn k hk h => ?_, fun pg db hkeyed hsmall hcast => ?_,
    fun n hn request hid nonce => ?_, tokenPayload_injective, signingUrl_injective cfg,
    fun Y Z steps issued hrun hstart hw hnonces => ?_⟩
  · exact Option.some.inj ((hmigrated n hn).symm.trans (h.trans (hmigrated k hk)))
  · exact ⟨_, upgrade0007_eq hkeyed hsmall hcast, joins_retyped pg db⟩
  · obtain rfl := Option.some.inj ((hmigrated n hn).symm.trans hid)
    exact integerToken_eq hn nonce
  · have hlinked := linked_of_run hrun hstart hw
    refine ⟨fun caller identifier actor url => getSigningLink_ok_iff hlinked hnonces,
      fun request r nonce hlive hnew x _ => ?_⟩
    rw [hlinked.resolves_iff hlive hnew]
    constructor
    · intro h
      exact requestToken_injective htext hfree (y := (request, nonce)) (hfree.sha256 h)
    · rintro rfl
      rfl

end Migrated

/-! ## A link to compute with -/

/-- The sample host, with texts of identifiers as they are. -/
def uuidHost : Host SampleBytes String :=
  { sampleHost with uuidText := uuidString }

theorem uuidHost_collisionFree : CollisionFree uuidHost where
  sha256 := fun s t h => by simpa [uuidHost, sampleHost, SampleBytes.digest] using h
  hmac := fun key s t h => by simpa [uuidHost, sampleHost, SampleBytes.digest] using h

/-- A request with two links, one after the other. -/
def leaseRelinked : Script SampleBytes :=
  serial (leaseOpened ++ [(managed (.createSigningLink "20" "fresh"), 16)])

theorem emptyWorkspace_linked : emptyWorkspace.shared.Linked uuidHost sampleSettings [] where
  unique := fun _ _ _ _ _ hr => absurd hr (by simp [emptyWorkspace])
  there := by simp
  newest := fun _ _ _ hr => absurd hr (by simp [emptyWorkspace])
  unlinked := fun _ _ hr => absurd hr (by simp [emptyWorkspace])

/-- The second link is the one that the author gets, and the one that leads to the request. -/
theorem links_survive_leaseRelinked :
    ∃ steps Z, Run (workflowRuns uuidHost sampleSettings sampleServices (anyCircumstances SampleBytes)) emptyWorkspace
      steps Z ∧ linksOf (movesOf steps) = [(20, "nonce"), (20, "fresh")] ∧
        (∃ url, (getSigningLink uuidHost sampleSettings none "20" "author@x").result id Z.shared = .ok url ∧
          ∀ token, signingUrl sampleSettings token = url → token = requestToken uuidHost sampleSettings 20 "fresh") ∧
        Resolves uuidHost (requestToken uuidHost sampleSettings 20 "fresh") 20 Z.shared ∧
        ¬Resolves uuidHost (requestToken uuidHost sampleSettings 20 "nonce") 20 Z.shared := by
  obtain ⟨steps, Z, hrun, hp⟩ := exists_script uuidHost sampleSettings sampleServices (Y := emptyWorkspace)
    (anyCircumstances SampleBytes) leaseRelinked (p := fun steps Z =>
      linksOf (movesOf steps) = [(20, "nonce"), (20, "fresh")] && ((Z.shared.liveRequest 20).isSome &&
        ((getSigningLink uuidHost sampleSettings none "20" "author@x").result id Z.shared).toOption.isSome))
    (by decide +kernel)
  obtain ⟨hlinks, hp⟩ := Bool.and_eq_true_iff.1 hp
  obtain ⟨hlive, hgot⟩ := Bool.and_eq_true_iff.1 hp
  have hlinks := of_decide_eq_true hlinks
  obtain ⟨r, hr⟩ := Option.isSome_iff_exists.1 hlive
  obtain ⟨-, -, -, -, -, hurl, hruns⟩ := links_survive sampleSettings sampleServices rfl
    uuidHost_collisionFree
  obtain ⟨hgets, hresolves⟩ := hruns emptyWorkspace Z steps [] hrun rfl emptyWorkspace_linked
    (by rw [hlinks]; decide)
  have hiff := hresolves 20 r "fresh" hr (by rw [hlinks]; rfl)
  rw [hlinks] at hiff
  refine ⟨steps, Z, hrun, hlinks, ?_, (hiff (20, "fresh") (by simp)).2 rfl, fun h => ?_⟩
  · cases hresult : (getSigningLink uuidHost sampleSettings none "20" "author@x").result id Z.shared with
    | error e => simp [hresult, Except.toOption] at hgot
    | ok url =>
        obtain ⟨request, r', d, m, nonce, hid, -, -, -, hnew, rfl⟩ := (hgets none "20" "author@x" url).1 hresult
        obtain rfl : 20 = request := Option.some.inj hid
        rw [hlinks] at hnew
        obtain rfl : "fresh" = nonce := Option.some.inj hnew
        exact ⟨_, rfl, fun token h => hurl h⟩
  · exact absurd ((hiff (20, "nonce") (by simp)).1 h) (by decide)

end Rubrica
