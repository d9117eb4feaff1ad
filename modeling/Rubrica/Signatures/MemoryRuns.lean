import Rubrica.Signatures.Memory
import Rubrica.Transactions.Direct

set_option autoImplicit false

/-! # Runs of the in-memory workflow

Its calls are served one at a time, and the clock moves on in between. What a call does to requests and
signers is a few changes of the dictionaries (`Memory.Later`). -/

namespace Rubrica

open Transactions

variable {B Page α : Type}

/-! ## Calls -/

/-- A call of the service, with the identifiers and tokens that it draws. -/
inductive MemoryCall (B : Type) where
  | createDocument (payload : DocumentCreate) (content : B) (id key : UUID)
  | addVersion (document : UUID) (upload : VersionUpload B) (key : UUID)
  | deleteDocument (document : UUID) (actorId : String) (force : Bool)
  | createRequest (payload : SignatureRequestCreate) (id : UUID)
  | addSigner (request : UUID) (payload : SignerCreate) (actorId : String) (id : UUID)
  | createLink (request : UUID) (actorId token : String)
  | revoke (request signer : UUID) (actorId : String)
  | openRequest (request : UUID) (actorId : String) (mode : SignatureMode)
  | cancelRequest (request : UUID) (actorId : String)
  | signingContext (token authUserId : String)
  | signingDocument (token authUserId : String)
  | view (token authUserId : String)
  | sign (token authUserId : String) (consent : Bool) (stamp : StampPosition)
  | decline (token authUserId : String)

/-- The program, without its value. -/
def quietly (x : InMemory B α) : InMemory B Unit :=
  x >>= fun _ => pure ()

namespace MemoryCall

/-- What it draws is new. -/
def Fresh (m : Memory B) : MemoryCall B → Prop
  | .createDocument _ _ id key => m.documents.get? id = none ∧ m.versions.get? id = none ∧ m.objects key = none
  | .addVersion _ _ key => m.objects key = none
  | .createRequest _ id => m.requests.get? id = none
  | .addSigner _ _ _ id => m.signers.get? id = none
  | _ => True

section Host

variable (host : Host B Page) (cfg : Settings)

def run : MemoryCall B → InMemory B Unit
  | .createDocument payload content id key => quietly (memoryCreateDocument host payload content id key)
  | .addVersion document upload key => quietly (memoryAddVersion host document upload key)
  | .deleteDocument document actorId force => memoryDeleteDocument document actorId force
  | .createRequest payload id => quietly (memoryCreateRequest payload id)
  | .addSigner request payload actorId id => quietly (memoryAddSigner host request payload actorId id)
  | .createLink request actorId token => quietly (memoryCreateLink host cfg request actorId token)
  | .revoke request signer actorId => quietly (memoryRevoke request signer actorId)
  | .openRequest request actorId mode => quietly (memoryOpen request actorId mode)
  | .cancelRequest request actorId => quietly (memoryCancelRequest request actorId)
  | .signingContext token authUserId => quietly (memorySigningContext host token authUserId)
  | .signingDocument token authUserId => quietly (memorySigningDocument host token authUserId)
  | .view token authUserId => quietly (memoryView host token authUserId)
  | .sign token authUserId consent stamp => quietly (memorySign host token authUserId consent stamp)
  | .decline token authUserId => quietly (memoryDecline host token authUserId)

/-- The dictionaries after the call. -/
def after (x : MemoryCall B) (m : Memory B) : Memory B :=
  ((x.run host cfg).alone id m).shared

end Host

end MemoryCall

/-- A run, with the calls made in it and the dictionaries each was made in. -/
inductive MemoryRun (host : Host B Page) (cfg : Settings) (m₀ : Memory B) :
    List (Memory B × MemoryCall B) → Memory B → Prop where
  | nil : MemoryRun host cfg m₀ [] m₀
  | call {past : List (Memory B × MemoryCall B)} {m : Memory B} (run : MemoryRun host cfg m₀ past m)
      (x : MemoryCall B) (fresh : x.Fresh m) : MemoryRun host cfg m₀ (past ++ [(m, x)]) (x.after host cfg m)
  | wait {past : List (Memory B × MemoryCall B)} {m : Memory B} (run : MemoryRun host cfg m₀ past m) (δ : Nat) :
      MemoryRun host cfg m₀ past { m with clock := m.clock + δ }

/-! ## What every call keeps -/

/-- Has the signer answered? -/
def SignerStatus.IsAnswer (s : SignerStatus) : Prop :=
  s = .signed ∨ s = .declined

/-- Entries are stored under their identifiers, listed signers are there, and whoever a completed request
    lists has signed. -/
structure Memory.Sound (m : Memory B) : Prop where
  requestIds : ∀ k r, m.requests.get? k = some r → r.id = k
  signerIds : ∀ k s, m.signers.get? k = some s → s.id = k
  listed : ∀ k, ∀ i ∈ (m.requestSigners.get? k).getD [], m.signers.get? i ≠ none
  completed : ∀ k r, m.requests.get? k = some r → r.status = .completed → ∀ s ∈ m.signersOf k, s.status = .signed

/-- What is later: a sound state in which nobody's answer has changed. -/
structure Memory.Later (m m' : Memory B) : Prop where
  sound : m'.Sound
  answers : ∀ k s, m.signers.get? k = some s → s.status.IsAnswer →
    ∃ s', m'.signers.get? k = some s' ∧ s'.status = s.status

namespace Memory

variable {m m' m'' : Memory B}

theorem mem_signersOf_iff {request : UUID} {s : SignerRead} :
    s ∈ m.signersOf request ↔ ∃ i ∈ (m.requestSigners.get? request).getD [], m.signers.get? i = some s :=
  List.mem_filterMap

theorem Later.refl (h : m.Sound) : m.Later m :=
  ⟨h, fun _ s hs _ => ⟨s, hs, rfl⟩⟩

theorem Later.trans (h : m.Later m') (h' : m'.Later m'') : m.Later m'' := by
  refine ⟨h'.sound, fun k s hs hanswer => ?_⟩
  obtain ⟨s', hs', hstatus⟩ := h.answers k s hs hanswer
  obtain ⟨s'', hs'', hstatus'⟩ := h'.answers k s' hs' (hstatus ▸ hanswer)
  exact ⟨s'', hs'', hstatus'.trans hstatus⟩

/-- A change of something else. -/
theorem Later.same (h : m.Sound) (hrequests : m'.requests = m.requests) (hsigners : m'.signers = m.signers)
    (hlists : m'.requestSigners = m.requestSigners) : m.Later m' := by
  have hof : ∀ k, m'.signersOf k = m.signersOf k := by
    intro k
    rw [signersOf, signersOf, hsigners, hlists]
  refine ⟨⟨hrequests ▸ h.requestIds, hsigners ▸ h.signerIds, ?_, ?_⟩, fun k s hs _ => ⟨s, hsigners ▸ hs, rfl⟩⟩
  · rw [hlists, hsigners]
    exact h.listed
  · intro k r hr hstatus
    rw [hof]
    exact h.completed k r (hrequests ▸ hr) hstatus

/-- A signer gets another entry, and keeps an answer. -/
theorem Later.signer (h : m.Sound) {k : UUID} {s s' : SignerRead} (hs : m.signers.get? k = some s)
    (hrequests : m'.requests = m.requests) (hsigners : m'.signers = m.signers.set k s')
    (hlists : m'.requestSigners = m.requestSigners) (hid : s'.id = k)
    (hstatus : s'.status = s.status ∨ ¬s.status.IsAnswer) : m.Later m' := by
  have hget : ∀ k', m'.signers.get? k' = if k' = k then some s' else m.signers.get? k' := by
    intro k'
    rw [hsigners, Table.get?_set]
  have hkeeps : ∀ k' x, m.signers.get? k' = some x → x.status.IsAnswer →
      ∃ x', m'.signers.get? k' = some x' ∧ x'.status = x.status := by
    intro k' x hx hanswer
    rw [hget]
    split
    · next hk =>
        subst hk
        obtain rfl := Option.some.inj (hs.symm.trans hx)
        exact ⟨s', rfl, hstatus.resolve_right fun hn => hn hanswer⟩
    · exact ⟨x, hx, rfl⟩
  refine ⟨⟨hrequests ▸ h.requestIds, ?_, ?_, ?_⟩, hkeeps⟩
  · intro k' x hx
    rw [hget] at hx
    split at hx
    · next hk => rw [← Option.some.inj hx, hid, hk]
    · exact h.signerIds k' x hx
  · intro k' i hi
    rw [hlists] at hi
    rw [hget]
    split
    · simp
    · exact h.listed k' i hi
  · intro k' r hr hcompleted x hx
    obtain ⟨i, hi, hix⟩ := mem_signersOf_iff.1 hx
    rw [hlists] at hi
    -- Who is listed had signed before.
    obtain ⟨x0, hx0⟩ := Option.ne_none_iff_exists'.1 (h.listed k' i hi)
    have hsigned := h.completed k' r (hrequests ▸ hr) hcompleted x0 (mem_signersOf_iff.2 ⟨i, hi, hx0⟩)
    obtain ⟨x', hx', hstatus'⟩ := hkeeps i x0 hx0 (Or.inl hsigned)
    obtain rfl := Option.some.inj (hix.symm.trans hx')
    exact hstatus'.trans hsigned

/-- A request gets another entry. -/
theorem Later.request (h : m.Sound) {k : UUID} {r' : SignatureRequestRead}
    (hrequests : m'.requests = m.requests.set k r') (hsigners : m'.signers = m.signers)
    (hlists : m'.requestSigners = m.requestSigners) (hid : r'.id = k)
    (hcompleted : r'.status = .completed → ∀ s ∈ m.signersOf k, s.status = .signed) : m.Later m' := by
  have hget : ∀ k', m'.requests.get? k' = if k' = k then some r' else m.requests.get? k' := by
    intro k'
    rw [hrequests, Table.get?_set]
  have hof : ∀ k, m'.signersOf k = m.signersOf k := by
    intro k
    rw [signersOf, signersOf, hsigners, hlists]
  refine ⟨⟨?_, hsigners ▸ h.signerIds, ?_, ?_⟩, fun k s hs _ => ⟨s, hsigners ▸ hs, rfl⟩⟩
  · intro k' r hr
    rw [hget] at hr
    split at hr
    · next hk => rw [← Option.some.inj hr, hid, hk]
    · exact h.requestIds k' r hr
  · rw [hlists, hsigners]
    exact h.listed
  · intro k' r hr hstatus
    rw [hof]
    rw [hget] at hr
    split at hr
    · next hk =>
        subst hk
        obtain rfl := Option.some.inj hr
        exact hcompleted hstatus
    · exact h.completed k' r hr hstatus

/-- A request that is new. -/
theorem Later.newRequest (h : m.Sound) {k : UUID} {r' : SignatureRequestRead}
    (hrequests : m'.requests = m.requests.set k r') (hsigners : m'.signers = m.signers)
    (hlists : m'.requestSigners = m.requestSigners.set k []) (hid : r'.id = k) (hstatus : r'.status ≠ .completed) :
    m.Later m' := by
  have hget : ∀ k', m'.requests.get? k' = if k' = k then some r' else m.requests.get? k' := by
    intro k'
    rw [hrequests, Table.get?_set]
  refine ⟨⟨?_, hsigners ▸ h.signerIds, ?_, ?_⟩, fun k s hs _ => ⟨s, hsigners ▸ hs, rfl⟩⟩
  · intro k' r hr
    rw [hget] at hr
    split at hr
    · next hk => rw [← Option.some.inj hr, hid, hk]
    · exact h.requestIds k' r hr
  · intro k' i hi
    rw [hlists, Table.get?_set] at hi
    rw [hsigners]
    split at hi
    · exact absurd hi List.not_mem_nil
    · exact h.listed k' i hi
  · intro k' r hr hcompleted x hx
    rw [hget] at hr
    split at hr
    · obtain rfl := Option.some.inj hr
      exact absurd hcompleted hstatus
    · next hk =>
        rw [mem_signersOf_iff, hlists, hsigners, Table.get?_set, if_neg hk] at hx
        exact h.completed k' r hr hcompleted x (mem_signersOf_iff.2 hx)

/-- A signer that is new, of a request that is not completed. -/
theorem Later.newSigner (h : m.Sound) {request k : UUID} {r : SignatureRequestRead} {s' : SignerRead}
    (hr : m.requests.get? request = some r) (hstatus : r.status ≠ .completed) (hfresh : m.signers.get? k = none)
    (hrequests : m'.requests = m.requests) (hsigners : m'.signers = m.signers.set k s')
    (hlists : m'.requestSigners = m.requestSigners.update request fun ids => ids ++ [k]) (hid : s'.id = k) :
    m.Later m' := by
  have hget : ∀ k', m'.signers.get? k' = if k' = k then some s' else m.signers.get? k' := by
    intro k'
    rw [hsigners, Table.get?_set]
  have hold : ∀ k' x, m.signers.get? k' = some x → m'.signers.get? k' = some x := by
    intro k' x hx
    rw [hget, if_neg]
    · exact hx
    · rintro rfl
      exact absurd (hfresh.symm.trans hx) (by simp)
  refine ⟨⟨hrequests ▸ h.requestIds, ?_, ?_, ?_⟩, fun k' x hx _ => ⟨x, hold k' x hx, rfl⟩⟩
  · intro k' x hx
    rw [hget] at hx
    split at hx
    · next hk => rw [← Option.some.inj hx, hid, hk]
    · exact h.signerIds k' x hx
  · intro k' i hi
    by_cases hi' : i ∈ (m.requestSigners.get? k').getD []
    · obtain ⟨x, hx⟩ := Option.ne_none_iff_exists'.1 (h.listed k' i hi')
      rw [hold i x hx]
      simp
    · have hk : i = k := by
        rw [hlists, Table.get?_update] at hi
        split at hi
        · next hk' =>
            subst hk'
            cases hl : m.requestSigners.get? k' with
            | none => simp [hl] at hi
            | some ids =>
                simp only [hl, Option.map_some, Option.getD_some, List.mem_append, List.mem_singleton] at hi hi'
                exact hi.resolve_left hi'
        · exact absurd hi hi'
      rw [hget, if_pos hk]
      simp
  · intro k' r' hr' hcompleted x hx
    rw [hrequests] at hr'
    obtain ⟨i, hi, hix⟩ := mem_signersOf_iff.1 hx
    have hne : k' ≠ request := by
      rintro rfl
      obtain rfl := Option.some.inj (hr.symm.trans hr')
      exact hstatus hcompleted
    rw [hlists, Table.get?_update_of_ne _ hne] at hi
    obtain ⟨x0, hx0⟩ := Option.ne_none_iff_exists'.1 (h.listed k' i hi)
    obtain rfl := Option.some.inj (hix.symm.trans (hold i x0 hx0))
    exact h.completed k' r' hr' hcompleted x (mem_signersOf_iff.2 ⟨i, hi, hx0⟩)

end Memory

/-! ## The calls -/

section Calls

variable {host : Host B Page} {cfg : Settings} {m : Memory B}

/-- However the program ends, it ends later. -/
abbrev LeadsLater (x : InMemory B α) (m : Memory B) : Prop :=
  x.leads (fun _ => m.Later) (fun _ => m.Later) m

theorem leads_look {Q : α → Memory B → Prop} {E : Failure → Memory B → Prop} (f : Memory B → α) :
    (look f : InMemory B α).leads Q E m ↔ Q (f m) m :=
  Iff.rfl

theorem leads_note {β : Type} {Q : β → Memory B → Prop} {E : Failure → Memory B → Prop} (scope : UUID)
    (actorId action entityType : String) (entityId : UUID) (metadata : Dict) (f : Unit → InMemory B β) :
    (note scope actorId action entityType entityId metadata >>= f).leads Q E m ↔
      (f ()).leads Q E (m.record scope ⟨m.clock, actorId, action, entityType, entityId, metadata⟩) :=
  Iff.rfl

theorem Memory.Later.record {m₀ : Memory B} (h : m₀.Later m) (scope : UUID) (e : AuditEventRead) :
    m₀.Later (m.record scope e) :=
  h.trans (.same h.sound rfl rfl rfl)

theorem LeadsLater.quietly {x : InMemory B α} (h : LeadsLater x m) : LeadsLater (quietly x) m :=
  Code.leads_seq h (fun _ _ h => h) fun _ _ h => h

/-- A read of one entry. -/
theorem leads_memoryDocument {Q : DocumentRead → Memory B → Prop} {E : Failure → Memory B → Prop} {id : UUID} :
    (memoryDocument id : InMemory B _).leads Q E m ↔
      (∀ d, m.documents.get? id = some d → Q d m) ∧ (m.documents.get? id = none → E (.error "Document not found" 404) m) :=
  Code.leads_orRaise

theorem leads_memoryRequest {Q : SignatureRequestRead → Memory B → Prop} {E : Failure → Memory B → Prop} {id : UUID} :
    (memoryRequest id : InMemory B _).leads Q E m ↔
      (∀ r, m.requests.get? id = some r → Q r m) ∧
        (m.requests.get? id = none → E (.error "Signature request not found" 404) m) :=
  Code.leads_orRaise

/-- The signer that a call with the token and the subject is answered for. -/
def Memory.signerByToken (host : Host B Page) (token authUserId : String) (m : Memory B) : Option SignerRead :=
  (m.requestTokenIndex.get? (host.sha256 (host.encode token))).bind fun id =>
    (m.signersOf id).find? fun s => s.authUserId = host.lower authUserId

/-- What `_resolve_request` finds; where it raises, a signer may have expired. -/
theorem leads_memoryResolve (h : m.Sound) (token authUserId : String) (allowCompleted : Bool) :
    (memoryResolve host token authUserId allowCompleted).leads
      (fun x m' => m' = m ∧ m.requests.get? x.2.id = some x.2 ∧ m.signers.get? x.1.id = some x.1 ∧
        m.signerByToken host token authUserId = some x.1 ∧
          (x.2.status = .open ∨ allowCompleted = true ∧ x.2.status = .completed ∧ x.1.status = .signed))
      (fun _ => m.Later) m := by
  unfold memoryResolve
  refine Code.leads_bind.2 (Code.leads_bind.2 (Code.leads_orRaise.2 ⟨fun id hindex => ?_, fun _ => .refl h⟩))
  refine Code.leads_bind.2 (leads_memoryRequest.2 ⟨fun r hr => ?_, fun _ => .refl h⟩)
  obtain rfl := h.requestIds id r hr
  refine Code.leads_bind.2 ((leads_look _).2 ?_)
  split
  · exact (Memory.Later.refl h).record _ _
  · next signer hfind =>
      obtain ⟨i, hi, hs⟩ := Memory.mem_signersOf_iff.1 (List.mem_of_find?_eq_some hfind)
      obtain rfl := h.signerIds i signer hs
      unfold memoryAdmit
      refine Code.leads_bind.2 (Code.leads_bind.2 ?_)
      refine Code.leads_bind.2 (Code.leads_require.2 ⟨fun _ => ?_, fun _ => .refl h⟩)
      refine Code.leads_bind.2 (Code.leads_onlyIf.2 ⟨fun _ => ?_, fun _ => ?_⟩)
      · -- Who has not answered expires.
        refine Code.leads_bind.2 (Code.leads_onlyIf.2 ⟨fun hopen => ?_, fun _ => .refl h⟩)
        refine Memory.Later.signer h hs rfl rfl rfl rfl (Or.inr fun hanswer => ?_)
        rcases hanswer with hanswer | hanswer
        · exact hopen.1 hanswer
        · exact hopen.2 hanswer
      · have hindex : m.requestTokenIndex.get? (host.sha256 (host.encode token)) = some r.id := hindex
        have htoken : m.signerByToken host token authUserId = some signer := by
          rw [Memory.signerByToken, hindex, Option.bind_some]
          exact hfind
        exact Code.leads_require.2 ⟨fun hadmit => ⟨rfl, hr, hs, htoken, hadmit⟩, fun _ => .refl h⟩

theorem leadsLater_createDocument (h : m.Sound) (payload : DocumentCreate) (content : B) (id key : UUID) :
    LeadsLater (memoryCreateDocument host payload content id key) m := by
  unfold LeadsLater memoryCreateDocument
  split
  · exact .refl h
  · exact Memory.Later.same h rfl rfl rfl

theorem leadsLater_addVersion (h : m.Sound) (document : UUID) (upload : VersionUpload B) (key : UUID) :
    LeadsLater (memoryAddVersion host document upload key) m := by
  unfold LeadsLater memoryAddVersion
  split
  · exact .refl h
  · refine Code.leads_bind.2 (leads_memoryDocument.2 ⟨fun d _ => ?_, fun _ => .refl h⟩)
    refine Code.leads_bind.2 (Code.leads_bind.2 (Code.leads_require.2 ⟨fun _ => ?_, fun _ => .refl h⟩))
    exact Memory.Later.same h rfl rfl rfl

theorem leadsLater_cancel {m₀ : Memory B} (h : m₀.Later m) (actorId : String)
    (l : List (UUID × SignatureRequestRead)) (hl : ∀ x ∈ l, x.2.id = x.1) :
    (memoryCancel actorId l : InMemory B Unit).leads (fun _ => m₀.Later) (fun _ => m₀.Later) m := by
  induction l generalizing m with
  | nil => exact h
  | cons x rest ih =>
      rw [List.forall_mem_cons] at hl
      unfold memoryCancel
      refine Code.leads_bind.2 ((leads_note ..).2 (ih (Memory.Later.record (h.trans ?_) _ _) hl.2))
      exact Memory.Later.request h.sound rfl rfl rfl hl.1 fun hcompleted => absurd hcompleted (by simp)

theorem leadsLater_deleteDocument (h : m.Sound) (document : UUID) (actorId : String) (force : Bool) :
    LeadsLater (memoryDeleteDocument document actorId force) m := by
  unfold LeadsLater memoryDeleteDocument
  refine Code.leads_bind.2 (leads_memoryDocument.2 ⟨fun d _ => ?_, fun _ => .refl h⟩)
  refine Code.leads_bind.2 (Code.leads_bind.2 (Code.leads_require.2 ⟨fun _ => ?_, fun _ => .refl h⟩))
  refine Code.leads_seq (leadsLater_cancel (.refl h) actorId _ fun x hx => ?_) (fun _ _ h => h) fun _ m' h' => ?_
  · exact h.requestIds _ _ (Table.mem_select_iff.1 hx).1
  · exact h'.trans (.same h'.sound rfl rfl rfl)

theorem leadsLater_createRequest (h : m.Sound) (payload : SignatureRequestCreate) (id : UUID) :
    LeadsLater (memoryCreateRequest payload id) m := by
  unfold LeadsLater memoryCreateRequest
  refine Code.leads_bind.2 (leads_memoryDocument.2 ⟨fun d _ => ?_, fun _ => .refl h⟩)
  refine Code.leads_bind.2 (Code.leads_bind.2 (Code.leads_require.2 ⟨fun _ => ?_, fun _ => .refl h⟩))
  refine Code.leads_bind.2 ((leads_note ..).2 (Memory.Later.record ?_ _ _))
  exact .newRequest h rfl rfl rfl rfl (by simp)

theorem leadsLater_addSigner (h : m.Sound) (request : UUID) (payload : SignerCreate) (actorId : String) {id : UUID}
    (hfresh : m.signers.get? id = none) : LeadsLater (memoryAddSigner host request payload actorId id) m := by
  unfold LeadsLater memoryAddSigner
  refine Code.leads_bind.2 (leads_memoryRequest.2 ⟨fun r hr => ?_, fun _ => .refl h⟩)
  refine Code.leads_bind.2 (Code.leads_require.2 ⟨fun hdraft => ?_, fun _ => .refl h⟩)
  refine Code.leads_bind.2 (Code.leads_bind.2 (Code.leads_require.2 ⟨fun _ => ?_, fun _ => .refl h⟩))
  refine Code.leads_bind.2 ((leads_note ..).2 (Memory.Later.record ?_ _ _))
  exact .newSigner h hr (by simp [hdraft]) hfresh rfl rfl rfl rfl

theorem leadsLater_createLink (h : m.Sound) (request : UUID) (actorId token : String) :
    LeadsLater (memoryCreateLink host cfg request actorId token) m := by
  unfold LeadsLater memoryCreateLink
  refine Code.leads_bind.2 (leads_memoryRequest.2 ⟨fun r _ => ?_, fun _ => .refl h⟩)
  refine Code.leads_bind.2 (Code.leads_require.2 ⟨fun _ => ?_, fun _ => .refl h⟩)
  exact Memory.Later.same h rfl rfl rfl

theorem leadsLater_revoke (h : m.Sound) (request signer : UUID) (actorId : String) :
    LeadsLater (memoryRevoke request signer actorId) m := by
  unfold LeadsLater memoryRevoke
  refine Code.leads_bind.2 (leads_memoryRequest.2 ⟨fun r _ => ?_, fun _ => .refl h⟩)
  refine Code.leads_bind.2 (Code.leads_bind.2 (Code.leads_orRaise.2 ⟨fun s hs => ?_, fun _ => .refl h⟩))
  refine Code.leads_bind.2 (Code.leads_require.2 ⟨fun _ => ?_, fun _ => .refl h⟩)
  have hs : m.signers.get? signer = some s := (Option.filter_eq_some_iff.1 hs).1
  obtain rfl := h.signerIds signer s hs
  cases s.linkRevokedAt with
  | some _ => exact .refl h
  | none =>
      refine Code.leads_bind.2 ((leads_note ..).2 (Memory.Later.record ?_ _ _))
      exact .signer h hs rfl rfl rfl rfl (Or.inl rfl)

theorem leadsLater_openRequest (h : m.Sound) (request : UUID) (actorId : String) (mode : SignatureMode) :
    LeadsLater (memoryOpen request actorId mode) m := by
  unfold LeadsLater memoryOpen
  refine Code.leads_bind.2 (leads_memoryRequest.2 ⟨fun r hr => ?_, fun _ => .refl h⟩)
  refine Code.leads_bind.2 (Code.leads_require.2 ⟨fun _ => ?_, fun _ => .refl h⟩)
  refine Code.leads_bind.2 (Code.leads_bind.2 (Code.leads_require.2 ⟨fun _ => ?_, fun _ => .refl h⟩))
  refine Code.leads_bind.2 (leads_memoryDocument.2 ⟨fun d _ => ?_, fun _ => .refl h⟩)
  refine Code.leads_bind.2 (Code.leads_require.2 ⟨fun _ => ?_, fun _ => .refl h⟩)
  refine Code.leads_bind.2 ((leads_note ..).2 (Memory.Later.record ?_ _ _))
  have hid := h.requestIds request r hr
  exact .request h rfl rfl rfl hid fun hc => absurd hc (by simp)

theorem leadsLater_cancelRequest (h : m.Sound) (request : UUID) (actorId : String) :
    LeadsLater (memoryCancelRequest request actorId) m := by
  unfold LeadsLater memoryCancelRequest
  refine Code.leads_bind.2 (leads_memoryRequest.2 ⟨fun r hr => ?_, fun _ => .refl h⟩)
  refine Code.leads_bind.2 (Code.leads_require.2 ⟨fun _ => ?_, fun _ => .refl h⟩)
  refine Code.leads_bind.2 ((leads_note ..).2 (Memory.Later.record ?_ _ _))
  have hid := h.requestIds request r hr
  exact .request h rfl rfl rfl hid fun hc => absurd hc (by simp)

theorem leadsLater_signingContext (h : m.Sound) (token authUserId : String) :
    LeadsLater (memorySigningContext host token authUserId) m := by
  unfold LeadsLater memorySigningContext
  refine Code.leads_seq (leads_memoryResolve h token authUserId true) (fun _ _ h => h) ?_
  rintro x m' ⟨rfl, -⟩
  exact Code.leads_bind.2 (leads_memoryDocument.2 ⟨fun d _ => .refl h, fun _ => .refl h⟩)

theorem leads_memoryContent (id : UUID) (version : Option Nat) :
    (memoryContent host id version).leads (fun _ m' => m' = m) (fun _ m' => m' = m) m := by
  unfold memoryContent
  refine Code.leads_bind.2 (leads_memoryDocument.2 ⟨fun d _ => ?_, fun _ => rfl⟩)
  refine Code.leads_bind.2 (Code.leads_bind.2 (Code.leads_orRaise.2 ⟨fun x _ => ?_, fun _ => rfl⟩))
  refine Code.leads_bind.2 (Code.leads_bind.2 (Code.leads_orRaise.2 ⟨fun b _ => ?_, fun _ => rfl⟩))
  exact Code.leads_bind.2 (Code.leads_require.2 ⟨fun _ => rfl, fun _ => rfl⟩)

theorem leadsLater_signingDocument (h : m.Sound) (token authUserId : String) :
    LeadsLater (memorySigningDocument host token authUserId) m := by
  unfold LeadsLater memorySigningDocument
  refine Code.leads_seq (leads_memoryResolve h token authUserId true) (fun _ _ h => h) ?_
  rintro x m' ⟨rfl, -⟩
  refine Code.leads_mono (leads_memoryContent _ _) ?_ ?_ <;>
  · rintro _ _ rfl
    exact .refl h

theorem leadsLater_view (h : m.Sound) (token authUserId : String) :
    LeadsLater (memoryView host token authUserId) m := by
  unfold LeadsLater memoryView
  refine Code.leads_seq (leads_memoryResolve h token authUserId false) (fun _ _ h => h) ?_
  rintro ⟨s, r⟩ m' ⟨rfl, -, hs, -⟩
  dsimp only
  split
  · next hpending =>
      refine Code.leads_bind.2 ((leads_note ..).2 (Memory.Later.record ?_ _ _))
      refine .signer h hs rfl rfl rfl rfl (Or.inr ?_)
      simp [SignerStatus.IsAnswer, show s.status = .pending from hpending]
  · exact .refl h

theorem leadsLater_decline (h : m.Sound) (token authUserId : String) :
    LeadsLater (memoryDecline host token authUserId) m := by
  unfold LeadsLater memoryDecline
  refine Code.leads_seq (leads_memoryResolve h token authUserId false) (fun _ _ h => h) ?_
  rintro ⟨s, r⟩ m' ⟨rfl, -, hs, -⟩
  refine Code.leads_bind.2 (Code.leads_require.2 ⟨fun hopen => ?_, fun _ => .refl h⟩)
  refine Code.leads_bind.2 ((leads_note ..).2 (Memory.Later.record ?_ _ _))
  refine .signer h hs rfl rfl rfl rfl (Or.inr ?_)
  exact fun hanswer => hanswer.elim hopen.1 hopen.2

/-- Who declined keeps that answer only where it does not sign. -/
theorem leadsLater_sign (h : m.Sound) (token authUserId : String) (consent : Bool) (stamp : StampPosition)
    (hdeclined : ∀ s, m.signerByToken host token authUserId = some s → s.status ≠ .declined) :
    LeadsLater (memorySign host token authUserId consent stamp) m := by
  unfold LeadsLater memorySign
  split
  · exact .refl h
  refine Code.leads_seq (leads_memoryResolve h token authUserId false) (fun _ _ h => h) ?_
  rintro ⟨s, r⟩ m' ⟨rfl, hr, hs, htoken, -⟩
  refine Code.leads_bind.2 (Code.leads_bind.2 (Code.leads_require.2 ⟨fun hopen => ?_, fun _ => .refl h⟩))
  refine Code.leads_bind.2 (leads_memoryDocument.2 ⟨fun d _ => ?_, fun _ => .refl h⟩)
  refine Code.leads_seq (leads_memoryContent _ _) ?_ ?_
  · rintro _ _ rfl
    exact .refl h
  rintro content m'' rfl
  refine Code.leads_bind.2 (Code.leads_require.2 ⟨fun _ => ?_, fun _ => .refl h⟩)
  refine Code.leads_bind.2 (Code.leads_bind.2 ((leads_note ..).2 ?_))
  have hunanswered : ¬s.status.IsAnswer := fun hanswer =>
    hanswer.elim hopen.1 (hdeclined s htoken)
  have hsigned := Memory.Later.record (m := { m'' with
      signatures := (r.id, s.id) :: m''.signatures,
      signatureEvidence := m''.signatureEvidence.set (r.id, s.id) stamp,
      signers := m''.signers.set s.id { s with status := .signed, signedAt := some m''.clock } })
    (.signer h hs rfl rfl rfl rfl (Or.inr hunanswered)) r.id
    ⟨m''.clock, authUserId, "signature.completed", "signer", s.id,
      [("document_sha256", .text r.documentSha256), ("document_version", .int r.documentVersion),
        ("stamp", .dict stamp.dump)]⟩
  refine Code.leads_bind.2 (Code.leads_bind.2 (Code.leads_onlyIf.2 ⟨fun hall => ?_, fun _ => hsigned⟩))
  refine Code.leads_bind.2 ((leads_note ..).2 (Memory.Later.record (hsigned.trans ?_) _ _))
  refine .request hsigned.sound rfl rfl rfl rfl fun _ x hx => ?_
  exact of_decide_eq_true (List.all_eq_true.1 hall x hx)

end Calls

/-! ## Runs -/

section Runs

variable {host : Host B Page} {cfg : Settings} {m m₀ : Memory B} {past : List (Memory B × MemoryCall B)}

/-- Whoever signs in the call has not declined. -/
def MemoryCall.spares (host : Host B Page) (m : Memory B) : MemoryCall B → Bool
  | .sign token authUserId _ _ => (m.signerByToken host token authUserId).all fun s => s.status ≠ .declined
  | _ => true

theorem MemoryCall.later (h : m.Sound) (x : MemoryCall B) (hfresh : x.Fresh m) (hspares : x.spares host m = true) :
    m.Later (x.after host cfg m) := by
  refine Code.leads_shared (x := x.run host cfg) ?_
  cases x with
  | createDocument payload content id key => exact (leadsLater_createDocument h payload content id key).quietly
  | addVersion document upload key => exact (leadsLater_addVersion h document upload key).quietly
  | deleteDocument document actorId force => exact leadsLater_deleteDocument h document actorId force
  | createRequest payload id => exact (leadsLater_createRequest h payload id).quietly
  | addSigner request payload actorId id => exact (leadsLater_addSigner h request payload actorId hfresh).quietly
  | createLink request actorId token => exact (leadsLater_createLink h request actorId token).quietly
  | revoke request signer actorId => exact (leadsLater_revoke h request signer actorId).quietly
  | openRequest request actorId mode => exact (leadsLater_openRequest h request actorId mode).quietly
  | cancelRequest request actorId => exact (leadsLater_cancelRequest h request actorId).quietly
  | signingContext token authUserId => exact (leadsLater_signingContext h token authUserId).quietly
  | signingDocument token authUserId => exact (leadsLater_signingDocument h token authUserId).quietly
  | view token authUserId => exact (leadsLater_view h token authUserId).quietly
  | sign token authUserId consent stamp =>
      refine (leadsLater_sign h token authUserId consent stamp fun s hs => ?_).quietly
      simpa [MemoryCall.spares, hs] using hspares
  | decline token authUserId => exact (leadsLater_decline h token authUserId).quietly

/-- From sound dictionaries on, they stay sound, and each call leaves the answers there are. -/
theorem MemoryRun.later (h : MemoryRun host cfg m₀ past m) (h₀ : m₀.Sound)
    (hspares : ∀ y ∈ past, y.2.spares host y.1 = true) :
    m.Sound ∧ ∀ y ∈ past, y.1.Later (y.2.after host cfg y.1) := by
  induction h with
  | nil => exact ⟨h₀, by simp⟩
  | call run x fresh ih =>
      rw [List.forall_mem_append, List.forall_mem_singleton] at hspares
      obtain ⟨hsound, hlater⟩ := ih hspares.1
      have hx : Memory.Later _ (x.after host cfg _) := x.later hsound fresh hspares.2
      exact ⟨hx.sound, List.forall_mem_append.2 ⟨hlater, List.forall_mem_singleton.2 hx⟩⟩
  | @wait past m run δ ih =>
      obtain ⟨hsound, hlater⟩ := ih hspares
      have hlater' : m.Later { m with clock := m.clock + δ } := .same hsound rfl rfl rfl
      exact ⟨hlater'.sound, hlater⟩

theorem Memory.empty_sound : (Memory.empty B).Sound :=
  ⟨fun _ _ h => absurd h (by simp [Memory.empty]), fun _ _ h => absurd h (by simp [Memory.empty]),
    fun _ _ h => absurd h (by simp [Memory.empty]), fun _ _ h => absurd h (by simp [Memory.empty])⟩

end Runs

/-! ## Calls one after the other -/

section Trails

variable (host : Host B Page) (cfg : Settings)

instance decidableMemoryFresh (m : Memory B) : (x : MemoryCall B) → Decidable (x.Fresh m)
  | .createDocument _ _ id key => inferInstanceAs
      (Decidable (m.documents.get? id = none ∧ m.versions.get? id = none ∧ m.objects key = none))
  | .addVersion _ _ key => inferInstanceAs (Decidable (m.objects key = none))
  | .createRequest _ id => inferInstanceAs (Decidable (m.requests.get? id = none))
  | .addSigner _ _ _ id => inferInstanceAs (Decidable (m.signers.get? id = none))
  | .deleteDocument .. | .createLink .. | .revoke .. | .openRequest .. | .cancelRequest .. | .signingContext ..
  | .signingDocument .. | .view .. | .sign .. | .decline .. => .isTrue trivial

/-- The dictionaries that each of the calls is made in. -/
def trailOf : List (MemoryCall B) → Memory B → List (Memory B × MemoryCall B)
  | [], _ => []
  | x :: rest, m => (m, x) :: trailOf rest (x.after host cfg m)

def afterAll : List (MemoryCall B) → Memory B → Memory B
  | [], m => m
  | x :: rest, m => afterAll rest (x.after host cfg m)

variable {host cfg}

theorem MemoryRun.append {m₀ m : Memory B} {past : List (Memory B × MemoryCall B)}
    (h : MemoryRun host cfg m₀ past m) {calls : List (MemoryCall B)}
    (hfresh : ∀ y ∈ trailOf host cfg calls m, y.2.Fresh y.1) :
    MemoryRun host cfg m₀ (past ++ trailOf host cfg calls m) (afterAll host cfg calls m) := by
  induction calls generalizing past m with
  | nil =>
      rw [trailOf, List.append_nil]
      exact h
  | cons x rest ih =>
      rw [trailOf, List.forall_mem_cons] at hfresh
      have hrest := ih (h.call x hfresh.1) hfresh.2
      rw [List.append_assoc] at hrest
      exact hrest

variable (host cfg) in
theorem memoryRun_trail (m₀ : Memory B) (calls : List (MemoryCall B))
    (hfresh : ∀ y ∈ trailOf host cfg calls m₀, y.2.Fresh y.1) :
    MemoryRun host cfg m₀ (trailOf host cfg calls m₀) (afterAll host cfg calls m₀) :=
  MemoryRun.nil.append hfresh

end Trails

/-- A document, a request for it with one signer, and its link. -/
def memoryLease : List (MemoryCall SampleBytes) :=
  [.createDocument ⟨"workspace", "Lease", "lease.pdf", "application/pdf", "author@x"⟩ samplePdf 10 11,
    .createRequest ⟨10, 100, "author@x"⟩ 20,
    .addSigner 20 leaseSigner "author@x" 30,
    .openRequest 20 "author@x" .evidence, .createLink 20 "author@x" "token"]

/-- The signer signs. -/
def signMemoryLease : MemoryCall SampleBytes :=
  .sign "token" "signer@x" true sampleCommand.stamp

end Rubrica
