import Rubrica.Signatures.Accounts

set_option autoImplicit false

/-! # Uploads keep the protocol

An operation that stores an object keeps the right to discard it again until its commit. -/

namespace Rubrica

open Transactions

variable {B Page α β : Type}

section Rules

variable {host : Host B Page} {cfg : Settings} {services : SigningServices B} {z : Circumstances B}
  {D : World B → Prop} {K : Rights RowKey} {A : World B → Prop} {M : World B → Estate B → Prop}
  {c : Ctx (World B) RowKey} {w : World B} {tenant : UUID}

/-! ## Objects -/

/-- An object that is stored under a name of the session stays. -/
theorem wp_putObject {key : StorageKey} {content : B} {Q : Unit → Ctx (World B) RowKey → World B → Prop}
    (h : (workflowProtocol host cfg services z).Knows World.estate D K A M c w)
    (hname : (RowKey.name key.name, LockMode.exclusive) ∈ K) (hA : ∀ v, A v → A (v.put key content))
    (hM : ∀ v x, A v → M v x → x.objects = v.objects)
    (hQ : ∀ c' w', (workflowProtocol host cfg services z).Knows World.estate D K
      (fun v => A v ∧ (z.reliable → v.objects key = some content)) M c' w' → Q () c' w') :
    (workflowProtocol host cfg services z).wp (putObject key content) Q (fun _ _ w => D w) c w := by
  refine Protocol.wp_seq (Protocol.wp_effect (h.stable.anti h.held) h.now (fun w1 hw1 _ _ => ?_)
    fun w1 hw1 _ => h.raises w1 hw1)
  refine ⟨trivial, ⟨h.held hname, rfl⟩, ?_⟩
  have hobjects : (c.pending w1).objects = w1.objects := hM w1 _ hw1 (h.pending w1 hw1)
  refine Protocol.wp_require (fun hfree => ?_) fun _ => h.raises _ (hA w1 hw1)
  refine hQ c _ ⟨h.held, h.stable.and (stable_object hname), ⟨hA w1 hw1, fun _ => ?_⟩,
    fun v hv => h.raises v hv.1, fun v hv => h.pending v hv.1⟩
  rw [hobjects] at hfree
  unfold World.put
  rw [hfree, if_neg (by simp)]
  exact Function.update_self ..

/-- What is known where an object that was stored is discarded again. -/
def Discardable (z : Circumstances B) (name : UUID) (w : World B) : Prop :=
  ¬z.lossy → w.toArchive.Unreferenced name

theorem stable_discardable {name : UUID} (hname : (RowKey.name name, LockMode.exclusive) ∈ K) :
    (workflowProtocol host cfg services z).Stable K (Discardable z name) :=
  fun w w' hi h hl => stable_unreferenced hname w w' hi (h hl)

/-- An operation that stores an object on its way. -/
theorem wp_storing {base : Rights RowKey} {before : Workflow B β} {key : β → StorageKey}
    {after : β → Workflow B (α × WorkflowPoint B)}
    (hbefore : (workflowProtocol host cfg services z).wp before
      (fun x c w => (RowKey.name (key x).name, LockMode.exclusive) ∈ base ∧
        (workflowProtocol host cfg services z).wp (after x)
          (fun r c w => (workflowProtocol host cfg services z).CommitsAt r.2 (Discardable z (key x).name)
            (fun _ _ => True) c w) (fun _ _ w => Discardable z (key x).name w) c w)
      (fun _ _ _ => True) (.start base) w) :
    (workflowProtocol host cfg services z).wp (storing before key after) (fun _ _ _ => True)
      (fun _ _ _ => True) (.start base) w := by
  refine Protocol.wp_seq (Protocol.wp_rollingBack (D := fun _ _ => True) (fun _ h => h)
    (fun _ => Protocol.stable_const _ True) (fun _ _ _ _ => trivial)
    (Protocol.wp_mono hbefore (fun _ h => h) (fun x c' w' hc hx => ?_) fun _ _ _ _ _ => trivial))
  obtain ⟨hname, hafter⟩ := hx
  have hname' : (RowKey.name (key x).name, LockMode.exclusive) ∈ c'.base := hc.1 ▸ hname
  refine Protocol.wp_try (Protocol.wp_transaction (D := fun _ => Discardable z (key x).name) hc.2
    (fun _ => stable_discardable hname') (fun e w2 hd _ => ?_) hafter)
  refine Protocol.wp_seq (Protocol.wp_effect (A := Discardable z (key x).name) (stable_discardable hname') hd
    (fun w3 h3 _ _ => ⟨trivial, ⟨hname', h3, rfl⟩, trivial⟩) fun _ _ _ => trivial)

end Rules

/-! ## Uploads -/

section Host

variable {host : Host B Page} {cfg : Settings} {services : SigningServices B} {z : Circumstances B}
  {caller : Caller} {base : Rights RowKey} {w : World B}

theorem wp_createDocument (payload : DocumentCreate) (content : B) (id name : UUID)
    (hid : (RowKey.name id, LockMode.exclusive) ∈ base) (hname : (RowKey.name name, LockMode.exclusive) ∈ base)
    (hunused : w.toArchive.Unused id) (hunreferenced : w.toArchive.Unreferenced name) :
    (workflowProtocol host cfg services z).wp (createDocument host caller payload content id name)
      (fun _ _ _ => True) (fun _ _ _ => True) (.start base) w := by
  unfold createDocument
  split
  · trivial
  refine wp_storing ?_
  have hstable : (workflowProtocol host cfg services z).Stable base _ :=
    (stable_unused hid).and (stable_unreferenced hname)
  have h : (workflowProtocol host cfg services z).Knows World.estate (fun _ => True) base _ Same (.start base) w :=
    ⟨fun _ hk => hk, hstable, ⟨hunused, hunreferenced⟩, fun _ _ => trivial, fun _ _ => rfl⟩
  refine Protocol.wp_seq (Protocol.wp_knowing (local_query _) h fun found c1 w1 h1 => ?_)
  refine Protocol.wp_seq (Protocol.wp_knowingOrRaise h1 fun tenant _ => ?_)
  refine Protocol.wp_seq (Protocol.wp_knowing (local_requireSeat host caller _ _ _) h1 fun member c2 w2 h2 => ?_)
  refine Protocol.wp_seq (Protocol.wp_seq (wp_lockedAccount h2 fun K account object c3 w3 hK hholds hvalue _ h3 => ?_))
  refine Protocol.wp_seq (Protocol.wp_knowing (local_query _) h3 fun now c4 w4 h4 => ?_)
  refine Protocol.wp_seq (Protocol.wp_knowingOrRaise h4 fun charged hcharged => ?_)
  have hquota : charged.quota = object.loaded.quota := by
    have := consumeDocument_quota hcharged
    rw [hvalue] at this
    exact this
  refine wp_flushHeld h4 fun c5 w5 h5 => ?_
  refine Protocol.wp_seq (wp_putObject h5 (hK hname) (fun v hv => ?_) (fun v x _ hx => hx.objects) fun c6 w6 h6 => ?_)
  · rw [toArchive_put, accounts_put]
    exact hv
  refine Protocol.wp_pure ⟨hname, ?_⟩
  have h6 := h6.raising (L := Discardable z name) fun v hv _ => hv.1.1.2
  refine Protocol.wp_seq (Protocol.wp_knowing (local_referTo _ _) h6 fun _ c7 w7 h7 => ?_)
  refine Protocol.wp_seq (wp_saveThen (f := fun a => { a with
    documents := a.documents.insert id _ }) h7 (fun _ => rfl) fun c8 w8 h8 => ?_)
  refine Protocol.wp_seq (wp_saveThen (f := fun a => { a with
    versions := a.versions.insert (id, 1) _ }) h8 (fun _ => rfl) fun c9 w9 h9 => ?_)
  refine Protocol.wp_seq (Protocol.wp_knowing (local_audit unseen_record _ _ _ _ _ _) h9 fun _ c10 w10 h10 => ?_)
  refine Protocol.wp_seq (Protocol.wp_knowing (local_documentRead _ _) h10 fun read c11 w11 h11 => ?_)
  refine Protocol.wp_pure (Protocol.commits_knowing h11 fun v v' hv _ _ hmakes => ⟨trivial, ?_, trivial,
    fun hl hn => absurd hl hn⟩)
  obtain ⟨x1, ⟨x2, hx, rfl⟩, hv'⟩ := hmakes
  obtain ⟨⟨⟨hun, -⟩, haccount⟩, hstored⟩ := hv
  refine ⟨.createDocument (h11.held (hK hid)) hun.documents rfl rfl rfl fun hr => ⟨content, hstored hr, rfl⟩, ?_, ?_,
    ?_, fun hsteady => ?_⟩
  · refine (congrArg Estate.archive hv').trans ?_
    rw [← hx.archive]
    rfl
  · exact (congrArg Estate.objects hv').trans hx.objects
  · exact (congrArg Estate.clock hv').trans hx.clock
  · have haccounts : v'.accounts = x2.accounts := congrArg Estate.accounts hv'
    refine accounting_of hholds h11.held (haccount hsteady) ?_ (fun t ht => ?_) (fun _ hx => nomatch hx)
      (fun _ => flush_quota hquota) fun _ hx => nomatch hx
    · rw [haccounts, hx.account hsteady]
    · rw [haccounts, hx.others hsteady t ht]

theorem wp_addVersion (identifier : String) (upload : VersionUpload B) (name : UUID)
    (hname : (RowKey.name name, LockMode.exclusive) ∈ base) (hunreferenced : w.toArchive.Unreferenced name) :
    (workflowProtocol host cfg services z).wp (addVersion host caller identifier upload name)
      (fun _ _ _ => True) (fun _ _ _ => True) (.start base) w := by
  unfold addVersion
  split
  · trivial
  refine wp_storing ?_
  have hstable : (workflowProtocol host cfg services z).Stable base _ := stable_unreferenced hname
  have h : (workflowProtocol host cfg services z).Knows World.estate (fun _ => True) base _ Same (.start base) w :=
    ⟨fun _ hk => hk, hstable, hunreferenced, fun _ _ => trivial, fun _ _ => rfl⟩
  refine Protocol.wp_seq (wp_documentOfLocked h fun id d c1 w1 hlive h1 => ?_)
  refine Protocol.wp_seq (Protocol.wp_knowing (local_requireSeat host caller _ _ _) h1 fun member c2 w2 h2 => ?_)
  refine Protocol.wp_seq (Protocol.wp_knowing (local_query _) h2 fun frozen c3 w3 h3 => ?_)
  refine Protocol.wp_seq (Protocol.wp_knowingRequire h3 fun _ => ?_)
  refine Protocol.wp_seq (wp_putObject h3 (List.mem_cons_of_mem _ hname) (fun v hv => ?_)
    (fun v x _ hx => congrArg Estate.objects hx) fun c4 w4 h4 => ?_)
  · rw [toArchive_put]
    exact hv
  refine Protocol.wp_pure ⟨hname, ?_⟩
  have h4 := h4.raising (L := Discardable z name) fun v hv _ => hv.1.1
  refine Protocol.wp_seq (Protocol.wp_knowing (local_claim _ _) h4 fun _ c5 w5 h5 => ?_)
  refine Protocol.wp_seq (wp_saveThen (f := fun a => { a with
    documents := a.documents.update id (.revised (d.version + 1) _) }) h5 (fun _ => rfl) fun c6 w6 h6 => ?_)
  refine Protocol.wp_seq (wp_saveThen (f := fun a => { a with
    versions := a.versions.insert (id, d.version + 1) _ }) h6 (fun _ => rfl) fun c7 w7 h7 => ?_)
  refine Protocol.wp_seq (Protocol.wp_knowing (local_audit unseen_record _ _ _ _ _ _) h7 fun _ c8 w8 h8 => ?_)
  refine Protocol.wp_seq (Protocol.wp_knowing (local_documentRead _ _) h8 fun read c9 w9 h9 => ?_)
  have h9 := h9.means (N := Makes (.addVersion id (d.version + 1) _)) fun v x _ hx => by
    obtain ⟨-, ⟨-, rfl, rfl⟩, rfl⟩ := hx
    rfl
  refine Protocol.wp_pure (commits_move h9 rfl (fun hl _ hn => absurd hl hn) fun v hheld hv => ?_)
  exact .addVersion (hheld List.mem_cons_self) (liveDocument_eq_some.2 ⟨hv.1.2, hlive⟩) rfl
    fun hr => ⟨upload.content, hv.2 hr, rfl⟩

end Host

end Rubrica
