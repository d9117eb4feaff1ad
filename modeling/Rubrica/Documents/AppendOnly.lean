import Rubrica.Documents.CrashSafety
import Rubrica.Transactions.Solo

set_option autoImplicit false

/-! # Rows that cannot be updated

At the head of the migrations no version and no signature can be updated: a run of the tool commits where it has
nothing to move, and nowhere else. -/

namespace Rubrica.Reorganization

open Transactions

variable {B Page : Type}

/-- A database at the head of the migrations, as the service leaves it, and its bucket. -/
structure AtHead (host : Host B Page) (w : Holdings B) : Prop where
  appendOnly : w.appendOnly = true
  resolved : w.Resolved host
  distinct : w.KeysDistinct
  current : w.DocumentsCurrent
  keys : ∀ o key digest, w.Refers o key digest → IsHexName key ∨ IsFiledKey key
  documentOf : ∀ id v, w.versions.get? id = some v → ∃ d, w.documents.get? id.1 = some d
  requestOf : ∀ id s, w.signatures.get? id = some s →
    ∃ document d, w.requests.get? s.signatureRequestId = some document ∧ w.documents.get? document = some d

section Alone

variable (host : Host B Page) (visit : Visit) (w : Holdings B)

/-- The plan of a run with nobody else at work. -/
def planFor : Except Failure Plan :=
  planOf host (visit.members.order ((w.members.select fun _ m => m.deletedAt.isNone).map Prod.snd)) w.documents
    (visit.versions.order w.versions.rows) w.requests
    (visit.signatures.order (w.signatures.select fun _ s => s.artifactStorageKey.isSome))

theorem alone_readPlan :
    (readPlan host visit).alone id w = (MonadExcept.ofExcept (planFor host visit w) : Tool B Plan).alone id w := rfl

variable {host visit w} {p : Plan}

theorem seenIn_self (o : Owner) : seenIn w w o = w := by
  cases o <;> rfl

theorem drawnFrom_planFor (h : planFor host visit w = .ok p) : p.DrawnFrom w (seenIn w w) :=
  drawnFrom_planOf (visit.versions.perm _) (visit.signatures.perm _) h

end Alone

/-! ## A key to move -/

section Moved

variable {host : Host B Page} {visit : Visit} {w : Holdings B} {p : Plan}

theorem frames_getVerified (key : String) (digest : Option String) :
    (getVerified host key digest).Frames Holdings.appendOnly :=
  Code.frames_bind
    (Code.frames_bind (Code.frames_require _ _) fun _ => Code.frames_bind (Code.frames_select _ _) fun _ =>
      Code.frames_orRaise _ _)
    fun _ => Code.frames_bind (Code.frames_require _ _) fun _ => trivial

theorem frames_copyObject (x : String × Destination) : (copyObject host x).Frames Holdings.appendOnly := by
  refine Code.frames_bind (frames_getVerified _ _) fun content => ?_
  refine Code.frames_bind (Code.frames_tryCatch ?_ fun e => ?_) fun _ =>
    Code.frames_bind (frames_getVerified _ _) fun _ => trivial
  · exact Code.frames_bind (Code.frames_require _ _) fun _ =>
      Code.frames_bind (Code.frames_effect _ _ fun _ => rfl) fun _ => Code.frames_require _ _
  · split <;> trivial

/-- The triggers refuse every flush that updates something. -/
theorem result_flush (hchanges : p.changes = true) (happend : w.appendOnly = true) :
    (flush p).result id w = .error .integrity := by
  have hno : (!w.appendOnly && (p.relabel w).hasUniqueKeys) = false := by
    rw [happend]
    rfl
  unfold flush Code.onlyIf
  rw [if_pos hchanges]
  show (Code.require ((!w.appendOnly && (p.relabel w).hasUniqueKeys) = true) Failure.integrity >>= fun _ =>
    (Code.write .statement p.relabel : Tool B Unit)).result id w = _
  rw [hno]
  rfl

theorem result_applyPlan (happly : visit.apply = true) (hchanges : p.changes = true)
    (happend : w.appendOnly = true) : ∃ e, (applyPlan host visit p).result id w = .error e := by
  unfold applyPlan
  rw [if_pos happly]
  have hframes : ((sortedItems p.moves).forM (copyObject host)).Frames Holdings.appendOnly :=
    Code.frames_forM fun x _ => frames_copyObject x
  obtain ⟨hpending, hshared⟩ := hframes.alone id w
  cases hcopies : ((sortedItems p.moves).forM (copyObject host)).result id w with
  | error e => exact ⟨e, Code.result_bind_error hcopies⟩
  | ok u =>
      refine ⟨.integrity, ?_⟩
      show (((sortedItems p.moves).forM (copyObject host)).bind fun _ => flush p).result id w = _
      unfold Code.result at hcopies ⊢
      rw [Code.alone_bind, hcopies, hpending]
      exact result_flush hchanges (hshared.trans happend)

theorem result_reorganizeRows (happly : visit.apply = true) (happend : w.appendOnly = true) {o : Owner}
    {key : String} {digest : Option String} (hrefers : w.Refers o key digest) (hbare : isScoped key = false) :
    ∃ e, (reorganizeRows host visit).result id w = .error e := by
  unfold reorganizeRows
  have hread := alone_readPlan host visit w
  cases hplan : planFor host visit w with
  | error e =>
      rw [hplan] at hread
      exact ⟨e, Code.result_bind_error (congrArg Ended.result hread)⟩
  | ok p =>
      rw [hplan] at hread
      have hp := drawnFrom_planFor hplan
      obtain ⟨r, hr, -, rfl, -⟩ := hp.complete o key digest (by rwa [seenIn_self])
      have hmoves : r.source ≠ r.target := by
        intro hstays
        rw [hstays, hp.isScoped_target hr] at hbare
        exact nomatch hbare
      have hchanges : p.changes = true := List.any_eq_true.2 ⟨r, hr, decide_eq_true hmoves⟩
      obtain ⟨e, he⟩ : ∃ e, (applyPlan host visit p).result id w = .error e :=
        result_applyPlan happly hchanges happend
      refine ⟨e, ?_⟩
      unfold Code.result
      rw [Code.alone_bind_of hread]
      exact Code.result_bind_error he

/-- A run does not commit what it has to move. -/
theorem result_reorganize (happly : visit.apply = true) (happend : w.appendOnly = true) {o : Owner} {key : String}
    {digest : Option String} (hrefers : w.Refers o key digest) (hbare : isScoped key = false) :
    ∃ e, (reorganize host visit).result id w = .error e := by
  obtain ⟨e, he⟩ : ∃ e, (reorganizeRows host visit).result id w = .error e :=
    result_reorganizeRows happly happend hrefers hbare
  unfold reorganize
  by_cases hflags : visit.deleteSource = true → visit.apply = true
  · by_cases hr2 : visit.providerIsR2 = true
    · refine ⟨e, ?_⟩
      unfold Code.result
      rw [Code.alone_require_bind hflags, Code.alone_require_bind hr2]
      exact Code.result_bind_error (Code.result_transaction_error he)
    · exact ⟨_, by unfold Code.result; rw [Code.alone_require_bind hflags, Code.alone_require_bind_not hr2]⟩
  · exact ⟨_, by unfold Code.result; rw [Code.alone_require_bind_not hflags]⟩

end Moved

/-! ## Nothing to move -/

section Stays

variable {host : Host B Page} {visit : Visit} {w : Holdings B} {p : Plan}

theorem planMoves_of_stay {references : List Reference} (h : ∀ r ∈ references, r.source = r.target) :
    planMoves references = .ok [] := by
  unfold planMoves
  induction references with
  | nil => rfl
  | cons r references ih =>
      obtain ⟨hr, hrest⟩ := List.forall_mem_cons.1 h
      have hmove : planMove [] r = .ok [] := if_pos hr
      rw [List.foldlM_cons, hmove]
      exact ih hrest

theorem exists_versionReference (hw : AtHead host w) (members : List TenantMember) {x : (UUID × Nat) × StoredVersion}
    (hx : w.versions.get? x.1 = some x.2) : ∃ r, versionReference host members w.documents x = .ok r := by
  obtain ⟨d, hd⟩ := hw.documentOf x.1 x.2 hx
  unfold versionReference
  rw [hd]
  exact ⟨_, rfl⟩

theorem exists_signatureReference (hw : AtHead host w) (members : List TenantMember) {x : UUID × StoredSignature}
    (hx : w.signatures.get? x.1 = some x.2) (key : String) :
    ∃ r, signatureReference host members w.documents w.requests x key = .ok r := by
  obtain ⟨document, d, hrequest, hd⟩ := hw.requestOf x.1 x.2 hx
  have hitem : item (w.requests.get? x.2.signatureRequestId) = .ok document := by
    rw [hrequest]
    rfl
  unfold signatureReference
  rw [hitem, Except.bind, hd]
  exact ⟨_, rfl⟩

/-- Where every key is under `tenants/` there is a plan, and it moves nothing. -/
theorem exists_planFor (hw : AtHead host w) (hscoped : Organized w) (visit : Visit) :
    ∃ p, planFor host visit w = .ok p ∧ p.moves = [] ∧ p.changes = false := by
  let members := visit.members.order ((w.members.select fun _ m => m.deletedAt.isNone).map Prod.snd)
  have hversions := visit.versions.perm w.versions.rows
  have hsignatures := visit.signatures.perm (w.signatures.select fun _ s => s.artifactStorageKey.isSome)
  obtain ⟨found, hfound⟩ := exists_mapM_eq_ok (f := versionReference host members w.documents) fun x hx =>
    exists_versionReference hw members (Table.mem_rows_iff.1 (hversions.mem_iff.1 hx))
  obtain ⟨artifacts, hartifacts⟩ := exists_mapM_eq_ok (f := fun x =>
      signatureReference host members w.documents w.requests x (x.2.artifactStorageKey.getD "")) fun x hx =>
    exists_signatureReference hw members (Table.mem_select_iff.1 (hsignatures.mem_iff.1 hx)).1 _
  have hreferences := references_of hversions hsignatures hfound hartifacts
  have hstay : ∀ r ∈ found ++ artifacts, r.source = r.target := by
    intro r hr
    have hrefers := hreferences.refers hr
    rw [seenIn_self] at hrefers
    obtain ⟨tenant, account, htarget⟩ := hreferences.target hr
    rw [htarget, targetKey_of_isScoped (hscoped _ _ _ hrefers)]
  refine ⟨_, bind_eq_ok.2 ⟨found, hfound, bind_eq_ok.2 ⟨artifacts, hartifacts, bind_eq_ok.2
    ⟨[], planMoves_of_stay hstay, rfl⟩⟩⟩, rfl, ?_⟩
  rw [Plan.changes, List.any_eq_false]
  intro r hr
  simpa using hstay r hr

/-- What a run leaves of the bucket that has nothing to move: it deletes the names of the references, if it is told
to. -/
structure Cleared (visit : Visit) (w w' : Holdings B) : Prop where
  rows : w' = { w with objects := w'.objects }
  gone : ∀ key, visit.deleteSource = true → visit.retains key = false → w.Named key → w'.objects key = none
  kept : ∀ key, w'.objects key = w.objects key ∨
    visit.deleteSource = true ∧ visit.retains key = false ∧ w.Named key

/-- The deletions of a run. -/
def discardAll (retains : String → Bool) (l : List (String × Destination)) (w : Holdings B) : Holdings B :=
  l.foldl (fun w x => if retains x.1 then w else w.discard x.1) w

theorem rows_discardAll (retains : String → Bool) (l : List (String × Destination)) (w : Holdings B) :
    discardAll retains l w = { w with objects := (discardAll retains l w).objects } := by
  induction l generalizing w with
  | nil => rfl
  | cons x l ih =>
      have hstep : discardAll retains (x :: l) w =
          discardAll retains l (if retains x.1 then w else w.discard x.1) := rfl
      rw [hstep, ih]
      split <;> rfl

theorem objects_discardAll (retains : String → Bool) (l : List (String × Destination)) (w : Holdings B)
    (key : String) : (discardAll retains l w).objects key =
      if retains key = false ∧ key ∈ l.map Prod.fst then none else w.objects key := by
  induction l generalizing w with
  | nil => simp [discardAll]
  | cons x l ih =>
      have hstep : discardAll retains (x :: l) w =
          discardAll retains l (if retains x.1 then w else w.discard x.1) := rfl
      rw [hstep, ih, List.map_cons]
      by_cases hkey : key = x.1
      · subst hkey
        by_cases hretained : retains x.1 = true
        · simp [hretained]
        · simp [hretained, Holdings.discard]
      · have hobjects : (if retains x.1 then w else w.discard x.1).objects key = w.objects key := by
          split
          · rfl
          · exact if_neg hkey
        rw [hobjects]
        exact if_congr (and_congr_right fun _ => (List.mem_cons.trans (or_iff_right hkey)).symm) rfl rfl

theorem alone_getVerified {key : String} {digest : Option String} (hvalid : validStorageKey key = true)
    (h : w.Resolves host key digest) :
    ∃ content, (getVerified host key digest).alone id w = ⟨.ok content, id, w⟩ := by
  obtain ⟨content, hcontent, hdigest⟩ := h
  refine ⟨content, ?_⟩
  have hobject : (getObject key : Tool B B).alone id w = ⟨.ok content, id, w⟩ := by
    unfold getObject validateKey
    rw [Code.alone_require_bind hvalid, Code.alone_select_bind, id_eq, hcontent]
    rfl
  unfold getVerified
  rw [Code.alone_bind_ok hobject, Code.alone_require_bind hdigest]
  rfl

theorem alone_cleanUp {retains : String → Bool} {x : String × Destination} (hname : validStorageKey x.1 = true)
    (hvalid : validStorageKey x.2.1 = true) (h : w.Resolves host x.2.1 x.2.2) :
    (cleanUp host retains x).alone id w = ⟨.ok ⟨⟩, id, if retains x.1 then w else w.discard x.1⟩ := by
  obtain ⟨content, hcontent⟩ := alone_getVerified hvalid h
  unfold cleanUp
  rw [Code.alone_bind_ok hcontent]
  unfold discardUncommitted validateKey
  show (Code.bind (Code.require _ _ >>= _) _).alone id w = _
  rw [Code.alone_bind, Code.alone_require_bind hname]
  rfl

/-- What a plan says of a database that is done. -/
structure Plan.Still (p : Plan) (w : Holdings B) : Prop where
  drawn : p.DrawnFrom w (seenIn w w)
  moves : p.moves = []
  changes : p.changes = false

theorem Plan.Still.refers (hp : p.Still w) {r : Reference} (hr : r ∈ p.references) :
    w.Refers r.owner r.target r.digest := by
  have hstays : r.source = r.target := by
    by_contra hmoves
    exact absurd (List.any_eq_true.2 ⟨r, hr, decide_eq_true hmoves⟩) (Bool.eq_false_iff.1 hp.changes)
  have hrefers := hp.drawn.refers r hr
  rwa [seenIn_self, hstays] at hrefers

theorem Plan.Still.mem_candidates (hp : p.Still w) (hscoped : Organized w) {name : String} :
    name ∈ (sortedItems p.candidates).map Prod.fst ↔ w.Named name := by
  constructor
  · intro h
    obtain ⟨x, hx, rfl⟩ := List.mem_map.1 h
    obtain ⟨r, hr, rfl⟩ := hp.drawn.candidates x ((List.mem_insertionSort _).1 hx)
    exact ⟨r.owner, r.target, r.digest, hp.refers hr, rfl⟩
  · rintro ⟨o, key, digest, hrefers, rfl⟩
    obtain ⟨r, hr, rfl, -, -⟩ := hp.drawn.complete o key digest (by rwa [seenIn_self])
    obtain ⟨rfl, -⟩ := hrefers.unique (hp.refers hr)
    have hfree : ∀ r' ∈ p.references, r'.source ≠ baseName r.target := by
      intro r' hr' hname
      have hseen := hp.drawn.refers r' hr'
      rw [seenIn_self] at hseen
      have hkey := hscoped _ _ _ hseen
      rw [hname, isScoped_baseName] at hkey
      exact nomatch hkey
    obtain ⟨x, hx, hname⟩ := hp.drawn.names r hr (hp.drawn.isScoped_target hr) hfree
    exact List.mem_map.2 ⟨x, (List.mem_insertionSort _).2 hx, hname⟩

theorem alone_reorganizeRows (hw : AtHead host w) (hscoped : Organized w) (happly : visit.apply = true) :
    ∃ p : Plan, p.Still w ∧ (reorganizeRows host visit).alone id w = ⟨.ok (p, .committing), id, w⟩ := by
  obtain ⟨p, hplan, hmoves, hchanges⟩ := exists_planFor hw hscoped visit
  refine ⟨p, ⟨drawnFrom_planFor hplan, hmoves, hchanges⟩, ?_⟩
  have hread := alone_readPlan host visit w
  rw [hplan] at hread
  have happlied : (applyPlan host visit p).alone id w = ⟨.ok (), id, w⟩ := by
    unfold applyPlan flush Code.onlyIf
    rw [if_pos happly, hmoves, hchanges]
    rfl
  unfold reorganizeRows
  rw [Code.alone_bind_ok hread, Code.alone_bind_ok happlied]
  rfl

theorem isFiledKey_of_isScoped {key : String} (h : IsHexName key ∨ IsFiledKey key) (hscoped : isScoped key = true) :
    IsFiledKey key :=
  h.resolve_left fun hname => hname.slash_not_mem (slash_mem_of_isScoped hscoped)

theorem alone_cleanUps (hw : AtHead host w) (hscoped : Organized w) (hp : p.Still w) (retains : String → Bool) :
    ((sortedItems p.candidates).forM (cleanUp host retains)).alone id w =
      ⟨.ok ⟨⟩, id, discardAll retains (sortedItems p.candidates) w⟩ := by
  refine Code.alone_forM (g := fun (x : String × Destination) w => if retains x.1 then w else w.discard x.1)
    (J := fun (s : Holdings B) => ∀ key, isScoped key = true → s.objects key = w.objects key)
    (fun x hx s hs => ?_) fun _ _ => rfl
  obtain ⟨r, hr, heq⟩ := hp.drawn.candidates x ((List.mem_insertionSort _).1 hx)
  have hname : x.1 = baseName r.target := congrArg Prod.fst heq
  have hdestination : x.2 = r.destination := congrArg Prod.snd heq
  have hrefers := hp.refers hr
  have htarget := hscoped _ _ _ hrefers
  have hfiled := isFiledKey_of_isScoped (hw.keys _ _ _ hrefers) htarget
  have hresolves : s.Resolves host x.2.1 x.2.2 := by
    obtain ⟨content, hcontent, hdigest⟩ := hw.resolved.references _ _ _ hrefers
    rw [hdestination]
    exact ⟨content, (hs _ htarget).trans hcontent, hdigest⟩
  refine ⟨alone_cleanUp (by rw [hname]; exact hfiled.isHexName_baseName.valid)
    (by rw [hdestination]; exact hfiled.valid) hresolves, fun key hkey => ?_⟩
  split
  · exact hs key hkey
  · have hne : key ≠ x.1 := by
      rintro rfl
      rw [hname, isScoped_baseName] at hkey
      exact nomatch hkey
    exact (if_neg hne).trans (hs key hkey)

/-- A run that has nothing to move commits, and deletes what it is told to. -/
theorem alone_reorganize (hw : AtHead host w) (hscoped : Organized w) (happly : visit.apply = true)
    (hr2 : visit.providerIsR2 = true) : ∃ r w', (reorganize host visit).alone id w = ⟨.ok r, id, w'⟩ ∧
      r.planned = 0 ∧ Cleared visit w w' := by
  obtain ⟨p, hp, hrows⟩ : ∃ p : Plan, p.Still w ∧
      (reorganizeRows host visit).alone id w = ⟨.ok (p, .committing), id, w⟩ :=
    alone_reorganizeRows hw hscoped happly
  have htransaction : (Code.transaction .statement (reorganizeRows host visit)).alone id w = ⟨.ok p, id, w⟩ :=
    Code.alone_transaction_ok hrows
  have hplanned : (report visit p).planned = 0 := by
    show p.moves.length = 0
    rw [hp.moves]
    rfl
  have hflags : visit.deleteSource = true → visit.apply = true := fun _ => happly
  unfold reorganize
  rw [Code.alone_require_bind hflags, Code.alone_require_bind hr2, Code.alone_bind_ok htransaction]
  by_cases hdelete : visit.deleteSource = true
  · rw [if_pos hdelete, Code.alone_bind_of (alone_cleanUps hw hscoped hp visit.retains)]
    refine ⟨_, _, rfl, hplanned, rows_discardAll _ _ w, fun key _ hretained hnamed => ?_, fun key => ?_⟩
    · rw [objects_discardAll, if_pos ⟨hretained, (hp.mem_candidates hscoped).2 hnamed⟩]
    · rw [objects_discardAll]
      split
      · next h => exact Or.inr ⟨hdelete, h.1, (hp.mem_candidates hscoped).1 h.2⟩
      · exact Or.inl rfl
  · rw [if_neg hdelete]
    exact ⟨_, _, rfl, hplanned, rfl, fun key h => absurd h hdelete, fun key => Or.inl rfl⟩

/-! ## The target -/

theorem Cleared.refers_iff {w' : Holdings B} (h : Cleared visit w w') {o : Owner} {key : String}
    {digest : Option String} : w'.Refers o key digest ↔ w.Refers o key digest := by
  rw [h.rows]
  exact ⟨fun hrefers => hrefers.congr rfl rfl, fun hrefers => hrefers.congr rfl rfl⟩

theorem Cleared.objects_eq {w' : Holdings B} (h : Cleared visit w w') {key : String} (hkey : isScoped key = true) :
    w'.objects key = w.objects key := by
  refine (h.kept key).resolve_right fun hgone => ?_
  rw [hgone.2.2.not_isScoped] at hkey
  exact nomatch hkey

theorem Cleared.organized {w' : Holdings B} (h : Cleared visit w w') (hscoped : Organized w) : Organized w' :=
  fun o key digest hrefers => hscoped o key digest (h.refers_iff.1 hrefers)

theorem Cleared.current {w' : Holdings B} (h : Cleared visit w w') (hcurrent : w.DocumentsCurrent) :
    w'.DocumentsCurrent := by
  intro id d hd
  rw [h.rows] at hd
  obtain ⟨digest, hrefers⟩ := hcurrent id d hd
  exact ⟨digest, h.refers_iff.2 hrefers⟩

theorem Cleared.resolves {w' : Holdings B} (h : Cleared visit w w') {key : String} {digest : Option String}
    (hkey : isScoped key = true) (hw : w.Resolves host key digest) : w'.Resolves host key digest := by
  obtain ⟨content, hcontent, hdigest⟩ := hw
  exact ⟨content, (h.objects_eq hkey).trans hcontent, hdigest⟩

theorem Cleared.atHead {w' : Holdings B} (h : Cleared visit w w') (hw : AtHead host w) (hscoped : Organized w) :
    AtHead host w' where
  appendOnly := by
    rw [h.rows]
    exact hw.appendOnly
  resolved :=
    { references := fun o key digest hrefers =>
        h.resolves (hscoped _ _ _ (h.refers_iff.1 hrefers)) (hw.resolved.references _ _ _ (h.refers_iff.1 hrefers))
      documents := fun id d hd => by
        rw [h.rows] at hd
        obtain ⟨digest, hrefers⟩ := hw.current id d hd
        exact h.resolves (hscoped _ _ _ hrefers) (hw.resolved.documents id d hd) }
  distinct o o' key digest digest' hrefers hrefers' :=
    hw.distinct o o' key digest digest' (h.refers_iff.1 hrefers) (h.refers_iff.1 hrefers')
  current := h.current hw.current
  keys o key digest hrefers := hw.keys o key digest (h.refers_iff.1 hrefers)
  documentOf := by
    rw [h.rows]
    exact hw.documentOf
  requestOf := by
    rw [h.rows]
    exact hw.requestOf

/-- What has been deleted is deleted. -/
theorem Cleared.again {visit' : Visit} {w' w'' : Holdings B} (h : Cleared visit w w') (h' : Cleared visit' w' w'')
    (hdelete : visit'.deleteSource = visit.deleteSource) (hretains : visit'.retains = visit.retains) : w'' = w' := by
  have hnamed : ∀ name, w'.Named name → w.Named name := by
    rintro name ⟨o, key, digest, hrefers, rfl⟩
    exact ⟨o, key, digest, h.refers_iff.1 hrefers, rfl⟩
  have hobjects : w''.objects = w'.objects := by
    funext key
    rcases h'.kept key with hkept | ⟨hdelete', hretained, hname⟩
    · exact hkept
    · rw [h'.gone key hdelete' hretained hname]
      rw [hdelete] at hdelete'
      rw [hretains] at hretained
      exact (h.gone key hdelete' hretained (hnamed key hname)).symm
  rw [h'.rows, hobjects]

/-- A run with `--apply` ends with every version and artifact filed under its tenant and account, and a second one
finds nothing to do. -/
structure ReachesTarget (host : Host B Page) (visit : Visit) (w w' : Holdings B) : Prop where
  filed : ∀ o key digest, w'.Refers o key digest → IsFiledKey key
  kept : ∀ o key digest, w.Refers o key digest → ∃ key', w'.Refers o key' digest ∧ w'.objects key' = w.objects key
  current : w'.DocumentsCurrent
  again : ∀ visit' : Visit, visit'.apply = true → visit'.deleteSource = visit.deleteSource →
    visit'.providerIsR2 = true → visit'.retains = visit.retains →
      ∃ r, (reorganize host visit').alone id w' = ⟨.ok r, id, w'⟩ ∧ r.planned = 0

/-- **The tool reaches its target exactly where it is reached already.** -/
theorem reaches_target_iff (hw : AtHead host w) (happly : visit.apply = true) (hr2 : visit.providerIsR2 = true) :
    (∃ r w', (reorganize host visit).alone id w = ⟨.ok r, id, w'⟩ ∧ ReachesTarget host visit w w') ↔
      ∀ o key digest, w.Refers o key digest → isScoped key = true := by
  constructor
  · rintro ⟨r, w', hrun, -⟩ o key digest hrefers
    by_contra hbare
    obtain ⟨e, he⟩ : ∃ e, (reorganize host visit).result id w = .error e :=
      result_reorganize happly hw.appendOnly hrefers (Bool.eq_false_iff.2 hbare)
    exact Code.ok_ne_error_of_alone hrun he
  · intro hscoped
    obtain ⟨r, w', hrun, -, hcleared⟩ := alone_reorganize hw hscoped happly hr2
    refine ⟨r, w', hrun, ?_, ?_, hcleared.current hw.current, ?_⟩
    · intro o key digest hrefers
      have hrefers' := hcleared.refers_iff.1 hrefers
      exact isFiledKey_of_isScoped (hw.keys o key digest hrefers') (hscoped o key digest hrefers')
    · intro o key digest hrefers
      exact ⟨key, hcleared.refers_iff.2 hrefers, hcleared.objects_eq (hscoped o key digest hrefers)⟩
    · intro visit' happly' hdelete hr2' hretains
      obtain ⟨r', w'', hrun', hplanned, hcleared'⟩ :=
        alone_reorganize (hcleared.atHead hw hscoped) (hcleared.organized hscoped) happly' hr2'
      obtain rfl := hcleared.again hcleared' hdelete hretains
      exact ⟨r', hrun', hplanned⟩

end Stays

/-! ### One document -/

def sampleName : String :=
  "0123456789abcdef0123456789abcdef"

theorem isHexName_sampleName : IsHexName sampleName := by
  have hdigits : (sampleName.toList.all fun c => (Texts.hexDigit c).isSome) = true := by decide
  exact ⟨by decide, List.all_eq_true.1 hdigits⟩

theorem atHead_oneDocument {key : String} (hkey : IsHexName key ∨ IsFiledKey key) :
    AtHead sampleHost (oneDocument key "other") where
  appendOnly := rfl
  resolved := resolved_oneDocument key "other"
  distinct := keysDistinct_oneDocument key "other"
  current := documentsCurrent_oneDocument key "other"
  keys o key' digest hrefers := by
    obtain ⟨-, rfl, -⟩ := of_refers_oneDocument hrefers
    exact hkey
  documentOf id v hv := by
    obtain ⟨rfl, -⟩ := versions_oneDocument hv
    exact ⟨_, Table.get?_insert_self rfl _⟩
  requestOf _ _ hs := nomatch hs

/-- A document under tenant 7 and account 9. -/
def filedDocument : Holdings SampleBytes :=
  oneDocument (documentStorageScope 7 9 ++ "/" ++ sampleName) "other"

theorem reaches_target_filed :
    ∃ r w', (reorganize sampleHost deletingVisit).alone id filedDocument = ⟨.ok r, id, w'⟩ ∧
      ReachesTarget sampleHost deletingVisit filedDocument w' := by
  refine (reaches_target_iff (atHead_oneDocument (Or.inr ?_)) rfl rfl).2 fun o key digest hrefers => ?_
  · exact ⟨7, 9, sampleName, by decide, by decide, isHexName_sampleName, rfl⟩
  · obtain ⟨-, rfl, -⟩ := of_refers_oneDocument hrefers
    exact isScoped_documentStorageScope 7 9 sampleName

/-- `--apply` alone. -/
def applyingVisit : Visit :=
  { deletingVisit with
    deleteSource := false }

/-- A version whose key is a bare name: the copies are made, and the update of its row is refused. -/
theorem not_reaches_target :
    ¬∀ w : Holdings SampleBytes, AtHead sampleHost w →
      ∃ r w', (reorganize sampleHost applyingVisit).alone id w = ⟨.ok r, id, w'⟩ ∧
        ReachesTarget sampleHost applyingVisit w w' := by
  intro h
  obtain ⟨r, w', hrun, -⟩ := h _ (atHead_oneDocument (Or.inl isHexName_sampleName))
  have hbare : isScoped sampleName = false := by
    rw [Bool.eq_false_iff]
    intro hscoped
    exact absurd (isHexName_sampleName.2 '/' (slash_mem_of_isScoped hscoped)) (by decide)
  obtain ⟨e, he⟩ : ∃ e, (reorganize sampleHost applyingVisit).result id (oneDocument sampleName "other") = .error e :=
    result_reorganize rfl rfl (refers_oneDocument sampleName "other") hbare
  exact Code.ok_ne_error_of_alone hrun he

end Rubrica.Reorganization
