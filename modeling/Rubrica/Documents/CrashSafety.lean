import Rubrica.Documents.Relabelling

set_option autoImplicit false

/-! # No reference is lost

Between two statements of the tool, whoever runs it and however often, and wherever a run stops: every reference
resolves to an object with the recorded digest. -/

namespace Rubrica.Reorganization

open Transactions

variable {B Page : Type}

/-! ## Objects that come and go -/

/-- A name that a run can delete: the last segment of some reference's key. -/
def Holdings.Named (w : Holdings B) (name : String) : Prop :=
  ∃ o key digest, w.Refers o key digest ∧ baseName key = name

theorem Holdings.Refers.congr {w w' : Holdings B} {o : Owner} {key : String} {digest : Option String}
    (h : w.Refers o key digest) (hversions : w'.versions = w.versions) (hsignatures : w'.signatures = w.signatures) :
    w'.Refers o key digest := by
  cases h with
  | version row => exact .version (hversions ▸ row)
  | signature row artifact => exact .signature (hsignatures ▸ row) artifact

section Objects

variable {host : Host B Page} {s w : Holdings B}

theorem later_objects {objects : String → Option B}
    (stored : ∀ key content, isScoped key = true → s.objects key = some content → objects key = some content)
    (bare : ∀ key content, isScoped key = false → objects key = some content → s.objects key = some content) :
    Later s { s with objects := objects } where
  refers _ key _ h := ⟨key, h.congr rfl rfl, .refl key⟩
  referred _ key _ h := ⟨key, h.congr rfl rfl, .refl key⟩
  documents _ d h := ⟨d.storageKey, h, .refl _⟩
  documented _ d h := ⟨d.storageKey, h, .refl _⟩
  stored := stored
  bare := bare

/-- The objects that rows refer to are the ones that matter. -/
theorem sound_objects (hs : Sound host s) {objects : String → Option B}
    (h : ∀ o key digest content, s.Refers o key digest → s.objects key = some content → objects key = some content) :
    Sound host { s with objects := objects } := by
  have hresolves : ∀ o key digest digest', s.Refers o key digest → s.Resolves host key digest' →
      Holdings.Resolves host { s with objects := objects } key digest' := by
    rintro o key digest _ hrefers ⟨content, hcontent, rfl⟩
    exact ⟨content, h o key digest content hrefers hcontent, rfl⟩
  refine ⟨⟨?_, ?_⟩, ?_, ?_⟩
  · intro o key digest hrefers
    have hrefers' : s.Refers o key digest := hrefers.congr rfl rfl
    exact hresolves o key digest digest hrefers' (hs.resolved.references o key digest hrefers')
  · intro id d hd
    obtain ⟨digest, hrefers⟩ := hs.current id d hd
    exact hresolves _ _ _ _ hrefers (hs.resolved.documents id d hd)
  · intro id d hd
    obtain ⟨digest, hrefers⟩ := hs.current id d hd
    exact ⟨digest, hrefers.congr rfl rfl⟩
  · intro o o' key digest digest' hkey hrefers hrefers'
    exact hs.distinct o o' key digest digest' hkey (hrefers.congr rfl rfl) (hrefers'.congr rfl rfl)

theorem store_objects (key : String) (content : B) {key' : String} {content' : B}
    (h : s.objects key' = some content') : (s.store key content).objects key' = some content' := by
  show (if key' = key then some ((s.objects key).getD content) else s.objects key') = some content'
  split
  · next hkey => rw [← hkey, h, Option.getD_some]
  · exact h

theorem later_store {key : String} (hkey : isScoped key = true) (content : B) : Later s (s.store key content) := by
  refine later_objects (fun _ _ _ h => store_objects key content h) fun key' content' hbare h => ?_
  have hne : key' ≠ key := by
    rintro rfl
    rw [hkey] at hbare
    exact nomatch hbare
  rwa [if_neg hne] at h

theorem sound_store (hs : Sound host s) (key : String) (content : B) : Sound host (s.store key content) :=
  sound_objects hs fun _ _ _ _ _ h => store_objects key content h

theorem later_discard {key : String} (hkey : isScoped key = false) : Later s (s.discard key) := by
  refine later_objects (fun key' content' hscoped h => ?_) fun key' content' _ h => ?_
  · have hne : key' ≠ key := by
      rintro rfl
      rw [hkey] at hscoped
      exact nomatch hscoped
    rwa [if_neg hne]
  · split at h
    · exact nomatch h
    · exact h

theorem sound_discard (hs : Sound host s) (horganized : Organized s) {key : String} (hkey : isScoped key = false) :
    Sound host (s.discard key) := by
  refine sound_objects hs fun o key' digest content hrefers h => ?_
  exact (later_discard hkey).stored key' content (horganized o key' digest hrefers) h

theorem Organized.later (h : Organized s) (hlater : Later s w) : Organized w := by
  intro o key' digest hrefers
  obtain ⟨key, hrefers, hmoved⟩ := hlater.referred o key' digest hrefers
  exact hmoved.isScoped (h o key digest hrefers)

theorem Holdings.Named.later {name : String} (h : s.Named name) (hlater : Later s w) : w.Named name := by
  obtain ⟨o, key, digest, hrefers, rfl⟩ := h
  obtain ⟨key', hrefers', hmoved⟩ := hlater.refers o key digest hrefers
  exact ⟨o, key', digest, hrefers', hmoved.baseName⟩

end Objects

/-! ## The tool among others -/

/-- What a run of the tool promises: an object goes in a deletion only, once every key is under `tenants/`, and then
its name is the last segment of one. -/
def reorganizing (host : Host B Page) : Protocol (Holdings B) Empty Stage where
  inv := Sound host
  guar pt _ s w := Later s w ∧ ∀ key, s.objects key ≠ none → w.objects key = none →
    pt = .deleting ∧ Organized s ∧ s.Named key
  env _ _ := False
  cond _ _ := True
  lossy := True

section Keeps

variable {host : Host B Page} {base : Rights Empty} {A : Holdings B → Prop} {s : Holdings B}

/-- Whatever lasts over the state getting later, nobody breaks. -/
theorem stable_of_later (h : ∀ t w, Later t w → A t → A w) : (reorganizing host).Stable base A := by
  rintro t w ⟨-, -, hmoved⟩ ht
  rcases hmoved with henv | ⟨pt, H, -, -, hlater, -⟩
  · exact absurd henv id
  · exact h t w hlater ht

/-- Read, and compare the digest. -/
theorem wp_getVerified (hA : ∀ t w, Later t w → A t → A w) (hs : A s) (key : String) (digest : Option String) :
    (reorganizing host).wp (getVerified host key digest)
      (fun _ c t => c = .start base ∧ A t ∧ t.Resolves host key digest) (fun _ _ _ => True) (.start base) s := by
  refine Protocol.wp_seq (Protocol.wp_seq (Protocol.wp_require (fun _ => ?_) fun _ => trivial))
  refine Protocol.wp_seq (Protocol.wp_select (stable_of_later hA) hs (fun t ht _ _ => ?_) fun _ _ _ => trivial)
  refine Protocol.wp_orRaise (fun content hcontent => ?_) fun _ => trivial
  refine Protocol.wp_seq (Protocol.wp_require (fun hdigest => ?_) fun _ => trivial)
  exact ⟨rfl, ht, content, hcontent, hdigest⟩

/-- Copy an object, and read the copy. -/
theorem wp_copyObject (hA : ∀ t w, Later t w → A t → A w) (hs : A s) {x : String × Destination}
    (hscoped : isScoped x.2.1 = true) :
    (reorganizing host).wp (copyObject host x)
      (fun _ c t => c = .start base ∧ A t ∧ t.Resolves host x.2.1 x.2.2) (fun _ _ _ => True) (.start base) s := by
  refine Protocol.wp_seq (Protocol.wp_mono (wp_getVerified hA hs x.1 x.2.2) (fun _ h => h) ?_ fun _ _ _ _ h => h)
  rintro content _ t - ⟨rfl, ht, -⟩
  have hrest : ∀ t', A t' → (reorganizing host).wp (getVerified host x.2.1 x.2.2 >>= fun _ => pure PUnit.unit)
      (fun _ c t => c = .start base ∧ A t ∧ t.Resolves host x.2.1 x.2.2) (fun _ _ _ => True) (.start base) t' :=
    fun t' ht' => Protocol.wp_seq (Protocol.wp_mono (wp_getVerified hA ht' x.2.1 x.2.2) (fun _ h => h)
      (fun _ _ _ _ h => h) fun _ _ _ _ h => h)
  -- The upload may find the object there, and then the copy of an earlier run is read.
  refine Protocol.wp_seq (Protocol.wp_try (Protocol.wp_mono (Q := fun _ c t => c = .start base ∧ A t)
    (E := fun _ c t => c = .start base ∧ A t) ?_ (fun _ h => h) ?_ ?_))
  · refine Protocol.wp_seq (Protocol.wp_require (fun _ => ?_) fun _ => ⟨rfl, ht⟩)
    refine Protocol.wp_seq (Protocol.wp_effect (stable_of_later hA) ht (fun t' ht' hinv _ => ?_)
      fun t' ht' _ => ⟨rfl, ht'⟩)
    have hlater : Later t' (t'.store x.2.1 content) := later_store hscoped content
    refine ⟨sound_store hinv x.2.1 content, ⟨hlater, fun key hkey hgone => ?_⟩, ?_⟩
    · obtain ⟨content', hcontent'⟩ := Option.ne_none_iff_exists'.1 hkey
      exact absurd ((store_objects x.2.1 content hcontent').symm.trans hgone) (by simp)
    · exact Protocol.wp_require (fun _ => ⟨rfl, hA _ _ hlater ht'⟩) fun _ => ⟨rfl, hA _ _ hlater ht'⟩
  · rintro _ _ t' - ⟨rfl, ht'⟩
    exact hrest t' ht'
  · rintro e _ t' - ⟨rfl, ht'⟩
    split
    · exact hrest t' ht'
    · trivial

/-- Delete an object that is not under `tenants/`, once all references are. -/
theorem wp_cleanUp (hA : ∀ t w, Later t w → A t → A w) (hs : A s) {x : String × Destination}
    (hbare : isScoped x.1 = false) (hdone : ∀ t, A t → Organized t ∧ t.Named x.1) (retains : String → Bool) :
    (reorganizing host).wp (cleanUp host retains x) (fun _ c t => c = .start base ∧ A t) (fun _ _ _ => True)
      (.start base) s := by
  refine Protocol.wp_seq (Protocol.wp_mono (wp_getVerified hA hs x.2.1 x.2.2) (fun _ h => h) ?_ fun _ _ _ _ h => h)
  rintro _ _ t - ⟨rfl, ht, -⟩
  refine Protocol.wp_seq (Protocol.wp_seq (Protocol.wp_require (fun _ => ?_) fun _ => trivial))
  refine Protocol.wp_effect (stable_of_later hA) ht (fun t' ht' hinv _ => ?_) fun _ _ _ => trivial
  obtain ⟨horganized, hnamed⟩ := hdone t' ht'
  split
  · exact ⟨hinv, ⟨.refl t', fun key hkey hgone => absurd hgone hkey⟩, rfl, ht'⟩
  · have hlater : Later t' (t'.discard x.1) := later_discard hbare
    refine ⟨sound_discard hinv horganized hbare, ⟨hlater, fun key hkey hgone => ?_⟩, rfl, hA _ _ hlater ht'⟩
    have hkey' : key = x.1 := by
      by_contra hne
      exact hkey ((if_neg hne).symm.trans hgone)
    exact ⟨rfl, horganized, hkey' ▸ hnamed⟩

/-- What is known after the queries of a run. -/
theorem wp_readPlan (visit : Visit) :
    (reorganizing host).wp (readPlan host visit)
      (fun p c t => c = .start base ∧ ∃ sd sv ss, p.Known host sd sv ss ∧ Later ss t) (fun _ _ _ => True)
      (.start base) s := by
  have hlater : ∀ w : Holdings B, ∀ t t' : Holdings B, Later t t' → Later w t → Later w t' :=
    fun w t t' hlater h => h.trans hlater
  refine Protocol.wp_seq (Protocol.wp_select (Protocol.stable_const _ True) trivial (fun sm _ _ _ => ?_)
    fun _ _ _ => trivial)
  refine Protocol.wp_seq (Protocol.wp_select (Protocol.stable_const _ True) trivial (fun sd _ hsd _ => ?_)
    fun _ _ _ => trivial)
  refine Protocol.wp_seq (Protocol.wp_select (stable_of_later (hlater sd)) (.refl sd) (fun sv hv hsv _ => ?_)
    fun _ _ _ => trivial)
  refine Protocol.wp_seq (Protocol.wp_select (stable_of_later (hlater sv)) (.refl sv) (fun sr hr _ _ => ?_)
    fun _ _ _ => trivial)
  refine Protocol.wp_seq (Protocol.wp_select (stable_of_later (hlater sv)) hr (fun ss hss _ _ => ?_)
    fun _ _ _ => trivial)
  refine Protocol.wp_ofExcept (fun p hp => ?_) fun _ _ => trivial
  have hdrawn : p.DrawnFrom sd (seenIn sv ss) :=
    drawnFrom_planOf (visit.versions.perm _) (visit.signatures.perm _) hp
  exact ⟨rfl, sd, sv, ss, ⟨hdrawn, hsd, hsv, hv, hss⟩, .refl ss⟩

/-- The copies of a plan are there. -/
def Copied (host : Host B Page) (p : Plan) (w : Holdings B) : Prop :=
  ∀ x ∈ p.moves, w.Resolves host x.2.1 x.2.2

theorem Plan.DrawnFrom.isScoped_moves {p : Plan} {sd : Holdings B} {seen : Owner → Holdings B}
    (hp : p.DrawnFrom sd seen) {x : String × Destination} (hx : x ∈ p.moves) : isScoped x.2.1 = true := by
  obtain ⟨r, hr, hdestination⟩ := hp.planned x hx
  rw [hdestination]
  exact hp.isScoped_target hr

theorem Copied.later {p : Plan} {sd w w' : Holdings B} {seen : Owner → Holdings B} (h : Copied host p w)
    (hp : p.DrawnFrom sd seen) (hlater : Later w w') : Copied host p w' :=
  fun x hx => hlater.resolves (hp.isScoped_moves hx) (h x hx)

section Commit

variable {p : Plan} {sd sv ss : Holdings B} (hp : p.Known host sd sv ss)

include hp

/-- The loop over `moves`. -/
theorem wp_copies (hs : Later ss s) :
    (reorganizing host).wp ((sortedItems p.moves).forM (copyObject host))
      (fun _ c t => c = .start base ∧ Later ss t ∧ Copied host p t) (fun _ _ _ => True) (.start base) s := by
  have hmem : ∀ x, x ∈ sortedItems p.moves ↔ x ∈ p.moves := fun x => List.mem_insertionSort _
  refine Protocol.wp_mono (Protocol.wp_forM (I := fun done t => Later ss t ∧ (∀ x ∈ done, x ∈ p.moves) ∧
    ∀ x ∈ done, t.Resolves host x.2.1 x.2.2) (fun _ h => h) ?_ ⟨hs, nofun, nofun⟩) (fun _ h => h) ?_
    fun _ _ _ _ h => h
  · rintro done x t hx ht
    have hkeep : ∀ t w, Later t w → (Later ss t ∧ (∀ x ∈ done, x ∈ p.moves) ∧
        ∀ x ∈ done, t.Resolves host x.2.1 x.2.2) → Later ss w ∧ (∀ x ∈ done, x ∈ p.moves) ∧
          ∀ x ∈ done, w.Resolves host x.2.1 x.2.2 := by
      rintro t w hlater ⟨ht, hdone, hresolves⟩
      exact ⟨ht.trans hlater, hdone,
        fun y hy => hlater.resolves (hp.drawn.isScoped_moves (hdone y hy)) (hresolves y hy)⟩
    refine Protocol.wp_mono (wp_copyObject hkeep ht (hp.drawn.isScoped_moves ((hmem x).1 hx))) (fun _ h => h) ?_
      fun _ _ _ _ h => h
    rintro _ _ t' - ⟨rfl, ⟨ht', hdone, hresolves⟩, hx'⟩
    have hnew : ∀ y ∈ done ++ [x], y ∈ p.moves ∧ t'.Resolves host y.2.1 y.2.2 := by
      intro y hy
      rcases List.mem_append.1 hy with hy | hy
      · exact ⟨hdone y hy, hresolves y hy⟩
      · rw [List.mem_singleton.1 hy]
        exact ⟨(hmem x).1 hx, hx'⟩
    exact ⟨rfl, ht', fun y hy => (hnew y hy).1, fun y hy => (hnew y hy).2⟩
  · rintro _ _ t - ⟨rfl, ht, -, hresolves⟩
    exact ⟨rfl, ht, fun x hx => hresolves x ((hmem x).2 hx)⟩

/-- The flush and the commit. -/
theorem wp_flush (hs : Later ss s) (hcopied : Copied host p s) :
    (reorganizing host).wp (flush p)
      (fun _ c t => (reorganizing host).CommitsAt .committing (fun _ => True)
        (fun c t => c = .start base ∧ Later ss t ∧ Organized t) c t)
      (fun _ _ _ => True) (.start base) s := by
  have hstable : (reorganizing host).Stable base fun t => Later ss t ∧ Copied host p t :=
    stable_of_later fun t w hlater ht => ⟨ht.1.trans hlater, ht.2.later hp.drawn hlater⟩
  unfold flush Code.onlyIf
  split
  · refine Protocol.wp_seq (Protocol.wp_select hstable ⟨hs, hcopied⟩ (fun t ht _ _ => ?_) fun _ _ _ => trivial)
    refine Protocol.wp_seq (Protocol.wp_require (fun _ => ?_) fun _ => trivial)
    refine Protocol.wp_write hstable ht (fun t' ht' _ _ => ?_) fun _ _ _ => trivial
    refine Protocol.commitsAt_of (P := reorganizing host) (c := (Ctx.start base).buffer p.relabel) hstable ht'
      (fun _ _ => trivial) fun v hv hinv _ => ?_
    have hlater : Later v (p.relabel v) := hp.later_relabel hv.1 hinv
    exact ⟨hp.sound_relabel hv.1 hinv hv.2, ⟨hlater, fun key hkey hgone => absurd hgone hkey⟩,
      ⟨rfl, hv.1.trans hlater, hp.organized_relabel hv.1⟩, fun _ => trivial⟩
  · next hchanges =>
      show (reorganizing host).CommitsAt .committing (fun _ => True)
        (fun c t => c = .start base ∧ Later ss t ∧ Organized t) (.start base) s
      refine Protocol.commitsAt_of (P := reorganizing host) (c := Ctx.start base) hstable ⟨hs, hcopied⟩
        (fun _ _ => trivial) fun v hv hinv _ => ?_
      exact ⟨hinv, ⟨.refl v, fun key hkey hgone => absurd hgone hkey⟩,
        ⟨rfl, hv.1, hp.organized_of_no_changes hv.1 (Bool.eq_false_iff.2 hchanges)⟩, fun _ => trivial⟩

/-- The loop over `cleanup_candidates`. -/
theorem wp_cleanUps (hs : Later ss s) (horganized : Organized s) (retains : String → Bool) :
    (reorganizing host).wp ((sortedItems p.candidates).forM (cleanUp host retains)) (fun _ _ _ => True)
      (fun _ _ _ => True) (.start base) s := by
  have hkeep : ∀ t w, Later t w → Later ss t ∧ Organized t → Later ss w ∧ Organized w :=
    fun t w hlater ht => ⟨ht.1.trans hlater, ht.2.later hlater⟩
  refine Protocol.wp_mono (Protocol.wp_forM (I := fun _ t => Later ss t ∧ Organized t) (fun _ h => h) ?_
    ⟨hs, horganized⟩) (fun _ h => h) (fun _ _ _ _ _ => trivial) fun _ _ _ _ h => h
  intro done x t hx ht
  obtain ⟨r, hr, heq⟩ := hp.drawn.candidates x ((List.mem_insertionSort _).1 hx)
  have hname : x.1 = baseName r.target := congrArg Prod.fst heq
  refine wp_cleanUp hkeep ht (by rw [hname]; exact isScoped_baseName _) (fun t' ht' => ⟨ht'.2, ?_⟩) retains
  obtain ⟨key, hrefers, hmoved⟩ := hp.of_mem ht'.1 hr
  exact ⟨r.owner, key, r.digest, hrefers, by rw [hname, hp.drawn.baseName_target hr, hmoved.baseName]⟩

end Commit

/-- Every run of the tool keeps its promise. -/
theorem wp_reorganize (visit : Visit) :
    (reorganizing host).wp (reorganize host visit) (fun _ _ _ => True) (fun _ _ _ => True) (.start base) s := by
  refine Protocol.wp_seq (Protocol.wp_require (fun hflags => ?_) fun _ => trivial)
  refine Protocol.wp_seq (Protocol.wp_require (fun _ => ?_) fun _ => trivial)
  refine Protocol.wp_seq (Protocol.wp_mono (Protocol.wp_transaction (D := fun _ _ => True)
    (Q := fun (p : Plan) c t => c = .start base ∧ ∃ sd sv ss, p.Known host sd sv ss ∧ Later ss t ∧
      (visit.apply = true → Organized t)) (E := fun _ _ _ => True) (fun _ h => h)
    (fun _ => Protocol.stable_const _ True) (fun _ _ _ _ => trivial) ?_) (fun _ h => h) ?_ fun _ _ _ _ h => h)
  · refine Protocol.wp_seq (Protocol.wp_mono (wp_readPlan visit) (fun _ h => h) ?_ fun _ _ _ _ h => h)
    rintro p _ t - ⟨rfl, sd, sv, ss, hp, ht⟩
    refine Protocol.wp_seq ?_
    unfold applyPlan
    split
    · refine Protocol.wp_seq (Protocol.wp_mono (wp_copies hp ht) (fun _ h => h) ?_ fun _ _ _ _ h => h)
      rintro _ _ t' - ⟨rfl, ht', hcopied⟩
      refine Protocol.wp_mono (wp_flush hp ht' hcopied) (fun _ h => h) ?_ fun _ _ _ _ h => h
      rintro _ c v - hcommits w hr hinv
      obtain ⟨-, hgo⟩ := hcommits w hr hinv
      refine ⟨trivial, fun hcond => ?_⟩
      obtain ⟨hinv', hguar, ⟨hc, hlater, horganized⟩, -⟩ := hgo hcond
      exact ⟨hinv', hguar, ⟨hc, sd, sv, ss, hp, hlater, fun _ => horganized⟩, fun _ => trivial⟩
    · next happly =>
        have hstable : (reorganizing host).Stable base (Later ss) :=
          stable_of_later fun t w hlater ht => ht.trans hlater
        intro t' hr hinv
        have hcommits : (reorganizing host).CommitsAt .committing (fun _ => True)
            (fun c t => c = .start base ∧ ∃ sd sv ss, p.Known host sd sv ss ∧ Later ss t ∧
              (visit.apply = true → Organized t)) (.start base) t' := by
          refine Protocol.commitsAt_of (P := reorganizing host) (c := Ctx.start base) hstable (hstable.rely hr ht)
            (fun _ _ => trivial) fun v hv hinv _ => ?_
          exact ⟨hinv, ⟨.refl v, fun key hkey hgone => absurd hgone hkey⟩,
            ⟨rfl, sd, sv, ss, hp, hv, fun h => absurd h happly⟩, fun _ => trivial⟩
        exact ⟨trivial, fun _ => hcommits⟩
  · rintro p _ t - ⟨rfl, sd, sv, ss, hp, ht, horganized⟩
    refine Protocol.wp_seq ?_
    split
    · next hdelete => exact wp_cleanUps hp ht (horganized (hflags hdelete)) visit.retains
    · trivial

end Keeps

/-! ## Runs -/

/-- Runs of the tool, one after another or at once; each can stop anywhere. -/
def toolRuns (host : Host B Page) : Setting (Holdings B) Empty Stage Failure Report where
  starts _ code _ := ∃ visit, code = reorganize host visit
  env _ _ := False
  lossy := True

theorem governs_reorganizing (host : Host B Page) :
    (reorganizing host).Governs (fun _ _ _ => True) (fun _ _ _ => True) (toolRuns host) where
  lasting := Protocol.lasting_true
  lasting_raise := Protocol.lasting_true
  starts base code s _ := by
    rintro ⟨visit, rfl⟩
    exact wp_reorganize visit
  env _ _ _ h := absurd h id
  lossy _ := trivial
  fault _ _ _ := trivial

/-- Rows resolve, and what goes is an object that no row refers to. -/
structure DeletesSafely (host : Host B Page) (s w : Holdings B) : Prop where
  unreferenced : ∀ key, s.objects key ≠ none → w.objects key = none →
    (∀ o digest, ¬s.Refers o key digest) ∧ ∀ id d, s.documents.get? id = some d → d.storageKey ≠ key
  copied : ∀ key content, s.objects key = some content → w.objects key = none →
    ∃ o copy, s.Refers o copy (some (host.sha256 content)) ∧ isScoped copy = true ∧ baseName copy = key ∧
      s.Resolves host copy (some (host.sha256 content))

/-- At every point every reference resolves, and an object is deleted only when no row refers to it and a copy is
there. -/
structure CrashSafe (host : Host B Page) (steps : List (System (Holdings B) Empty Stage Failure Report ×
    Label (Holdings B) Empty Stage Failure Report)) (Z : System (Holdings B) Empty Stage Failure Report) : Prop where
  resolved : Z.shared.Resolved host
  throughout : ∀ x ∈ steps, x.1.shared.Resolved host
  deletes : ∀ x ∈ steps, ∀ X', x.1.step x.2 = some X' → DeletesSafely host x.1.shared X'.shared

/-- An object whose key is the last segment of some row's key is one that a row with this segment has recorded. -/
def Sources (host : Host B Page) (w : Holdings B) : Prop :=
  ∀ key content, w.Named key → w.objects key = some content →
    ∃ o key', w.Refers o key' (some (host.sha256 content)) ∧ baseName key' = key

section Runs

variable {host : Host B Page} {Y Z : System (Holdings B) Empty Stage Failure Report}
  {steps : List (System (Holdings B) Empty Stage Failure Report × Label (Holdings B) Empty Stage Failure Report)}

theorem sound_start {w : Holdings B} (hresolved : w.Resolved host) (hdistinct : w.KeysDistinct)
    (hcurrent : w.DocumentsCurrent) : Sound host w :=
  ⟨hresolved, hcurrent, fun o o' key digest digest' _ => hdistinct o o' key digest digest'⟩

theorem sound_of_run (hrun : Run (toolRuns host) Y steps Z) (hidle : Y.sessions = []) (hsound : Sound host Y.shared) :
    Sound host Z.shared ∧ Later Y.shared Z.shared := by
  have hmeets : ∀ x ∈ steps, (reorganizing host).Meets x.1 x.2 := fun _ _ _ _ _ => trivial
  have hgood := (reorganizing host).good_of_idle (Q := fun _ _ _ => True) (E := fun _ _ _ => True) hsound hidle
  have hrely := (governs_reorganizing host).rely hgood hrun hmeets
  have hstable : (reorganizing host).Stable [] (Later Y.shared) :=
    stable_of_later fun t w hlater ht => ht.trans hlater
  exact ⟨((governs_reorganizing host).good hgood hrun hmeets).inv, hstable.rely hrely (.refl Y.shared)⟩

/-- What a step deletes was a name of the references, all of which were done. -/
theorem of_deleted (hrun : Run (toolRuns host) Y steps Z) (hidle : Y.sessions = []) (hsound : Sound host Y.shared)
    {x : System (Holdings B) Empty Stage Failure Report × Label (Holdings B) Empty Stage Failure Report}
    (hx : x ∈ steps) {X' : System (Holdings B) Empty Stage Failure Report} (hstep : x.1.step x.2 = some X')
    {key : String} (hkey : x.1.shared.objects key ≠ none) (hgone : X'.shared.objects key = none) :
    Organized x.1.shared ∧ x.1.shared.Named key := by
  have hmeets : ∀ x ∈ steps, (reorganizing host).Meets x.1 x.2 := fun _ _ _ _ _ => trivial
  have hgood := (reorganizing host).good_of_idle (Q := fun _ _ _ => True) (E := fun _ _ _ => True) hsound hidle
  have hmoves := (governs_reorganizing host).moves hgood hrun hmeets hx hstep
  unfold Protocol.Moves at hmoves
  split at hmoves
  · obtain ⟨H, -, hdeletes⟩ := hmoves
    exact (hdeletes key hkey hgone).2
  · rcases hmoves with hsame | henv
    · rw [hsame] at hgone
      exact absurd hgone hkey
    · exact absurd henv id

theorem Holdings.Named.not_isScoped {w : Holdings B} {key : String} (h : w.Named key) : isScoped key = false := by
  obtain ⟨o, key', digest, -, rfl⟩ := h
  exact isScoped_baseName key'

/-- **Reorganizing is crash-safe**, where no stranger lies at the old key of an object. -/
theorem reorganization_crash_safe (hrun : Run (toolRuns host) Y steps Z) (hidle : Y.sessions = [])
    (hresolved : Y.shared.Resolved host) (hdistinct : Y.shared.KeysDistinct) (hcurrent : Y.shared.DocumentsCurrent)
    (hsources : Sources host Y.shared) : CrashSafe host steps Z := by
  have hsound := sound_start hresolved hdistinct hcurrent
  have hthrough : ∀ x ∈ steps, Sound host x.1.shared ∧ Later Y.shared x.1.shared := by
    intro x hx
    obtain ⟨past, future, rfl⟩ := List.append_of_mem hx
    exact sound_of_run hrun.split.1 hidle hsound
  refine ⟨(sound_of_run hrun hidle hsound).1.resolved, fun x hx => (hthrough x hx).1.resolved, ?_⟩
  intro x hx X' hstep
  obtain ⟨hX, hlater⟩ := hthrough x hx
  constructor
  · intro key hkey hgone
    obtain ⟨horganized, hnamed⟩ := of_deleted hrun hidle hsound hx hstep hkey hgone
    have hfree : ∀ o digest, ¬x.1.shared.Refers o key digest := by
      intro o digest hrefers
      have hscoped := horganized o key digest hrefers
      rw [hnamed.not_isScoped] at hscoped
      exact nomatch hscoped
    refine ⟨hfree, ?_⟩
    rintro id d hd rfl
    obtain ⟨digest, hrefers⟩ := hX.current id d hd
    exact hfree _ _ hrefers
  · intro key content hkey hgone
    obtain ⟨horganized, hnamed⟩ := of_deleted hrun hidle hsound hx hstep (by rw [hkey]; simp) hgone
    -- The object was there from the start, and a row that has recorded it has moved to its copy.
    have hstart : Y.shared.objects key = some content := hlater.bare key content hnamed.not_isScoped hkey
    have hstartNamed : Y.shared.Named key := by
      obtain ⟨o, key', digest, hrefers, rfl⟩ := hnamed
      obtain ⟨key0, hrefers0, hmoved⟩ := hlater.referred o key' digest hrefers
      exact ⟨o, key0, digest, hrefers0, hmoved.baseName.symm⟩
    obtain ⟨o, key0, hrefers0, hname⟩ := hsources key content hstartNamed hstart
    obtain ⟨copy, hrefers, hmoved⟩ := hlater.refers o key0 _ hrefers0
    exact ⟨o, copy, hrefers, horganized o copy _ hrefers, hmoved.baseName.trans hname,
      hX.resolved.references o copy _ hrefers⟩

end Runs

/-! ### A stranger at the old key -/

def Listing.asTheyAre (α : Type) : Listing α :=
  ⟨id, fun _ => .refl _⟩

/-- `--apply --delete-source`. -/
def deletingVisit : Visit where
  apply := true
  deleteSource := true
  providerIsR2 := true
  members := .asTheyAre _
  versions := .asTheyAre _
  signatures := .asTheyAre _
  retains _ := false

/-- A document with one version, and a stranger in the bucket. -/
def oneDocument (key stranger : String) : Holdings SampleBytes where
  members := ∅
  documents := (∅ : Table UUID StoredDocument).insert 1 ⟨7, "ana@example.com", 1, key, "sha256:signed"⟩
  versions := (∅ : Table (UUID × Nat) StoredVersion).insert (1, 1) ⟨"ana@example.com", key, "sha256:signed"⟩
  requests := ∅
  signatures := ∅
  objects name :=
    if name = key then some (.text "signed") else if name = "x" then some (.text stranger) else none
  appendOnly := true

section OneDocument

variable {key stranger : String}

theorem documents_oneDocument {id : UUID} {d : StoredDocument}
    (h : (oneDocument key stranger).documents.get? id = some d) :
    id = 1 ∧ d = ⟨7, "ana@example.com", 1, key, "sha256:signed"⟩ := by
  rcases Table.get?_insert_eq_some h with hnone | hrow
  · exact nomatch hnone
  · exact hrow

theorem versions_oneDocument {id : UUID × Nat} {v : StoredVersion}
    (h : (oneDocument key stranger).versions.get? id = some v) :
    id = (1, 1) ∧ v = ⟨"ana@example.com", key, "sha256:signed"⟩ := by
  rcases Table.get?_insert_eq_some h with hnone | hrow
  · exact nomatch hnone
  · exact hrow

theorem of_refers_oneDocument {o : Owner} {key' : String} {digest : Option String}
    (h : (oneDocument key stranger).Refers o key' digest) :
    o = .version 1 1 ∧ key' = key ∧ digest = some "sha256:signed" := by
  cases h with
  | version row =>
      obtain ⟨hid, rfl⟩ := versions_oneDocument row
      obtain ⟨rfl, rfl⟩ := Prod.mk.inj hid
      exact ⟨rfl, rfl, rfl⟩
  | signature row => exact nomatch row

variable (key stranger)

theorem refers_oneDocument : (oneDocument key stranger).Refers (.version 1 1) key (some "sha256:signed") := by
  have row : (oneDocument key stranger).versions.get? (1, 1) = some ⟨"ana@example.com", key, "sha256:signed"⟩ :=
    Table.get?_insert_self rfl _
  exact .version row

theorem resolves_oneDocument : (oneDocument key stranger).Resolves sampleHost key (some "sha256:signed") :=
  ⟨.text "signed", if_pos rfl, rfl⟩

theorem resolved_oneDocument : (oneDocument key stranger).Resolved sampleHost where
  references o key' digest h := by
    obtain ⟨rfl, rfl, rfl⟩ := of_refers_oneDocument h
    exact resolves_oneDocument _ stranger
  documents id d hd := by
    obtain ⟨rfl, rfl⟩ := documents_oneDocument hd
    exact resolves_oneDocument _ stranger

theorem keysDistinct_oneDocument : (oneDocument key stranger).KeysDistinct := by
  intro o o' key' digest digest' h h'
  rw [(of_refers_oneDocument h).1, (of_refers_oneDocument h').1]

theorem documentsCurrent_oneDocument : (oneDocument key stranger).DocumentsCurrent := by
  intro id d hd
  obtain ⟨rfl, rfl⟩ := documents_oneDocument hd
  exact ⟨_, refers_oneDocument _ stranger⟩

end OneDocument

/-- The document is filed already. -/
abbrev filedOnce (stranger : String) : Holdings SampleBytes :=
  oneDocument "tenants/7/accounts/9/files/x" stranger

/-- The tool is started and runs to its end, which is the deletion. -/
def deletingLabels : List (Label (Holdings SampleBytes) Empty Stage Failure Report) :=
  .start [] (reorganize sampleHost deletingVisit) :: Label.runs 0 8

theorem allows_deletingLabels : ∀ l ∈ deletingLabels, ∀ Y, (toolRuns sampleHost).Allows Y l :=
  List.forall_mem_cons.2 ⟨fun _ => ⟨deletingVisit, rfl⟩, Setting.allows_runs⟩

/-- The document before it is filed, and before the triggers are there. -/
def bareOnce : Holdings SampleBytes :=
  { oneDocument "x" "signed" with appendOnly := false }

/-- The tool runs twice: first it copies the object and relabels the rows, then it deletes what they have left. -/
def filingLabels : List (Label (Holdings SampleBytes) Empty Stage Failure Report) :=
  .start [] (reorganize sampleHost deletingVisit) :: (Label.runs 0 11 ++
    .start [] (reorganize sampleHost deletingVisit) :: Label.runs 1 8)

theorem allows_filingLabels : ∀ l ∈ filingLabels, ∀ Y, (toolRuns sampleHost).Allows Y l :=
  List.forall_mem_cons.2 ⟨fun _ => ⟨deletingVisit, rfl⟩, List.forall_mem_append.2 ⟨Setting.allows_runs,
    List.forall_mem_cons.2 ⟨fun _ => ⟨deletingVisit, rfl⟩, Setting.allows_runs⟩⟩⟩

def filedKey : String :=
  "tenants/00000000-0000-0000-0000-000000000007/accounts/00000000-0000-0000-0000-00000000001f/files/x"

/-- The object is copied, the version refers to the copy, and the old one is deleted. -/
theorem reorganization_crash_safe_sample :
    ∃ steps Z, Run (toolRuns sampleHost) ⟨bareOnce, []⟩ steps Z ∧ Z.shared.objects filedKey = some (.text "signed") ∧
      (Z.shared.versions.get? (1, 1)).map StoredVersion.storageKey = some filedKey ∧ Z.shared.objects "x" = none ∧
      CrashSafe sampleHost steps Z := by
  obtain ⟨steps, Z, hreplay, hp⟩ := System.exists_replay (Y := ⟨bareOnce, []⟩) filingLabels
    (p := fun _ Z => decide (Z.shared.objects filedKey = some (.text "signed")) &&
      decide ((Z.shared.versions.get? (1, 1)).map StoredVersion.storageKey = some filedKey) &&
      (Z.shared.objects "x").isNone) (by decide +kernel)
  simp only [Bool.and_eq_true, decide_eq_true_eq, Option.isNone_iff_eq_none] at hp
  have hrun := System.replay_run allows_filingLabels hreplay
  have hrefers : ∀ {o key digest}, bareOnce.Refers o key digest → (oneDocument "x" "signed").Refers o key digest :=
    fun h => h.congr rfl rfl
  have hresolved := resolved_oneDocument "x" "signed"
  refine ⟨steps, Z, hrun, hp.1.1, hp.1.2, hp.2, reorganization_crash_safe hrun rfl
    ⟨fun o key digest h => hresolved.references o key digest (hrefers h), hresolved.documents⟩
    (fun o o' key digest digest' h h' => ?_) (fun id d hd => ?_) ?_⟩
  · exact keysDistinct_oneDocument "x" "signed" o o' key digest digest' (hrefers h) (hrefers h')
  · obtain ⟨digest, hd⟩ := documentsCurrent_oneDocument "x" "signed" id d hd
    exact ⟨digest, hd.congr rfl rfl⟩
  · rintro key content ⟨o, key', digest, h, rfl⟩ hkey
    obtain ⟨rfl, rfl, rfl⟩ := of_refers_oneDocument (hrefers h)
    obtain rfl : SampleBytes.text "signed" = content := Option.some.inj hkey
    exact ⟨_, _, (refers_oneDocument "x" "signed").congr rfl rfl, rfl⟩

/-- An object that no row refers to lies under the bare name of a filed one: it goes, and no copy is left. -/
theorem not_reorganization_crash_safe :
    ¬∀ (Y Z : System (Holdings SampleBytes) Empty Stage Failure Report)
      (steps : List (System (Holdings SampleBytes) Empty Stage Failure Report ×
        Label (Holdings SampleBytes) Empty Stage Failure Report)),
      Run (toolRuns sampleHost) Y steps Z → Y.sessions = [] → Y.shared.Resolved sampleHost → Y.shared.KeysDistinct →
        Y.shared.DocumentsCurrent → CrashSafe sampleHost steps Z := by
  intro h
  obtain ⟨steps, Z, hreplay, hp⟩ := System.exists_replay (Y := ⟨filedOnce "other", []⟩) deletingLabels
    (p := fun steps _ => steps.any fun x => decide (x.1.shared.objects "x" = some (.text "other")) &&
      (x.1.shared.versions.rows.all fun r => decide (r.2.sha256 = "sha256:signed")) &&
      x.1.shared.signatures.rows.isEmpty &&
      (x.1.step x.2).any fun X' => (X'.shared.objects "x").isNone) (by decide +kernel)
  have hsafe := h _ Z steps (System.replay_run allows_deletingLabels hreplay) rfl (resolved_oneDocument _ _)
    (keysDistinct_oneDocument _ _) (documentsCurrent_oneDocument _ _)
  obtain ⟨x, hx, hp⟩ := List.any_eq_true.1 hp
  simp only [Bool.and_eq_true, decide_eq_true_eq, List.all_eq_true, Option.any_eq_true,
    Option.isNone_iff_eq_none, List.isEmpty_iff] at hp
  obtain ⟨⟨⟨hobject, hversions⟩, hsignatures⟩, X', hstep, hgone⟩ := hp
  obtain ⟨o, copy, hrefers, -⟩ := (hsafe.deletes x hx X' hstep).copied "x" _ hobject hgone
  generalize hdigest : some (sampleHost.sha256 (SampleBytes.text "other")) = digest at hrefers
  cases hrefers with
  | version row =>
      have hother := (Option.some.inj hdigest).trans (hversions _ (Table.mem_rows_iff.2 row))
      exact absurd hother (by decide +kernel)
  | signature row =>
      have hmem := Table.mem_rows_iff.2 row
      rw [hsignatures] at hmem
      exact absurd hmem List.not_mem_nil

end Rubrica.Reorganization
