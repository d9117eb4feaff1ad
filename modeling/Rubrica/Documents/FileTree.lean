import Mathlib.Data.List.Infix
import Mathlib.Data.List.SplitOn
import Rubrica.Transactions.Raising

set_option autoImplicit false

/-! # A tree of files

The files and folders of a machine as one process sees them that owns them all: paths, the system calls that it
makes, and the modes that can keep it out of its own folders. -/

namespace Files

open Transactions Raising

variable {B α : Type}

/-! ## Paths -/

/-- The components of an absolute path. -/
abbrev AbsPath : Type :=
  List (List Char)

/-- `root / text` of `pathlib`: an absolute text replaces the root, empty and `.` components are dropped. -/
def joinPath (root : AbsPath) (text : List Char) : AbsPath :=
  let parts := (text.splitOn '/').filter fun part => part ≠ [] && part ≠ ['.']
  if text.head? = some '/' then parts else root ++ parts

/-- The folders on the way to a path, from the topmost one. -/
def above (p : AbsPath) : List AbsPath :=
  p.dropLast.inits

theorem not_mem_above {p : AbsPath} (h : p ≠ []) : p ∉ above p := by
  intro hmem
  have hlength := ((List.mem_inits _ _).1 hmem).length_le
  have hpos := List.length_pos_of_ne_nil h
  rw [List.length_dropLast] at hlength
  omega

/-! ## Disks -/

/-- A file, or a folder that its mode lets its owner search or not. Files stay readable for the owner under every
    mode they are given here. -/
inductive Node (B : Type) where
  | file (content : B)
  | folder (searchable : Bool)
  deriving DecidableEq

abbrev Disk (B : Type) : Type :=
  AbsPath → Option (Node B)

inductive OsError where
  | notFound
  | exists
  | isADirectory
  | notADirectory
  | permission
  deriving DecidableEq, Repr

variable (privileged : Bool)

/-- Why the process does not get through a folder; a privileged one is not kept out by modes. -/
def Node.bars : Node B → Option OsError
  | .file _ => some .notADirectory
  | .folder searchable => if searchable || privileged then none else some .permission

/-- What keeps the process from a path; `missing` is raised for a folder that is not there. -/
def Disk.bars (t : Disk B) (missing : Option OsError) (p : AbsPath) : Option OsError :=
  (above p).findSome? fun a => (t a).elim missing (Node.bars privileged)

/-- The process gets to the path. -/
def Disk.Reaches (t : Disk B) (p : AbsPath) : Prop :=
  ∀ a ∈ above p, ∃ searchable, t a = some (.folder searchable) ∧ (searchable || privileged) = true

def Disk.set (t : Disk B) (p : AbsPath) (node : Option (Node B)) : Disk B :=
  fun q => if q = p then node else t q

/-- The folders that are missing down to the path. -/
def Disk.withFolders (t : Disk B) (p : AbsPath) : Disk B :=
  fun q => if q ∈ p.inits ∧ t q = none then some (.folder true) else t q

/-- The one or the other, by the kind of the node. -/
def Node.elim (onFile : B → α) (onFolder : Bool → α) : Node B → α
  | .file content => onFile content
  | .folder searchable => onFolder searchable

abbrev FileCalls (B α : Type) : Type :=
  Raising OsError (Disk B) α

def raiseIf (e : Option OsError) : FileCalls B Unit :=
  e.elim (pure ()) throw

/-- `path.mkdir(parents=True, exist_ok=True)`. -/
def makeFolders (p : AbsPath) : FileCalls B Unit := do
  let t ← get
  raiseIf (t.bars privileged none p)
  raiseIf ((t p).bind (Node.elim (fun _ => some .exists) fun _ => none))
  set (t.withFolders p)

/-- `path.touch(exist_ok=False)`; a new file has the content `empty`. -/
def touch (empty : B) (p : AbsPath) : FileCalls B Unit := do
  let t ← get
  raiseIf (t.bars privileged (some .notFound) p)
  raiseIf ((t p).map fun _ => .exists)
  set (t.set p (some (.file empty)))

/-- `path.open("wb")`, and what is written then. -/
def writeFile (p : AbsPath) (content : B) : FileCalls B Unit := do
  let t ← get
  raiseIf (t.bars privileged (some .notFound) p)
  raiseIf ((t p).bind (Node.elim (fun _ => none) fun _ => some .isADirectory))
  set (t.set p (some (.file content)))

/-- `path.open("rb").read()`. -/
def readFile (p : AbsPath) : FileCalls B B := do
  let t ← get
  raiseIf (t.bars privileged (some .notFound) p)
  (t p).elim (throw .notFound) (Node.elim pure fun _ => throw .isADirectory)

/-- `path.exists()`: what cannot be reached is not there. -/
def pathExists (p : AbsPath) : FileCalls B Bool := do
  let t ← get
  pure ((t.bars privileged (some .notFound) p).isNone && (t p).isSome)

/-- The file that the process finds at a path. -/
def Disk.fileAt (t : Disk B) (p : AbsPath) : Option B :=
  if (t.bars privileged (some .notFound) p).isNone then (t p).bind (Node.elim some fun _ => none) else none

/-- `path.is_file()`: what cannot be reached is none. -/
def isFile (p : AbsPath) : FileCalls B Bool := do
  let t ← get
  pure (t.fileAt privileged p).isSome

/-- `path.chmod(0o600)` or `path.chmod(0o400)`: a folder cannot be searched then. -/
def chmodPrivate (p : AbsPath) : FileCalls B Unit := do
  let t ← get
  raiseIf (t.bars privileged (some .notFound) p)
  (t p).elim (throw .notFound) (Node.elim (fun _ => pure ()) fun _ => set (t.set p (some (.folder false))))

/-- `path.unlink()`. -/
def unlink (p : AbsPath) : FileCalls B Unit := do
  let t ← get
  raiseIf (t.bars privileged (some .notFound) p)
  (t p).elim (throw .notFound) (Node.elim (fun _ => set (t.set p none)) fun _ => throw .isADirectory)

/-! ## What the calls do -/

variable {privileged : Bool} {t t' : Disk B} {p : AbsPath}

theorem ends_raiseIf {e : Option OsError} {Q : Unit → Disk B → Prop} {R : OsError → Disk B → Prop}
    (hQ : e = none → Q () t) (hR : ∀ e', e = some e' → R e' t) : Ends (raiseIf e) t Q R := by
  cases e with
  | none => exact ends_pure (hQ rfl)
  | some e => exact ends_throw (hR e rfl)

/-- Nothing keeps the process from a path that it reaches. -/
theorem Disk.Reaches.bars (h : t.Reaches privileged p) (missing : Option OsError) :
    t.bars privileged missing p = none := by
  refine List.findSome?_eq_none_iff.2 fun a ha => ?_
  obtain ⟨searchable, hnode, hpasses⟩ := h a ha
  rw [hnode, Option.elim_some, Node.bars, if_pos hpasses]

theorem reaches_of_bars {e : OsError} (h : t.bars privileged (some e) p = none) : t.Reaches privileged p := by
  intro a ha
  have hbars := List.findSome?_eq_none_iff.1 h a ha
  cases hnode : t a with
  | none =>
      rw [hnode] at hbars
      exact absurd hbars (by simp)
  | some node =>
      rw [hnode, Option.elim_some] at hbars
      cases node with
      | file content => exact absurd hbars (by simp [Node.bars])
      | folder searchable =>
          refine ⟨searchable, rfl, ?_⟩
          by_contra hnot
          rw [Node.bars, if_neg hnot] at hbars
          exact absurd hbars (by simp)

/-- What is there stays as it is. -/
def Disk.Extends (t t' : Disk B) : Prop :=
  ∀ q node, t q = some node → t' q = some node

theorem Disk.Extends.refl (t : Disk B) : t.Extends t :=
  fun _ _ h => h

/-- A node where there was none. -/
theorem Disk.Extends.set (h : t.Extends t') (hp : t p = none) (node : Option (Node B)) :
    t.Extends (t'.set p node) := by
  intro q n hq
  have hne : q ≠ p := by
    rintro rfl
    exact absurd (hq.symm.trans hp) (by simp)
  rw [Disk.set, if_neg hne]
  exact h q n hq

theorem Disk.Extends.none (h : t.Extends t') (hp : t' p = none) : t p = none := by
  cases hnode : t p with
  | none => rfl
  | some node => exact absurd ((h p node hnode).symm.trans hp) (by simp)

theorem set_self (node : Option (Node B)) : t.set p node p = node :=
  if_pos rfl

theorem set_of_ne {q : AbsPath} (h : q ≠ p) (node : Option (Node B)) : t.set p node q = t q :=
  if_neg h

theorem Disk.Reaches.set (h : t.Reaches privileged p) (hp : p ≠ []) (node : Option (Node B)) :
    (t.set p node).Reaches privileged p := by
  intro a ha
  have hne : a ≠ p := by
    rintro rfl
    exact not_mem_above hp ha
  rw [set_of_ne hne]
  exact h a ha

theorem ends_makeFolders : Ends (makeFolders privileged p) t (fun _ t' => t.Extends t') fun _ t' => t' = t := by
  refine ends_bind (ends_get (ends_bind (ends_raiseIf (fun _ => ?_) fun _ _ => rfl)))
  refine ends_bind (ends_raiseIf (fun _ => ends_set fun q node hq => ?_) fun _ _ => rfl)
  rw [Disk.withFolders, if_neg, hq]
  rintro ⟨-, hnone⟩
  exact absurd (hq.symm.trans hnone) (by simp)

theorem ends_touch {empty : B} : Ends (touch privileged empty p) t
    (fun _ t' => t p = none ∧ t.Reaches privileged p ∧ t' = t.set p (some (.file empty))) fun _ t' => t' = t := by
  refine ends_bind (ends_get (ends_bind (ends_raiseIf (fun hbars => ?_) fun _ _ => rfl)))
  refine ends_bind (ends_raiseIf (fun hfree => ends_set ⟨?_, reaches_of_bars hbars, rfl⟩) fun _ _ => rfl)
  exact Option.map_eq_none_iff.1 hfree

theorem ends_writeFile {content : B} : Ends (writeFile privileged p content) t
    (fun _ t' => t.Reaches privileged p ∧ t' = t.set p (some (.file content))) fun _ t' => t' = t := by
  refine ends_bind (ends_get (ends_bind (ends_raiseIf (fun hbars => ?_) fun _ _ => rfl)))
  exact ends_bind (ends_raiseIf (fun _ => ends_set ⟨reaches_of_bars hbars, rfl⟩) fun _ _ => rfl)

/-- A file that can be reached is read. -/
theorem run_readFile {content : B} (hreaches : t.Reaches privileged p) (hfile : t p = some (.file content)) :
    (readFile privileged p).run t = (.ok content, t) := by
  have hget : (get : FileCalls B (Disk B)).run t = (.ok t, t) := rfl
  unfold readFile
  rw [run_bind, hget]
  simp only
  rw [run_bind, hreaches.bars]
  show ((t p).elim _ _ : FileCalls B B).run t = _
  rw [hfile]
  rfl

theorem fileAt_eq_some {content : B} :
    t.fileAt privileged p = some content ↔ t.Reaches privileged p ∧ t p = some (.file content) := by
  unfold Disk.fileAt
  constructor
  · intro h
    split at h
    next hbars =>
      refine ⟨reaches_of_bars (Option.isNone_iff_eq_none.1 hbars), ?_⟩
      obtain ⟨node, hnode, helim⟩ := Option.bind_eq_some_iff.1 h
      cases node with
      | file content' =>
          obtain rfl := Option.some.inj helim
          exact hnode
      | folder searchable => exact absurd helim (by simp [Node.elim])
    · exact absurd h (by simp)
  · rintro ⟨hreaches, hfile⟩
    rw [hreaches.bars, hfile]
    rfl

theorem ends_readFile : Ends (readFile privileged p) t (fun _ t' => t' = t) fun _ t' => t' = t := by
  refine ends_bind (ends_get (ends_bind (ends_raiseIf (fun _ => ?_) fun _ _ => rfl)))
  cases t p with
  | none => exact ends_throw rfl
  | some node =>
      cases node with
      | file content => exact ends_pure rfl
      | folder searchable => exact ends_throw rfl

theorem ends_pathExists : Ends (pathExists privileged p) t (fun _ t' => t' = t) fun _ t' => t' = t :=
  ends_bind (ends_get (ends_pure rfl))

theorem ends_chmodPrivate : Ends (chmodPrivate privileged p) t
    (fun _ t' => t' = t ∨ ∃ searchable, t p = some (.folder searchable) ∧ t' = t.set p (some (.folder false)))
    fun _ t' => t' = t := by
  refine ends_bind (ends_get (ends_bind (ends_raiseIf (fun _ => ?_) fun _ _ => rfl)))
  cases hp : t p with
  | none => exact ends_throw rfl
  | some node =>
      cases node with
      | file content => exact ends_pure (Or.inl rfl)
      | folder searchable => exact ends_set (Or.inr ⟨searchable, rfl, rfl⟩)

theorem ends_unlink : Ends (unlink privileged p) t
    (fun _ t' => (∃ content, t p = some (.file content)) ∧ t' = t.set p none) fun _ t' => t' = t := by
  refine ends_bind (ends_get (ends_bind (ends_raiseIf (fun _ => ?_) fun _ _ => rfl)))
  cases hp : t p with
  | none => exact ends_throw rfl
  | some node =>
      cases node with
      | file content => exact ends_set ⟨⟨content, rfl⟩, rfl⟩
      | folder searchable => exact ends_throw rfl

end Files
