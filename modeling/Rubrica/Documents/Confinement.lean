import Rubrica.Documents.Backends

set_option autoImplicit false

/-! # Where keys lead

A key that the storage accepts leads below the root and nowhere else, another one leads elsewhere, and what was put
under it stays until it is discarded, but for one thing: `discard_uncommitted` of a key that leads to a folder
takes from a process that modes bind the right to search it. -/

namespace Rubrica

open Transactions Texts Files Raising

/-! ## Keys and paths -/

theorem isStorageKey_parts {key : List Char} (h : isStorageKey key = true) :
    ∀ part ∈ key.splitOn '/', part ≠ [] ∧ ∀ c ∈ part, isKeyChar c = true := by
  intro part hpart
  have hall := List.all_eq_true.1 h part hpart
  simp only [Bool.and_eq_true, Bool.not_eq_true', List.isEmpty_eq_false_iff, List.all_eq_true] at hall
  exact hall

theorem isStorageKey_of_valid {key : String} (h : validStorageKey key = true) : isStorageKey key.toList = true :=
  (Bool.and_eq_true_iff.1 h).2

/-- A key that is accepted names its components one by one. -/
theorem localPath_of_valid {key : String} (h : validStorageKey key = true) (root : AbsPath) :
    localPath root key = root ++ key.toList.splitOn '/' := by
  have hparts := isStorageKey_parts (isStorageKey_of_valid h)
  have hall : (key.toList.splitOn '/').filter (fun part => part ≠ [] && part ≠ ['.']) = key.toList.splitOn '/' := by
    refine List.filter_eq_self.2 fun part hpart => ?_
    obtain ⟨hne, hchars⟩ := hparts part hpart
    have hdot : part ≠ ['.'] := by
      rintro rfl
      exact absurd (hchars '.' List.mem_cons_self) (by decide)
    simp [hne, hdot]
  have hrelative : key.toList.head? ≠ some '/' := by
    intro hhead
    cases hkey : key.toList with
    | nil => simp [hkey] at hhead
    | cons c s =>
        rw [hkey, List.head?_cons, Option.some.injEq] at hhead
        subst hhead
        have hslash := isStorageKey_of_valid h
        rw [hkey, ← List.nil_append ('/' :: s), isStorageKey_append] at hslash
        exact absurd (Bool.and_eq_true_iff.1 hslash).1 (by decide)
  rw [localPath, joinPath]
  simp only [hall]
  exact if_neg hrelative

theorem localPath_ne_nil {key : String} (h : validStorageKey key = true) (root : AbsPath) : localPath root key ≠ [] := by
  rw [localPath_of_valid h]
  intro hnil
  exact List.splitOn_ne_nil _ _ (List.append_eq_nil_iff.1 hnil).2

/-- Two keys do not lead to one path. -/
theorem localPath_injective {root : AbsPath} {key key' : String} (h : validStorageKey key = true)
    (h' : validStorageKey key' = true) (heq : localPath root key = localPath root key') : key = key' := by
  rw [localPath_of_valid h, localPath_of_valid h'] at heq
  have hsplit := List.append_cancel_left heq
  have hlist := congrArg (List.intercalate ['/']) hsplit
  rw [List.intercalate_splitOn, List.intercalate_splitOn] at hlist
  exact String.toList_inj.1 hlist

theorem objectKey_injective {bucketPrefix key key' : String}
    (h : objectKey bucketPrefix key = objectKey bucketPrefix key') : key = key' := by
  unfold objectKey at h
  dsimp only at h
  split at h
  · exact h
  · have hlist := congrArg String.toList h
    simp only [String.toList_append] at hlist
    exact String.toList_inj.1 (List.append_cancel_left hlist)

/-! ## The keys that `put` builds -/

theorem isHexName_uuidHex {id : UUID} (h : id < 2 ^ 128) : IsHexName (uuidHex id) := by
  have hdigits : (toHex id).length ≤ 32 := length_toHex_le (by omega) (by omega)
  refine ⟨?_, fun c hc => ?_⟩
  · rw [uuidHex, ← String.length_toList, String.toList_ofList, zfill, List.length_append, List.length_replicate]
    omega
  · rw [uuidHex, String.toList_ofList] at hc
    exact isSome_hexDigit_zfill hc

theorem stripSlashes_of {c d : Char} {s t : List Char} (hc : c ≠ '/') (hd : d ≠ '/') (h : s ++ [d] = c :: t) :
    stripSlashes (s ++ [d]) = s ++ [d] := by
  have hfirst : (s ++ [d]).dropWhile (fun c => decide (c = '/')) = s ++ [d] := by
    rw [h, List.dropWhile_cons_of_neg (by simpa using hc)]
  have hlast : (s ++ [d]).reverse = d :: s.reverse := by simp
  rw [stripSlashes, hfirst, hlast, List.dropWhile_cons_of_neg (by simpa using hd), List.reverse_cons,
    List.reverse_reverse]

theorem stripSlashes_documentStorageScope (tenant account : UUID) :
    String.ofList (stripSlashes (documentStorageScope tenant account).toList) = documentStorageScope tenant account := by
  have hfirst : "tenants/".toList = 't' :: "enants/".toList := by simp
  have hlast : "/files".toList = "/file".toList ++ ['s'] := by simp
  have hscope : ∃ s t, (documentStorageScope tenant account).toList = s ++ ['s'] ∧ s ++ ['s'] = 't' :: t := by
    refine ⟨"tenants/".toList ++ (uuidString tenant).toList ++ "/accounts/".toList ++ (uuidString account).toList ++
      "/file".toList, "enants/".toList ++ (uuidString tenant).toList ++ "/accounts/".toList ++
      (uuidString account).toList ++ "/file".toList ++ ['s'], ?_, ?_⟩
    · simp only [documentStorageScope, String.toList_append, hlast, List.append_assoc]
    · rw [hfirst]
      simp only [List.cons_append, List.append_assoc]
  obtain ⟨s, t, hs, ht⟩ := hscope
  rw [hs, stripSlashes_of (by decide) (by decide) ht, ← hs, String.ofList_toList]

theorem storageKey_documentStorageScope (tenant account id : UUID) :
    storageKey (some (documentStorageScope tenant account)) id =
      documentStorageScope tenant account ++ "/" ++ uuidHex id := by
  have hne : documentStorageScope tenant account ≠ "" := by
    intro hempty
    have hlist := congrArg String.toList hempty
    rw [documentStorageScope] at hlist
    simp at hlist
  rw [storageKey, Option.getD_some, if_neg hne, stripSlashes_documentStorageScope]

/-- What `put` builds under the scope of an account is accepted. -/
theorem valid_storageKey {tenant account id : UUID} (htenant : tenant < 2 ^ 128) (haccount : account < 2 ^ 128)
    (hid : id < 2 ^ 128) : validStorageKey (storageKey (some (documentStorageScope tenant account)) id) = true := by
  rw [storageKey_documentStorageScope]
  exact IsFiledKey.valid ⟨tenant, account, uuidHex id, htenant, haccount, isHexName_uuidHex hid, rfl⟩

/-! ## What is kept over any calls -/

/-- A backend: what its calls do to its state, and the object that a state holds under a key. -/
structure Backend (E S C : Type) where
  call : C → Raising E S Reply
  object : S → String → Option Bytes
  /-- The key and the bytes of a put. -/
  puts : C → Option (String × Bytes)
  /-- The key that `discard_uncommitted` is given. -/
  discards : C → Option String
  get : String → C

variable {E S C : Type}

def Backend.after (x : Backend E S C) (c : C) (s : S) : S :=
  ((x.call c).run s).2

/-- No put replaces an object. -/
def Backend.NeverReplaces (x : Backend E S C) (s : S) (calls : List C) : Prop :=
  ∀ y ∈ callsFrom x.after s calls, (x.puts y.2).isSome = true →
    ∀ key content, x.object y.1 key = some content → x.object (x.after y.2 y.1) key = some content

/-- `discard_uncommitted` leaves the objects of all other keys. -/
def Backend.RemovesOnlyNamed (x : Backend E S C) (s : S) (calls : List C) : Prop :=
  ∀ y ∈ callsFrom x.after s calls, ∀ named, x.discards y.2 = some named →
    ∀ key, key ≠ named → x.object (x.after y.2 y.1) key = x.object y.1 key

/-- What a put has stored and no later call discards is given back as it was put. -/
def Backend.GivesBack (x : Backend E S C) (s : S) (calls : List C) : Prop :=
  ∀ past c later, calls = past ++ c :: later → ∀ key content, x.puts c = some (key, content) →
    (∃ reply, ((x.call c).run (stateAfter x.after s past)).1 = .ok reply) →
    (∀ d ∈ later, x.discards d ≠ some key) →
      ((x.call (x.get key)).run (stateAfter x.after s calls)).1 = .ok (.content content)

/-- What gives back: `held` is what a put that returns brings about, what every call keeps that does not discard the
    key, and what `get` needs. -/
theorem Backend.GivesBack.of_held {x : Backend E S C} {s : S} {calls : List C} (held : String → Bytes → S → Prop)
    (hput : ∀ s c key content, x.puts c = some (key, content) → (∃ reply, ((x.call c).run s).1 = .ok reply) →
      held key content (x.after c s))
    (hkeeps : ∀ y ∈ callsFrom x.after s calls, ∀ key content, x.discards y.2 ≠ some key → held key content y.1 →
      held key content (x.after y.2 y.1))
    (hget : ∀ s key content, held key content s → ((x.call (x.get key)).run s).1 = .ok (.content content)) :
    x.GivesBack s calls := by
  intro past c later hcalls key content hc hok hlater
  refine hget _ key content ?_
  rw [hcalls, stateAfter_append, stateAfter]
  refine stateAfter_keeps (hput _ c key content hc hok) fun y hy => ?_
  have hmem : y ∈ callsFrom x.after s calls := by
    rw [hcalls, callsFrom_append]
    exact List.mem_append_right _ (List.mem_cons_of_mem _ hy)
  exact hkeeps y hmem key content (hlater y.2 (mem_of_mem_callsFrom hy))

theorem ends_validateStorageKey {E S : Type} {missing : E} {key : String} {s : S} :
    Ends (validateStorageKey missing key) s (fun _ s' => validStorageKey key = true ∧ s' = s)
      fun _ s' => s' = s := by
  unfold validateStorageKey
  split
  · exact ends_pure ⟨by assumption, rfl⟩
  · exact ends_throw rfl

theorem run_validateStorageKey {E S : Type} {missing : E} {key : String} (h : validStorageKey key = true) (s : S) :
    (validateStorageKey missing key : Raising E S Unit).run s = (.ok (), s) := by
  rw [validateStorageKey, if_pos h]
  rfl

/-! ### On the local files -/

inductive LocalCall where
  | put (scope : Option String) (id : UUID) (stream : Bytes)
  | get (key : String)
  | discard (key : String)

def LocalCall.puts : LocalCall → Option (String × Bytes)
  | .put scope id stream => some (storageKey scope id, stream)
  | _ => none

def LocalCall.discards : LocalCall → Option String
  | .discard key => some key
  | _ => none

def LocalCall.run (privileged : Bool) (root : AbsPath) : LocalCall → FileCalls Bytes Reply
  | .put scope id stream => putLocal privileged root scope id stream
  | .get key => getLocal privileged root key
  | .discard key => discardLocal privileged root key

/-- The file that a key leads to. -/
def localObject (root : AbsPath) (t : Disk Bytes) (key : String) : Option Bytes :=
  if validStorageKey key then (t (localPath root key)).bind (Node.elim some fun _ => none) else none

def localStorage (privileged : Bool) (root : AbsPath) : Backend OsError (Disk Bytes) LocalCall where
  call := LocalCall.run privileged root
  object := localObject root
  puts := LocalCall.puts
  discards := LocalCall.discards
  get := .get

/-- The chunks together are the stream. -/
theorem copyStream_eq {rounds : Nat} {stream : Bytes} (output : Bytes) (size : Nat) (h : stream.length ≤ rounds) :
    copyStream rounds stream output size = (output ++ stream, size + stream.length) := by
  induction rounds generalizing stream output size with
  | zero =>
      obtain rfl := List.length_eq_zero_iff.1 (Nat.le_zero.1 h)
      simp [copyStream]
  | succ rounds ih =>
      have hchunk : 0 < chunkSize := by decide
      by_cases hempty : stream = []
      · subst hempty
        simp [copyStream]
      · have hpos := List.length_pos_of_ne_nil hempty
        have hne : stream.take chunkSize ≠ [] := by
          intro hnil
          have hlength := congrArg List.length hnil
          rw [List.length_take, List.length_nil] at hlength
          omega
        have hrest : (stream.drop chunkSize).length ≤ rounds := by
          rw [List.length_drop]
          omega
        simp only [copyStream, if_neg hne]
        rw [ih _ _ hrest, List.append_assoc, List.take_append_drop, List.length_drop, List.length_take]
        simp only [Prod.mk.injEq, true_and]
        omega

section Local

variable {privileged : Bool} {root : AbsPath} {t t' : Disk Bytes} {key : String}

theorem localObject_eq_some {content : Bytes} :
    localObject root t key = some content ↔
      validStorageKey key = true ∧ t (localPath root key) = some (.file content) := by
  unfold localObject
  split
  case isTrue hvalid =>
    cases t (localPath root key) with
    | none => simp
    | some node => cases node <;> simp [Node.elim, hvalid]
  case isFalse hvalid => simp [hvalid]

theorem localObject_of_extends (h : t.Extends t') {content : Bytes} (hobject : localObject root t key = some content) :
    localObject root t' key = some content := by
  obtain ⟨hvalid, hfile⟩ := localObject_eq_some.1 hobject
  exact localObject_eq_some.2 ⟨hvalid, h _ _ hfile⟩

theorem Reaches.of_extends {p : AbsPath} (h : t.Extends t') (hreaches : t.Reaches privileged p) :
    t'.Reaches privileged p := by
  intro a ha
  obtain ⟨searchable, hfolder, hpasses⟩ := hreaches a ha
  exact ⟨searchable, h _ _ hfolder, hpasses⟩

/-- A put that returns has made a file of what it was given; whatever becomes of it, nothing else changes. -/
theorem ends_putLocal {scope : Option String} {id : UUID} {stream : Bytes} :
    Ends (putLocal privileged root scope id stream) t
      (fun _ t' => t.Extends t' ∧ validStorageKey (storageKey scope id) = true ∧
        t'.Reaches privileged (localPath root (storageKey scope id)) ∧
        t' (localPath root (storageKey scope id)) = some (.file stream))
      fun _ t' => t.Extends t' := by
  have hcopied : (copyStream stream.length stream [] 0).1 = stream := by
    rw [copyStream_eq _ _ le_rfl, List.nil_append]
  refine ends_bind (ends_validateStorageKey.mono ?_ fun _ _ h => h ▸ .refl t)
  rintro - t₀ ⟨hvalid, rfl⟩
  have hpath := localPath_ne_nil hvalid root
  refine ends_bind (ends_makeFolders.mono (fun _ t₁ hfolders => ?_) fun _ _ h => h ▸ .refl t₀)
  refine ends_bind (ends_touch.mono ?_ fun _ _ h => h ▸ hfolders)
  rintro - t₂ ⟨hfree, hreaches, rfl⟩
  have hnone := hfolders.none hfree
  have htouched := hfolders.set hnone (some (.file []))
  refine ends_bind (ends_writeFile.mono ?_ fun _ _ h => h ▸ htouched)
  rintro - t₃ ⟨hreached, rfl⟩
  have hwritten := htouched.set hnone (some (.file (copyStream stream.length stream [] 0).1))
  refine ends_bind (ends_chmodPrivate.mono ?_ fun _ _ h => h ▸ hwritten)
  rintro - t₄ (rfl | ⟨searchable, hfolder, -⟩)
  · refine ends_pure ⟨hwritten, hvalid, hreached.set hpath _, ?_⟩
    rw [set_self, hcopied]
  · rw [set_self] at hfolder
    exact absurd hfolder (by simp)

theorem ends_getLocal :
    Ends (getLocal privileged root key) t (fun _ t' => t' = t) fun _ t' => t' = t := by
  refine ends_bind (ends_validateStorageKey.mono ?_ fun _ _ h => h)
  rintro - t₀ ⟨-, rfl⟩
  exact ends_bind (ends_readFile.mono (fun _ _ h => ends_pure h) fun _ _ h => h)

/-- What `discard_uncommitted` may do: take the file away, or shut the folder. -/
def Discarded (root : AbsPath) (key : String) (t t' : Disk Bytes) : Prop :=
  t' = t ∨ validStorageKey key = true ∧
    ((∃ content, t (localPath root key) = some (.file content) ∧ t' = t.set (localPath root key) none) ∨
      ∃ searchable, t (localPath root key) = some (.folder searchable) ∧
        t' = t.set (localPath root key) (some (.folder false)))

theorem ends_discardLocal :
    Ends (discardLocal privileged root key) t (fun _ t' => Discarded root key t t')
      fun _ t' => Discarded root key t t' := by
  refine ends_bind (ends_validateStorageKey.mono ?_ fun _ _ h => Or.inl h)
  rintro - t₀ ⟨hvalid, rfl⟩
  refine ends_bind (ends_pathExists.mono ?_ fun _ _ h => Or.inl h)
  rintro there t₁ rfl
  refine ends_bind ?_
  have hremove : Ends (removeLocal privileged (localPath root key) there) t₁ (fun _ t' => Discarded root key t₁ t')
      fun _ t' => Discarded root key t₁ t' := by
    cases there with
    | false => exact ends_pure (Or.inl rfl)
    | true =>
        refine ends_bind (ends_chmodPrivate.mono ?_ fun _ _ h => Or.inl h)
        rintro - t₂ (rfl | ⟨searchable, hfolder, rfl⟩)
        · refine ends_unlink.mono ?_ fun _ _ h => Or.inl h
          rintro - t₃ ⟨⟨content, hfile⟩, rfl⟩
          exact Or.inr ⟨hvalid, Or.inl ⟨content, hfile, rfl⟩⟩
        · -- what is shut here is a folder still, which `unlink` does not take away
          refine ends_unlink.mono ?_ fun _ _ h => Or.inr ⟨hvalid, Or.inr ⟨searchable, hfolder, h⟩⟩
          rintro - t₃ ⟨⟨content, hfile⟩, -⟩
          rw [set_self] at hfile
          exact absurd hfile (by simp)
  exact hremove.mono (fun _ _ h => ends_pure h) fun _ _ h => h

/-- The file is there, and the process gets to it. -/
def LocalHeld (privileged : Bool) (root : AbsPath) (key : String) (content : Bytes) (t : Disk Bytes) : Prop :=
  validStorageKey key = true ∧ t.Reaches privileged (localPath root key) ∧
    t (localPath root key) = some (.file content)

theorem run_getLocal {content : Bytes} (h : LocalHeld privileged root key content t) :
    (getLocal privileged root key).run t = (.ok (.content content), t) := by
  obtain ⟨hvalid, hreaches, hfile⟩ := h
  unfold getLocal
  rw [run_bind, run_validateStorageKey hvalid]
  simp only
  rw [run_bind, run_readFile hreaches hfile]
  rfl

/-- The call does not shut a folder. -/
def LocalCall.SparesFolders (root : AbsPath) (t : Disk Bytes) (c : LocalCall) : Prop :=
  ∀ key, c = .discard key → validStorageKey key = true →
    ∀ searchable, t (localPath root key) ≠ some (.folder searchable)

theorem LocalHeld.discarded {named : String} {content : Bytes} (h : LocalHeld privileged root key content t)
    (hspares : privileged = true ∨ (LocalCall.discard named).SparesFolders root t)
    (hdiscarded : Discarded root named t t') (hne : named ≠ key) : LocalHeld privileged root key content t' := by
  obtain ⟨hvalid, hreaches, hfile⟩ := h
  rcases hdiscarded with rfl | ⟨hnamed, hnode⟩
  · exact ⟨hvalid, hreaches, hfile⟩
  have hpath : localPath root key ≠ localPath root named := by
    intro heq
    exact hne (localPath_injective hnamed hvalid heq.symm)
  rcases hnode with ⟨content', hthere, rfl⟩ | ⟨searchable, hthere, rfl⟩
  · refine ⟨hvalid, fun a ha => ?_, by rwa [set_of_ne hpath]⟩
    obtain ⟨searchable, hfolder, hpasses⟩ := hreaches a ha
    have hother : a ≠ localPath root named := by
      rintro rfl
      exact absurd (hfolder.symm.trans hthere) (by simp)
    exact ⟨searchable, by rwa [set_of_ne hother], hpasses⟩
  · -- only who is not bound by modes goes on through a folder that is shut
    have hprivileged : privileged = true := by
      rcases hspares with hprivileged | hspares
      · exact hprivileged
      · exact absurd hthere (hspares named rfl hnamed searchable)
    refine ⟨hvalid, fun a ha => ?_, by rwa [set_of_ne hpath]⟩
    by_cases hother : a = localPath root named
    · subst hother
      exact ⟨false, set_self _, by rw [hprivileged]; rfl⟩
    · obtain ⟨searchable', hfolder, hpasses⟩ := hreaches a ha
      exact ⟨searchable', by rwa [set_of_ne hother], hpasses⟩

theorem localObject_of_discarded {named : String} (hdiscarded : Discarded root named t t') (hne : key ≠ named) :
    localObject root t' key = localObject root t key := by
  rcases hdiscarded with rfl | ⟨hnamed, hnode⟩
  · rfl
  unfold localObject
  split
  case isFalse => rfl
  case isTrue hvalid =>
    have hpath : localPath root key ≠ localPath root named := by
      intro heq
      exact hne (localPath_injective hvalid hnamed heq)
    rcases hnode with ⟨content, -, rfl⟩ | ⟨searchable, -, rfl⟩ <;> rw [set_of_ne hpath]

theorem localStorage_neverReplaces (calls : List LocalCall) : (localStorage privileged root).NeverReplaces t calls := by
  rintro ⟨t₀, c⟩ - hput key content hobject
  cases c with
  | put scope id stream =>
      have hends : Ends (putLocal privileged root scope id stream) t₀ (fun _ t' => t₀.Extends t')
          fun _ t' => t₀.Extends t' := ends_putLocal.mono (fun _ _ h => h.1) fun _ _ h => h
      exact localObject_of_extends hends.always hobject
  | get key => exact absurd hput (by simp [localStorage, LocalCall.puts])
  | discard key => exact absurd hput (by simp [localStorage, LocalCall.puts])

theorem localStorage_removesOnlyNamed (calls : List LocalCall) :
    (localStorage privileged root).RemovesOnlyNamed t calls := by
  rintro ⟨t₀, c⟩ - named hnamed key hne
  cases c with
  | discard key' =>
      obtain rfl : key' = named := Option.some.inj hnamed
      exact localObject_of_discarded ends_discardLocal.always hne
  | put scope id stream => exact absurd hnamed (by simp [localStorage, LocalCall.discards])
  | get key => exact absurd hnamed (by simp [localStorage, LocalCall.discards])

theorem localStorage_givesBack {calls : List LocalCall}
    (hspares : privileged = true ∨
      ∀ y ∈ callsFrom (localStorage privileged root).after t calls, y.2.SparesFolders root y.1) :
    (localStorage privileged root).GivesBack t calls := by
  refine Backend.GivesBack.of_held (LocalHeld privileged root) ?_ ?_ ?_
  · intro t₀ c key content hput hok
    obtain ⟨reply, hreply⟩ := hok
    cases c with
    | put scope id stream =>
        obtain ⟨rfl, rfl⟩ := Prod.mk.inj (Option.some.inj hput)
        obtain ⟨-, hvalid, hreaches, hfile⟩ := ends_putLocal.1 reply hreply
        exact ⟨hvalid, hreaches, hfile⟩
    | get key => exact absurd hput (by simp [localStorage, LocalCall.puts])
    | discard key => exact absurd hput (by simp [localStorage, LocalCall.puts])
  · rintro ⟨t₀, c⟩ hy key content hnamed hheld
    cases c with
    | put scope id stream =>
        have hends : Ends (putLocal privileged root scope id stream) t₀ (fun _ t' => t₀.Extends t')
            fun _ t' => t₀.Extends t' := ends_putLocal.mono (fun _ _ h => h.1) fun _ _ h => h
        have hextends : t₀.Extends _ := hends.always
        exact ⟨hheld.1, Reaches.of_extends hextends hheld.2.1, hextends _ _ hheld.2.2⟩
    | get key' =>
        have hsame : ((getLocal privileged root key').run t₀).2 = t₀ := ends_getLocal.always
        show LocalHeld privileged root key content ((getLocal privileged root key').run t₀).2
        rwa [hsame]
    | discard named =>
        have hne : named ≠ key := fun heq => hnamed (congrArg some heq)
        refine hheld.discarded ?_ ends_discardLocal.always hne
        exact hspares.imp id fun h => h _ hy
  · intro t₀ key content hheld
    exact congrArg Prod.fst (run_getLocal hheld)

end Local

/-! ### On the bucket -/

inductive R2Call where
  | put (scope : Option String) (id : UUID) (content : Bytes) (trouble : Option Trouble)
  | putExisting (key : String) (content : Bytes) (trouble : Option Trouble)
  | get (key : String) (trouble : Option Trouble)
  | discard (key : String) (trouble : Option Trouble)

def R2Call.puts : R2Call → Option (String × Bytes)
  | .put scope id content _ => some (storageKey scope id, content)
  | .putExisting key content _ => some (key, content)
  | _ => none

def R2Call.discards : R2Call → Option String
  | .discard key _ => some key
  | _ => none

def R2Call.run (bucketPrefix : String) : R2Call → BucketCalls Reply
  | .put scope id content trouble => putR2 bucketPrefix scope id content trouble
  | .putExisting key content trouble => do
      let size ← Rubrica.putExisting bucketPrefix key content trouble
      pure (.size size)
  | .get key trouble => getR2 bucketPrefix key trouble
  | .discard key trouble => discardR2 bucketPrefix key trouble

/-- The object that a key names. -/
def r2Object (bucketPrefix : String) (bucket : Bucket) (key : String) : Option Bytes :=
  if validStorageKey key then bucket (objectKey bucketPrefix key) else none

def r2Storage (bucketPrefix : String) : Backend R2Error Bucket R2Call where
  call := R2Call.run bucketPrefix
  object := r2Object bucketPrefix
  puts := R2Call.puts
  discards := R2Call.discards
  get := fun key => .get key none

section R2

variable {bucketPrefix : String} {bucket bucket' : Bucket} {key : String}

theorem replaced_self (content : Option Bytes) : bucket.replaced key content key = content :=
  if_pos rfl

theorem replaced_of_ne {key' : String} (h : key' ≠ key) (content : Option Bytes) :
    bucket.replaced key content key' = bucket key' :=
  if_neg h

/-- A request takes effect where it is served, and where it fails it may have. -/
theorem ends_request {trouble : Option Trouble} {effect : Bucket} :
    Ends (Bucket.request trouble effect) bucket (fun _ s' => s' = effect) fun _ s' => s' = bucket ∨ s' = effect := by
  cases trouble with
  | none => exact ends_set rfl
  | some trouble =>
      refine ends_bind ?_
      by_cases happlied : trouble.applied = true
      · rw [if_pos happlied]
        exact ends_set (ends_throw (Or.inr rfl))
      · rw [if_neg happlied]
        exact ends_pure (ends_throw (Or.inl rfl))

/-- The object is new, and is there in the end. -/
def Stored (key : String) (content : Bytes) (s s' : Bucket) : Prop :=
  s key = none ∧ s' = s.replaced key (some content)

theorem ends_putObject {content : Bytes} {trouble : Option Trouble} :
    Ends (Bucket.putObject key content trouble) bucket (fun _ s' => Stored key content bucket s')
      fun _ s' => s' = bucket ∨ Stored key content bucket s' := by
  refine ends_bind (ends_get ?_)
  split
  · exact ends_throw (Or.inl rfl)
  case isFalse hfree =>
    have hnone : bucket key = none := Option.not_isSome_iff_eq_none.1 hfree
    exact ends_request.mono (fun _ _ h => ⟨hnone, h⟩) fun _ _ h => h.imp id fun h => ⟨hnone, h⟩

theorem ends_putExisting {content : Bytes} {trouble : Option Trouble} :
    Ends (putExisting bucketPrefix key content trouble) bucket
      (fun _ s' => validStorageKey key = true ∧ Stored (objectKey bucketPrefix key) content bucket s')
      fun _ s' => s' = bucket ∨ Stored (objectKey bucketPrefix key) content bucket s' := by
  refine ends_bind (ends_validateStorageKey.mono ?_ fun _ _ h => Or.inl h)
  rintro - s₀ ⟨hvalid, rfl⟩
  refine ends_bind (ends_tryCatch (ends_putObject.mono ?_ fun _ _ h => ends_throw h))
  exact fun _ _ h => ends_pure ⟨hvalid, h⟩

theorem ends_putR2 {scope : Option String} {id : UUID} {content : Bytes} {trouble : Option Trouble} :
    Ends (putR2 bucketPrefix scope id content trouble) bucket
      (fun _ s' => validStorageKey (storageKey scope id) = true ∧
        Stored (objectKey bucketPrefix (storageKey scope id)) content bucket s')
      fun _ s' => s' = bucket ∨ Stored (objectKey bucketPrefix (storageKey scope id)) content bucket s' :=
  ends_bind (ends_putExisting.mono (fun _ _ h => ends_pure h) fun _ _ h => h)

/-- Every put, whatever its key: it leaves the bucket or adds an object, and has added it where it returns. -/
theorem ends_put {c : R2Call} {content : Bytes} (h : c.puts = some (key, content)) :
    Ends (c.run bucketPrefix) bucket
      (fun _ s' => validStorageKey key = true ∧ Stored (objectKey bucketPrefix key) content bucket s')
      fun _ s' => s' = bucket ∨ Stored (objectKey bucketPrefix key) content bucket s' := by
  cases c with
  | put scope id content' trouble =>
      obtain ⟨rfl, rfl⟩ := Prod.mk.inj (Option.some.inj h)
      exact ends_putR2
  | putExisting key' content' trouble =>
      obtain ⟨rfl, rfl⟩ := Prod.mk.inj (Option.some.inj h)
      exact ends_bind (ends_putExisting.mono (fun _ _ h => ends_pure h) fun _ _ h => h)
  | get key' trouble => exact absurd h (by simp [R2Call.puts])
  | discard key' trouble => exact absurd h (by simp [R2Call.puts])

theorem ends_getObject {trouble : Option Trouble} :
    Ends (Bucket.getObject key trouble) bucket (fun _ s' => s' = bucket) fun _ s' => s' = bucket := by
  refine ends_bind (ends_get ?_)
  cases trouble with
  | some trouble => exact ends_throw rfl
  | none =>
      show Ends ((bucket key).elim _ _) bucket _ _
      cases bucket key with
      | none => exact ends_throw rfl
      | some content => exact ends_pure rfl

theorem ends_getR2 {trouble : Option Trouble} :
    Ends (getR2 bucketPrefix key trouble) bucket (fun _ s' => s' = bucket) fun _ s' => s' = bucket := by
  refine ends_bind (ends_validateStorageKey.mono ?_ fun _ _ h => h)
  rintro - s₀ ⟨-, rfl⟩
  exact ends_bind (ends_tryCatch (ends_getObject.mono (fun _ _ h => ends_pure h) fun _ _ h => ends_throw h))

/-- What `discard_uncommitted` may take away. -/
def Deleted (bucketPrefix key : String) (s s' : Bucket) : Prop :=
  s' = s ∨ s' = s.replaced (objectKey bucketPrefix key) none

theorem ends_discardR2 {trouble : Option Trouble} :
    Ends (discardR2 bucketPrefix key trouble) bucket (fun _ s' => Deleted bucketPrefix key bucket s')
      fun _ s' => Deleted bucketPrefix key bucket s' := by
  refine ends_bind (ends_validateStorageKey.mono ?_ fun _ _ h => Or.inl h)
  rintro - s₀ ⟨-, rfl⟩
  have hdelete : Ends (Bucket.deleteObject (objectKey bucketPrefix key) trouble) s₀
      (fun _ s' => Deleted bucketPrefix key s₀ s') fun _ s' => Deleted bucketPrefix key s₀ s' :=
    ends_bind (ends_get (ends_request.mono (fun _ _ h => Or.inr h) fun _ _ h => h))
  refine ends_bind (ends_tryCatch (hdelete.mono (fun _ _ h => ends_pure h) fun e s' h => ?_))
  split
  · exact ends_pure (ends_pure h)
  · exact ends_throw h

/-- The object is there. -/
def R2Held (bucketPrefix key : String) (content : Bytes) (bucket : Bucket) : Prop :=
  validStorageKey key = true ∧ bucket (objectKey bucketPrefix key) = some content

theorem r2Object_eq_some {content : Bytes} :
    r2Object bucketPrefix bucket key = some content ↔ R2Held bucketPrefix key content bucket := by
  unfold r2Object R2Held
  split
  case isTrue hvalid => simp [hvalid]
  case isFalse hvalid => simp [hvalid]

theorem run_getR2 {content : Bytes} (h : R2Held bucketPrefix key content bucket) :
    (getR2 bucketPrefix key none).run bucket = (.ok (.content content), bucket) := by
  obtain ⟨hvalid, hobject⟩ := h
  have hget : (Bucket.getObject (objectKey bucketPrefix key) none).run bucket = (.ok content, bucket) := by
    have hstate : (get : BucketCalls Bucket).run bucket = (.ok bucket, bucket) := rfl
    unfold Bucket.getObject
    rw [run_bind, hstate]
    show ((bucket (objectKey bucketPrefix key)).elim _ _ : BucketCalls Bytes).run bucket = _
    rw [hobject]
    rfl
  unfold getR2
  rw [run_bind, run_validateStorageKey hvalid]
  simp only
  rw [run_bind, run_tryCatch_ok hget]
  rfl

theorem R2Held.stored {key' : String} {content content' : Bytes} (h : R2Held bucketPrefix key content bucket)
    (hstored : bucket' = bucket ∨ Stored key' content' bucket bucket') : R2Held bucketPrefix key content bucket' := by
  obtain ⟨hvalid, hobject⟩ := h
  rcases hstored with rfl | ⟨hfree, rfl⟩
  · exact ⟨hvalid, hobject⟩
  · have hne : objectKey bucketPrefix key ≠ key' := by
      rintro rfl
      exact absurd (hobject.symm.trans hfree) (by simp)
    exact ⟨hvalid, by rwa [replaced_of_ne hne]⟩

theorem r2Object_of_deleted {named : String} (hdeleted : Deleted bucketPrefix named bucket bucket')
    (hne : key ≠ named) : r2Object bucketPrefix bucket' key = r2Object bucketPrefix bucket key := by
  rcases hdeleted with rfl | rfl
  · rfl
  have hobject : objectKey bucketPrefix key ≠ objectKey bucketPrefix named := fun heq => hne (objectKey_injective heq)
  unfold r2Object
  rw [replaced_of_ne hobject]

theorem R2Call.held_of_puts {c : R2Call} {content : Bytes} (hput : c.puts.isSome = true)
    (h : R2Held bucketPrefix key content bucket) :
    R2Held bucketPrefix key content ((r2Storage bucketPrefix).after c bucket) := by
  obtain ⟨⟨key', content'⟩, hc⟩ := Option.isSome_iff_exists.1 hput
  have hends : Ends (c.run bucketPrefix) bucket
      (fun _ s' => s' = bucket ∨ Stored (objectKey bucketPrefix key') content' bucket s')
      fun _ s' => s' = bucket ∨ Stored (objectKey bucketPrefix key') content' bucket s' :=
    (ends_put hc).mono (fun _ _ h => Or.inr h.2) fun _ _ h => h
  exact h.stored hends.always

theorem r2Storage_neverReplaces (calls : List R2Call) : (r2Storage bucketPrefix).NeverReplaces bucket calls := by
  rintro ⟨s, c⟩ - hput key content hobject
  exact r2Object_eq_some.2 (R2Call.held_of_puts hput (r2Object_eq_some.1 hobject))

theorem r2Storage_removesOnlyNamed (calls : List R2Call) :
    (r2Storage bucketPrefix).RemovesOnlyNamed bucket calls := by
  rintro ⟨s, c⟩ - named hnamed key hne
  cases c with
  | discard key' trouble =>
      obtain rfl : key' = named := Option.some.inj hnamed
      exact r2Object_of_deleted ends_discardR2.always hne
  | put scope id content trouble => exact absurd hnamed (by simp [r2Storage, R2Call.discards])
  | putExisting key' content trouble => exact absurd hnamed (by simp [r2Storage, R2Call.discards])
  | get key' trouble => exact absurd hnamed (by simp [r2Storage, R2Call.discards])

theorem r2Storage_givesBack (calls : List R2Call) : (r2Storage bucketPrefix).GivesBack bucket calls := by
  refine Backend.GivesBack.of_held (R2Held bucketPrefix) ?_ ?_ ?_
  · intro s c key content hput hok
    obtain ⟨reply, hreply⟩ := hok
    obtain ⟨hvalid, -, hstored⟩ := (ends_put hput).1 reply hreply
    refine ⟨hvalid, ?_⟩
    show ((c.run bucketPrefix).run s).2 (objectKey bucketPrefix key) = _
    rw [hstored, replaced_self]
  · rintro ⟨s, c⟩ - key content hnamed hheld
    cases c with
    | put scope id content' trouble => exact R2Call.held_of_puts rfl hheld
    | putExisting key' content' trouble => exact R2Call.held_of_puts rfl hheld
    | get key' trouble =>
        have hsame : ((getR2 bucketPrefix key' trouble).run s).2 = s := ends_getR2.always
        show R2Held bucketPrefix key content ((getR2 bucketPrefix key' trouble).run s).2
        rwa [hsame]
    | discard named trouble =>
        have hne : key ≠ named := fun heq => hnamed (congrArg some heq.symm)
        have hdeleted : Deleted bucketPrefix named s ((discardR2 bucketPrefix named trouble).run s).2 :=
          ends_discardR2.always
        exact r2Object_eq_some.1 ((r2Object_of_deleted hdeleted hne).trans (r2Object_eq_some.2 hheld))
  · intro s key content hheld
    exact congrArg Prod.fst (run_getR2 hheld)

end R2

/-! ## Both backends -/

/-- A key that is accepted leads below the root. -/
theorem localPath_below {key : String} (h : validStorageKey key = true) (root : AbsPath) :
    ∃ below, below ≠ [] ∧ localPath root key = root ++ below ∧
      ∀ part ∈ below, part ≠ [] ∧ part ≠ ['.'] ∧ part ≠ ['.', '.'] ∧ '/' ∉ part := by
  refine ⟨key.toList.splitOn '/', List.splitOn_ne_nil _ _, localPath_of_valid h root, fun part hpart => ?_⟩
  obtain ⟨hne, hchars⟩ := isStorageKey_parts (isStorageKey_of_valid h) part hpart
  refine ⟨hne, ?_, ?_, fun hslash => ?_⟩
  · rintro rfl
    exact absurd (hchars '.' List.mem_cons_self) (by decide)
  · rintro rfl
    exact absurd (hchars '.' List.mem_cons_self) (by decide)
  · exact absurd (hchars '/' hslash) (by decide)

/-- Keys that are accepted lead below the root and to places of their own, and so do those that `put` builds. Over any
    calls no put replaces an object, `discard_uncommitted` takes away none but the one it names, and what was put is
    given back: by the bucket always, by the local files where the process is not bound by modes or none of the calls
    shuts a folder. -/
theorem storage_confined (privileged : Bool) (root : AbsPath) (bucketPrefix : String) :
    (∀ key, validStorageKey key = true → ∃ below, below ≠ [] ∧ localPath root key = root ++ below ∧
        ∀ part ∈ below, part ≠ [] ∧ part ≠ ['.'] ∧ part ≠ ['.', '.'] ∧ '/' ∉ part) ∧
      (∀ key key', validStorageKey key = true → validStorageKey key' = true →
        localPath root key = localPath root key' → key = key') ∧
      Function.Injective (objectKey bucketPrefix) ∧
      (∀ tenant account id : UUID, tenant < 2 ^ 128 → account < 2 ^ 128 → id < 2 ^ 128 →
        validStorageKey (storageKey (some (documentStorageScope tenant account)) id) = true) ∧
      (∀ bucket calls, (r2Storage bucketPrefix).NeverReplaces bucket calls ∧
        (r2Storage bucketPrefix).RemovesOnlyNamed bucket calls ∧ (r2Storage bucketPrefix).GivesBack bucket calls) ∧
      ∀ t calls, (localStorage privileged root).NeverReplaces t calls ∧
        (localStorage privileged root).RemovesOnlyNamed t calls ∧
        ((privileged = true ∨
            ∀ y ∈ callsFrom (localStorage privileged root).after t calls, y.2.SparesFolders root y.1) →
          (localStorage privileged root).GivesBack t calls) := by
  refine ⟨fun key hvalid => localPath_below hvalid root, fun key key' h h' => localPath_injective h h',
    fun key key' => objectKey_injective, fun tenant account id => valid_storageKey, ?_, ?_⟩
  · intro bucket calls
    exact ⟨r2Storage_neverReplaces calls, r2Storage_removesOnlyNamed calls, r2Storage_givesBack calls⟩
  · intro t calls
    exact ⟨localStorage_neverReplaces calls, localStorage_removesOnlyNamed calls, localStorage_givesBack⟩

/-! ### A folder that is shut -/

def shutRoot : AbsPath :=
  [['s', 'r', 'v']]

/-- The root, and nothing in it. -/
def emptyRoot : Disk Bytes :=
  fun p => if p = [] ∨ p = shutRoot then some (.folder true) else none

def shutKey : String :=
  storageKey (some (documentStorageScope 7 9)) 5

def shutCalls : List LocalCall :=
  [.put (some (documentStorageScope 7 9)) 5 [1, 2], .discard "tenants"]

/-- What `put` does once it has accepted the key. -/
def storeFile (privileged : Bool) (destination : AbsPath) (content : Bytes) : FileCalls Bytes Unit := do
  makeFolders privileged destination.dropLast
  touch privileged [] destination
  writeFile privileged destination content
  chmodPrivate privileged destination

theorem run_putLocal {privileged : Bool} {root : AbsPath} {scope : Option String} {id : UUID} {stream : Bytes}
    {t t' : Disk Bytes} (hvalid : validStorageKey (storageKey scope id) = true)
    (h : (storeFile privileged (localPath root (storageKey scope id)) stream).run t = (.ok (), t')) :
    (putLocal privileged root scope id stream).run t = (.ok (.stored (storageKey scope id) stream.length), t') := by
  have hcopied : copyStream stream.length stream [] 0 = (stream, stream.length) := by
    rw [copyStream_eq _ _ le_rfl, List.nil_append, Nat.zero_add]
  have hsteps : putLocal privileged root scope id stream =
      (do
        validateStorageKey .notFound (storageKey scope id)
        storeFile privileged (localPath root (storageKey scope id)) stream
        pure (.stored (storageKey scope id) stream.length)) := by
    simp only [putLocal, storeFile, hcopied, bind_assoc]
  rw [hsteps, run_bind, run_validateStorageKey hvalid]
  simp only
  rw [run_bind, h]
  rfl

theorem run_getLocal_error {privileged : Bool} {root : AbsPath} {key : String} {t : Disk Bytes} {e : OsError}
    (hvalid : validStorageKey key = true) (h : ((readFile privileged (localPath root key)).run t).1 = .error e) :
    ((getLocal privileged root key).run t).1 = .error e := by
  unfold getLocal
  rw [run_bind, run_validateStorageKey hvalid]
  simp only
  rw [run_bind]
  generalize (readFile privileged (localPath root key)).run t = r at h
  obtain ⟨a, t'⟩ := r
  obtain rfl : a = .error e := h
  rfl

/-- Where the bytes are put. -/
def shutPath : AbsPath :=
  shutRoot ++ ["tenants".toList, grouped (zfill 32 (toHex 7)), "accounts".toList, grouped (zfill 32 (toHex 9)),
    "files".toList, zfill 32 (toHex 5)]

theorem valid_shutKey : validStorageKey shutKey = true :=
  valid_storageKey (by decide) (by decide) (by decide)

theorem localPath_shutKey : localPath shutRoot shutKey = shutPath := by
  rw [localPath_of_valid valid_shutKey, shutKey, storageKey_documentStorageScope,
    splitOn_filedKey (isHexName_uuidHex (by decide))]
  simp only [shutPath, uuidString, uuidHex, String.toList_ofList]

/-- The disk after the put. -/
def filledRoot : Disk Bytes :=
  ((storeFile false shutPath [1, 2]).run emptyRoot).2

theorem put_shutKey :
    ((localStorage false shutRoot).call (.put (some (documentStorageScope 7 9)) 5 [1, 2])).run emptyRoot =
      (.ok (.stored shutKey 2), filledRoot) := by
  have hstored : ((storeFile false shutPath [1, 2]).run emptyRoot).1 = .ok () := by decide +kernel
  have hrun : (storeFile false (localPath shutRoot shutKey) [1, 2]).run emptyRoot = (.ok (), filledRoot) := by
    rw [localPath_shutKey]
    exact Prod.ext hstored rfl
  exact run_putLocal valid_shutKey hrun

theorem get_shutKey : ((getLocal false shutRoot shutKey).run
    (stateAfter (localStorage false shutRoot).after emptyRoot shutCalls)).1 = .error .permission := by
  have hstate : stateAfter (localStorage false shutRoot).after emptyRoot shutCalls =
      ((discardLocal false shutRoot "tenants").run filledRoot).2 := by
    have hput : (localStorage false shutRoot).after (.put (some (documentStorageScope 7 9)) 5 [1, 2]) emptyRoot =
        filledRoot := by rw [Backend.after, put_shutKey]
    have hdiscard : ∀ t, (localStorage false shutRoot).after (.discard "tenants") t =
        ((discardLocal false shutRoot "tenants").run t).2 := fun _ => rfl
    rw [shutCalls, stateAfter, stateAfter, stateAfter, hput, hdiscard]
  have hread : ((readFile false shutPath).run ((discardLocal false shutRoot "tenants").run filledRoot).2).1 =
      .error .permission := by decide +kernel
  rw [hstate]
  exact run_getLocal_error valid_shutKey (localPath_shutKey ▸ hread)

theorem ne_shutKey : shutKey ≠ "tenants" := by
  intro heq
  have hscoped := isScoped_documentStorageScope 7 9 (uuidHex 5)
  rw [← storageKey_documentStorageScope, ← shutKey, heq] at hscoped
  exact absurd (slash_mem_of_isScoped hscoped) (by simp)

/-- Two bytes are put under the scope of an account, and `discard_uncommitted` is called with the name of the folder
    above all scopes: it sets the mode of the folder before it fails, and the bytes cannot be read any more. -/
theorem not_givesBack_of_shut :
    (((localStorage false shutRoot).call (.put (some (documentStorageScope 7 9)) 5 [1, 2])).run emptyRoot).1 =
        .ok (.stored shutKey 2) ∧
      ((getLocal false shutRoot shutKey).run (stateAfter (localStorage false shutRoot).after emptyRoot shutCalls)).1 =
        .error .permission ∧
      ¬ (localStorage false shutRoot).GivesBack emptyRoot shutCalls := by
  have hput : (((localStorage false shutRoot).call (.put (some (documentStorageScope 7 9)) 5 [1, 2])).run
      emptyRoot).1 = .ok (.stored shutKey 2) := congrArg Prod.fst put_shutKey
  refine ⟨hput, get_shutKey, fun hback => ?_⟩
  have hlater : ∀ d ∈ [LocalCall.discard "tenants"], (localStorage false shutRoot).discards d ≠ some shutKey := by
    intro d hd
    obtain rfl := List.mem_singleton.1 hd
    exact fun heq => ne_shutKey (Option.some.inj heq).symm
  have hread := hback [] _ [.discard "tenants"] rfl shutKey [1, 2] rfl ⟨_, hput⟩ hlater
  exact absurd (get_shutKey.symm.trans hread) (by rintro ⟨⟩)

end Rubrica
