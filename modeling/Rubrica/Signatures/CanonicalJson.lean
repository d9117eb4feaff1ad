import Rubrica.Identity.Hexadecimal
import Rubrica.Platform

set_option autoImplicit false

/-! # Canonical JSON is read in one way

`json.dumps` with sorted keys: two values with one text are the same but for the order of the keys of their
objects. -/

namespace Rubrica.Json

open Texts

/-! ## Texts that end where they end -/

/-- Nothing, or what follows a value inside a list or an object. -/
def Delimited (s : List Char) : Prop :=
  ∀ c ∈ s.head?, c = ',' ∨ c = ']' ∨ c = '\x7d'

/-- From such a text and what follows it, the value is known up to `same`, and so is what follows. -/
def ReadsAs {α : Type} (text : α → List Char) (same : α → α → Prop) (a : α) : Prop :=
  ∀ b r r', Delimited r → Delimited r' → text a ++ r = text b ++ r' → same a b ∧ r = r'

/-- Characters of one kind up to the first of another kind. -/
theorem append_inj_of_all {p : Char → Prop} {s t r r' : List Char} (hs : ∀ c ∈ s, p c) (ht : ∀ c ∈ t, p c)
    (hr : ∀ c ∈ r.head?, ¬p c) (hr' : ∀ c ∈ r'.head?, ¬p c) (h : s ++ r = t ++ r') : s = t ∧ r = r' := by
  induction s generalizing t with
  | nil =>
      cases t with
      | nil => exact ⟨rfl, h⟩
      | cons d t =>
          rw [List.nil_append, List.cons_append] at h
          exact absurd (ht d List.mem_cons_self) (hr d (by rw [h]; rfl))
  | cons c s ih =>
      cases t with
      | nil =>
          rw [List.nil_append, List.cons_append] at h
          exact absurd (hs c List.mem_cons_self) (hr' c (by rw [← h]; rfl))
      | cons d t =>
          obtain ⟨rfl, htail⟩ := List.cons.inj h
          obtain ⟨rfl, hrest⟩ := ih (fun c hc => hs c (List.mem_cons_of_mem _ hc))
            (fun c hc => ht c (List.mem_cons_of_mem _ hc)) htail
          exact ⟨rfl, hrest⟩

/-! ## Separated by commas -/

section Separated

variable {α : Type} {text : α → List Char} {same : α → α → Prop} {close : Char} {l l' : List α} {r r' : List Char}

/-- What follows the first of the texts. -/
def separatedTail (text : α → List Char) : List α → List Char
  | [] => []
  | a :: l => ',' :: (text a ++ separatedTail text l)

/-- `",".join(..)`. -/
def separated (text : α → List Char) : List α → List Char
  | [] => []
  | a :: l => text a ++ separatedTail text l

theorem intercalate_map (text : α → List Char) (l : List α) : [','].intercalate (l.map text) = separated text l := by
  have htail : ∀ (a : α) (l : List α), [','].intercalate (text a :: l.map text) = text a ++ separatedTail text l := by
    intro a l
    induction l generalizing a with
    | nil => simp [separatedTail]
    | cons b l ih => rw [List.map_cons, List.intercalate_cons_cons, ih b, separatedTail]; simp
  cases l with
  | nil => rfl
  | cons a l => exact htail a l

theorem delimited_close (h : close = ']' ∨ close = '\x7d') (r : List Char) : Delimited (close :: r) := by
  intro c hc
  obtain rfl : close = c := Option.some.inj hc
  exact Or.inr h

theorem delimited_tail (h : close = ']' ∨ close = '\x7d') (l : List α) (r : List Char) :
    Delimited (separatedTail text l ++ close :: r) := by
  cases l with
  | nil => exact delimited_close h r
  | cons a l =>
      intro c hc
      obtain rfl : ',' = c := Option.some.inj hc
      exact Or.inl rfl

theorem separatedTail_inj (hclose : close = ']' ∨ close = '\x7d') (hreads : ∀ a ∈ l, ReadsAs text same a)
    (h : separatedTail text l ++ close :: r = separatedTail text l' ++ close :: r') :
    List.Forall₂ same l l' ∧ r = r' := by
  have hne : close ≠ ',' := by
    rcases hclose with rfl | rfl <;> decide
  induction l generalizing l' with
  | nil =>
      cases l' with
      | nil => exact ⟨.nil, (List.cons.inj h).2⟩
      | cons b l' => exact absurd (List.cons.inj h).1 hne
  | cons a l ih =>
      cases l' with
      | nil => exact absurd (List.cons.inj h).1.symm hne
      | cons b l' =>
          have hafter : text a ++ (separatedTail text l ++ close :: r) =
              text b ++ (separatedTail text l' ++ close :: r') := by
            simpa [separatedTail] using h
          obtain ⟨hsame, hrest⟩ := hreads a List.mem_cons_self b _ _ (delimited_tail hclose l r)
            (delimited_tail hclose l' r') hafter
          obtain ⟨hall, hr⟩ := ih (fun a ha => hreads a (List.mem_cons_of_mem _ ha)) hrest
          exact ⟨.cons hsame hall, hr⟩

/-- Texts that are read in one way and are never empty, between commas, up to the bracket. -/
theorem separated_inj (hclose : close = ']' ∨ close = '\x7d') (hreads : ∀ a ∈ l, ReadsAs text same a)
    (hfirst : ∀ a, ∃ c s, text a = c :: s ∧ c ≠ close)
    (h : separated text l ++ close :: r = separated text l' ++ close :: r') : List.Forall₂ same l l' ∧ r = r' := by
  cases l with
  | nil =>
      cases l' with
      | nil => exact ⟨.nil, (List.cons.inj h).2⟩
      | cons b l' =>
          obtain ⟨c, s, hb, hc⟩ := hfirst b
          rw [separated, separated, hb] at h
          exact absurd (List.cons.inj h).1.symm hc
  | cons a l =>
      cases l' with
      | nil =>
          obtain ⟨c, s, ha, hc⟩ := hfirst a
          rw [separated, separated, ha] at h
          exact absurd (List.cons.inj h).1 hc
      | cons b l' =>
          rw [separated, separated, List.append_assoc, List.append_assoc] at h
          obtain ⟨hsame, hrest⟩ := hreads a List.mem_cons_self b _ _ (delimited_tail hclose l r)
            (delimited_tail hclose l' r') h
          obtain ⟨hall, hr⟩ := separatedTail_inj hclose (fun a ha => hreads a (List.mem_cons_of_mem _ ha)) hrest
          exact ⟨.cons hsame hall, hr⟩

end Separated

/-! ## Strings -/

def hexValue (c : Char) : Nat :=
  if c.toNat < 58 then c.toNat - 48 else c.toNat - 87

/-- The first character of what stands inside quotes, and the rest. -/
def unescape : List Char → Option (Char × List Char)
  | '\\' :: 'b' :: s => some (Char.ofNat 8, s)
  | '\\' :: 't' :: s => some (Char.ofNat 9, s)
  | '\\' :: 'n' :: s => some (Char.ofNat 10, s)
  | '\\' :: 'f' :: s => some (Char.ofNat 12, s)
  | '\\' :: 'r' :: s => some (Char.ofNat 13, s)
  | '\\' :: '"' :: s => some ('"', s)
  | '\\' :: '\\' :: s => some ('\\', s)
  | '\\' :: 'u' :: '0' :: '0' :: a :: b :: s => some (Char.ofNat (16 * hexValue a + hexValue b), s)
  | '\\' :: _ => none
  | c :: s => some (c, s)
  | [] => none

theorem ofNat_of_toNat {c : Char} {n : Nat} (h : c.toNat = n) : c = Char.ofNat n := by
  rw [← h, Char.ofNat_toNat]

/-- An escape for a control character. -/
theorem escape_toList (n : Nat) : ("\\u00" ++ String.ofList [Nat.digitChar (n / 16), Nat.digitChar (n % 16)]).toList =
    ['\\', 'u', '0', '0', Nat.digitChar (n / 16), Nat.digitChar (n % 16)] := by
  simp

theorem hexValue_escape : ∀ n < 32,
    16 * hexValue (Nat.digitChar (n / 16)) + hexValue (Nat.digitChar (n % 16)) = n := by
  decide

theorem unescape_of_ne {c : Char} (h : c ≠ '\\') (s : List Char) : unescape (c :: s) = some (c, s) := by
  unfold unescape
  split <;> simp_all

/-- What stands for a character is read as it, and does not end the string. -/
theorem unescape_escaped (c : Char) (s : List Char) :
    unescape ((escaped c).toList ++ s) = some (c, s) ∧ ((escaped c).toList ++ s).head? ≠ some '"' := by
  have htwo : ∀ (d : Char) (t : String), t.toList = ['\\', d] → d ≠ 'u' → unescape ('\\' :: d :: s) = some (c, s) →
      unescape (t.toList ++ s) = some (c, s) ∧ (t.toList ++ s).head? ≠ some '"' := by
    intro d t ht _ hd
    rw [ht]
    exact ⟨hd, by simp⟩
  unfold escaped
  split
  · next h => exact htwo 'b' _ (by simp) (by decide) (by rw [ofNat_of_toNat h]; rfl)
  · next h => exact htwo 't' _ (by simp) (by decide) (by rw [ofNat_of_toNat h]; rfl)
  · next h => exact htwo 'n' _ (by simp) (by decide) (by rw [ofNat_of_toNat h]; rfl)
  · next h => exact htwo 'f' _ (by simp) (by decide) (by rw [ofNat_of_toNat h]; rfl)
  · next h => exact htwo 'r' _ (by simp) (by decide) (by rw [ofNat_of_toNat h]; rfl)
  · next h => exact htwo '"' _ (by simp) (by decide) (by rw [ofNat_of_toNat h]; rfl)
  · next h => exact htwo '\\' _ (by simp) (by decide) (by rw [ofNat_of_toNat h]; rfl)
  · next n _ _ _ _ _ hquote hback =>
      split
      · next hn =>
          rw [escape_toList]
          refine ⟨?_, by simp⟩
          show some (Char.ofNat (16 * hexValue _ + hexValue _), s) = some (c, s)
          rw [hexValue_escape _ hn, Char.ofNat_toNat]
      · have hne : c ≠ '\\' := by
          rintro rfl
          exact hback rfl
        have hnot : c ≠ '"' := by
          rintro rfl
          exact hquote rfl
        have hself : c.toString.toList = [c] := String.toList_singleton c
        rw [hself]
        exact ⟨unescape_of_ne hne s, by simpa using hnot⟩

/-- What stands inside the quotes. -/
def escapes (s : List Char) : List Char :=
  s.flatMap fun c => (escaped c).toList

theorem escapes_inj {s t r r' : List Char} (h : escapes s ++ '"' :: r = escapes t ++ '"' :: r') : s = t ∧ r = r' := by
  have hcons : ∀ (c : Char) (s r : List Char),
      escapes (c :: s) ++ '"' :: r = (escaped c).toList ++ (escapes s ++ '"' :: r) := by
    intro c s r
    rw [escapes, List.flatMap_cons, List.append_assoc]
    rfl
  induction s generalizing t with
  | nil =>
      cases t with
      | nil => exact ⟨rfl, (List.cons.inj h).2⟩
      | cons d t =>
          rw [hcons] at h
          exact absurd (congrArg List.head? h).symm (unescape_escaped d _).2
  | cons c s ih =>
      cases t with
      | nil =>
          rw [hcons] at h
          exact absurd (congrArg List.head? h) (unescape_escaped c _).2
      | cons d t =>
          rw [hcons, hcons] at h
          have hread := congrArg unescape h
          rw [(unescape_escaped c _).1, (unescape_escaped d _).1] at hread
          obtain ⟨rfl, hrest⟩ := Prod.mk.inj (Option.some.inj hread)
          obtain ⟨rfl, hr⟩ := ih hrest
          exact ⟨rfl, hr⟩

theorem quoted_toList (s : String) : (quoted s).toList = '"' :: (escapes s.toList ++ ['"']) := by
  have hquote : "\"".toList = ['"'] := by simp
  rw [quoted, String.toList_append, String.toList_append, hquote, String.toList_join, List.flatMap_map]
  rfl

theorem quoted_inj {s t : String} {r r' : List Char} (h : (quoted s).toList ++ r = (quoted t).toList ++ r') :
    s = t ∧ r = r' := by
  rw [quoted_toList, quoted_toList] at h
  have hafter : escapes s.toList ++ '"' :: r = escapes t.toList ++ '"' :: r' := by
    simpa using h
  obtain ⟨hlist, hr⟩ := escapes_inj hafter
  exact ⟨String.toList_inj.1 hlist, hr⟩

/-! ## Numbers -/

def isNumberChar (c : Char) : Bool :=
  c.isDigit || c = '-' || c = '+' || c = '.' || c = 'e'

/-- What `repr` of floats is like: a number of its own for each of them, with a point or an exponent. -/
structure FloatTexts (float : Rat → String) : Prop where
  injective : Function.Injective float
  chars : ∀ x, ∀ c ∈ (float x).toList, isNumberChar c = true
  point : ∀ x, ∃ c ∈ (float x).toList, c = '.' ∨ c = 'e'

/-! ## Values -/

mutual

/-- The value with the keys of its objects in order, as it comes out of its canonical text. -/
def sorted : Json → Json
  | .null => .null
  | .bool b => .bool b
  | .int n => .int n
  | .real x => .real x
  | .text s => .text s
  | .list items => .list (sortedList items)
  | .dict items => .dict ((sortedDict items).insertionSort fun a b => a.1 ≤ b.1)

def sortedList : List Json → List Json
  | [] => []
  | v :: rest => v.sorted :: sortedList rest

def sortedDict : List (String × Json) → List (String × Json)
  | [] => []
  | (key, v) :: rest => (key, v.sorted) :: sortedDict rest

end

theorem sortedList_eq (items : List Json) : sortedList items = items.map sorted := by
  induction items with
  | nil => rfl
  | cons v rest ih => rw [sortedList, ih, List.map_cons]

theorem sortedDict_eq (items : List (String × Json)) : sortedDict items = items.map fun x => (x.1, x.2.sorted) := by
  induction items with
  | nil => rfl
  | cons x rest ih =>
      obtain ⟨key, v⟩ := x
      rw [sortedDict, ih, List.map_cons]

theorem dumpsList_eq (float : Rat → String) (items : List Json) :
    dumpsList float items = items.map (dumps float) := by
  induction items with
  | nil => rfl
  | cons v rest ih => rw [dumpsList, ih, List.map_cons]

theorem dumpsDict_eq (float : Rat → String) (items : List (String × Json)) :
    dumpsDict float items = items.map fun x => (x.1, x.2.dumps float) := by
  induction items with
  | nil => rfl
  | cons x rest ih =>
      obtain ⟨key, v⟩ := x
      rw [dumpsDict, ih, List.map_cons]

/-- The entries of an object in the order of their keys. -/
abbrev inOrder (items : List (String × Json)) : List (String × Json) :=
  items.insertionSort fun a b => a.1 ≤ b.1

theorem sorted_dict (items : List (String × Json)) :
    (Json.dict items).sorted = .dict ((inOrder items).map fun x => (x.1, x.2.sorted)) := by
  have hmap := List.map_insertionSort (r := fun a b : String × Json => a.1 ≤ b.1)
    (s := fun a b : String × Json => a.1 ≤ b.1) (fun x : String × Json => (x.1, x.2.sorted)) items
    fun _ _ _ _ => Iff.rfl
  rw [sorted, sortedDict_eq, ← hmap]

theorem pairwise_inOrder (items : List (String × Json)) : (inOrder items).Pairwise fun a b => a.1 ≤ b.1 :=
  have : Std.Total fun a b : String × Json => a.1 ≤ b.1 := ⟨fun a b => String.le_total a.1 b.1⟩
  have : IsTrans (String × Json) fun a b => a.1 ≤ b.1 := ⟨fun _ _ _ => String.le_trans⟩
  List.pairwise_insertionSort _ items

/-- An entry is put where it was put among all entries, when some of them are left out. -/
theorem filter_orderedInsert (p : String × Json → Bool) (x : String × Json) {l : List (String × Json)}
    (hl : l.Pairwise fun a b => a.1 ≤ b.1) : (l.orderedInsert (fun a b => a.1 ≤ b.1) x).filter p =
      if p x then (l.filter p).orderedInsert (fun a b => a.1 ≤ b.1) x else l.filter p := by
  induction l with
  | nil => simp [List.orderedInsert, List.filter_cons]
  | cons b l ih =>
      obtain ⟨hb, htail⟩ := List.pairwise_cons.1 hl
      by_cases hx : x.1 ≤ b.1
      · have hfirst : ∀ c ∈ (b :: l).filter p, x.1 ≤ c.1 := by
          intro c hc
          rcases List.mem_cons.1 (List.mem_filter.1 hc).1 with rfl | hc
          · exact hx
          · exact String.le_trans hx (hb c hc)
        rw [List.orderedInsert_cons_of_le (fun a b : String × Json => a.1 ≤ b.1) _ hx, List.filter_cons (x := x)]
        split
        · cases hrest : (b :: l).filter p with
          | nil => rfl
          | cons c rest =>
              have hc : x.1 ≤ c.1 := hfirst c (by rw [hrest]; exact List.mem_cons_self)
              rw [List.orderedInsert_cons_of_le (fun a b : String × Json => a.1 ≤ b.1) _ hc]
        · rfl
      · rw [List.orderedInsert_of_not_le (fun a b : String × Json => a.1 ≤ b.1) _ hx, List.filter_cons (x := b),
          ih htail, List.filter_cons (x := b)]
        split
        · split
          · rw [List.orderedInsert_of_not_le (fun a b : String × Json => a.1 ≤ b.1) _ hx]
          · rfl
        · rfl

theorem filter_inOrder (p : String × Json → Bool) (items : List (String × Json)) :
    (inOrder items).filter p = inOrder (items.filter p) := by
  induction items with
  | nil => rfl
  | cons x items ih =>
      rw [inOrder, List.insertionSort_cons, filter_orderedInsert p x (pairwise_inOrder items), List.filter_cons]
      split
      · exact congrArg (List.orderedInsert (fun a b => a.1 ≤ b.1) x) ih
      · exact ih

/-- Induction over the values inside a value. -/
theorem induct {P : Json → Prop} (null : P .null) (bool : ∀ b, P (.bool b)) (int : ∀ n, P (.int n))
    (real : ∀ x, P (.real x)) (text : ∀ s, P (.text s)) (list : ∀ items, (∀ v ∈ items, P v) → P (.list items))
    (dict : ∀ items : List (String × Json), (∀ x ∈ items, P x.2) → P (.dict items)) : ∀ v, P v
  | .null => null
  | .bool b => bool b
  | .int n => int n
  | .real x => real x
  | .text s => text s
  | .list items => list items fun v hv => by
      have hlt := List.sizeOf_lt_of_mem hv
      exact induct null bool int real text list dict v
  | .dict items => dict items fun (key, v) hx => by
      have hentry := List.sizeOf_lt_of_mem hx
      rw [Prod.mk.sizeOf_spec] at hentry
      have hlt : sizeOf v < 1 + sizeOf items := by omega
      exact induct null bool int real text list dict v
termination_by v => sizeOf v

section Dumps

variable {float : Rat → String}

/-- The text of an entry. -/
def entryChars (float : Rat → String) (x : String × Json) : List Char :=
  (quoted x.1).toList ++ ':' :: (x.2.dumps float).toList

theorem dumps_list_toList (items : List Json) : ((Json.list items).dumps float).toList =
    '[' :: (separated (fun v => (v.dumps float).toList) items ++ [']']) := by
  have hopen : "[".toList = ['['] := by simp
  have hclose : "]".toList = [']'] := by simp
  have hcomma : ",".toList = [','] := by simp
  rw [dumps, String.toList_append, String.toList_append, hopen, hclose, String.toList_intercalate, hcomma,
    dumpsList_eq, List.map_map, ← intercalate_map]
  rfl

theorem dumpsDict_inOrder (items : List (String × Json)) :
    ((dumpsDict float items).insertionSort fun a b => a.1 ≤ b.1) =
      (inOrder items).map fun x => (x.1, x.2.dumps float) := by
  have hmap := List.map_insertionSort (r := fun a b : String × Json => a.1 ≤ b.1)
    (s := fun a b : String × String => a.1 ≤ b.1) (fun x : String × Json => (x.1, x.2.dumps float)) items
    fun _ _ _ _ => Iff.rfl
  rw [dumpsDict_eq, ← hmap]

theorem dumps_dict_toList (items : List (String × Json)) : ((Json.dict items).dumps float).toList =
    '\x7b' :: (separated (entryChars float) (inOrder items) ++ ['\x7d']) := by
  have hopen : "\x7b".toList = ['\x7b'] := by simp
  have hclose : "\x7d".toList = ['\x7d'] := by simp
  have hcomma : ",".toList = [','] := by simp
  have hcolon : ":".toList = [':'] := by simp
  have htexts : List.map String.toList (((inOrder items).map fun x => (x.1, x.2.dumps float)).map
      fun x => quoted x.1 ++ ":" ++ x.2) = (inOrder items).map (entryChars float) := by
    rw [List.map_map, List.map_map]
    refine List.map_congr_left fun x _ => ?_
    simp only [Function.comp_apply, String.toList_append, hcolon, entryChars, List.append_assoc, List.cons_append,
      List.nil_append]
  rw [dumps, members, dumpsDict_inOrder, String.toList_append, String.toList_append, hopen, hclose,
    String.toList_intercalate, hcomma, htexts, intercalate_map]
  rfl

/-- The order of keys does not matter. -/
theorem dumps_sorted (v : Json) : v.sorted.dumps float = v.dumps float := by
  induction v using induct with
  | list items ih =>
      have hitems : (items.map sorted).map (dumps float) = items.map (dumps float) := by
        rw [List.map_map]
        exact List.map_congr_left ih
      rw [sorted, dumps, dumps, sortedList_eq, dumpsList_eq, dumpsList_eq, hitems]
  | dict items ih =>
      have hvalues : ((inOrder items).map fun x => (x.1, x.2.sorted)).map (fun x => (x.1, x.2.dumps float)) =
          (inOrder items).map fun x => (x.1, x.2.dumps float) := by
        rw [List.map_map]
        refine List.map_congr_left fun x hx => ?_
        exact Prod.ext rfl (ih x ((List.mem_insertionSort _).1 hx))
      have hordered : inOrder ((inOrder items).map fun x => (x.1, x.2.sorted)) =
          (inOrder items).map fun x => (x.1, x.2.sorted) :=
        List.Pairwise.insertionSort_eq (List.pairwise_map.2 (pairwise_inOrder items))
      rw [sorted_dict, dumps, dumps, members, members, dumpsDict_inOrder, dumpsDict_inOrder, hordered, hvalues]
  | _ => rfl

/-- What a text begins with tells what is in it. -/
def kindOf (c : Char) : Nat :=
  if c = 'n' then 0 else if c = 't' then 1 else if c = 'f' then 2 else if c = '"' then 3 else if c = '[' then 4
  else if c = '\x7b' then 5 else if isNumberChar c then 6 else 7

def kind : Json → Nat
  | .null => 0
  | .bool b => if b then 1 else 2
  | .int _ => 6
  | .real _ => 6
  | .text _ => 3
  | .list _ => 4
  | .dict _ => 5

theorem kindOf_number {c : Char} (h : isNumberChar c = true) : kindOf c = 6 := by
  have hne : ∀ d, isNumberChar d = false → c ≠ d := by
    rintro d hd rfl
    rw [hd] at h
    exact absurd h (by simp)
  rw [kindOf, if_neg (hne _ (by decide)), if_neg (hne _ (by decide)), if_neg (hne _ (by decide)),
    if_neg (hne _ (by decide)), if_neg (hne _ (by decide)), if_neg (hne _ (by decide)), if_pos h]

theorem number_chars (hf : FloatTexts float) {v : Json} (hv : v.kind = 6) :
    ∀ c ∈ (v.dumps float).toList, isNumberChar c = true := by
  intro c hc
  cases v with
  | int n =>
      rcases isDigit_or_minus_of_mem_toString (n := n) hc with hdigit | rfl
      · simp [isNumberChar, hdigit]
      · decide
  | real x => exact hf.chars x c hc
  | bool b => cases b <;> exact absurd hv (by decide)
  | _ => exact absurd hv (by simp [kind])

theorem dumps_first (hf : FloatTexts float) (v : Json) : ∃ c s, (v.dumps float).toList = c :: s ∧ kindOf c = v.kind := by
  have hnumber : ∀ v : Json, v.kind = 6 → (v.dumps float).toList ≠ [] →
      ∃ c s, (v.dumps float).toList = c :: s ∧ kindOf c = v.kind := by
    intro v hv hne
    obtain ⟨c, s, hcs⟩ := List.exists_cons_of_ne_nil hne
    refine ⟨c, s, hcs, ?_⟩
    rw [hv, kindOf_number (number_chars hf hv c (by rw [hcs]; exact List.mem_cons_self))]
  cases v with
  | null =>
      have htext : "null".toList = ['n', 'u', 'l', 'l'] := by simp
      exact ⟨_, _, htext, rfl⟩
  | bool b =>
      cases b with
      | false =>
          have htext : "false".toList = ['f', 'a', 'l', 's', 'e'] := by simp
          exact ⟨_, _, htext, rfl⟩
      | true =>
          have htext : "true".toList = ['t', 'r', 'u', 'e'] := by simp
          exact ⟨_, _, htext, rfl⟩
  | int n =>
      refine hnumber _ rfl ?_
      cases n with
      | ofNat m =>
          show (Nat.repr m).toList ≠ []
          rw [Nat.repr, String.toList_ofList]
          exact Nat.toDigits_ne_nil
      | negSucc m =>
          show ("-" ++ Nat.repr (m + 1)).toList ≠ []
          rw [String.toList_append]
          simp
  | real x =>
      refine hnumber _ rfl ?_
      obtain ⟨c, hc, -⟩ := hf.point x
      exact List.ne_nil_of_mem hc
  | text s => exact ⟨'"', _, quoted_toList s, rfl⟩
  | list items => exact ⟨'[', _, dumps_list_toList items, rfl⟩
  | dict items => exact ⟨'\x7b', _, dumps_dict_toList items, rfl⟩

theorem kind_le (v : Json) : v.kind ≤ 6 := by
  cases v with
  | bool b => cases b <;> decide
  | _ => simp [kind]

theorem eq_of_constant {v w : Json} (hv : v.kind < 3) (h : v.kind = w.kind) : v = w := by
  have hnull : ∀ u : Json, u.kind = 0 → u = .null := by
    intro u hu
    cases u with
    | null => rfl
    | bool b => cases b <;> exact absurd hu (by decide)
    | _ => exact absurd hu (by simp [kind])
  have htrue : ∀ u : Json, u.kind = 1 → u = .bool true := by
    intro u hu
    cases u with
    | bool b =>
        cases b with
        | true => rfl
        | false => exact absurd hu (by decide)
    | _ => exact absurd hu (by simp [kind])
  have hfalse : ∀ u : Json, u.kind = 2 → u = .bool false := by
    intro u hu
    cases u with
    | bool b =>
        cases b with
        | true => exact absurd hu (by decide)
        | false => rfl
    | _ => exact absurd hu (by simp [kind])
  have hcases : v.kind = 0 ∨ v.kind = 1 ∨ v.kind = 2 := by omega
  rcases hcases with h0 | h1 | h2
  · rw [hnull v h0, hnull w (h.symm.trans h0)]
  · rw [htrue v h1, htrue w (h.symm.trans h1)]
  · rw [hfalse v h2, hfalse w (h.symm.trans h2)]

theorem number_inj (hf : FloatTexts float) {v w : Json} (hv : v.kind = 6) (hw : w.kind = 6)
    (h : v.dumps float = w.dumps float) : v = w := by
  -- the text of an integer has neither a point nor an exponent
  have hpoint : ∀ (n : Int) x, toString n ≠ float x := by
    intro n x heq
    obtain ⟨c, hc, hpoint⟩ := hf.point x
    rw [← heq] at hc
    rcases isDigit_or_minus_of_mem_toString (n := n) hc with hdigit | rfl
    · rcases hpoint with rfl | rfl
      · exact absurd hdigit (by decide)
      · exact absurd hdigit (by decide)
    · exact absurd hpoint (by decide)
  have hnumber : ∀ u : Json, u.kind = 6 → (∃ n, u = .int n) ∨ ∃ x, u = .real x := by
    intro u hu
    cases u with
    | int n => exact Or.inl ⟨n, rfl⟩
    | real x => exact Or.inr ⟨x, rfl⟩
    | bool b => cases b <;> exact absurd hu (by decide)
    | _ => exact absurd hu (by simp [kind])
  rcases hnumber v hv with ⟨n, rfl⟩ | ⟨x, rfl⟩
  · rcases hnumber w hw with ⟨m, rfl⟩ | ⟨y, rfl⟩
    · exact congrArg Json.int (toString_int_injective h)
    · exact absurd h (hpoint n y)
  · rcases hnumber w hw with ⟨m, rfl⟩ | ⟨y, rfl⟩
    · exact absurd h.symm (hpoint m x)
    · exact congrArg Json.real (hf.injective h)

theorem not_number_of_delimited {r : List Char} (h : Delimited r) : ∀ c ∈ r.head?, ¬isNumberChar c = true := by
  intro c hc
  rcases h c hc with rfl | rfl | rfl <;> decide

theorem map_eq_of_forall₂ {α β : Type} {f : α → β} {l l' : List α} (h : List.Forall₂ (fun a b => f a = f b) l l') :
    l.map f = l'.map f := by
  induction h with
  | nil => rfl
  | cons hab _ ih => rw [List.map_cons, List.map_cons, hab, ih]

/-- **Canonical JSON is read in one way.** -/
theorem readsAs_dumps (hf : FloatTexts float) (v : Json) :
    ReadsAs (fun v : Json => (v.dumps float).toList) (fun v w => v.sorted = w.sorted) v := by
  have hkind : ∀ {v w : Json} {r r' : List Char}, (v.dumps float).toList ++ r = (w.dumps float).toList ++ r' →
      v.kind = w.kind := by
    intro v w r r' h
    obtain ⟨c, s, hv, hc⟩ := dumps_first hf v
    obtain ⟨d, t, hw, hd⟩ := dumps_first hf w
    rw [hv, hw] at h
    rw [← hc, ← hd, (List.cons.inj h).1]
  have hconstant : ∀ v : Json, v.kind < 3 →
      ReadsAs (fun v : Json => (v.dumps float).toList) (fun v w => v.sorted = w.sorted) v := by
    intro v hv w r r' _ _ h
    obtain rfl := eq_of_constant hv (hkind h)
    exact ⟨rfl, List.append_cancel_left h⟩
  have hnumber : ∀ v : Json, v.kind = 6 →
      ReadsAs (fun v : Json => (v.dumps float).toList) (fun v w => v.sorted = w.sorted) v := by
    intro v hv w r r' hr hr' h
    have hw : w.kind = 6 := (hkind h).symm.trans hv
    obtain ⟨htext, hrest⟩ := append_inj_of_all (number_chars hf hv) (number_chars hf hw) (not_number_of_delimited hr)
      (not_number_of_delimited hr') h
    obtain rfl := number_inj hf hv hw (String.toList_inj.1 htext)
    exact ⟨rfl, hrest⟩
  induction v using induct with
  | null => exact hconstant _ (by decide)
  | bool b => exact hconstant _ (by cases b <;> decide)
  | int n => exact hnumber _ rfl
  | real x => exact hnumber _ rfl
  | text s =>
      intro w r r' _ _ h
      cases w with
      | text t =>
          obtain ⟨rfl, hrest⟩ := quoted_inj h
          exact ⟨rfl, hrest⟩
      | bool b => cases b <;> exact absurd (hkind h) (by simp [kind])
      | _ => exact absurd (hkind h) (by simp [kind])
  | list items ih =>
      intro w r r' _ _ h
      cases w with
      | list items' =>
          simp only [dumps_list_toList, List.cons_append, List.append_assoc, List.cons.injEq, true_and,
            List.nil_append] at h
          have hfirst : ∀ v : Json, ∃ c s, (v.dumps float).toList = c :: s ∧ c ≠ ']' := by
            intro v
            obtain ⟨c, s, hv, hc⟩ := dumps_first hf v
            refine ⟨c, s, hv, ?_⟩
            rintro rfl
            have hle := kind_le v
            rw [← hc] at hle
            exact absurd hle (by decide)
          obtain ⟨hall, hrest⟩ := separated_inj (Or.inl rfl) ih hfirst h
          refine ⟨?_, hrest⟩
          show (Json.list items).sorted = (Json.list items').sorted
          rw [sorted, sorted, sortedList_eq, sortedList_eq, map_eq_of_forall₂ hall]
      | bool b => cases b <;> exact absurd (hkind h) (by simp [kind])
      | _ => exact absurd (hkind h) (by simp [kind])
  | dict items ih =>
      intro w r r' _ _ h
      cases w with
      | dict items' =>
          simp only [dumps_dict_toList, List.cons_append, List.append_assoc, List.cons.injEq, true_and,
            List.nil_append] at h
          have hfirst : ∀ x : String × Json, ∃ c s, entryChars float x = c :: s ∧ c ≠ '\x7d' := by
            intro x
            refine ⟨'"', escapes x.1.toList ++ ['"'] ++ ':' :: (x.2.dumps float).toList, ?_, by decide⟩
            rw [entryChars, quoted_toList, List.cons_append]
          have hreads : ∀ x ∈ inOrder items, ReadsAs (entryChars float)
              (fun x y => (x.1, x.2.sorted) = (y.1, y.2.sorted)) x := by
            intro x hx y s s' hs hs' htext
            rw [entryChars, entryChars, List.append_assoc, List.append_assoc] at htext
            obtain ⟨hkey, hafter⟩ := quoted_inj htext
            obtain ⟨hvalue, hrest⟩ := ih x ((List.mem_insertionSort _).1 hx) y.2 s s' hs hs' (List.cons.inj hafter).2
            exact ⟨Prod.ext hkey hvalue, hrest⟩
          obtain ⟨hall, hrest⟩ := separated_inj (Or.inr rfl) hreads hfirst h
          refine ⟨?_, hrest⟩
          show (Json.dict items).sorted = (Json.dict items').sorted
          rw [sorted_dict, sorted_dict, map_eq_of_forall₂ hall]
      | bool b => cases b <;> exact absurd (hkind h) (by simp [kind])
      | _ => exact absurd (hkind h) (by simp [kind])

/-- Two values with one canonical text are the same, but for the order of keys. -/
theorem sorted_eq_of_dumps (hf : FloatTexts float) {v w : Json} (h : v.dumps float = w.dumps float) :
    v.sorted = w.sorted := by
  have hnone : Delimited [] := fun c hc => nomatch hc
  exact (readsAs_dumps hf v w [] [] hnone hnone (congrArg (fun s => String.toList s ++ []) h)).1

end Dumps

end Rubrica.Json
