import Mathlib.Data.List.Nodup
import Mathlib.Data.List.Perm.Basic

set_option autoImplicit false

/-! # Keyed tables

A database table as the list of its rows in insertion order, each under its primary key. The key is
unique by construction (`Table.distinct`), so a lookup and a membership say the same
(`Table.mem_rows_iff`), and every query over a table reduces to `Table.get?`. -/

namespace Transactions

variable {κ ρ : Type}

structure Table (κ ρ : Type) where
  rows : List (κ × ρ)
  distinct : (rows.map Prod.fst).Nodup

namespace Table

def empty : Table κ ρ :=
  ⟨[], List.nodup_nil⟩

instance : EmptyCollection (Table κ ρ) := ⟨empty⟩

/-- The rows that satisfy a condition. -/
def select (t : Table κ ρ) (p : κ → ρ → Bool) : List (κ × ρ) :=
  t.rows.filter fun x => p x.1 x.2

/-- Is there a row that satisfies a condition? -/
def any (t : Table κ ρ) (p : κ → ρ → Bool) : Bool :=
  t.rows.any fun x => p x.1 x.2

/-- Change the rows at which `f` differs from the identity; keys stay. -/
def map (t : Table κ ρ) (f : κ → ρ → ρ) : Table κ ρ where
  rows := t.rows.map fun x => (x.1, f x.1 x.2)
  distinct := by
    rw [List.map_map]
    exact t.distinct

variable [DecidableEq κ]

/-- The row under a key. -/
def get? (t : Table κ ρ) (k : κ) : Option ρ :=
  (t.rows.find? fun x => x.1 = k).map Prod.snd

/-- Change the row under a key, if there is one. -/
def update (t : Table κ ρ) (k : κ) (f : ρ → ρ) : Table κ ρ :=
  t.map fun k' r => if k' = k then f r else r

/-- Add a row under a new key; a taken key is left as it is. -/
def insert (t : Table κ ρ) (k : κ) (r : ρ) : Table κ ρ :=
  if h : k ∈ t.rows.map Prod.fst then t
  else
    { rows := t.rows ++ [(k, r)],
      distinct := by
        rw [List.map_append]
        exact List.nodup_append.2 ⟨t.distinct, List.nodup_singleton k,
          fun a ha b hb => by
            obtain rfl := List.mem_singleton.1 hb
            exact fun hab => h (hab ▸ ha)⟩ }

/-- Put a row under a key, in the place of the one that is there. -/
def set (t : Table κ ρ) (k : κ) (r : ρ) : Table κ ρ :=
  match t.get? k with
  | some _ => t.update k fun _ => r
  | none => t.insert k r

/-- Remove the row under a key. -/
def erase (t : Table κ ρ) (k : κ) : Table κ ρ where
  rows := t.rows.filter fun x => x.1 ≠ k
  distinct := t.distinct.sublist (List.filter_sublist.map Prod.fst)

/-! ## Rows and lookups -/

theorem mem_rows_iff {t : Table κ ρ} {k : κ} {r : ρ} : (k, r) ∈ t.rows ↔ t.get? k = some r := by
  obtain ⟨rows, hd⟩ := t
  simp only [get?]
  induction rows with
  | nil => simp
  | cons x xs ih =>
      obtain ⟨k', r'⟩ := x
      simp only [List.map_cons, List.nodup_cons] at hd
      by_cases hk : k' = k
      · subst hk
        have hfresh : (k', r) ∉ xs := fun h => hd.1 (List.mem_map.2 ⟨_, h, rfl⟩)
        simp [hfresh, eq_comm]
      · rw [List.mem_cons, ih hd.2]
        simp [hk, Ne.symm hk]

theorem mem_keys_iff {t : Table κ ρ} {k : κ} :
    k ∈ t.rows.map Prod.fst ↔ ∃ r, t.get? k = some r := by
  simp only [← mem_rows_iff, List.mem_map, Prod.exists, exists_and_right, exists_eq_right]

theorem get?_eq_none_iff {t : Table κ ρ} {k : κ} :
    t.get? k = none ↔ k ∉ t.rows.map Prod.fst := by
  rw [mem_keys_iff, Option.eq_none_iff_forall_ne_some, not_exists]

@[simp] theorem get?_empty (k : κ) : (∅ : Table κ ρ).get? k = none := rfl

@[simp] theorem get?_map (t : Table κ ρ) (f : κ → ρ → ρ) (k : κ) :
    (t.map f).get? k = (t.get? k).map (f k) := by
  obtain ⟨rows, hd⟩ := t
  simp only [get?, map]
  clear hd
  induction rows with
  | nil => rfl
  | cons x xs ih =>
      by_cases hk : x.1 = k
      · simp [hk]
      · simpa [hk] using ih

theorem get?_update (t : Table κ ρ) (k k' : κ) (f : ρ → ρ) :
    (t.update k f).get? k' = if k' = k then (t.get? k').map f else t.get? k' := by
  rw [update, get?_map]
  split
  · rfl
  · cases t.get? k' <;> rfl

@[simp] theorem get?_update_self (t : Table κ ρ) (k : κ) (f : ρ → ρ) :
    (t.update k f).get? k = (t.get? k).map f := by
  rw [get?_update, if_pos rfl]

@[simp] theorem get?_update_of_ne (t : Table κ ρ) {k k' : κ} (h : k' ≠ k) (f : ρ → ρ) :
    (t.update k f).get? k' = t.get? k' := by
  rw [get?_update, if_neg h]

/-- A row that is updated, seen from before. -/
theorem get?_update_later {γ : Type} {t : Table κ ρ} {k k' : κ} {f : ρ → ρ} {r : ρ} {g : ρ → γ}
    (hf : ∀ r, g (f r) = g r) (h : t.get? k = some r) :
    ∃ r', (t.update k' f).get? k = some r' ∧ g r' = g r := by
  rw [get?_update, h]
  split
  · exact ⟨f r, rfl, hf r⟩
  · exact ⟨r, rfl, rfl⟩

/-- A row that was updated, seen from after. -/
theorem get?_update_earlier {γ : Type} {t : Table κ ρ} {k k' : κ} {f : ρ → ρ} {r : ρ} {g : ρ → γ}
    (hf : ∀ r, g (f r) = g r) (h : (t.update k' f).get? k = some r) :
    ∃ r', t.get? k = some r' ∧ g r = g r' := by
  rw [get?_update] at h
  split at h
  · obtain ⟨r', hr', rfl⟩ := Option.map_eq_some_iff.1 h
    exact ⟨r', hr', hf r'⟩
  · exact ⟨r, h, rfl⟩

/-- A change that leaves the row as it is leaves the table as it is. -/
theorem update_eq_self {t : Table κ ρ} {k : κ} {f : ρ → ρ} (h : ∀ r, t.get? k = some r → f r = r) :
    t.update k f = t := by
  obtain ⟨rows, hd⟩ := t
  have hrows : (rows.map fun x => (x.1, if x.1 = k then f x.2 else x.2)) = rows := by
    refine (List.map_congr_left fun x hx => ?_).trans (List.map_id _)
    split
    · next hk => exact Prod.ext rfl (h x.2 (mem_rows_iff.1 (hk ▸ hx)))
    · rfl
  unfold update map
  congr

/-- A row that an update leaves as it is. -/
theorem eq_of_update {t : Table κ ρ} {k : κ} {f : ρ → ρ} {r : ρ} (h : t.update k f = t) (hr : t.get? k = some r) :
    f r = r := by
  have hget := get?_update_self t k f
  rw [h, hr] at hget
  exact (Option.some.inj hget).symm

/-- A view of the rows that does not see a change of one of them. -/
theorem map_update {t : Table κ ρ} {k : κ} {f : ρ → ρ} {g : κ → ρ → ρ}
    (h : ∀ r, t.get? k = some r → g k (f r) = g k r) : (t.update k f).map g = t.map g := by
  obtain ⟨rows, hd⟩ := t
  have hrows : ((rows.map fun x => (x.1, if x.1 = k then f x.2 else x.2)).map fun x => (x.1, g x.1 x.2)) =
      rows.map fun x => (x.1, g x.1 x.2) := by
    rw [List.map_map]
    refine List.map_congr_left fun x hx => Prod.ext rfl ?_
    show g x.1 (if x.1 = k then f x.2 else x.2) = g x.1 x.2
    split
    · next hk =>
        rw [hk]
        exact h x.2 (mem_rows_iff.1 (hk ▸ hx))
    · rfl
  unfold update map
  congr

/-- Inserting under a free key adds a row behind the others. -/
theorem get?_insert_of_free {t : Table κ ρ} {k : κ} (h : t.get? k = none) (k' : κ) (r : ρ) :
    (t.insert k r).get? k' = (t.get? k').or (if k = k' then some r else none) := by
  rw [insert, dif_neg (get?_eq_none_iff.1 h)]
  simp only [get?, List.find?_append]
  by_cases hk : k = k' <;> cases t.rows.find? (fun x => x.1 = k') <;> simp [hk]

theorem insert_of_taken {t : Table κ ρ} {k : κ} {r' : ρ} (h : t.get? k = some r') (r : ρ) :
    t.insert k r = t := by
  rw [insert, dif_pos (mem_keys_iff.2 ⟨r', h⟩)]

theorem get?_insert_self {t : Table κ ρ} {k : κ} (h : t.get? k = none) (r : ρ) :
    (t.insert k r).get? k = some r := by
  rw [get?_insert_of_free h, h, if_pos rfl, Option.none_or]

theorem get?_ne_none_of_insert {t : Table κ ρ} {k : κ} {r : ρ} (h : t.insert k r = t) : t.get? k ≠ none := by
  intro hnone
  have hself := get?_insert_self hnone r
  rw [h, hnone] at hself
  exact absurd hself (by simp)

theorem get?_insert_of_ne (t : Table κ ρ) {k k' : κ} (h : k' ≠ k) (r : ρ) :
    (t.insert k r).get? k' = t.get? k' := by
  cases hk : t.get? k with
  | none => rw [get?_insert_of_free hk, if_neg h.symm, Option.or_none]
  | some r' => rw [insert_of_taken hk]

theorem get?_insert_of_some {t : Table κ ρ} {k k' : κ} {r r' : ρ} (h : t.get? k' = some r') :
    (t.insert k r).get? k' = some r' := by
  cases hk : t.get? k with
  | none => rw [get?_insert_of_free hk, h, Option.some_or]
  | some r'' => rw [insert_of_taken hk, h]

/-- A row that is found after an insertion was there before, or is the new one. -/
theorem get?_insert_eq_some {t : Table κ ρ} {k k' : κ} {r r' : ρ}
    (h : (t.insert k r).get? k' = some r') : t.get? k' = some r' ∨ k' = k ∧ r' = r := by
  by_cases hk : k' = k
  · subst hk
    cases ht : t.get? k' with
    | none =>
        rw [get?_insert_self ht] at h
        exact Or.inr ⟨rfl, (Option.some.inj h).symm⟩
    | some r0 =>
        rw [get?_insert_of_some ht] at h
        exact Or.inl h
  · rw [get?_insert_of_ne t hk] at h
    exact Or.inl h

theorem get?_set (t : Table κ ρ) (k k' : κ) (r : ρ) :
    (t.set k r).get? k' = if k' = k then some r else t.get? k' := by
  unfold set
  cases hk : t.get? k with
  | none =>
      dsimp only
      split
      · next h => rw [h, get?_insert_self hk]
      · next h => exact get?_insert_of_ne t h r
  | some r' =>
      dsimp only
      rw [get?_update]
      split
      · next h => rw [h, hk, Option.map_some]
      · rfl

/-! ## Queries -/

theorem mem_select_iff {t : Table κ ρ} {p : κ → ρ → Bool} {k : κ} {r : ρ} :
    (k, r) ∈ t.select p ↔ t.get? k = some r ∧ p k r = true := by
  rw [select, List.mem_filter, mem_rows_iff]

omit [DecidableEq κ] in
theorem select_nodup (t : Table κ ρ) (p : κ → ρ → Bool) : ((t.select p).map Prod.fst).Nodup :=
  t.distinct.sublist (List.filter_sublist.map Prod.fst)

theorem any_iff {t : Table κ ρ} {p : κ → ρ → Bool} :
    t.any p = true ↔ ∃ k r, t.get? k = some r ∧ p k r = true := by
  simp only [any, List.any_eq_true, Prod.exists, mem_rows_iff]

theorem select_eq_nil_iff {t : Table κ ρ} {p : κ → ρ → Bool} :
    t.select p = [] ↔ ∀ k r, t.get? k = some r → p k r = false := by
  simp only [select, List.filter_eq_nil_iff, Prod.forall, mem_rows_iff, Bool.not_eq_true]

theorem select_congr {t : Table κ ρ} {p q : κ → ρ → Bool} (h : ∀ k r, t.get? k = some r → p k r = q k r) :
    t.select p = t.select q :=
  List.filter_congr fun x hx => h x.1 x.2 (mem_rows_iff.1 hx)

theorem select_insert_of_free {t : Table κ ρ} {k : κ} (h : t.get? k = none) (r : ρ) (p : κ → ρ → Bool) :
    (t.insert k r).select p = t.select p ++ [(k, r)].filter fun x => p x.1 x.2 := by
  rw [insert, dif_neg (get?_eq_none_iff.1 h)]
  exact List.filter_append ..

/-- A change of a row that is not selected, before or after, changes nothing of what is. -/
theorem select_update_of_not {t : Table κ ρ} {k : κ} {f : ρ → ρ} {p : κ → ρ → Bool}
    (h : ∀ r, t.get? k = some r → p k r = false ∧ p k (f r) = false) :
    (t.update k f).select p = t.select p := by
  show (t.rows.map fun x => (x.1, if x.1 = k then f x.2 else x.2)).filter _ = t.rows.filter _
  have hrow : ∀ x ∈ t.rows, (p x.1 (if x.1 = k then f x.2 else x.2) = p x.1 x.2) ∧
      (p x.1 x.2 = true → x.1 ≠ k) := by
    rintro ⟨k', r⟩ hx
    by_cases hk : k' = k
    · subst hk
      obtain ⟨hold, hnew⟩ := h r (mem_rows_iff.1 hx)
      simp [hold, hnew]
    · simp [hk]
  rw [List.filter_map]
  have hfilter : t.rows.filter ((fun x => p x.1 x.2) ∘ fun x => (x.1, if x.1 = k then f x.2 else x.2)) =
      t.rows.filter fun x => p x.1 x.2 :=
    List.filter_congr fun x hx => (hrow x hx).1
  rw [hfilter]
  refine (List.map_congr_left fun x hx => ?_).trans (List.map_id _)
  obtain ⟨hmem, hp⟩ := List.mem_filter.1 hx
  rw [if_neg ((hrow x hmem).2 hp)]
  rfl

/-- A change that the condition does not see. -/
theorem select_update (t : Table κ ρ) {k : κ} {f : ρ → ρ} {p : κ → ρ → Bool} (h : ∀ r, p k (f r) = p k r) :
    (t.update k f).select p = (t.select p).map fun x => (x.1, if x.1 = k then f x.2 else x.2) := by
  show (t.rows.map fun x => (x.1, if x.1 = k then f x.2 else x.2)).filter _ = (t.rows.filter _).map _
  rw [List.filter_map]
  refine congrArg _ (List.filter_congr fun x _ => ?_)
  rw [Function.comp_apply]
  dsimp only
  split
  · next hk => rw [hk, h]
  · rfl

omit [DecidableEq κ] in
/-- A query over changed rows, where part of its condition does not see the change. -/
theorem select_map (t : Table κ ρ) {f : κ → ρ → ρ} {p : κ → ρ → Bool} (q : κ → ρ → Bool)
    (h : ∀ k r, p k (f k r) = p k r) :
    ((t.map f).select fun k r => p k r && q k r) =
      ((t.select p).map fun x => (x.1, f x.1 x.2)).filter fun x => q x.1 x.2 := by
  show (t.rows.map fun x => (x.1, f x.1 x.2)).filter _ = ((t.rows.filter _).map _).filter _
  rw [List.filter_map, List.filter_map, List.filter_filter]
  refine congrArg _ (List.filter_congr fun x _ => ?_)
  simp only [Function.comp_apply, h, Bool.and_comm]

end Table

end Transactions
