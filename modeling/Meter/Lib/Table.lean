/-
**Finite maps with a row order.**

`Table K V` is a list of rows with pairwise distinct keys: a hash map seen together with one of
its iteration orders, or a database table seen together with its primary key. Distinctness is a
field, so no operation can build a table in which a lookup is ambiguous.

* `get?`, `mapValues`, `modify`, `set` — lookup, and the three ways a row changes. Each has one
  lookup lemma (`get?_mapValues`, `get?_modify`, `get?_set`), and nothing later unfolds them.
* `sum` — a fold over the rows into a commutative monoid. `sum_eq_finset` reads it as a sum of
  lookups over any finite set that covers the keys, so two sums compare key by key
  (`sum_congr_get`, `sum_le_sum_get`, `sum_sub_sum_get`) without ever naming the rows.
-/

import Mathlib.Algebra.BigOperators.Group.List.Basic
import Mathlib.Algebra.BigOperators.Group.Finset.Basic
import Mathlib.Algebra.Order.BigOperators.Group.Finset
import Mathlib.Data.List.Nodup

namespace Meter.Lib

/-- Rows with pairwise distinct keys. -/
structure Table (K V : Type) where
  rows : List (K × V)
  nodup : (rows.map Prod.fst).Nodup
  deriving DecidableEq

namespace Table

variable {K V : Type} [DecidableEq K]

/-- The table with no rows. -/
def empty : Table K V := ⟨[], List.nodup_nil⟩

/-- The value stored under a key. -/
def get? (table : Table K V) (key : K) : Option V :=
  (table.rows.find? fun row => row.1 = key).map Prod.snd

/-- Whether a key has a row. -/
def contains (table : Table K V) (key : K) : Bool := (table.get? key).isSome

/-- The stored values, in row order. -/
def values (table : Table K V) : List V := table.rows.map Prod.snd

/-- Rewrite every value in place. -/
def mapValues (change : K → V → V) (table : Table K V) : Table K V where
  rows := table.rows.map fun row => (row.1, change row.1 row.2)
  nodup := by
    rw [List.map_map]
    exact table.nodup

/-- Rewrite the value under one key in place, if there is one. -/
def modify (table : Table K V) (key : K) (change : V → V) : Table K V :=
  table.mapValues fun other value => if other = key then change value else value

theorem find?_key_eq_none {rows : List (K × V)} {key : K} :
    rows.find? (fun row => row.1 = key) = none ↔ key ∉ rows.map Prod.fst := by
  simp only [List.find?_eq_none, decide_eq_true_eq, List.mem_map, not_exists, not_and]

theorem get?_eq_none_iff {table : Table K V} {key : K} :
    table.get? key = none ↔ key ∉ table.rows.map Prod.fst := by
  rw [get?, Option.map_eq_none_iff, find?_key_eq_none]

theorem contains_iff {table : Table K V} {key : K} :
    table.contains key = true ↔ ∃ value, table.get? key = some value := by
  rw [contains, Option.isSome_iff_exists]

theorem contains_eq_false_iff {table : Table K V} {key : K} :
    table.contains key = false ↔ table.get? key = none := by
  rw [contains, Option.isSome_eq_false_iff, Option.isNone_iff_eq_none]

/-- Store a value under a key, over the old one if there is one. -/
def set (table : Table K V) (key : K) (value : V) : Table K V :=
  match absent : table.get? key with
  | some _ => table.modify key fun _ => value
  | none => {
      rows := table.rows ++ [(key, value)]
      nodup := by
        rw [List.map_append, List.nodup_append]
        refine ⟨table.nodup, List.nodup_singleton _, ?_⟩
        rintro first member second single rfl
        rw [List.map_singleton, List.mem_singleton] at single
        subst single
        exact get?_eq_none_iff.mp absent member }

/-! ### Lookups -/

theorem get?_empty (key : K) : (empty : Table K V).get? key = none := rfl

/-- **A row of the table is a lookup of the table.** -/
theorem mem_rows_iff {table : Table K V} {key : K} {value : V} :
    (key, value) ∈ table.rows ↔ table.get? key = some value := by
  obtain ⟨rows, nodup⟩ := table
  simp only [get?]
  induction rows with
  | nil => simp
  | cons row rows ih =>
    rw [List.map_cons, List.nodup_cons] at nodup
    rw [List.find?_cons]
    by_cases same : row.1 = key
    · subst same
      simp only [decide_true, Option.map_some, Option.some.injEq, List.mem_cons]
      constructor
      · rintro (equal | member)
        · rw [← equal]
        · exact absurd (List.mem_map_of_mem member) nodup.1
      · rintro rfl
        exact Or.inl rfl
    · simp only [same, decide_false, List.mem_cons, ← ih nodup.2]
      constructor
      · rintro (rfl | member)
        · exact absurd rfl same
        · exact member
      · exact Or.inr

theorem mem_values_iff {table : Table K V} {value : V} :
    value ∈ table.values ↔ ∃ key, table.get? key = some value := by
  simp only [values, List.mem_map, Prod.exists, exists_eq_right, mem_rows_iff]

theorem mem_keys_iff {table : Table K V} {key : K} :
    key ∈ table.rows.map Prod.fst ↔ ∃ value, table.get? key = some value := by
  simp only [List.mem_map, Prod.exists, exists_and_right, exists_eq_right, mem_rows_iff]

@[simp] theorem get?_mapValues (change : K → V → V) (table : Table K V) (key : K) :
    (table.mapValues change).get? key = (table.get? key).map (change key) := by
  obtain ⟨rows, nodup⟩ := table
  simp only [mapValues, get?, List.find?_map]
  have keys : ((fun row : K × V => decide (row.1 = key)) ∘
      fun row : K × V => (row.1, change row.1 row.2)) = fun row => decide (row.1 = key) := rfl
  rw [keys]
  cases found : rows.find? fun row => decide (row.1 = key) with
  | none => rfl
  | some row =>
    have same : row.1 = key := by simpa using List.find?_some found
    simp [same]

@[simp] theorem get?_modify (table : Table K V) (key : K) (change : V → V) (other : K) :
    (table.modify key change).get? other =
      if other = key then (table.get? key).map change else table.get? other := by
  rw [modify, get?_mapValues]
  by_cases same : other = key
  · subst same
    simp
  · simp [same]

@[simp] theorem get?_set (table : Table K V) (key : K) (value : V) (other : K) :
    (table.set key value).get? other = if other = key then some value else table.get? other := by
  unfold set
  split
  · rename_i found
    rw [get?_modify, found]
    rfl
  · rename_i absent
    simp only [get?, List.find?_append]
    by_cases same : other = key
    · subst same
      rw [if_pos rfl, find?_key_eq_none.mpr (get?_eq_none_iff.mp absent)]
      simp
    · rw [if_neg same]
      have miss : [(key, value)].find? (fun row => decide (row.1 = other)) = none := by
        simp [Ne.symm same]
      rw [miss, Option.or_none]

theorem contains_mapValues (change : K → V → V) (table : Table K V) (key : K) :
    (table.mapValues change).contains key = table.contains key := by
  rw [contains, contains, get?_mapValues, Option.isSome_map]

/-- Two tables with the same row order are equal when each row keeps its value. -/
theorem mapValues_eq_self {change : K → V → V} {table : Table K V}
    (same : ∀ key value, table.get? key = some value → change key value = value) :
    table.mapValues change = table := by
  obtain ⟨rows, nodup⟩ := table
  simp only [mapValues, mk.injEq]
  refine (List.map_congr_left fun row member => ?_).trans (List.map_id _)
  rw [same row.1 row.2 (mem_rows_iff.mp member)]
  rfl

omit [DecidableEq K] in
theorem mapValues_mapValues (first second : K → V → V) (table : Table K V) :
    (table.mapValues first).mapValues second =
      table.mapValues fun key value => second key (first key value) := by
  simp only [mapValues, List.map_map, Function.comp_def]

theorem mapValues_congr {first second : K → V → V} {table : Table K V}
    (same : ∀ key value, table.get? key = some value → first key value = second key value) :
    table.mapValues first = table.mapValues second := by
  simp only [mapValues, mk.injEq]
  refine List.map_congr_left fun row member => ?_
  rw [same row.1 row.2 (mem_rows_iff.mp member)]

/-! ### Sums over the rows -/

section Sum

variable {M : Type} [AddCommMonoid M]

/-- A sum over the values kept by a filter. -/
theorem sum_filter_map {α : Type} (values : List α) (keep : α → Bool) (measure : α → M) :
    ((values.filter keep).map measure).sum =
      (values.map fun value => if keep value = true then measure value else 0).sum := by
  induction values with
  | nil => rfl
  | cons value values ih =>
    by_cases kept : keep value = true
    · rw [List.filter_cons_of_pos kept]
      simp only [List.map_cons, List.sum_cons, ih, if_pos kept]
    · rw [List.filter_cons_of_neg kept]
      simp only [List.map_cons, List.sum_cons, ih, if_neg kept, zero_add]

/-- The sum of a measure of every row. -/
def sum (table : Table K V) (measure : K → V → M) : M :=
  (table.rows.map fun row => measure row.1 row.2).sum

omit [DecidableEq K] in
theorem sum_eq_sum_values (table : Table K V) (measure : V → M) :
    table.sum (fun _ value => measure value) = (table.values.map measure).sum := by
  rw [sum, values, List.map_map]
  rfl

omit [DecidableEq K] in
theorem sum_filter_values (table : Table K V) (keep : V → Bool) (measure : V → M) :
    ((table.values.filter keep).map measure).sum =
      table.sum fun _ value => if keep value = true then measure value else 0 := by
  rw [sum_eq_sum_values, sum_filter_map]

/-- A measure of the row under a key, zero when there is none. -/
def measureAt (table : Table K V) (measure : K → V → M) (key : K) : M :=
  (table.get? key).elim 0 (measure key)

theorem measureAt_of_some {table : Table K V} {key : K} {value : V}
    (found : table.get? key = some value) (measure : K → V → M) :
    table.measureAt measure key = measure key value := by
  rw [measureAt, found]
  rfl

theorem measureAt_of_none {table : Table K V} {key : K} (absent : table.get? key = none)
    (measure : K → V → M) : table.measureAt measure key = 0 := by
  rw [measureAt, absent]
  rfl

/-- **A sum over the rows is a sum of lookups**, over any finite set that covers the keys. -/
theorem sum_eq_finset (table : Table K V) (measure : K → V → M) {keys : Finset K}
    (cover : (table.rows.map Prod.fst).toFinset ⊆ keys) :
    table.sum measure = ∑ key ∈ keys, table.measureAt measure key := by
  have rowwise : table.sum measure =
      ((table.rows.map Prod.fst).map (table.measureAt measure)).sum := by
    rw [sum, List.map_map]
    refine congrArg List.sum (List.map_congr_left fun row member => ?_)
    rw [Function.comp_apply, measureAt_of_some (mem_rows_iff.mp member)]
  rw [rowwise, ← List.sum_toFinset _ table.nodup]
  refine Finset.sum_subset cover fun key _ outside => measureAt_of_none ?_ measure
  exact get?_eq_none_iff.mpr fun member => outside (List.mem_toFinset.mpr member)

/-- The keys of two tables together. -/
def bothKeys {W : Type} (table : Table K V) (other : Table K W) : Finset K :=
  (table.rows.map Prod.fst).toFinset ∪ (other.rows.map Prod.fst).toFinset

theorem left_subset_bothKeys {W : Type} (table : Table K V) (other : Table K W) :
    (table.rows.map Prod.fst).toFinset ⊆ bothKeys table other := Finset.subset_union_left

theorem right_subset_bothKeys {W : Type} (table : Table K V) (other : Table K W) :
    (other.rows.map Prod.fst).toFinset ⊆ bothKeys table other := Finset.subset_union_right

/-- **Two sums agree when they agree at every key.** -/
theorem sum_congr_get {W : Type} {table : Table K V} {other : Table K W} {measure : K → V → M}
    {measure' : K → W → M}
    (same : ∀ key, table.measureAt measure key = other.measureAt measure' key) :
    table.sum measure = other.sum measure' := by
  rw [sum_eq_finset table measure (left_subset_bothKeys table other),
    sum_eq_finset other measure' (right_subset_bothKeys table other)]
  exact Finset.sum_congr rfl fun key _ => same key

omit [DecidableEq K] in
@[simp] theorem sum_mapValues (change : K → V → V) (table : Table K V) (measure : K → V → M) :
    (table.mapValues change).sum measure =
      table.sum fun key value => measure key (change key value) := by
  rw [sum, sum, mapValues, List.map_map]
  rfl

omit [DecidableEq K] in
theorem sum_add (table : Table K V) (first second : K → V → M) :
    (table.sum fun key value => first key value + second key value) =
      table.sum first + table.sum second := by
  simp only [sum, List.sum_map_add]

/-- A measure concentrated on one stored key. -/
theorem sum_single {table : Table K V} {key : K} (present : table.contains key = true) (amount : M) :
    (table.sum fun other _ => if other = key then amount else 0) = amount := by
  obtain ⟨value, found⟩ := contains_iff.mp present
  rw [sum_eq_finset table _ (Finset.Subset.refl _), Finset.sum_eq_single key]
  · rw [measureAt_of_some found, if_pos rfl]
  · intro other _ different
    rw [measureAt]
    cases table.get? other with
    | none => rfl
    | some _ => exact if_neg different
  · intro outside
    exact absurd (List.mem_toFinset.mpr (mem_keys_iff.mpr ⟨value, found⟩)) outside

end Sum

/-- **Two sums compare when they compare at every key.** -/
theorem sum_le_sum_get {W M : Type} [AddCommMonoid M] [PartialOrder M] [IsOrderedAddMonoid M]
    {table : Table K V} {other : Table K W} {measure : K → V → M} {measure' : K → W → M}
    (below : ∀ key, table.measureAt measure key ≤ other.measureAt measure' key) :
    table.sum measure ≤ other.sum measure' := by
  rw [sum_eq_finset table measure (left_subset_bothKeys table other),
    sum_eq_finset other measure' (right_subset_bothKeys table other)]
  exact Finset.sum_le_sum fun key _ => below key

/-- **Two sums that agree off one key differ by what they hold there.** -/
theorem sum_sub_sum_get {W M : Type} [AddCommGroup M] {table : Table K V} {other : Table K W}
    {measure : K → V → M} {measure' : K → W → M} (key : K)
    (frame : ∀ other' ≠ key, table.measureAt measure other' = other.measureAt measure' other') :
    table.sum measure - other.sum measure' =
      table.measureAt measure key - other.measureAt measure' key := by
  have cover : bothKeys table other ⊆ insert key (bothKeys table other) :=
    Finset.subset_insert _ _
  rw [sum_eq_finset table measure ((left_subset_bothKeys table other).trans cover),
    sum_eq_finset other measure' ((right_subset_bothKeys table other).trans cover),
    ← Finset.sum_sub_distrib, Finset.sum_eq_single key]
  · intro other' _ different
    rw [frame other' different, sub_self]
  · intro outside
    exact absurd (Finset.mem_insert_self _ _) outside

end Table

end Meter.Lib
