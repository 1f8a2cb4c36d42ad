/-
**Versioned rows, and sums kept up beside them.**

Rows of one key replace each other: `final` keeps the one with the highest version. A sum over those
that are live can be kept up without reading the table again: a new live row adds its contribution
(`liveSum_add`), and a row that retires the live one of its key takes it back (`liveSum_retire`).

* `distinctOn` — the first row of each key, which is the least if the rows are in order.
* `sum_fibers` — a sum over a table is the sum over its parts.
* `groupSum` — the sum of one group of a table of contributions. `groupBy` is the table with one row
  a group, and has the same sums (`groupSum_groupBy`).
-/

import Mathlib.Algebra.BigOperators.Group.List.Basic
import Mathlib.Data.List.Dedup
import Mathlib.Data.List.Nodup
import Mathlib.Tactic.Abel

namespace Meter.Lib

/-! ### The latest version of each key -/

section Final

variable {R K : Type} [DecidableEq K] (key : R → K) (version : R → Nat)

/-- The row with the highest version of each key. -/
def final (rows : List R) : List R :=
  rows.filter fun row => decide (∀ other ∈ rows, key other = key row → version other ≤ version row)

variable {key version} {rows : List R} {row : R}

theorem mem_final : row ∈ final key version rows ↔ row ∈ rows ∧
    ∀ other ∈ rows, key other = key row → version other ≤ version row := by
  rw [final, List.mem_filter, decide_eq_true_eq]

/-- **The newest row replaces the one of its key.** -/
theorem final_concat (newest : ∀ other ∈ rows, version other < version row) :
    final key version (rows ++ [row]) =
      ((final key version rows).filter fun other => key other ≠ key row) ++ [row] := by
  rw [final, List.filter_append, final, List.filter_filter]
  congr 1
  · refine List.filter_congr fun old member => ?_
    have lower := newest old member
    rw [← Bool.decide_and, decide_eq_decide]
    constructor
    · intro highest
      refine ⟨fun same => ?_, fun other inside => highest other (List.mem_append_left _ inside)⟩
      exact Nat.not_le.mpr lower (highest row (by simp) same.symm)
    · rintro ⟨apart, highest⟩ other inside same
      rcases List.mem_append.mp inside with before | itself
      · exact highest other before same
      · rw [List.mem_singleton.mp itself] at same
        exact absurd same.symm apart
  · refine List.filter_eq_self.mpr fun other member => ?_
    rw [List.mem_singleton.mp member, decide_eq_true_eq]
    intro older inside _
    rcases List.mem_append.mp inside with before | itself
    · exact Nat.le_of_lt (newest older before)
    · rw [List.mem_singleton.mp itself]

/-- One row a key. -/
theorem final_keys_nodup (distinct : (rows.map version).Nodup) :
    ((final key version rows).map key).Nodup := by
  have rowsNodup : (final key version rows).Nodup := (List.Nodup.of_map version distinct).filter _
  refine rowsNodup.map_on fun first inFirst second inSecond same => ?_
  obtain ⟨stored, highest⟩ := mem_final.mp inFirst
  obtain ⟨stored', highest'⟩ := mem_final.mp inSecond
  exact List.inj_on_of_nodup_map distinct stored stored'
    (Nat.le_antisymm (highest' first stored same) (highest second stored' same.symm))

/-! ### Sums over the live rows -/

section LiveSum

variable {M : Type} [AddCommGroup M] (live : R → Bool) (amount : R → M)

/-- The sum over the latest versions that are live. -/
def liveSum (key : R → K) (version : R → Nat) (rows : List R) : M :=
  (((final key version rows).filter live).map amount).sum

variable {live amount}

/-- **A live row of a new key adds its amount.** -/
theorem liveSum_add (newest : ∀ other ∈ rows, version other < version row)
    (isNew : ∀ other ∈ rows, key other ≠ key row) (isLive : live row = true) :
    liveSum live amount key version (rows ++ [row]) =
      liveSum live amount key version rows + amount row := by
  have kept : ((final key version rows).filter fun other => key other ≠ key row) =
      final key version rows := List.filter_eq_self.mpr fun other member => by
    simpa using isNew other (mem_final.mp member).1
  rw [liveSum, final_concat newest, kept, List.filter_append, List.map_append, List.sum_append,
    List.filter_singleton, isLive]
  simp [liveSum]

/-- **A row that retires the live one of its key takes its amount back.** -/
theorem liveSum_retire (newest : ∀ other ∈ rows, version other < version row)
    (distinct : (rows.map version).Nodup) (isDead : live row = false) {old : R}
    (latest : old ∈ final key version rows) (wasLive : live old = true)
    (same : key old = key row) :
    liveSum live amount key version (rows ++ [row]) =
      liveSum live amount key version rows - amount old := by
  have keys : ((final key version rows).map key).Nodup := final_keys_nodup distinct
  obtain ⟨before, after, split⟩ := List.append_of_mem latest
  rw [split, List.map_append, List.map_cons, List.nodup_append, List.nodup_cons] at keys
  obtain ⟨_, ⟨notAfter, _⟩, notBefore⟩ := keys
  have keep : ∀ {part : List R}, (∀ other ∈ part, key other ≠ key old) →
      (part.filter fun other => decide (key other ≠ key row)) = part := fun apart =>
    List.filter_eq_self.mpr fun other member => by simpa [← same] using apart other member
  have keptBefore := keep fun other member =>
    notBefore _ (List.mem_map_of_mem member) _ List.mem_cons_self
  have keptAfter := keep fun other member equal =>
    notAfter (equal ▸ List.mem_map_of_mem member)
  rw [liveSum, final_concat newest, liveSum, split, List.filter_append before,
    List.filter_cons, keptBefore, keptAfter, if_neg (by simp [same])]
  simp only [List.filter_append, List.filter_cons, List.filter_nil, isDead, wasLive,
    List.map_append, List.sum_append, List.map_cons, List.sum_cons, if_true]
  simp
  abel

end LiveSum

end Final

/-! ### The first of each key -/

section DistinctOn

variable {R K : Type} [DecidableEq K] (key : R → K)

/-- The first row of each key, as `DISTINCT ON` keeps it. -/
def distinctOn : List R → List R
  | [] => []
  | row :: rest => row :: (distinctOn rest).filter fun other => key other ≠ key row

variable {key} {rows : List R}

theorem distinctOn_sublist : (distinctOn key rows).Sublist rows := by
  induction rows with
  | nil => exact .slnil
  | cons row rest ih => exact (List.filter_sublist.trans ih).cons_cons row

theorem distinctOn_nodup : ((distinctOn key rows).map key).Nodup := by
  induction rows with
  | nil => exact List.nodup_nil
  | cons row rest ih =>
    refine List.nodup_cons.mpr ⟨fun member => ?_, (List.filter_sublist.map key).nodup ih⟩
    obtain ⟨other, kept, same⟩ := List.mem_map.mp member
    exact of_decide_eq_true (List.mem_filter.mp kept).2 same

/-- Every key has its row. -/
theorem exists_distinctOn {row : R} (member : row ∈ rows) :
    ∃ first ∈ distinctOn key rows, key first = key row := by
  induction rows with
  | nil => cases member
  | cons head rest ih =>
    by_cases same : key row = key head
    · exact ⟨head, List.mem_cons_self, same.symm⟩
    · rcases List.mem_cons.mp member with rfl | inside
      · exact absurd rfl same
      · obtain ⟨first, found, own⟩ := ih inside
        refine ⟨first, List.mem_cons_of_mem _ (List.mem_filter.mpr ⟨found, ?_⟩), own⟩
        exact decide_eq_true (own ▸ same)

/-- **Of rows in order, the first of each key is below all others of it.** -/
theorem distinctOn_first {below : R → R → Prop} (sorted : rows.Pairwise below) {first row : R}
    (found : first ∈ distinctOn key rows) (member : row ∈ rows) (same : key row = key first) :
    row = first ∨ below first row := by
  induction rows with
  | nil => cases member
  | cons head rest ih =>
    obtain ⟨least, sorted⟩ := List.pairwise_cons.mp sorted
    rcases List.mem_cons.mp found with rfl | later
    · exact (List.mem_cons.mp member).imp_right (least row)
    · obtain ⟨later, apart⟩ := List.mem_filter.mp later
      rcases List.mem_cons.mp member with rfl | inside
      · exact absurd same.symm (of_decide_eq_true apart)
      · exact ih sorted later inside

end DistinctOn

/-! ### Parts of a sum -/

/-- **A sum is the sum over the parts of a table**, one for each value of a column. -/
theorem sum_fibers {R K M : Type} [DecidableEq K] [AddCommMonoid M] (key : R → K) (amount : R → M)
    {keys : List K} (distinct : keys.Nodup) {rows : List R} (covers : ∀ row ∈ rows, key row ∈ keys) :
    (keys.map fun k => ((rows.filter fun row => key row = k).map amount).sum).sum =
      (rows.map amount).sum := by
  induction rows with
  | nil =>
    refine List.sum_eq_zero fun value member => ?_
    obtain ⟨_, _, rfl⟩ := List.mem_map.mp member
    rfl
  | cons row rest ih =>
    have one : ((row :: rest).map amount).sum = amount row + (rest.map amount).sum := List.sum_cons
    have own : (keys.map fun k => if key row = k then amount row else 0).sum = amount row := by
      rw [List.sum_map_eq_nsmul_single (key row) _ fun k different _ => if_neg (Ne.symm different),
        List.count_eq_one_of_mem distinct (covers row List.mem_cons_self), one_nsmul, if_pos rfl]
    rw [one, ← ih fun other member => covers other (List.mem_cons_of_mem _ member)]
    refine Eq.trans ?_ (congrArg (· + _) own)
    rw [← List.sum_map_add]
    refine congrArg List.sum (List.map_congr_left fun k _ => ?_)
    rw [List.filter_cons]
    by_cases same : key row = k
    · simp [same]
    · simp [same]

/-! ### Sums by group -/

section Groups

variable {G M : Type} [DecidableEq G] [AddCommGroup M]

/-- The sum of one group. -/
def groupSum (table : List (G × M)) (group : G) : M :=
  ((table.filter fun row => row.1 = group).map Prod.snd).sum

/-- One row a group. -/
def groupBy (table : List (G × M)) : List (G × M) :=
  (table.map Prod.fst).dedup.map fun group => (group, groupSum table group)

variable {table more : List (G × M)} {group : G}

@[simp] theorem groupSum_nil : groupSum ([] : List (G × M)) group = 0 := rfl

theorem groupSum_cons {row : G × M} : groupSum (row :: table) group =
    (if row.1 = group then row.2 else 0) + groupSum table group := by
  by_cases same : row.1 = group
  · simp [groupSum, same]
  · simp [groupSum, same]

theorem groupSum_append :
    groupSum (table ++ more) group = groupSum table group + groupSum more group := by
  rw [groupSum, List.filter_append, List.map_append, List.sum_append]
  rfl

theorem groupSum_perm (same : table.Perm more) : groupSum table group = groupSum more group :=
  ((same.filter _).map _).sum_eq

theorem groupSum_flatMap {R : Type} (rows : List R) (contribution : R → List (G × M)) :
    groupSum (rows.flatMap contribution) group =
      (rows.map fun row => groupSum (contribution row) group).sum := by
  induction rows with
  | nil => rfl
  | cons row rest ih => rw [List.flatMap_cons, groupSum_append, ih, List.map_cons, List.sum_cons]

theorem groupSum_neg : groupSum (table.map fun row => (row.1, -row.2)) group =
    -groupSum table group := by
  induction table with
  | nil => simp
  | cons row rest ih =>
    rw [List.map_cons, groupSum_cons, groupSum_cons, ih, neg_add]
    congr 1
    split <;> simp

/-- A part of every metric. -/
theorem groupSum_project {N : Type} [AddCommGroup N] (part : M →+ N) :
    groupSum (table.map fun row => (row.1, part row.2)) group = part (groupSum table group) := by
  induction table with
  | nil => simp
  | cons row rest ih =>
    rw [List.map_cons, groupSum_cons, groupSum_cons, ih, map_add]
    congr 1
    split <;> simp

theorem groupSum_eq_zero (absent : group ∉ table.map Prod.fst) : groupSum table group = 0 := by
  have none : (table.filter fun row => row.1 = group) = [] :=
    List.filter_eq_nil_iff.mpr fun row member same =>
      absent (List.mem_map.mpr ⟨row, member, of_decide_eq_true same⟩)
  rw [groupSum, none]
  rfl

/-- Groups that a condition on groups keeps or drops. -/
theorem groupSum_filter (keep : G → Bool) : groupSum (table.filter fun row => keep row.1) group =
    if keep group then groupSum table group else 0 := by
  induction table with
  | nil => simp
  | cons row rest ih =>
    rw [List.filter_cons, groupSum_cons]
    by_cases same : row.1 = group
    · subst same
      cases isKept : keep row.1
      · rw [isKept] at ih
        simpa using ih
      · rw [isKept] at ih
        simp [groupSum_cons, ih]
    · cases isKept : keep row.1
      · simp [ih, same]
      · simp [groupSum_cons, ih, same]

theorem groupSum_tabulate {groups : List G} (distinct : groups.Nodup) (total : G → M) :
    groupSum (groups.map fun other => (other, total other)) group =
      if group ∈ groups then total group else 0 := by
  induction groups with
  | nil => simp
  | cons first rest ih =>
    rw [List.nodup_cons] at distinct
    rw [List.map_cons, groupSum_cons, ih distinct.2]
    by_cases same : first = group
    · subst same
      simp [distinct.1]
    · have apart : group ≠ first := fun equal => same equal.symm
      simp [same, apart]

/-- **Grouping keeps every sum.** -/
theorem groupSum_groupBy : groupSum (groupBy table) group = groupSum table group := by
  rw [groupBy, groupSum_tabulate (List.nodup_dedup _)]
  split
  · rfl
  · rename_i absent
    rw [List.mem_dedup] at absent
    exact (groupSum_eq_zero absent).symm

theorem mem_groupBy {total : M} :
    (group, total) ∈ groupBy table ↔ group ∈ table.map Prod.fst ∧ total = groupSum table group := by
  simp only [groupBy, List.mem_map, List.mem_dedup, Prod.mk.injEq]
  constructor
  · rintro ⟨_, inside, rfl, rfl⟩
    exact ⟨inside, rfl⟩
  · rintro ⟨inside, rfl⟩
    exact ⟨group, inside, rfl, rfl⟩

theorem groupBy_nodup : (groupBy table).Nodup :=
  List.Nodup.map (fun _ _ same => congrArg Prod.fst same) (List.nodup_dedup _)

/-- The sum of a coarser group is the sum of its parts. -/
theorem groupSum_coarse {H : Type} [DecidableEq H] (keep : G → Bool) (coarse : G → H) (target : H)
    {groups : List G} (distinct : groups.Nodup) (covers : ∀ row ∈ table, row.1 ∈ groups) :
    groupSum ((table.filter fun row => keep row.1).map fun row => (coarse row.1, row.2)) target =
      ((groups.filter fun other => keep other && decide (coarse other = target)).map
        (groupSum table)).sum := by
  induction table with
  | nil =>
    have zero : groupSum ([] : List (G × M)) = fun _ => 0 := rfl
    simp [zero]
  | cons row rest ih =>
    have split : groupSum (row :: rest) = fun other =>
        (if row.1 = other then row.2 else 0) + groupSum rest other := by
      funext other
      exact groupSum_cons
    have single : ∀ {parts : List G}, parts.Nodup →
        (parts.map fun other => if row.1 = other then row.2 else 0).sum =
          if row.1 ∈ parts then row.2 else 0 := by
      intro parts nodup
      rw [← groupSum_tabulate nodup fun _ => row.2, groupSum, List.filter_map, List.map_map]
      induction parts with
      | nil => rfl
      | cons first others ih =>
        rw [List.map_cons, List.sum_cons, ih (List.nodup_cons.mp nodup).2]
        by_cases same : row.1 = first
        · simp [same]
        · have apart : first ≠ row.1 := fun equal => same equal.symm
          simp [same, apart]
    rw [split, List.sum_map_add, single (distinct.filter _),
      ← ih fun other inside => covers other (List.mem_cons_of_mem _ inside), List.filter_cons]
    have covered := covers row List.mem_cons_self
    cases isKept : keep row.1
    · simp [isKept]
    · by_cases hits : coarse row.1 = target
      · simp [groupSum_cons, isKept, hits, covered]
      · simp [groupSum_cons, isKept, hits]

/-- **Equal sums stay equal in coarser groups.** -/
theorem groupSum_coarse_congr {H : Type} [DecidableEq H] (keep : G → Bool) (coarse : G → H)
    (target : H) (same : ∀ group, groupSum table group = groupSum more group) :
    groupSum ((table.filter fun row => keep row.1).map fun row => (coarse row.1, row.2)) target =
      groupSum ((more.filter fun row => keep row.1).map fun row => (coarse row.1, row.2)) target := by
  have covers : ∀ {part : List (G × M)}, part ⊆ table ++ more →
      ∀ row ∈ part, row.1 ∈ ((table ++ more).map Prod.fst).dedup := fun sub row inside =>
    List.mem_dedup.mpr (List.mem_map_of_mem (sub inside))
  rw [groupSum_coarse keep coarse target (List.nodup_dedup _)
      (covers (List.subset_append_left table more)),
    groupSum_coarse keep coarse target (List.nodup_dedup _)
      (covers (List.subset_append_right table more)), funext same]

/-- The same for sums that are equal in the groups that are kept. -/
theorem groupSum_coarse_congr_on {H : Type} [DecidableEq H] (keep : G → Bool) (coarse : G → H)
    (target : H) (same : ∀ group, keep group = true → groupSum table group = groupSum more group) :
    groupSum ((table.filter fun row => keep row.1).map fun row => (coarse row.1, row.2)) target =
      groupSum ((more.filter fun row => keep row.1).map fun row => (coarse row.1, row.2)) target := by
  have kept : ∀ group, groupSum (table.filter fun row => keep row.1) group =
      groupSum (more.filter fun row => keep row.1) group := by
    intro group
    rw [groupSum_filter, groupSum_filter]
    by_cases isKept : keep group = true
    · rw [if_pos isKept, if_pos isKept, same group isKept]
    · rw [if_neg isKept, if_neg isKept]
  have coarser := groupSum_coarse_congr (fun _ => true) coarse target kept
  rwa [List.filter_true, List.filter_true] at coarser

end Groups

end Meter.Lib
