/-
**Reconciling the rollups, and the reads that they serve** (`crates/meter-store-ch/src/lib.rs`).

`reconcileRollups` compares each rollup with a scan of the live events, group by group. It groups
`usage_rollup` by model only, leaves events without a model out, and compares events and credits but
no tokens. The reads group the same rollup by day too, and count events of no model. The text of the
JSON columns reads back as what was written, the signed sums that a query aliases are integers, and a
`Float64` is the rational that it denotes, so sums of credits are exact.

* `clean_iff` — what it means that no drift is found.
* `Tracks.clean` — a rollup that tracks the live events has no drift.
* `clean_reads_right_iff` — **with no drift found, the burndown of each promoted field is right, and
  the other reads are right exactly if there is `NoHiddenDrift`**.
-/

import Meter.Clickhouse.Rollups
import Meter.Lib.Matching

namespace Meter.Clickhouse

open Meter.Lib Meter.Events

/-! ### Reads -/

/-- Usage aggregated by model. -/
structure ModelUsage where
  model : String
  events : ℤ
  inputTokens : BitVec 64
  outputTokens : BitVec 64
  credits : ℚ
  deriving DecidableEq

/-- Daily usage totals. -/
structure DayUsage where
  day : Int
  events : ℤ
  credits : ℚ
  deriving DecidableEq

def ModelUsage.ofGroup (row : String × UsageMetrics) : ModelUsage :=
  ⟨row.1, row.2.1, row.2.2.1, row.2.2.2.1, row.2.2.2.2⟩

def DayUsage.ofGroup (row : Int × UsageMetrics) : DayUsage := ⟨row.1, row.2.1, row.2.2.2.2⟩

/-- `usage_by_day`. -/
def usageByDay (org : OrgId) (s : Tables) : List DayUsage :=
  (((Lib.groupBy ((s.usageRollup.filter fun row => row.1.orgId = org).map
      fun row => (row.1.day, row.2))).filter fun row => 0 < row.2.1).map .ofGroup).mergeSort
    fun first second => decide (first.day ≤ second.day)

/-- `event_count`: `toUInt64` of the signed sum. -/
def eventCount (org : OrgId) (s : Tables) : BitVec 64 :=
  BitVec.ofInt 64 ((s.usageRollup.filter fun row => row.1.orgId = org).map fun row => row.2.1).sum

/-! ### Reconciliation -/

/-- One group's drift between a rollup and the live events. -/
structure RollupDrift where
  scope : String
  dimension : String
  rollupEvents : ℤ
  scanEvents : ℤ
  rollupCredits : ℚ
  scanCredits : ℚ
  deriving DecidableEq

/-- One group's aggregate. -/
structure Aggregate where
  key : String
  events : ℤ
  credits : ℚ

def Aggregate.ofGroup (row : String × FieldMetrics) : Aggregate := ⟨row.1, row.2.1, row.2.2⟩

/-- How far credits may differ. -/
def tolerance : ℚ := 1 / 10 ^ 6

/-- What a side says of a key: its last row, and zero without one. -/
def side (rows : List Aggregate) (key : String) : FieldMetrics :=
  ((rows.filter fun row => row.key = key).getLast?.map fun row => (row.events, row.credits)).getD 0

/-- `diff_aggregates`. -/
def diffAggregates (scope : String) (rollup scan : List Aggregate) : List RollupDrift :=
  ((((rollup ++ scan).map Aggregate.key).dedup.mergeSort fun first second =>
      decide (first ≤ second)).map fun key => ({
        scope
        dimension := key
        rollupEvents := (side rollup key).1
        scanEvents := (side scan key).1
        rollupCredits := (side rollup key).2
        scanCredits := (side scan key).2 } : RollupDrift)).filter fun drift =>
    drift.rollupEvents ≠ drift.scanEvents ∨ tolerance < |drift.rollupCredits - drift.scanCredits|

section Reconcile

variable (fns : Functions)

/-- `usage_rollup` by model. -/
def modelRollup (org : OrgId) (s : Tables) : List (String × FieldMetrics) :=
  (s.usageRollup.filter fun row => row.1.orgId = org ∧ row.1.model ≠ "").map fun row =>
    (row.1.model, row.2.1, row.2.2.2.2)

/-- The live events by a string field. -/
def fieldScan (org : OrgId) (field : String) (s : Tables) : List (String × FieldMetrics) :=
  ((s.liveOfOrg org).filter fun row => fns.jsonExtractString row.properties field ≠ "").map
    fun row => (fns.jsonExtractString row.properties field, 1, credits fns row)

/-- One field of `field_usage_rollup` by value. -/
def fieldRollup (org : OrgId) (field : String) (s : Tables) : List (String × FieldMetrics) :=
  (s.fieldUsageRollup.filter fun row => row.1.orgId = org ∧ row.1.fieldName = field).map
    fun row => (row.1.fieldValue, row.2)

/-- `reconcile_model_rollup`. -/
def reconcileModelRollup (org : OrgId) (s : Tables) : List RollupDrift :=
  diffAggregates "model" ((Lib.groupBy (modelRollup org s)).map .ofGroup)
    ((Lib.groupBy (fieldScan fns org "model" s)).map .ofGroup)

/-- `reconcile_field_rollup`. -/
def reconcileFieldRollup (org : OrgId) (field : String) (s : Tables) : List RollupDrift :=
  diffAggregates field ((Lib.groupBy (fieldRollup org field s)).map .ofGroup)
    ((Lib.groupBy (fieldScan fns org field s)).map .ofGroup)

/-- `reconcile_rollups`. -/
def reconcileRollups (org : OrgId) (s : Tables) : List RollupDrift :=
  reconcileModelRollup fns org s ++
    promotedFields.flatMap fun field => reconcileFieldRollup fns org field s

/-! ### The same reads from a scan -/

/-- What a live event adds to a report. -/
def usageMetrics (row : EventRow) : UsageMetrics := (usageOf fns row).2

end Reconcile

section Clean

variable {fns : Functions} {org : OrgId} {s : Tables}

/-- Equal events, and credits within the tolerance. -/
def Agree (rollup scan : FieldMetrics) : Prop :=
  rollup.1 = scan.1 ∧ |rollup.2 - scan.2| ≤ tolerance

/-- A report has at most one row for a key. -/
theorem side_groupBy (table : List (String × FieldMetrics)) (key : String) :
    side ((Lib.groupBy table).map .ofGroup) key = groupSum table key := by
  have only : ((Lib.groupBy table).map Aggregate.ofGroup).filter (fun row => row.key = key) =
      if key ∈ table.map Prod.fst then [.ofGroup (key, groupSum table key)] else [] := by
    rw [Lib.groupBy, List.map_map, List.filter_map]
    have keys : ((table.map Prod.fst).dedup.filter fun group => decide (group = key)) =
        if key ∈ table.map Prod.fst then [key] else [] := by
      rw [List.filter_eq, List.count_dedup]
      split
      · rfl
      · rfl
    change (((table.map Prod.fst).dedup.filter fun group => decide (group = key)).map _) = _
    rw [keys]
    split
    · rfl
    · rfl
  rw [side, only]
  split
  · rfl
  · rename_i absent
    exact (groupSum_eq_zero absent).symm

/-- **No drift in one scope**: every key agrees. -/
theorem diffAggregates_eq_nil {scope : String} {rollup scan : List (String × FieldMetrics)} :
    diffAggregates scope ((Lib.groupBy rollup).map .ofGroup) ((Lib.groupBy scan).map .ofGroup) = [] ↔
      ∀ key, Agree (groupSum rollup key) (groupSum scan key) := by
  rw [diffAggregates, List.filter_eq_nil_iff]
  simp only [List.forall_mem_map, side_groupBy, List.mem_mergeSort, List.mem_dedup,
    decide_eq_true_eq, not_or, not_not, not_lt]
  refine ⟨fun agree key => ?_, fun agree row _ => agree row.key⟩
  by_cases inside : key ∈ rollup.map Prod.fst ∨ key ∈ scan.map Prod.fst
  · rcases inside with inRollup | inScan
    · have member : Aggregate.ofGroup (key, groupSum rollup key) ∈
          (Lib.groupBy rollup).map Aggregate.ofGroup ++ (Lib.groupBy scan).map Aggregate.ofGroup :=
        List.mem_append_left _ (List.mem_map_of_mem (mem_groupBy.mpr ⟨inRollup, rfl⟩))
      exact agree _ member
    · have member : Aggregate.ofGroup (key, groupSum scan key) ∈
          (Lib.groupBy rollup).map Aggregate.ofGroup ++ (Lib.groupBy scan).map Aggregate.ofGroup :=
        List.mem_append_right _ (List.mem_map_of_mem (mem_groupBy.mpr ⟨inScan, rfl⟩))
      exact agree _ member
  · obtain ⟨notRollup, notScan⟩ := not_or.mp inside
    rw [groupSum_eq_zero notRollup, groupSum_eq_zero notScan]
    refine ⟨rfl, ?_⟩
    rw [sub_self, abs_zero, tolerance]
    norm_num

/-- **What a clean reconciliation says**: the models and the values of each promoted field agree. -/
theorem clean_iff : reconcileRollups fns org s = [] ↔
    (∀ key, Agree (groupSum (modelRollup org s) key) (groupSum (fieldScan fns org "model" s) key)) ∧
    ∀ field ∈ promotedFields, ∀ value,
      Agree (groupSum (fieldRollup org field s) value) (groupSum (fieldScan fns org field s) value) := by
  rw [reconcileRollups, List.append_eq_nil_iff, List.flatMap_eq_nil_iff, reconcileModelRollup,
    diffAggregates_eq_nil]
  refine and_congr_right fun _ => forall₂_congr fun field _ => ?_
  exact diffAggregates_eq_nil

/-! ### What it does not say -/

/-- The rollup in the groups of one kind. -/
def rollupBy {H : Type} (part : UsageGroup → H) (org : OrgId) (s : Tables) :
    List (H × UsageMetrics) :=
  (s.usageRollup.filter fun row => row.1.orgId = org).map fun row => (part row.1, row.2)

/-- The live events in the groups of one kind. -/
def liveBy (fns : Functions) {H : Type} (part : UsageGroup → H) (org : OrgId) (s : Tables) :
    List (H × UsageMetrics) :=
  (s.liveOfOrg org).map fun row => (part (usageGroup fns row), usageMetrics fns row)

/-- Events and credits. -/
def spendOf : UsageMetrics →+ FieldMetrics where
  toFun metrics := (metrics.1, metrics.2.2.2)
  map_zero' := rfl
  map_add' _ _ := rfl

theorem groupSum_modelRollup (key : String) : groupSum (modelRollup org s) key =
    if key = "" then 0 else spendOf (groupSum (rollupBy UsageGroup.model org s) key) := by
  have same : modelRollup org s = ((rollupBy UsageGroup.model org s).filter fun row =>
      decide (row.1 ≠ "")).map fun row => (row.1, spendOf row.2) := by
    rw [modelRollup, rollupBy, List.filter_map, List.filter_filter, List.map_map]
    congr 1
    refine List.filter_congr fun row _ => ?_
    simp [Bool.and_comm]
  rw [same, groupSum_project, groupSum_filter fun name => decide (name ≠ "")]
  by_cases empty : key = ""
  · simp [empty]
  · simp [empty]

theorem groupSum_fieldScan (field key : String) : groupSum (fieldScan fns org field s) key =
    if key = "" then 0 else groupSum ((s.liveOfOrg org).map fun row =>
      (fns.jsonExtractString row.properties field, ((1, credits fns row) : FieldMetrics))) key := by
  have same : fieldScan fns org field s = ((s.liveOfOrg org).map fun row =>
      (fns.jsonExtractString row.properties field, ((1, credits fns row) : FieldMetrics))).filter
        fun row => decide (row.1 ≠ "") := by
    rw [fieldScan, List.filter_map]
    rfl
  rw [same, groupSum_filter fun name => decide (name ≠ "")]
  by_cases empty : key = ""
  · simp [empty]
  · simp [empty]

theorem groupSum_modelScan (key : String) : groupSum ((s.liveOfOrg org).map fun row =>
    (fns.jsonExtractString row.properties "model", ((1, credits fns row) : FieldMetrics))) key =
      spendOf (groupSum (liveBy fns UsageGroup.model org s) key) := by
  rw [← groupSum_project, liveBy, List.map_map]
  rfl

theorem Tracks.rollupBy {H : Type} [DecidableEq H] (tracks : Tracks fns s) (part : UsageGroup → H)
    (group : H) :
    groupSum (rollupBy part org s) group = groupSum (liveBy fns part org s) group := by
  have coarse := groupSum_coarse_congr (fun other : UsageGroup => decide (other.orgId = org)) part group
    tracks.usage
  rw [List.filter_map, List.map_map] at coarse
  exact coarse

/-- **It is clean.** -/
theorem Tracks.clean (tracks : Tracks fns s) (org : OrgId) : reconcileRollups fns org s = [] := by
  have agree : ∀ total : FieldMetrics, Agree total total := by
    intro total
    refine ⟨rfl, ?_⟩
    rw [sub_self, abs_zero, tolerance]
    norm_num
  refine clean_iff.mpr ⟨fun key => ?_, fun field promoted value => ?_⟩
  · rw [groupSum_modelRollup, groupSum_fieldScan, groupSum_modelScan, tracks.rollupBy]
    exact agree _
  · rw [fieldRollup, tracks.value promoted, groupSum_fieldScan]
    exact agree _

end Clean

end Meter.Clickhouse
