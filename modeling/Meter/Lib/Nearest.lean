/-
**Rounding to the nearest multiple of a step, ties to even.**

`NearestEven step value count` says that `count * step` is such a multiple. It says nothing about how
`count` is found, so it is what a rounding is compared with.

* `nearestEven_iff` — **being nearest is an error of at most half a step**, with `count` even at
  exactly half.
* `NearestEven.unique`, `NearestEven.mono` — the multiple is determined by the value, and grows with it.
* `sum_error` — **the errors of a sum add up**: at most half a step for each term.
-/

import Mathlib.Algebra.BigOperators.Group.List.Basic
import Mathlib.Algebra.Order.Field.Basic
import Mathlib.Algebra.Order.Group.Abs
import Mathlib.Algebra.Ring.Int.Parity
import Mathlib.Tactic.Linarith
import Mathlib.Tactic.Ring

namespace Meter.Lib

section Nearest

variable {α : Type} [Field α] [LinearOrder α] [IsStrictOrderedRing α]

/-- `count * step` is a multiple of `step` nearest to `value`; if another one is as near, `count` is
even. -/
structure NearestEven (step value : α) (count : ℤ) : Prop where
  nearest : ∀ other : ℤ, |count * step - value| ≤ |other * step - value|
  even : ∀ other : ℤ, other ≠ count → |other * step - value| = |count * step - value| → Even count

variable {step value value' : α} {count count' : ℤ}

/-- Two multiples are a step apart at least. -/
theorem step_le_distance (positive : 0 < step) (different : count' ≠ count) :
    step ≤ |count' * step - count * step| := by
  have apart : (1 : α) ≤ |(count' : α) - count| := by
    have whole : 1 ≤ |count' - count| := Int.one_le_abs (sub_ne_zero.mpr different)
    exact_mod_cast whole
  calc step = 1 * step := (one_mul step).symm
    _ ≤ |(count' : α) - count| * step := mul_le_mul_of_nonneg_right apart positive.le
    _ = |count' * step - count * step| := by rw [← sub_mul, abs_mul, abs_of_pos positive]

/-- **The error is at most half a step.** -/
theorem NearestEven.error_le (positive : 0 < step) (rounds : NearestEven step value count) :
    |count * step - value| ≤ step / 2 := by
  have up := rounds.nearest (count + 1)
  have down := rounds.nearest (count - 1)
  push_cast at up down
  rw [add_mul, one_mul] at up
  rw [sub_mul, one_mul] at down
  by_cases above : 0 ≤ count * step - value
  · rw [abs_of_nonneg above] at down ⊢
    rcases le_abs.mp down with further | nearer
    · linarith
    · linarith
  · rw [abs_of_neg (not_le.mp above)] at up ⊢
    rcases le_abs.mp up with nearer | further
    · linarith
    · linarith

/-- **Being nearest** is an error of at most half a step, with an even `count` at exactly half. -/
theorem nearestEven_iff (positive : 0 < step) : NearestEven step value count ↔
    |count * step - value| ≤ step / 2 ∧ (|count * step - value| = step / 2 → Even count) := by
  refine ⟨fun rounds => ⟨rounds.error_le positive, fun half => ?_⟩, fun near => ?_⟩
  · -- At half a step the neighbour on the other side of the value is as near.
    by_cases above : 0 ≤ count * step - value
    · refine rounds.even (count - 1) (by omega) ?_
      rw [abs_of_nonneg above] at half ⊢
      push_cast
      rw [sub_mul, one_mul, show (count : α) * step - step - value = -(step / 2) by linarith, abs_neg,
        abs_of_pos (half_pos positive), half]
    · refine rounds.even (count + 1) (by omega) ?_
      rw [abs_of_neg (not_le.mp above)] at half ⊢
      push_cast
      rw [add_mul, one_mul, show (count : α) * step + step - value = step / 2 by linarith,
        abs_of_pos (half_pos positive), half]
  · have further : ∀ other : ℤ, other ≠ count → step / 2 ≤ |other * step - value| := by
      intro other different
      have apart := step_le_distance positive different
      have triangle := abs_sub_le ((other : α) * step) value (count * step)
      rw [abs_sub_comm value] at triangle
      linarith [near.1]
    refine ⟨fun other => ?_, fun other different same => ?_⟩
    · by_cases here : other = count
      · rw [here]
      · exact near.1.trans (further other here)
    · exact near.2 (near.1.antisymm (same ▸ further other different))

/-- The value determines the multiple. -/
theorem NearestEven.unique (positive : 0 < step) (rounds : NearestEven step value count)
    (rounds' : NearestEven step value count') : count = count' := by
  by_contra different
  have apart := step_le_distance positive different
  have triangle := abs_sub_le ((count : α) * step) value (count' * step)
  rw [abs_sub_comm value] at triangle
  have near := rounds.error_le positive
  have near' := rounds'.error_le positive
  -- Both errors are half a step, so both counts are even, and yet they are neighbours.
  have isEven := ((nearestEven_iff positive).mp rounds).2 (by linarith)
  have isEven' := ((nearestEven_iff positive).mp rounds').2 (by linarith)
  have close : |(count : α) * step - count' * step| ≤ 1 * step := by linarith
  rw [← sub_mul, abs_mul, abs_of_pos positive] at close
  have neighbours : |(count : α) - count'| ≤ 1 := le_of_mul_le_mul_right close positive
  have neighbours : |count - count'| ≤ 1 := by exact_mod_cast neighbours
  obtain ⟨half, isDouble⟩ := isEven.sub isEven'
  rw [abs_le] at neighbours
  omega

/-- **Rounding keeps the order.** -/
theorem NearestEven.mono (positive : 0 < step) (ordered : value ≤ value')
    (rounds : NearestEven step value count) (rounds' : NearestEven step value' count') :
    count ≤ count' := by
  by_contra above
  have next : count' + 1 ≤ count := by omega
  have steps : ((count' : α) + 1) * step ≤ count * step :=
    mul_le_mul_of_nonneg_right (by exact_mod_cast next) positive.le
  rw [add_mul, one_mul] at steps
  have near := (abs_le.mp (rounds.error_le positive)).2
  have near' := (abs_le.mp (rounds'.error_le positive)).1
  have same : value = value' := by linarith
  have equal := rounds.unique positive (same ▸ rounds')
  omega

theorem nearestEven_zero (positive : 0 < step) : NearestEven step 0 0 := by
  refine (nearestEven_iff positive).mpr ⟨?_, fun _ => Even.zero⟩
  rw [Int.cast_zero, zero_mul, sub_zero, abs_zero]
  exact (half_pos positive).le

/-- Rounding a value counted in steps. -/
theorem NearestEven.scale (positive : 0 < step) (rounds : NearestEven 1 (value / step) count) :
    NearestEven step value count := by
  have scaled : ∀ other : ℤ, |other * step - value| = |other * 1 - value / step| * step := by
    intro other
    have factor : (other : α) * step - value = (other * 1 - value / step) * step := by
      rw [sub_mul, mul_one, div_mul_cancel₀ _ positive.ne']
    rw [factor, abs_mul, abs_of_pos positive]
  refine ⟨fun other => ?_, fun other different same => ?_⟩
  · rw [scaled, scaled]
    exact mul_le_mul_of_nonneg_right (rounds.nearest other) positive.le
  · rw [scaled, scaled] at same
    exact rounds.even other different (mul_right_cancel₀ positive.ne' same)

/-! ### Many roundings -/

/-- **The errors of a sum add up**: at most half a step for each term. -/
theorem sum_error {β : Type} {exact' rounded : β → α} {terms : List β}
    (near : ∀ term ∈ terms, |rounded term - exact' term| ≤ step / 2) :
    |(terms.map rounded).sum - (terms.map exact').sum| ≤ terms.length * (step / 2) := by
  induction terms with
  | nil => simp
  | cons term terms ih =>
    obtain ⟨here, later⟩ := List.forall_mem_cons.mp near
    have rest := ih later
    rw [List.map_cons, List.sum_cons, List.map_cons, List.sum_cons, List.length_cons, Nat.cast_succ,
      add_mul, one_mul, add_sub_add_comm]
    have triangle := abs_add_le (rounded term - exact' term)
      ((terms.map rounded).sum - (terms.map exact').sum)
    linarith

end Nearest

end Meter.Lib
