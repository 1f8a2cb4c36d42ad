/-
**The one rounding of a price.**

`roundHalfEven` is the nearest integer with ties to even, as `NearestEven` says it, and `roundDp` the
nearest multiple of a power of ten. Credits are rounded by it once, to five decimals.

* `roundDp_nearest` — **a rounded value is the nearest multiple**, the even one of two.
* `toCredits_eq_ok` — what `toCredits` answers, and when.
-/

import Meter.Lib.Nearest
import Meter.Pricing.Price

namespace Meter.Pricing

open Meter.Lib

/-- **The nearest integer, ties to even.** -/
theorem roundHalfEven_nearest (value : Decimal) : NearestEven 1 value (roundHalfEven value) := by
  have below := Int.floor_le value
  have above := Int.lt_floor_add_one value
  rw [nearestEven_iff one_pos, mul_one]
  unfold roundHalfEven
  dsimp only
  by_cases low : value - ⌊value⌋ < 1 / 2
  · rw [if_pos low, abs_of_nonpos (by linarith)]
    exact ⟨by linarith, fun half => by linarith⟩
  rw [if_neg low]
  by_cases high : 1 / 2 < value - ⌊value⌋
  · rw [if_pos high]
    push_cast
    rw [abs_of_pos (by linarith)]
    exact ⟨by linarith, fun half => by linarith⟩
  rw [if_neg high]
  by_cases even : ⌊value⌋ % 2 = 0
  · rw [if_pos even, abs_of_nonpos (by linarith)]
    exact ⟨by linarith, fun _ => Int.even_iff.mpr even⟩
  · rw [if_neg even]
    push_cast
    rw [abs_of_nonneg (by linarith)]
    exact ⟨by linarith, fun _ => Int.even_iff.mpr (by omega)⟩

/-- The multiples of which `roundDp` takes one. -/
def decimalStep (places : Nat) : Decimal := 1 / 10 ^ places

theorem decimalStep_pos (places : Nat) : 0 < decimalStep places := by
  unfold decimalStep
  positivity

/-- **A rounded value is the nearest multiple**, the even one of two. -/
theorem roundDp_nearest (value : Decimal) (places : Nat) :
    ∃ count : ℤ, roundDp value places = count * decimalStep places ∧
      NearestEven (decimalStep places) value count := by
  refine ⟨roundHalfEven (value * 10 ^ places), ?_, NearestEven.scale (decimalStep_pos places) ?_⟩
  · rw [roundDp, decimalStep, mul_one_div]
  · rw [decimalStep, div_div_eq_mul_div, div_one]
    exact roundHalfEven_nearest _

theorem roundDp_error (value : Decimal) (places : Nat) :
    |roundDp value places - value| ≤ decimalStep places / 2 := by
  obtain ⟨count, isCount, nearest⟩ := roundDp_nearest value places
  rw [isCount]
  exact nearest.error_le (decimalStep_pos places)

theorem roundDp_mono {first second : Decimal} (ordered : first ≤ second) (places : Nat) :
    roundDp first places ≤ roundDp second places := by
  obtain ⟨count, isCount, nearest⟩ := roundDp_nearest first places
  obtain ⟨count', isCount', nearest'⟩ := roundDp_nearest second places
  have grows := nearest.mono (decimalStep_pos places) ordered nearest'
  rw [isCount, isCount']
  exact mul_le_mul_of_nonneg_right (by exact_mod_cast grows) (decimalStep_pos places).le

theorem roundDp_zero (places : Nat) : roundDp 0 places = 0 := by
  obtain ⟨count, isCount, nearest⟩ := roundDp_nearest 0 places
  rw [isCount, nearest.unique (decimalStep_pos places) (nearestEven_zero (decimalStep_pos places)),
    Int.cast_zero, zero_mul]

/-! ### Credits -/

section Credits

variable {amount creditValue : Money} {credits : Credit}

/-- **What `toCredits` answers, and when.** -/
theorem toCredits_eq_ok : toCredits amount creditValue = .ok credits ↔
    amount.currency = creditValue.currency ∧ 0 < creditValue.amount ∧
      credits = roundDp (amount.amount / creditValue.amount) creditScale := by
  unfold toCredits
  by_cases same : amount.currency = creditValue.currency
  · rw [if_neg (not_not.mpr same)]
    by_cases positive : 0 < creditValue.amount
    · rw [if_neg (not_le.mpr positive)]
      simp [same, positive, eq_comm]
    · rw [if_pos (not_lt.mp positive)]
      simp [positive]
  · rw [if_pos same]
    simp [same]

theorem toCredits_error_iff : (∃ error, toCredits amount creditValue = .error error) ↔
    amount.currency ≠ creditValue.currency ∨ creditValue.amount ≤ 0 := by
  cases isResult : toCredits amount creditValue with
  | ok credits =>
    obtain ⟨same, positive, _⟩ := toCredits_eq_ok.mp isResult
    simp [same, positive]
  | error error =>
    refine iff_of_true ⟨error, rfl⟩ ?_
    by_contra neither
    obtain ⟨same, positive⟩ := not_or.mp neither
    cases isResult.symm.trans (toCredits_eq_ok.mpr ⟨not_not.mp same, not_le.mp positive, rfl⟩)

/-- What a price comes from. -/
theorem priceUsage_eq_ok {usage : Usage} {card : RateCard} {priced : PricedUsage}
    (computed : priceUsage usage card creditValue = .ok priced) :
    cost usage card = .ok priced.cogs ∧ priced.customerPrice = applyMargin priced.cogs card.margin ∧
      toCredits priced.customerPrice creditValue = .ok priced.credits := by
  obtain ⟨cogs, costs, computed⟩ := ok_of_bind computed
  obtain ⟨credits, converted, computed⟩ := ok_of_bind computed
  cases computed
  exact ⟨costs, rfl, converted⟩

end Credits

end Meter.Pricing
