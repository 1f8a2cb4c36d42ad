/-
**Re-rating, and what rounding can do to a total** (`crates/meter-pricing/src/simulate.rs`).

A simulation prices every event under two cards and adds up the credits. Each event is rounded on its
own, so the sum of the credits is not the credits of the sum.

* `rounding_drift` — **the drift is at most half a step for each event**, and half a step for the
  total.
* `rounds_credits` — what the rounding does to one amount, to a priced event and to many.
-/

import Meter.Pricing.Card
import Meter.Pricing.Rounding

namespace Meter.Pricing

open Meter.Lib

/-! ### Simulation -/

/-- One event priced under both cards. -/
structure RerateLine where
  current : PricedUsage
  proposed : PricedUsage
  creditDelta : Credit

/-- The aggregate of a stream of events. -/
structure RerateSummary where
  eventCount : Nat
  creditsCurrent : Credit
  creditsProposed : Credit
  creditDelta : Credit
  lines : List RerateLine

def rerateEvent (usage : Usage) (current proposed : RateCard) (creditValue : Money) :
    Except PricingError RerateLine := do
  let currentPriced ← priceUsage usage current creditValue
  let proposedPriced ← priceUsage usage proposed creditValue
  return {
    current := currentPriced
    proposed := proposedPriced
    creditDelta := proposedPriced.credits - currentPriced.credits }

/-- The loop of `simulate_rerate`: both totals and the lines so far. -/
def rerateLoop (current proposed : RateCard) (creditValue : Money) :
    List Usage → Credit → Credit → List RerateLine →
      Except PricingError (Credit × Credit × List RerateLine)
  | [], creditsCurrent, creditsProposed, lines => .ok (creditsCurrent, creditsProposed, lines)
  | usage :: usages, creditsCurrent, creditsProposed, lines => do
    let line ← rerateEvent usage current proposed creditValue
    rerateLoop current proposed creditValue usages (creditsCurrent + line.current.credits)
      (creditsProposed + line.proposed.credits) (lines ++ [line])

/-- `simulate_rerate`. -/
def simulateRerate (usages : List Usage) (current proposed : RateCard) (creditValue : Money) :
    Except PricingError RerateSummary := do
  let totals ← rerateLoop current proposed creditValue usages 0 0 []
  return {
    eventCount := usages.length
    creditsCurrent := totals.1
    creditsProposed := totals.2.1
    creditDelta := totals.2.1 - totals.1
    lines := totals.2.2 }

/-- The priced events of a stream. -/
def PricesAll (creditValue : Money) (events : List (Usage × RateCard)) (priced : List PricedUsage) :
    Prop :=
  List.Forall₂ (fun event result => priceUsage event.1 event.2 creditValue = .ok result) events priced

/-- The credits of priced events. -/
def creditsOf (priced : List PricedUsage) : Credit := (priced.map PricedUsage.credits).sum

/-- The exact customer price of priced events. -/
def exactTotal (creditValue : Money) (priced : List PricedUsage) : Money :=
  ⟨(priced.map fun result => result.customerPrice.amount).sum, creditValue.currency⟩

theorem PricesAll.of_mem {creditValue : Money} {events : List (Usage × RateCard)}
    {priced : List PricedUsage} (prices : PricesAll creditValue events priced)
    {result : PricedUsage} (member : result ∈ priced) :
    ∃ event : Usage × RateCard, priceUsage event.1 event.2 creditValue = .ok result := by
  induction prices with
  | nil => exact absurd member List.not_mem_nil
  | cons computed _ ih =>
    rcases List.mem_cons.mp member with rfl | later
    · exact ⟨_, computed⟩
    · exact ih later

section Simulation

variable {current proposed : RateCard} {creditValue : Money}

theorem rerateEvent_eq_ok {usage : Usage} {line : RerateLine}
    (computed : rerateEvent usage current proposed creditValue = .ok line) :
    priceUsage usage current creditValue = .ok line.current ∧
      priceUsage usage proposed creditValue = .ok line.proposed := by
  obtain ⟨first, isFirst, computed⟩ := ok_of_bind computed
  obtain ⟨second, isSecond, computed⟩ := ok_of_bind computed
  cases computed
  exact ⟨isFirst, isSecond⟩

/-- **The loop adds the credits of each line to both totals.** -/
theorem rerateLoop_spec {usages : List Usage} :
    ∀ {first second : Credit} {before : List RerateLine} {totals : Credit × Credit × List RerateLine},
      rerateLoop current proposed creditValue usages first second before = .ok totals →
      ∃ lines, totals.2.2 = before ++ lines ∧
        totals.1 = first + creditsOf (lines.map RerateLine.current) ∧
        totals.2.1 = second + creditsOf (lines.map RerateLine.proposed) ∧
        PricesAll creditValue (usages.map fun usage => (usage, current))
          (lines.map RerateLine.current) ∧
        PricesAll creditValue (usages.map fun usage => (usage, proposed))
          (lines.map RerateLine.proposed) := by
  induction usages with
  | nil =>
    rintro first second before _ ⟨⟩
    exact ⟨[], by simp, by simp [creditsOf], by simp [creditsOf], .nil, .nil⟩
  | cons usage usages ih =>
    intro first second before totals computed
    obtain ⟨line, rated, computed⟩ := ok_of_bind computed
    obtain ⟨underCurrent, underProposed⟩ := rerateEvent_eq_ok rated
    obtain ⟨lines, isLines, isFirst, isSecond, prices, prices'⟩ := ih computed
    refine ⟨line :: lines, by simp [isLines], ?_, ?_, .cons underCurrent prices,
      .cons underProposed prices'⟩
    · rw [isFirst]
      simp [creditsOf, add_assoc]
    · rw [isSecond]
      simp [creditsOf, add_assoc]

/-- A simulation adds up what each event would be charged. -/
theorem simulateRerate_spec {usages : List Usage} {summary : RerateSummary}
    (computed : simulateRerate usages current proposed creditValue = .ok summary) :
    ∃ before after,
      PricesAll creditValue (usages.map fun usage => (usage, current)) before ∧
      PricesAll creditValue (usages.map fun usage => (usage, proposed)) after ∧
      summary.creditsCurrent = creditsOf before ∧ summary.creditsProposed = creditsOf after ∧
      before = summary.lines.map RerateLine.current ∧
      after = summary.lines.map RerateLine.proposed := by
  obtain ⟨totals, looped, computed⟩ := ok_of_bind computed
  cases computed
  obtain ⟨lines, isLines, isFirst, isSecond, prices, prices'⟩ := rerateLoop_spec looped
  rw [List.nil_append] at isLines
  rw [zero_add] at isFirst isSecond
  exact ⟨_, _, prices, prices', isFirst, isSecond, by rw [isLines], by rw [isLines]⟩

end Simulation

/-! ### Drift -/

/-- The largest error of one rounding. -/
def halfStep : Decimal := 5 / 10 ^ 6

theorem halfStep_eq : halfStep = decimalStep creditScale / 2 := by
  unfold halfStep decimalStep creditScale
  norm_num

section Drift

variable {creditValue : Money}

/-- **The error of one conversion.** -/
theorem toCredits_error_le {amount : Money} {credits : Credit}
    (converted : toCredits amount creditValue = .ok credits) :
    |credits - amount.amount / creditValue.amount| ≤ halfStep := by
  obtain ⟨_, _, isCredits⟩ := toCredits_eq_ok.mp converted
  rw [isCredits, halfStep_eq]
  exact roundDp_error _ _

/-- **Each event drifts by half a step at most**, and so does the total. -/
theorem rounding_drift {events : List (Usage × RateCard)} {priced : List PricedUsage}
    (prices : PricesAll creditValue events priced) {total : Credit}
    (converted : toCredits (exactTotal creditValue priced) creditValue = .ok total) :
    |creditsOf priced - total| ≤ events.length * halfStep + halfStep := by
  have near : ∀ result ∈ priced,
      |result.credits - result.customerPrice.amount / creditValue.amount| ≤
        decimalStep creditScale / 2 := by
    intro result member
    obtain ⟨_, computed⟩ := prices.of_mem member
    rw [← halfStep_eq]
    exact toCredits_error_le (priceUsage_eq_ok computed).2.2
  have drift := sum_error near
  have exact' : (priced.map fun result => result.customerPrice.amount / creditValue.amount).sum =
      (exactTotal creditValue priced).amount / creditValue.amount := by
    rw [exactTotal, div_eq_mul_inv, ← List.sum_map_mul_right]
    simp only [div_eq_mul_inv]
  rw [exact', ← halfStep_eq, ← prices.length_eq] at drift
  have last := toCredits_error_le converted
  rw [abs_sub_comm] at last
  exact (abs_sub_le _ _ _).trans (add_le_add drift last)

end Drift

/-! ### What one rounding does -/

/-- The rounding of credits at one credit value. -/
structure RoundsCredits (creditValue : Money) : Prop where
  fails : ∀ amount, (∃ error, toCredits amount creditValue = .error error) ↔
    amount.currency ≠ creditValue.currency ∨ creditValue.amount ≤ 0
  nearest : ∀ amount credits, toCredits amount creditValue = .ok credits →
    ∃ count : ℤ, credits = count * decimalStep 5 ∧
      NearestEven (decimalStep 5) (amount.amount / creditValue.amount) count
  grows : ∀ amount more credits credits', toCredits amount creditValue = .ok credits →
    toCredits more creditValue = .ok credits' → amount.amount ≤ more.amount → credits ≤ credits'
  sign : ∀ amount credits, toCredits amount creditValue = .ok credits →
    credits = 0 ∨ (0 < credits ∧ 0 < amount.amount) ∨ (credits < 0 ∧ amount.amount < 0)
  priced : ∀ usage card result, priceUsage usage card creditValue = .ok result →
    ∃ cogs, cost usage card = .ok cogs ∧
      |result.credits - card.margin * cogs.amount / creditValue.amount| ≤ 5 / 10 ^ 6
  total : ∀ events results, PricesAll creditValue events results →
    ∀ credits, toCredits (exactTotal creditValue results) creditValue = .ok credits →
      |creditsOf results - credits| ≤ events.length * (5 / 10 ^ 6) + 5 / 10 ^ 6
  simulated : ∀ usages current proposed summary,
    simulateRerate usages current proposed creditValue = .ok summary →
    (∀ credits, toCredits (exactTotal creditValue (summary.lines.map RerateLine.current))
      creditValue = .ok credits →
        |summary.creditsCurrent - credits| ≤ usages.length * (5 / 10 ^ 6) + 5 / 10 ^ 6) ∧
    ∀ credits, toCredits (exactTotal creditValue (summary.lines.map RerateLine.proposed))
      creditValue = .ok credits →
        |summary.creditsProposed - credits| ≤ usages.length * (5 / 10 ^ 6) + 5 / 10 ^ 6

theorem toCredits_mono {creditValue amount more : Money} {credits credits' : Credit}
    (converted : toCredits amount creditValue = .ok credits)
    (converted' : toCredits more creditValue = .ok credits') (ordered : amount.amount ≤ more.amount) :
    credits ≤ credits' := by
  obtain ⟨_, positive, isCredits⟩ := toCredits_eq_ok.mp converted
  obtain ⟨_, _, isCredits'⟩ := toCredits_eq_ok.mp converted'
  rw [isCredits, isCredits']
  exact roundDp_mono (div_le_div_of_nonneg_right ordered positive.le) _

/-- Nothing converts to nothing, so the sign stays. -/
theorem toCredits_sign {creditValue amount : Money} {credits : Credit}
    (converted : toCredits amount creditValue = .ok credits) :
    credits = 0 ∨ (0 < credits ∧ 0 < amount.amount) ∨ (credits < 0 ∧ amount.amount < 0) := by
  obtain ⟨same, positive, _⟩ := toCredits_eq_ok.mp converted
  have nothing : toCredits ⟨0, amount.currency⟩ creditValue = .ok 0 := by
    refine toCredits_eq_ok.mpr ⟨same, positive, ?_⟩
    rw [zero_div, roundDp_zero]
  rcases lt_trichotomy credits 0 with negative | zero | isPositive
  · refine .inr (.inr ⟨negative, lt_of_not_ge fun nonneg => ?_⟩)
    exact absurd (toCredits_mono nothing converted nonneg) (not_le.mpr negative)
  · exact .inl zero
  · refine .inr (.inl ⟨isPositive, lt_of_not_ge fun nonpos => ?_⟩)
    exact absurd (toCredits_mono converted nothing nonpos) (not_le.mpr isPositive)

/-- **Credits are rounded once**, to the nearest step, for every amount and credit value. -/
theorem rounds_credits (creditValue : Money) : RoundsCredits creditValue where
  fails := fun _ => toCredits_error_iff
  nearest := by
    intro amount credits converted
    obtain ⟨_, _, isCredits⟩ := toCredits_eq_ok.mp converted
    rw [isCredits]
    exact roundDp_nearest _ _
  grows := fun _ _ _ _ => toCredits_mono
  sign := fun _ _ => toCredits_sign
  priced := by
    intro usage card result computed
    obtain ⟨costs, isPrice, converted⟩ := priceUsage_eq_ok computed
    have near := toCredits_error_le converted
    refine ⟨_, costs, ?_⟩
    rw [isPrice, applyMargin, Money.scaleBy, mul_comm] at near
    exact near
  total := fun _ _ prices _ => rounding_drift prices
  simulated := by
    intro usages current proposed summary computed
    obtain ⟨before, after, prices, prices', isBefore, isAfter, rfl, rfl⟩ :=
      simulateRerate_spec computed
    rw [isBefore, isAfter]
    refine ⟨fun credits converted => ?_, fun credits converted => ?_⟩
    · have drift := rounding_drift prices converted
      rwa [List.length_map] at drift
    · have drift := rounding_drift prices' converted
      rwa [List.length_map] at drift

/-- A tie goes to the even multiple, down and up. -/
example : (roundDp (5 / 10 ^ 6) 5, roundDp (15 / 10 ^ 6) 5, roundDp (-15 / 10 ^ 6) 5) =
    (0, 2 / 10 ^ 5, -2 / 10 ^ 5) := by
  decide +kernel

end Meter.Pricing
