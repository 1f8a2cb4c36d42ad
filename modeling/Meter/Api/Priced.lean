/-
**Which tokens are priced** (`crates/meter-api/src/dto.rs`).

Five token counts are reported, recorded on the event and counted in the rollup. `to_usage` prices
four of them: it leaves out counts of zero, which cost nothing, and the reasoning tokens.

* `charged_zero` — **a zero count costs nothing**, whatever the charge model.
* `sum_charged` — the lines that are priced add up to the charges of the four counts.
* `costLoop_charged` — a cost that was computed is the sum of what the components charge.
* `priced_all_iff` — **all five counts are priced exactly if the reasoning tokens cost nothing**.
-/

import Meter.Api.Usage
import Meter.Pricing.Monotone

namespace Meter.Api

open Meter.Lib Meter.Pricing

/-! ### Zero counts -/

theorem volumeCharge_at_zero {tiers : List PriceTier} {charged : Money}
    (computed : volumeCharge tiers 0 = .ok charged) : charged.amount = 0 := by
  induction tiers with
  | nil => cases computed
  | cons tier rest ih =>
    rw [volumeCharge] at computed
    split at computed
    · split at computed
      · cases computed
        exact mul_zero _
      · exact ih computed
    · cases computed
      exact mul_zero _

theorem graduatedCharge_at_zero {tiers : List PriceTier} {charged : Money}
    (computed : graduatedCharge tiers 0 = .ok charged) : charged.amount = 0 := by
  cases tiers with
  | nil => cases computed
  | cons tier rest =>
    cases computed
    rfl

/-- A component charges nothing for nothing. -/
theorem charge_zero {component : PriceComponent} {charged : Money}
    (computed : component.charge 0 = .ok charged) : charged.amount = 0 := by
  unfold PriceComponent.charge at computed
  rw [max_self] at computed
  cases isModel : component.chargeModel with
  | standard =>
    rw [isModel] at computed
    cases computed
    exact mul_zero _
  | graduated tiers =>
    rw [isModel] at computed
    exact graduatedCharge_at_zero computed
  | volume tiers =>
    rw [isModel] at computed
    exact volumeCharge_at_zero computed
  | package size =>
    rw [isModel] at computed
    dsimp only at computed
    unfold PriceComponent.packageCharge at computed
    split at computed
    · cases computed
    · cases computed
      show component.unitPrice.amount * ((⌈(0 : Decimal) / size⌉ : ℤ) : Decimal) = 0
      rw [zero_div, Int.ceil_zero, Int.cast_zero, mul_zero]

/-- **A zero count costs nothing.** -/
theorem charged_zero (card : RateCard) (modality : Modality) (contextTier : ContextTier)
    (dimension : PricingDimension) : card.charged modality contextTier (dimension, 0) = 0 := by
  rw [RateCard.charged]
  cases card.component dimension modality contextTier with
  | none => rfl
  | some component =>
    dsimp only
    cases computed : component.charge 0 with
    | error error => rfl
    | ok money => exact charge_zero computed

/-! ### The four counts that are priced -/

/-- What a card charges for a count of text tokens. -/
def countCharge (card : RateCard) (dimension : PricingDimension) (count : UInt64) : Decimal :=
  card.charged .text .standard (dimension, count.toNat)

/-- The lines that are priced add up to the charges of the four counts: a zero count is left out,
and would have cost nothing. -/
theorem sum_charged (card : RateCard) (counts : UsageDimensions) :
    (counts.toUsage.quantities.map (card.charged .text .standard)).sum =
      countCharge card .inputUncached counts.inputUncached +
        (countCharge card .cacheRead counts.cacheRead +
          (countCharge card .cacheWrite counts.cacheWrite +
            (countCharge card .output counts.output + 0))) := by
  have leftOut : ∀ (dimension : PricingDimension) (count : UInt64),
      (if 0 < count then card.charged .text .standard (dimension, count.toNat) else 0) =
        countCharge card dimension count := by
    intro dimension count
    by_cases counted : 0 < count
    · rw [if_pos counted, countCharge]
    · have zero : count = 0 := by
        rw [← UInt64.toNat_inj, UInt64.toNat_zero]
        rw [UInt64.lt_iff_toNat_lt, UInt64.toNat_zero] at counted
        omega
      rw [if_neg counted, countCharge, zero]
      exact (charged_zero card _ _ dimension).symm
  rw [UsageDimensions.toUsage, List.map_map, Table.sum_filter_map]
  simp only [decide_eq_true_eq, List.map_cons, List.map_nil, List.sum_cons, List.sum_nil]
  rw [← leftOut, ← leftOut, ← leftOut, ← leftOut]
  rfl

/-- The counts are covered if every positive one is. -/
theorem covers_iff (card : RateCard) (counts : UsageDimensions) :
    card.Covers counts.toUsage ↔
      (0 < counts.inputUncached → (card.component .inputUncached .text .standard).isSome) ∧
      (0 < counts.cacheRead → (card.component .cacheRead .text .standard).isSome) ∧
      (0 < counts.cacheWrite → (card.component .cacheWrite .text .standard).isSome) ∧
      (0 < counts.output → (card.component .output .text .standard).isSome) := by
  unfold RateCard.Covers UsageDimensions.toUsage
  simp only [List.forall_mem_map, List.mem_filter, decide_eq_true_eq, and_imp,
    List.forall_mem_cons]
  simp

/-! ### A cost that was computed -/

/-- **A cost that was computed is the sum of what the components charge.** -/
theorem costLoop_charged {usage : Usage} {card : RateCard}
    {lines : List (PricingDimension × Decimal)} {total cogs : Money}
    (computed : costLoop usage card lines total = .ok cogs) :
    (∀ line ∈ lines, ∃ component money,
      card.component line.1 usage.modality usage.contextTier = some component ∧
        component.charge line.2 = .ok money) ∧
    cogs.amount =
      total.amount + (lines.map (card.charged usage.modality usage.contextTier)).sum := by
  induction lines generalizing total with
  | nil =>
    cases computed
    exact ⟨fun _ member => absurd member List.not_mem_nil, (add_zero _).symm⟩
  | cons line rest ih =>
    obtain ⟨component, found, computed⟩ := ok_of_bind computed
    obtain ⟨money, charged, computed⟩ := ok_of_bind computed
    obtain ⟨total', added, computed⟩ := ok_of_bind computed
    cases isComponent : card.component line.1 usage.modality usage.contextTier with
    | none =>
      rw [isComponent] at found
      cases found
    | some priced =>
      rw [isComponent] at found
      cases found
      have here : card.charged usage.modality usage.contextTier line = money.amount := by
        rw [RateCard.charged, isComponent]
        dsimp only
        rw [charged]
      have grown : total'.amount = total.amount + money.amount := by
        unfold Money.tryAdd at added
        split at added
        · cases added
        · cases added
          rfl
      obtain ⟨later, sum⟩ := ih computed
      refine ⟨List.forall_mem_cons.mpr ⟨⟨component, money, isComponent, charged⟩, later⟩, ?_⟩
      rw [sum, grown, List.map_cons, List.sum_cons, here, add_assoc]

/-! ### All five counts -/

/-- The five reported counts. -/
def UsageDimensions.reported (counts : UsageDimensions) : List (PricingDimension × UInt64) :=
  [(.inputUncached, counts.inputUncached), (.cacheRead, counts.cacheRead),
    (.cacheWrite, counts.cacheWrite), (.output, counts.output),
    (.reasoningOutput, counts.reasoning)]

/-- What the component of a dimension charges for a count, if it can. -/
def RateCard.chargeOf (card : RateCard) (line : PricingDimension × UInt64) : Option Money :=
  (card.component line.1 .text .standard).bind fun component =>
    (component.charge line.2.toNat).toOption

theorem countCharge_of_chargeOf {card : RateCard} {line : PricingDimension × UInt64} {money : Money}
    (charges : RateCard.chargeOf card line = some money) :
    countCharge card line.1 line.2 = money.amount := by
  obtain ⟨component, found, charged⟩ := Option.bind_eq_some_iff.mp charges
  rw [countCharge, RateCard.charged, found]
  dsimp only
  cases computed : component.charge line.2.toNat with
  | error error =>
    rw [computed] at charged
    cases charged
  | ok other =>
    rw [computed] at charged
    cases charged
    rfl

/-- A line of the usage is a positive count. -/
theorem mem_toUsage {counts : UsageDimensions} {line : PricingDimension × UInt64}
    (member : line ∈ counts.reported) (priced : line.1 ≠ .reasoningOutput) (counted : line.2 ≠ 0) :
    (line.1, (line.2.toNat : Decimal)) ∈ counts.toUsage.quantities := by
  have positive : 0 < line.2 := by
    rw [UInt64.lt_iff_toNat_lt, UInt64.toNat_zero]
    exact Nat.pos_of_ne_zero fun zero => counted (UInt64.toNat_inj.mp zero)
  refine List.mem_map.mpr ⟨line, List.mem_filter.mpr ⟨?_, decide_eq_true positive⟩, rfl⟩
  simp only [UsageDimensions.reported, List.mem_cons, List.not_mem_nil, or_false] at member ⊢
  rcases member with rfl | rfl | rfl | rfl | rfl
  · exact .inl rfl
  · exact .inr (.inl rfl)
  · exact .inr (.inr (.inl rfl))
  · exact .inr (.inr (.inr rfl))
  · exact absurd rfl priced

/-- On an accepted card no component fails on a zero count. -/
theorem chargeOf_zero {card : RateCard} (accepted : card.validate = .ok ())
    {dimension : PricingDimension} (found : (card.component dimension .text .standard).isSome) :
    (RateCard.chargeOf card (dimension, 0)).isSome := by
  obtain ⟨component, isComponent⟩ := Option.isSome_iff_exists.mp found
  have member := List.mem_of_find?_eq_some isComponent
  have model := ((RateCard.validate_iff.mp accepted).1 component member).model
  have charged : ∃ money, component.charge 0 = .ok money := by
    unfold PriceComponent.validate at model
    unfold PriceComponent.charge
    rw [max_self]
    cases isModel : component.chargeModel with
    | standard => exact ⟨_, rfl⟩
    | graduated tiers =>
      rw [isModel] at model
      cases tiers with
      | nil => cases model
      | cons tier rest => exact ⟨_, rfl⟩
    | volume tiers =>
      rw [isModel] at model
      cases tiers with
      | nil => cases model
      | cons tier rest =>
        have stacked := (validateTiers_iff (tier :: rest)).mp model
        obtain ⟨upTo, unitPrice⟩ := tier
        rcases cases_of_stacked stacked with ⟨unbounded, _⟩ | ⟨upper, bounded, above, _⟩
        · cases unbounded
          exact ⟨_, rfl⟩
        · cases bounded
          exact ⟨_, if_pos above.le⟩
    | package size =>
      rw [isModel] at model
      by_cases positive : 0 < size
      · exact ⟨_, if_neg (not_le.mpr positive)⟩
      · change (if 0 < size then _ else _) = _ at model
        rw [if_neg positive] at model
        cases model
  obtain ⟨money, charged⟩ := charged
  have zero : component.charge ((0 : UInt64).toNat : Decimal) = .ok money := by
    rw [UInt64.toNat_zero, Nat.cast_zero]
    exact charged
  show ((card.component dimension .text .standard).bind _).isSome
  rw [isComponent, Option.bind_some]
  show (component.charge ((0 : UInt64).toNat : Decimal)).toOption.isSome
  rw [zero]
  rfl

/-- What was priced: the charges of the four counts, and those of the positive ones are defined. -/
theorem priced_four {env : Env} {model : String} {rateCardId : Option String}
    {counts : UsageDimensions} {card : RateCard} {priced : PricedUsage}
    (computed : price env model rateCardId counts = .ok (card, priced)) :
    priced.cogs.amount = countCharge card .inputUncached counts.inputUncached +
      (countCharge card .cacheRead counts.cacheRead +
        (countCharge card .cacheWrite counts.cacheWrite +
          (countCharge card .output counts.output + 0))) ∧
    ∀ line ∈ counts.reported, line.1 ≠ .reasoningOutput → line.2 ≠ 0 →
      (RateCard.chargeOf card line).isSome := by
  obtain ⟨_, _, computed⟩ := ok_of_bind computed
  obtain ⟨result, computed', same⟩ := ok_of_bind computed
  cases same
  cases isPriced : priceUsage counts.toUsage card env.creditValue with
  | error error =>
    rw [isPriced] at computed'
    cases computed'
  | ok value =>
    rw [isPriced] at computed'
    cases computed'
    obtain ⟨cogs, costs, rest⟩ := ok_of_bind isPriced
    obtain ⟨credits, _, rest⟩ := ok_of_bind rest
    cases rest
    obtain ⟨lines, sum⟩ := costLoop_charged costs
    refine ⟨?_, fun line member isPriced counted => ?_⟩
    · rw [sum, ← sum_charged]
      exact zero_add _
    · obtain ⟨component, money, found, charged⟩ := lines _ (mem_toUsage member isPriced counted)
      have isComponent : card.component line.1 .text .standard = some component := found
      rw [RateCard.chargeOf, isComponent, Option.bind_some, charged]
      rfl

/-- The five charges, if they are defined, add up to what was priced and the reasoning tokens. -/
theorem sum_reported (card : RateCard) (counts : UsageDimensions)
    {money : PricingDimension × UInt64 → Money}
    (charges : ∀ line ∈ counts.reported, RateCard.chargeOf card line = some (money line)) :
    (counts.reported.map fun line => (money line).amount).sum =
      (countCharge card .inputUncached counts.inputUncached +
        (countCharge card .cacheRead counts.cacheRead +
          (countCharge card .cacheWrite counts.cacheWrite +
            (countCharge card .output counts.output + 0)))) +
      countCharge card .reasoningOutput counts.reasoning := by
  have amounts : ∀ line ∈ counts.reported, countCharge card line.1 line.2 = (money line).amount :=
    fun line member => countCharge_of_chargeOf (charges line member)
  rw [← List.map_congr_left amounts]
  show _ + (_ + (_ + (_ + (_ + 0)))) = _
  ring

theorem reported_reasoning {counts : UsageDimensions} {line : PricingDimension × UInt64}
    (member : line ∈ counts.reported) (isReasoning : line.1 = .reasoningOutput) :
    line = (.reasoningOutput, counts.reasoning) := by
  simp only [UsageDimensions.reported, List.mem_cons, List.not_mem_nil, or_false] at member
  rcases member with rfl | rfl | rfl | rfl | rfl
  · cases isReasoning
  · cases isReasoning
  · cases isReasoning
  · cases isReasoning
  · rfl

/-- **When all reported tokens are priced.** The cost of usage that `POST /v1/usage` prices is the sum
of what the components charge for all five reported counts, exactly if the reasoning component charges
nothing for the reasoning tokens and no component fails on a zero count. On an accepted card that has
the five components, the latter does not happen. -/
theorem priced_all_iff {env : Env} {model : String} {rateCardId : Option String}
    {counts : UsageDimensions} {card : RateCard} {priced : PricedUsage}
    (computed : price env model rateCardId counts = .ok (card, priced)) :
    ((∃ money : PricingDimension × UInt64 → Money,
      (∀ line ∈ counts.reported, RateCard.chargeOf card line = some (money line)) ∧
        priced.cogs.amount = (counts.reported.map fun line => (money line).amount).sum) ↔
      (∃ money, RateCard.chargeOf card (.reasoningOutput, counts.reasoning) = some money ∧
        money.amount = 0) ∧
      ∀ line ∈ counts.reported, line.2 = 0 → (RateCard.chargeOf card line).isSome) ∧
    (card.validate = .ok () →
      (∀ line ∈ counts.reported, (card.component line.1 .text .standard).isSome) →
      ∀ line ∈ counts.reported, line.2 = 0 → (RateCard.chargeOf card line).isSome) := by
  obtain ⟨four, positive⟩ := priced_four computed
  have reasoning : (PricingDimension.reasoningOutput, counts.reasoning) ∈ counts.reported := by
    simp [UsageDimensions.reported]
  refine ⟨⟨fun ⟨money, charges, total⟩ => ?_, fun ⟨⟨free, isFree, nothing⟩, zeros⟩ => ?_⟩,
    fun accepted components line member zero => ?_⟩
  · refine ⟨⟨_, charges _ reasoning, ?_⟩, fun line member _ => ?_⟩
    · rw [sum_reported card counts charges, ← four] at total
      rw [← countCharge_of_chargeOf (charges _ reasoning)]
      exact left_eq_add.mp total
    · rw [charges line member]
      rfl
  · have charges : ∀ line ∈ counts.reported, RateCard.chargeOf card line =
        some ((RateCard.chargeOf card line).getD free) := by
      intro line member
      have defined : (RateCard.chargeOf card line).isSome := by
        by_cases zero : line.2 = 0
        · exact zeros line member zero
        by_cases isReasoning : line.1 = .reasoningOutput
        · rw [reported_reasoning member isReasoning, isFree]
          rfl
        · exact positive line member isReasoning zero
      obtain ⟨money, charged⟩ := Option.isSome_iff_exists.mp defined
      rw [charged, Option.getD_some]
    have last : countCharge card .reasoningOutput counts.reasoning = free.amount :=
      countCharge_of_chargeOf isFree
    refine ⟨_, charges, ?_⟩
    rw [sum_reported card counts charges, ← four, last, nothing, add_zero]
  · obtain ⟨dimension, count⟩ := line
    cases show count = 0 from zero
    exact chargeOf_zero accepted (components _ member)

/-- A card with the same flat price for each of the five counts. -/
def flatCard : RateCard where
  id := 0
  kind := .customer
  currency := ⟨"USD"⟩
  version := 1
  margin := 1
  components := [.inputUncached, .cacheRead, .cacheWrite, .output, .reasoningOutput].map
    fun dimension => ⟨dimension, .text, .standard, .token, .standard, ⟨1, ⟨"USD"⟩⟩⟩

/-- Handlers whose catalog has that card for every model. -/
def flatEnv : Env where
  idempotentEventId _ _ := 0
  rateCardFor _ := some flatCard
  loadStoredCard _ := .error (.notFound "unknown rate card")
  creditValue := ⟨1, ⟨"USD"⟩⟩
  showDecimal _ := ""
  parseDecimal _ := none
  parseUuid _ := none

/-- Without reasoning tokens all counts are priced. -/
theorem priced_all_iff_output : ∃ card priced,
    price flatEnv "gpt" none ⟨0, 0, 0, 7, 0⟩ = .ok (card, priced) ∧
      ∃ money : PricingDimension × UInt64 → Money,
        (∀ line ∈ UsageDimensions.reported ⟨0, 0, 0, 7, 0⟩,
          RateCard.chargeOf card line = some (money line)) ∧
        priced.cogs.amount = ((UsageDimensions.reported ⟨0, 0, 0, 7, 0⟩).map
          fun line => (money line).amount).sum := by
  have computed : price flatEnv "gpt" none ⟨0, 0, 0, 7, 0⟩ =
      .ok (flatCard, ⟨⟨7, ⟨"USD"⟩⟩, ⟨7, ⟨"USD"⟩⟩, 7⟩) := by decide +kernel
  refine ⟨_, _, computed, (priced_all_iff computed).1.mpr ⟨⟨⟨0, ⟨"USD"⟩⟩, ?_, rfl⟩, ?_⟩⟩
  · decide +kernel
  · decide +kernel

/-- Seven reasoning tokens are priced at nothing, though the card prices them at one each. -/
theorem reasoning_unpriced : ∃ priced,
    price flatEnv "gpt" none ⟨0, 0, 0, 0, 7⟩ = .ok (flatCard, priced) ∧
      flatCard.validate = .ok () ∧
      (∀ line ∈ UsageDimensions.reported ⟨0, 0, 0, 0, 7⟩,
        (flatCard.component line.1 .text .standard).isSome) ∧
      priced.cogs.amount = 0 ∧
      RateCard.chargeOf flatCard (.reasoningOutput, 7) = some ⟨7, ⟨"USD"⟩⟩ ∧
      ¬ ∃ money : PricingDimension × UInt64 → Money,
        (∀ line ∈ UsageDimensions.reported ⟨0, 0, 0, 0, 7⟩,
          RateCard.chargeOf flatCard line = some (money line)) ∧
        priced.cogs.amount = ((UsageDimensions.reported ⟨0, 0, 0, 0, 7⟩).map
          fun line => (money line).amount).sum := by
  refine ⟨⟨⟨0, ⟨"USD"⟩⟩, ⟨0, ⟨"USD"⟩⟩, 0⟩, by decide +kernel, by decide +kernel, by decide +kernel, rfl,
    by decide +kernel, ?_⟩
  rintro ⟨money, charges, total⟩
  rw [sum_reported flatCard _ charges] at total
  exact absurd total (by decide +kernel)

end Meter.Api
