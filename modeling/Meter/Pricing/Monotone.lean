/-
**Prices that grow with usage.**

More units cost at least as much under every charge model but one: a volume schedule prices all units
at the tier where the quantity lands, so it is monotone if the price does not fall from tier to tier.
The sum over dimensions, the margin and the rounding keep the order.

* `charge_mono` — **more units of one component cost no less**, if the component is `Rising`.
* `RateCard.charged` — what a card charges for a line, and zero if it does not price it;
  `cost_of_covered` and `charged_mono` are all that later proofs need of it.
-/

import Meter.Pricing.Card
import Meter.Pricing.Rounding

namespace Meter.Pricing

open Meter.Lib

/-! ### One component -/

/-- The prices of the tiers are in the currency and not negative, and those of a volume schedule do
not fall. -/
def PriceComponent.Rising (currency : Currency) (component : PriceComponent) : Prop :=
  match component.chargeModel with
  | .graduated tiers => InCurrency currency tiers ∧ TiersNonneg tiers
  | .volume tiers => InCurrency currency tiers ∧ TiersNonneg tiers ∧
      (tierPrices tiers).IsChain (· ≤ ·)
  | .standard | .package _ => True

/-- A graduated schedule without negative prices accrues. -/
theorem accrues_of_nonneg {tiers : List PriceTier} (stacked : Stacked 0 (bands 0 tiers))
    (prices : TiersNonneg tiers) : Accrues 0 (bands 0 tiers) := by
  refine (stacked.accrues_iff le_rfl).mp fun stop _ => ?_
  rw [zero_add]
  refine marginal_nonneg (fun band member => ?_) _ _
  obtain ⟨tier, inside, price⟩ := price_of_bands member
  rw [price]
  exact prices tier inside

theorem PriceComponent.Rising.sound {currency : Currency} {component : PriceComponent}
    (valid : component.Valid currency) (rising : component.Rising currency) :
    component.Sound currency := by
  have model := valid.model
  unfold PriceComponent.validate at model
  unfold PriceComponent.Rising at rising
  unfold PriceComponent.Sound
  cases isModel : component.chargeModel with
  | standard | package _ => trivial
  | graduated tiers =>
    rw [isModel] at model rising
    exact ⟨rising.1, accrues_of_nonneg ((validateTiers_iff tiers).mp model) rising.2⟩
  | volume tiers =>
    rw [isModel] at rising
    exact ⟨rising.1, rising.2.1⟩

/-- All units at a price no tier undercuts. -/
theorem le_volumeCharge {tiers : List PriceTier} {price quantity : Decimal} {charged : Money}
    (nonneg : 0 ≤ quantity) (prices : ∀ tier ∈ tiers, price ≤ tier.unitPrice.amount)
    (computed : volumeCharge tiers quantity = .ok charged) : price * quantity ≤ charged.amount := by
  induction tiers with
  | nil => cases computed
  | cons tier rest ih =>
    obtain ⟨here, later⟩ := List.forall_mem_cons.mp prices
    have atTier := mul_le_mul_of_nonneg_right here nonneg
    rw [volumeCharge] at computed
    split at computed
    · split at computed
      · cases computed
        exact atTier
      · exact ih later computed
    · cases computed
      exact atTier

theorem volumeCharge_mono {tiers : List PriceTier} {first second : Decimal} {less more : Money}
    (prices : TiersNonneg tiers) (rising : (tierPrices tiers).IsChain (· ≤ ·))
    (nonneg : 0 ≤ first) (ordered : first ≤ second) (charged : volumeCharge tiers first = .ok less)
    (charged' : volumeCharge tiers second = .ok more) : less.amount ≤ more.amount := by
  rw [List.isChain_iff_pairwise, tierPrices, List.pairwise_map] at rising
  induction tiers with
  | nil => cases charged
  | cons tier rest ih =>
    obtain ⟨here, later⟩ := List.forall_mem_cons.mp prices
    obtain ⟨above, onward⟩ := List.pairwise_cons.mp rising
    have flat : (tier.unitPrice.scaleBy first).amount ≤ tier.unitPrice.amount * second :=
      mul_le_mul_of_nonneg_left ordered here
    obtain ⟨upTo, unitPrice⟩ := tier
    cases upTo with
    | none =>
      cases charged
      cases charged'
      exact flat
    | some upper =>
      change (if first ≤ upper then _ else _) = _ at charged
      change (if second ≤ upper then _ else _) = _ at charged'
      by_cases inside : second ≤ upper
      · rw [if_pos (ordered.trans inside)] at charged
        rw [if_pos inside] at charged'
        cases charged
        cases charged'
        exact flat
      · rw [if_neg inside] at charged'
        by_cases before : first ≤ upper
        · rw [if_pos before] at charged
          cases charged
          exact flat.trans (le_volumeCharge (nonneg.trans ordered) above charged')
        · rw [if_neg before] at charged
          exact ih later onward charged charged'

/-- **More units of one component cost no less.** -/
theorem charge_mono {currency : Currency} {component : PriceComponent}
    (valid : component.Valid currency) (rising : component.Rising currency)
    {first second : Decimal} (ordered : first ≤ second) {less more : Money}
    (charged : component.charge first = .ok less) (charged' : component.charge second = .ok more) :
    less.amount ≤ more.amount := by
  have model := valid.model
  have grown : max first 0 ≤ max second 0 := max_le_max_right 0 ordered
  unfold PriceComponent.charge at charged charged'
  unfold PriceComponent.validate at model
  unfold PriceComponent.Rising at rising
  cases isModel : component.chargeModel with
  | standard =>
    rw [isModel] at charged charged'
    cases charged
    cases charged'
    exact mul_le_mul_of_nonneg_left grown valid.nonneg
  | graduated tiers =>
    rw [isModel] at charged charged' model rising
    dsimp only at charged charged'
    rw [graduatedCharge_eq model rising.1] at charged charged'
    cases charged
    cases charged'
    refine monotone_marginal (fun band member => ?_) grown
    obtain ⟨tier, inside, price⟩ := price_of_bands member
    rw [price]
    exact rising.2 tier inside
  | volume tiers =>
    rw [isModel] at charged charged' rising
    exact volumeCharge_mono rising.2.1 rising.2.2 (le_max_right _ _) grown charged charged'
  | package size =>
    rw [isModel] at charged charged'
    dsimp only at charged charged'
    unfold PriceComponent.packageCharge at charged charged'
    split at charged
    · cases charged
    rename_i positive
    rw [if_neg positive] at charged'
    cases charged
    cases charged'
    refine mul_le_mul_of_nonneg_left ?_ valid.nonneg
    have packages := Int.ceil_mono (div_le_div_of_nonneg_right grown (not_le.mp positive).le)
    exact_mod_cast packages

/-! ### A card -/

/-- No component of the card charges less for more. -/
def RateCard.Rising (card : RateCard) : Prop :=
  ∀ component ∈ card.components, component.Rising card.currency

/-- What a card charges for a line, and zero for one that it does not price. -/
def RateCard.charged (card : RateCard) (modality : Modality) (contextTier : ContextTier)
    (line : PricingDimension × Decimal) : Decimal :=
  match card.component line.1 modality contextTier with
  | none => 0
  | some component => match component.charge line.2 with
    | .ok money => money.amount
    | .error _ => 0

section Cards

variable {card : RateCard} (accepted : card.validate = .ok ()) (rising : card.Rising)
include accepted rising

/-- A line that is covered is charged. -/
theorem charges_of_covered {usage : Usage} {line : PricingDimension × Decimal}
    (covered : (card.component line.1 usage.modality usage.contextTier).isSome) :
    card.Charges usage line (card.charged usage.modality usage.contextTier line) := by
  obtain ⟨component, found⟩ := Option.isSome_iff_exists.mp covered
  have member := List.mem_of_find?_eq_some found
  have valid := (RateCard.validate_iff.mp accepted).1 component member
  have sound := (rising component member).sound valid
  obtain ⟨amount, _, charged⟩ := (charges_iff valid).mpr sound line.2
  refine ⟨component, found, ?_⟩
  rw [RateCard.charged, found]
  dsimp only
  rw [charged]

/-- **More of a line is charged no less.** -/
theorem charged_mono (modality : Modality) (contextTier : ContextTier)
    (dimension : PricingDimension) {first second : Decimal} (ordered : first ≤ second) :
    card.charged modality contextTier (dimension, first) ≤
      card.charged modality contextTier (dimension, second) := by
  rw [RateCard.charged, RateCard.charged]
  cases found : card.component dimension modality contextTier with
  | none => exact le_rfl
  | some component =>
    have member := List.mem_of_find?_eq_some found
    have valid := (RateCard.validate_iff.mp accepted).1 component member
    have always := (charges_iff valid).mpr ((rising component member).sound valid)
    obtain ⟨less, _, charged⟩ := always first
    obtain ⟨more, _, charged'⟩ := always second
    dsimp only
    rw [charged, charged']
    exact charge_mono valid (rising component member) ordered charged charged'

/-- **The cost of covered usage** is the sum over its lines. -/
theorem cost_of_covered {usage : Usage} (covered : card.Covers usage) :
    cost usage card = .ok ⟨(usage.quantities.map
      (card.charged usage.modality usage.contextTier)).sum, card.currency⟩ :=
  cost_of_lines fun line member => charges_of_covered accepted rising (covered line member)

end Cards

end Meter.Pricing
