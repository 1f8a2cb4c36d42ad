/-
**Rate cards and prices** (`crates/meter-pricing`, `crates/meter-core/src/money.rs`).

A rate card prices quantities along dimensions; `priceUsage` turns usage into a cost, a customer price
and the credits to charge, rounded once. Decimals are taken as the rationals they denote: division is
exact, nothing is rounded to 28 digits, nothing overflows, and `roundDp` is the only rounding.

`priceUsage_nonneg` — **nonnegative prices give nonnegative credits**, whatever the charge models.
-/

import Meter.Core
import Mathlib.Data.Rat.Floor
import Mathlib.Algebra.Order.Floor.Ring

namespace Meter.Pricing

/-- An exact decimal. -/
abbrev Decimal := ℚ

/-! ### Money -/

/-- A currency code. -/
structure Currency where
  code : String
  deriving DecidableEq

/-- An amount in a currency. -/
structure Money where
  amount : Decimal
  currency : Currency
  deriving DecidableEq

inductive MoneyError where
  | currencyMismatch (left right : Currency)
  deriving DecidableEq

def Money.zero (currency : Currency) : Money := ⟨0, currency⟩

/-- Add two amounts of one currency. -/
def Money.tryAdd (first second : Money) : Except MoneyError Money :=
  if first.currency ≠ second.currency then
    .error (.currencyMismatch first.currency second.currency)
  else .ok ⟨first.amount + second.amount, first.currency⟩

def Money.scaleBy (money : Money) (factor : Decimal) : Money :=
  ⟨money.amount * factor, money.currency⟩

/-! ### Dimensions -/

/-- A priceable dimension. -/
inductive PricingDimension where
  | inputUncached
  | cacheRead
  | cacheWrite
  | output
  | reasoningOutput
  | toolCall
  | webSearch
  deriving DecidableEq

/-- The name a dimension prints as. -/
def PricingDimension.name : PricingDimension → String
  | .inputUncached => "InputUncached"
  | .cacheRead => "CacheRead"
  | .cacheWrite => "CacheWrite"
  | .output => "Output"
  | .reasoningOutput => "ReasoningOutput"
  | .toolCall => "ToolCall"
  | .webSearch => "WebSearch"

inductive Modality where
  | text
  | image
  | audio
  | video
  | none
  deriving DecidableEq

inductive ContextTier where
  | standard
  | long200k
  | long1m
  deriving DecidableEq

/-- What a component is priced per. -/
inductive PricingUnit where
  | token
  | char
  | image
  | second
  | call
  deriving DecidableEq

inductive PricingError where
  | noComponent (dimension : PricingDimension)
  | currencyMismatch
  | nonPositiveCreditValue
  | invalidTierSchedule
  | invalidPackageSize
  | negativePrice (dimension : PricingDimension)
  | duplicateComponent (dimension : PricingDimension)
  deriving DecidableEq

def PricingError.message : PricingError → String
  | .noComponent dimension => "no price component for dimension " ++ dimension.name ++
      " at the given modality and context tier"
  | .currencyMismatch => "currency mismatch in pricing"
  | .nonPositiveCreditValue => "credit value must be positive"
  | .invalidTierSchedule =>
      "invalid tier schedule: must be ascending and end with an unbounded tier"
  | .invalidPackageSize => "invalid package size: must be positive"
  | .negativePrice dimension => "negative unit price for dimension " ++ dimension.name
  | .duplicateComponent dimension => "duplicate price component for dimension " ++ dimension.name

/-! ### Components -/

/-- One band of a tiered charge, up to an inclusive bound or unbounded. -/
structure PriceTier where
  upTo : Option Decimal
  unitPrice : Money
  deriving DecidableEq

/-- How a component computes its charge from a quantity. -/
inductive ChargeModel where
  | standard
  | graduated (tiers : List PriceTier)
  | volume (tiers : List PriceTier)
  | package (size : Decimal)
  deriving DecidableEq

/-- One priced cell. -/
structure PriceComponent where
  dimension : PricingDimension
  modality : Modality
  contextTier : ContextTier
  unit : PricingUnit
  chargeModel : ChargeModel
  unitPrice : Money
  deriving DecidableEq

def PriceComponent.Prices (component : PriceComponent) (dimension : PricingDimension)
    (modality : Modality) (contextTier : ContextTier) : Prop :=
  component.dimension = dimension ∧ component.modality = modality ∧
    component.contextTier = contextTier

instance (component : PriceComponent) (dimension : PricingDimension) (modality : Modality)
    (contextTier : ContextTier) : Decidable (component.Prices dimension modality contextTier) :=
  inferInstanceAs (Decidable (_ ∧ _ ∧ _))

/-- The currency of a schedule: its first tier's. -/
def scheduleCurrency (tiers : List PriceTier) : Except PricingError Currency :=
  (tiers.head?.map fun tier => tier.unitPrice.currency).elim (.error .invalidTierSchedule) .ok

/-- The units that a tier can take: a bounded band must extend above the previous bound. -/
def tierBand (tier : PriceTier) (lower remaining : Decimal) : Except PricingError Decimal :=
  match tier.upTo with
  | some upper => if lower < upper then .ok (upper - lower) else .error .invalidTierSchedule
  | none => .ok remaining

/-- The loop of `graduated_charge`: the total so far, the last bound, and the units left. -/
def graduatedLoop : List PriceTier → Money → Decimal → Decimal → Except PricingError (Money × Decimal)
  | [], total, _, remaining => .ok (total, remaining)
  | tier :: tiers, total, lower, remaining =>
    if remaining ≤ 0 then .ok (total, remaining)
    else do
      let band ← tierBand tier lower remaining
      let quantity := min remaining band
      let total ← (total.tryAdd (tier.unitPrice.scaleBy quantity)).mapError
        fun _ => PricingError.currencyMismatch
      graduatedLoop tiers total (tier.upTo.getD lower) (remaining - quantity)

/-- Graduated pricing: each tier prices only the units inside its band. -/
def graduatedCharge (tiers : List PriceTier) (quantity : Decimal) : Except PricingError Money := do
  let currency ← scheduleCurrency tiers
  let (total, remaining) ← graduatedLoop tiers (Money.zero currency) 0 quantity
  if remaining ≤ 0 then .ok total else .error .invalidTierSchedule

/-- Volume pricing: the one tier that the whole quantity lands in prices every unit. -/
def volumeCharge : List PriceTier → Decimal → Except PricingError Money
  | [], _ => .error .invalidTierSchedule
  | tier :: tiers, quantity => match tier.upTo with
    | some upper =>
      if quantity ≤ upper then .ok (tier.unitPrice.scaleBy quantity) else volumeCharge tiers quantity
    | none => .ok (tier.unitPrice.scaleBy quantity)

/-- Bundled pricing: whole packages, rounded up. -/
def PriceComponent.packageCharge (component : PriceComponent) (size quantity : Decimal) :
    Except PricingError Money :=
  if size ≤ 0 then .error .invalidPackageSize
  else .ok (component.unitPrice.scaleBy ⌈quantity / size⌉)

/-- The charge for a quantity. Negative quantities count as zero. -/
def PriceComponent.charge (component : PriceComponent) (quantity : Decimal) :
    Except PricingError Money :=
  let quantity := max quantity 0
  match component.chargeModel with
  | .standard => .ok (component.unitPrice.scaleBy quantity)
  | .graduated tiers => graduatedCharge tiers quantity
  | .volume tiers => volumeCharge tiers quantity
  | .package size => component.packageCharge size quantity

/-! ### Cards and usage -/

inductive RateCardKind where
  | providerCost
  | customer
  deriving DecidableEq

/-- A versioned rate card, with the multiplier of its margin. -/
structure RateCard where
  id : RateCardId
  kind : RateCardKind
  currency : Currency
  version : Nat
  margin : Decimal
  components : List PriceComponent
  deriving DecidableEq

/-- The component that prices a dimension. -/
def RateCard.component (card : RateCard) (dimension : PricingDimension) (modality : Modality)
    (contextTier : ContextTier) : Option PriceComponent :=
  card.components.find? fun component => component.Prices dimension modality contextTier

/-- The metered quantities of one event. -/
structure Usage where
  modality : Modality
  contextTier : ContextTier
  quantities : List (PricingDimension × Decimal)

/-- The loop of `cost`. -/
def costLoop (usage : Usage) (card : RateCard) :
    List (PricingDimension × Decimal) → Money → Except PricingError Money
  | [], total => .ok total
  | (dimension, quantity) :: rest, total => do
    let component ← (card.component dimension usage.modality usage.contextTier).elim
      (.error (.noComponent dimension)) .ok
    let line ← component.charge quantity
    let total ← (total.tryAdd line).mapError fun _ => PricingError.currencyMismatch
    costLoop usage card rest total

/-- The cost of usage against a card. -/
def cost (usage : Usage) (card : RateCard) : Except PricingError Money :=
  costLoop usage card usage.quantities (Money.zero card.currency)

def applyMargin (cost : Money) (margin : Decimal) : Money := cost.scaleBy margin

/-- The nearest integer, ties to even. -/
def roundHalfEven (value : Decimal) : ℤ :=
  let below := ⌊value⌋
  if value - below < 1 / 2 then below
  else if 1 / 2 < value - below then below + 1
  else if below % 2 = 0 then below else below + 1

/-- Round to a number of decimals, ties to even. -/
def roundDp (value : Decimal) (places : Nat) : Decimal :=
  roundHalfEven (value * 10 ^ places) / 10 ^ places

/-- The decimals of a credit amount. -/
def creditScale : Nat := 5

/-- Convert an amount into credits. -/
def toCredits (amount creditValue : Money) : Except PricingError Credit :=
  if amount.currency ≠ creditValue.currency then .error .currencyMismatch
  else if creditValue.amount ≤ 0 then .error .nonPositiveCreditValue
  else .ok (roundDp (amount.amount / creditValue.amount) creditScale)

/-- The fully priced result of a usage event. -/
structure PricedUsage where
  cogs : Money
  customerPrice : Money
  credits : Credit
  deriving DecidableEq

def priceUsage (usage : Usage) (card : RateCard) (creditValue : Money) :
    Except PricingError PricedUsage := do
  let cogs ← cost usage card
  let customerPrice := applyMargin cogs card.margin
  let credits ← toCredits customerPrice creditValue
  return { cogs, customerPrice, credits }

/-! ### Nonnegative prices -/

/-- No price of the tiers is negative. -/
def TiersNonneg (tiers : List PriceTier) : Prop := ∀ tier ∈ tiers, 0 ≤ tier.unitPrice.amount

def ChargeModel.Nonneg : ChargeModel → Prop
  | .graduated tiers | .volume tiers => TiersNonneg tiers
  | .standard | .package _ => True

/-- No unit price, no tier price and no margin of the card is negative. -/
structure RateCard.Nonneg (card : RateCard) : Prop where
  margin : 0 ≤ card.margin
  unitPrice : ∀ component ∈ card.components, 0 ≤ component.unitPrice.amount
  tiers : ∀ component ∈ card.components, component.chargeModel.Nonneg

theorem Money.scaleBy_nonneg {money : Money} {factor : Decimal} (nonneg : 0 ≤ money.amount)
    (factorNonneg : 0 ≤ factor) : 0 ≤ (money.scaleBy factor).amount :=
  mul_nonneg nonneg factorNonneg

theorem Money.tryAdd_nonneg {first second total : Money} {error : MoneyError → PricingError}
    (added : (first.tryAdd second).mapError error = .ok total) (nonneg : 0 ≤ first.amount)
    (nonneg' : 0 ≤ second.amount) : 0 ≤ total.amount := by
  unfold tryAdd at added
  split at added
  · cases added
  · cases added
    exact add_nonneg nonneg nonneg'

/-- Peel one step off a computation that succeeded. -/
theorem ok_of_bind {ε α β : Type} {first : Except ε α} {rest : α → Except ε β} {result : β}
    (computed : first >>= rest = .ok result) : ∃ value, first = .ok value ∧ rest value = .ok result := by
  cases first with
  | error error => cases computed
  | ok value => exact ⟨value, rfl, computed⟩

theorem graduatedLoop_nonneg {tiers : List PriceTier} (prices : TiersNonneg tiers) :
    ∀ {total : Money} {lower remaining : Decimal} {result : Money × Decimal}, 0 ≤ total.amount →
      graduatedLoop tiers total lower remaining = .ok result → 0 ≤ result.1.amount := by
  induction tiers with
  | nil =>
    rintro total lower remaining _ nonneg ⟨⟩
    exact nonneg
  | cons tier tiers ih =>
    intro total lower remaining result nonneg computed
    rw [graduatedLoop] at computed
    split at computed
    · cases computed
      exact nonneg
    · rename_i positive
      obtain ⟨band, isBand, computed⟩ := ok_of_bind computed
      obtain ⟨total', added, computed⟩ := ok_of_bind computed
      have bandNonneg : 0 ≤ band := by
        unfold tierBand at isBand
        split at isBand
        · split at isBand
          · rename_i above
            cases isBand
            exact (sub_pos.mpr above).le
          · cases isBand
        · cases isBand
          exact (not_le.mp positive).le
      refine ih (fun other inside => prices other (List.mem_cons_of_mem _ inside)) ?_ computed
      exact Money.tryAdd_nonneg added nonneg (Money.scaleBy_nonneg (prices tier List.mem_cons_self)
        (le_min (not_le.mp positive).le bandNonneg))

theorem volumeCharge_nonneg {tiers : List PriceTier} (prices : TiersNonneg tiers) {quantity : Decimal}
    {charged : Money} (nonneg : 0 ≤ quantity) (computed : volumeCharge tiers quantity = .ok charged) :
    0 ≤ charged.amount := by
  induction tiers with
  | nil => cases computed
  | cons tier tiers ih =>
    have here := Money.scaleBy_nonneg (prices tier List.mem_cons_self) nonneg
    rw [volumeCharge] at computed
    split at computed
    · split at computed
      · cases computed
        exact here
      · exact ih (fun other inside => prices other (List.mem_cons_of_mem _ inside)) computed
    · cases computed
      exact here

/-- **A nonnegative component charges nothing negative.** -/
theorem charge_nonneg {component : PriceComponent} (price : 0 ≤ component.unitPrice.amount)
    (tiers : component.chargeModel.Nonneg) {quantity : Decimal} {charged : Money}
    (computed : component.charge quantity = .ok charged) : 0 ≤ charged.amount := by
  have nonneg : (0 : Decimal) ≤ max quantity 0 := le_max_right _ _
  unfold PriceComponent.charge at computed
  cases model : component.chargeModel with
  | standard =>
    simp only [model] at computed
    cases computed
    exact Money.scaleBy_nonneg price nonneg
  | graduated schedule =>
    simp only [model] at computed tiers
    obtain ⟨currency, _, computed⟩ := ok_of_bind computed
    obtain ⟨⟨total, remaining⟩, looped, computed⟩ := ok_of_bind computed
    have totalNonneg := graduatedLoop_nonneg tiers (le_refl (0 : Decimal)) looped
    dsimp only at computed
    split at computed
    · cases computed
      exact totalNonneg
    · cases computed
  | volume schedule =>
    simp only [model] at computed tiers
    exact volumeCharge_nonneg tiers nonneg computed
  | package size =>
    simp only [model] at computed
    unfold PriceComponent.packageCharge at computed
    split at computed
    · cases computed
    · rename_i positive
      cases computed
      refine Money.scaleBy_nonneg price ?_
      have packages : 0 ≤ max quantity 0 / size := div_nonneg nonneg (not_le.mp positive).le
      exact_mod_cast Int.ceil_nonneg packages

theorem costLoop_nonneg {usage : Usage} {card : RateCard} (nonneg : card.Nonneg) :
    ∀ {quantities : List (PricingDimension × Decimal)} {total result : Money}, 0 ≤ total.amount →
      costLoop usage card quantities total = .ok result → 0 ≤ result.amount := by
  intro quantities
  induction quantities with
  | nil =>
    rintro total _ totalNonneg ⟨⟩
    exact totalNonneg
  | cons first rest ih =>
    intro total result totalNonneg computed
    obtain ⟨component, found, computed⟩ := ok_of_bind computed
    obtain ⟨line, charged, computed⟩ := ok_of_bind computed
    obtain ⟨total', added, computed⟩ := ok_of_bind computed
    cases isComponent : card.component first.1 usage.modality usage.contextTier with
    | none =>
      rw [isComponent] at found
      cases found
    | some priced =>
      rw [isComponent] at found
      cases found
      have member := List.mem_of_find?_eq_some isComponent
      have lineNonneg :=
        charge_nonneg (nonneg.unitPrice component member) (nonneg.tiers component member) charged
      exact ih (Money.tryAdd_nonneg added totalNonneg lineNonneg) computed

theorem roundDp_nonneg {value : Decimal} (nonneg : 0 ≤ value) (places : Nat) :
    0 ≤ roundDp value places := by
  have scaled : 0 ≤ value * 10 ^ places := mul_nonneg nonneg (by positivity)
  have floor : 0 ≤ ⌊value * 10 ^ places⌋ := Int.floor_nonneg.mpr scaled
  have rounded : 0 ≤ roundHalfEven (value * 10 ^ places) := by
    unfold roundHalfEven
    dsimp only
    split
    · exact floor
    · split
      · omega
      · split
        · exact floor
        · omega
  exact div_nonneg (by exact_mod_cast rounded) (by positivity)

/-- **Nonnegative prices give nonnegative credits.** -/
theorem priceUsage_nonneg {usage : Usage} {card : RateCard} {creditValue : Money}
    {priced : PricedUsage} (nonneg : card.Nonneg)
    (computed : priceUsage usage card creditValue = .ok priced) : 0 ≤ priced.credits := by
  obtain ⟨cogs, costs, computed⟩ := ok_of_bind computed
  obtain ⟨credits, converted, computed⟩ := ok_of_bind computed
  cases computed
  unfold toCredits at converted
  split at converted
  · cases converted
  · split at converted
    · cases converted
    · rename_i positive
      cases converted
      refine roundDp_nonneg (div_nonneg ?_ (not_le.mp positive).le) _
      exact mul_nonneg (costLoop_nonneg nonneg (le_refl (0 : Decimal)) costs) nonneg.margin

end Meter.Pricing
