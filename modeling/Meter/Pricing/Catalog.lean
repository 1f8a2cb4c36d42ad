/-
**The catalog of models** (`crates/meter-ratecards/src/lib.rs`).

* `providerCostCard` — the card of an entry: four prices in dollars for a token of text, and no margin.
* `component_providerCostCard` — each of the four dimensions has its own price.
-/

import Meter.Pricing.Card

namespace Meter.Ratecards

open Meter.Pricing

/-- The prices of a model for text of the standard tier, in dollars for a token. -/
structure ModelCatalogEntry where
  provider : String
  modelId : String
  inputPerToken : Decimal
  cacheReadPerToken : Decimal
  cacheWritePerToken : Decimal
  outputPerToken : Decimal
  deriving DecidableEq

def usd : Currency := ⟨"USD"⟩

/-- A component of a provider's card. -/
def tokenComponent (dimension : PricingDimension) (price : Decimal) : PriceComponent where
  dimension
  modality := .text
  contextTier := .standard
  unit := .token
  chargeModel := .standard
  unitPrice := ⟨price, usd⟩

namespace ModelCatalogEntry

variable (entry : ModelCatalogEntry)

/-- The card of what the provider costs. Its id is minted. -/
def providerCostCard (minted : RateCardId) : RateCard where
  id := minted
  kind := .providerCost
  currency := usd
  version := 1
  margin := 1
  components := [
    tokenComponent .inputUncached entry.inputPerToken,
    tokenComponent .cacheRead entry.cacheReadPerToken,
    tokenComponent .cacheWrite entry.cacheWritePerToken,
    tokenComponent .output entry.outputPerToken]

/-- What an entry has a price for. -/
def price : PricingDimension → Option Decimal
  | .inputUncached => some entry.inputPerToken
  | .cacheRead => some entry.cacheReadPerToken
  | .cacheWrite => some entry.cacheWritePerToken
  | .output => some entry.outputPerToken
  | .reasoningOutput | .toolCall | .webSearch => none

end ModelCatalogEntry

/-- The curated catalog. -/
def catalog : List ModelCatalogEntry := [
  { provider := "anthropic", modelId := "claude-opus-4-8"
    inputPerToken := 0.000015, cacheReadPerToken := 0.0000015
    cacheWritePerToken := 0.00001875, outputPerToken := 0.000075 },
  { provider := "anthropic", modelId := "claude-sonnet-4-6"
    inputPerToken := 0.000003, cacheReadPerToken := 0.0000003
    cacheWritePerToken := 0.00000375, outputPerToken := 0.000015 },
  { provider := "anthropic", modelId := "claude-haiku-4-5"
    inputPerToken := 0.000001, cacheReadPerToken := 0.0000001
    cacheWritePerToken := 0.00000125, outputPerToken := 0.000005 },
  { provider := "openai", modelId := "gpt-5"
    inputPerToken := 0.00000125, cacheReadPerToken := 0.000000125
    cacheWritePerToken := 0.00000125, outputPerToken := 0.00001 },
  { provider := "openai", modelId := "gpt-5-mini"
    inputPerToken := 0.00000025, cacheReadPerToken := 0.000000025
    cacheWritePerToken := 0.00000025, outputPerToken := 0.000002 },
  { provider := "google", modelId := "gemini-2.5-pro"
    inputPerToken := 0.00000125, cacheReadPerToken := 0.00000031
    cacheWritePerToken := 0.00000125, outputPerToken := 0.00001 },
  { provider := "google", modelId := "gemini-2.5-flash"
    inputPerToken := 0.0000003, cacheReadPerToken := 0.000000075
    cacheWritePerToken := 0.0000003, outputPerToken := 0.0000025 },
  { provider := "deepseek", modelId := "deepseek-chat"
    inputPerToken := 0.00000027, cacheReadPerToken := 0.00000007
    cacheWritePerToken := 0.00000027, outputPerToken := 0.0000011 },
  { provider := "deepseek", modelId := "deepseek-reasoner"
    inputPerToken := 0.00000055, cacheReadPerToken := 0.00000014
    cacheWritePerToken := 0.00000055, outputPerToken := 0.00000219 },
  { provider := "alibaba", modelId := "qwen-max"
    inputPerToken := 0.0000016, cacheReadPerToken := 0.0000016
    cacheWritePerToken := 0.0000016, outputPerToken := 0.0000064 },
  { provider := "alibaba", modelId := "qwen-plus"
    inputPerToken := 0.0000004, cacheReadPerToken := 0.0000004
    cacheWritePerToken := 0.0000004, outputPerToken := 0.0000012 }]

/-- Find an entry by its model. -/
def find (modelId : String) : Option ModelCatalogEntry :=
  catalog.find? fun entry => entry.modelId = modelId

/-- The card of a known model. -/
def rateCardFor (minted : RateCardId) (modelId : String) : Option RateCard :=
  (find modelId).map fun entry => entry.providerCostCard minted

/-! ### What a card prices -/

section

variable {entry : ModelCatalogEntry} (minted : RateCardId)

/-- **Each of the four dimensions has its own price**, and no other has one. -/
theorem component_providerCostCard (dimension : PricingDimension) :
    (entry.providerCostCard minted).component dimension .text .standard =
      (entry.price dimension).map (tokenComponent dimension) := by
  cases dimension <;> rfl

end

end Meter.Ratecards
