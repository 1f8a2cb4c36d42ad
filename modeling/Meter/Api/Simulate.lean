/-
**The simulation of a switch of models** (`crates/meter-api/src/routes/simulate.rs`).

The route prices a stream of usage under the catalog cards of two models.

* `priceUsage_providerCostCard` — **a catalogued model prices every usage**, each token on its own; only
  the credits are rounded.
* `simulate_matches_charges` — **what is simulated is what would be charged**: the route answers for any
  two known models and any stream, its totals are the credits that metering the events one by one would
  charge, and they are half a step for each event from the exact ones at most.
-/

import Meter.Api.Priced
import Meter.Pricing.Catalog
import Meter.Pricing.Simulate

namespace Meter.Api

open Meter.Lib Meter.Pricing
open Meter.Ratecards (ModelCatalogEntry)

/-! ### The route -/

structure SimulateBody where
  currentModel : String
  proposedModel : String
  events : List UsageDimensions

/-- What the route answers. -/
structure SimulateAnswer where
  currentModel : String
  proposedModel : String
  eventCount : Nat
  creditsCurrent : String
  creditsProposed : String
  creditDelta : String
  deriving DecidableEq

/-- The catalog card of a model, with a minted id. -/
def catalogCard (minted : RateCardId) (model : String) : Except ApiError RateCard :=
  (Ratecards.rateCardFor minted model).elim (.error (.notFound ("unknown model: " ++ model))) .ok

/-- `POST /v1/simulate`. -/
def simulate (env : Env) (minted minted' : RateCardId) (body : SimulateBody) :
    Except ApiError SimulateAnswer := do
  let current ← catalogCard minted body.currentModel
  let proposed ← catalogCard minted' body.proposedModel
  let usages := body.events.map UsageDimensions.toUsage
  let summary ← (simulateRerate usages current proposed env.creditValue).mapError fun error =>
    ApiError.unprocessable ("pricing: " ++ error.message)
  return {
    currentModel := body.currentModel
    proposedModel := body.proposedModel
    eventCount := summary.eventCount
    creditsCurrent := env.showDecimal summary.creditsCurrent
    creditsProposed := env.showDecimal summary.creditsProposed
    creditDelta := env.showDecimal summary.creditDelta }

/-! ### What a catalogued model charges -/

/-- The exact cost of some tokens. -/
def tokenCost (entry : ModelCatalogEntry) (counts : UsageDimensions) : Decimal :=
  entry.inputPerToken * counts.inputUncached.toNat + entry.cacheReadPerToken * counts.cacheRead.toNat +
    entry.cacheWritePerToken * counts.cacheWrite.toNat + entry.outputPerToken * counts.output.toNat

/-- What they are priced at. -/
def tokenPrice (entry : ModelCatalogEntry) (creditValue : Money) (counts : UsageDimensions) :
    PricedUsage where
  cogs := ⟨tokenCost entry counts, Ratecards.usd⟩
  customerPrice := ⟨tokenCost entry counts, Ratecards.usd⟩
  credits := roundDp (tokenCost entry counts / creditValue.amount) creditScale

section

variable {entry : ModelCatalogEntry} {minted : RateCardId} {creditValue : Money}

/-- A line of one of the four dimensions. -/
theorem charges_providerCostCard {counts : UsageDimensions} {line : PricingDimension × Decimal}
    (member : line ∈ counts.toUsage.quantities) : (entry.providerCostCard minted).Charges counts.toUsage
      line ((entry.providerCostCard minted).charged .text .standard line) := by
  obtain ⟨⟨dimension, count⟩, kept, rfl⟩ := List.mem_map.mp member
  have listed := List.mem_of_mem_filter kept
  have priced : ∃ price, entry.price dimension = some price := by
    simp only [List.mem_cons, Prod.mk.injEq, List.not_mem_nil, or_false] at listed
    rcases listed with ⟨rfl, _⟩ | ⟨rfl, _⟩ | ⟨rfl, _⟩ | ⟨rfl, _⟩ <;> exact ⟨_, rfl⟩
  obtain ⟨price, isPrice⟩ := priced
  have found := @Ratecards.component_providerCostCard entry minted dimension
  rw [isPrice, Option.map_some] at found
  refine ⟨_, found, ?_⟩
  rw [RateCard.charged, found]
  rfl

theorem countCharge_providerCostCard {dimension : PricingDimension} {price : Decimal}
    (isPrice : entry.price dimension = some price) (count : UInt64) :
    countCharge (entry.providerCostCard minted) dimension count = price * count.toNat := by
  have found := @Ratecards.component_providerCostCard entry minted dimension
  rw [isPrice, Option.map_some] at found
  rw [countCharge, RateCard.charged, found]
  show price * max (count.toNat : Decimal) 0 = _
  rw [max_eq_left (Nat.cast_nonneg _)]

/-- **A catalogued model prices every usage**, whatever the counts are. -/
theorem priceUsage_providerCostCard (currency : creditValue.currency = Ratecards.usd)
    (positive : 0 < creditValue.amount) (counts : UsageDimensions) :
    priceUsage counts.toUsage (entry.providerCostCard minted) creditValue =
      .ok (tokenPrice entry creditValue counts) := by
  have costs : cost counts.toUsage (entry.providerCostCard minted) =
      .ok ⟨tokenCost entry counts, Ratecards.usd⟩ := by
    rw [cost_of_lines fun line member => charges_providerCostCard member, sum_charged,
      countCharge_providerCostCard rfl, countCharge_providerCostCard rfl,
      countCharge_providerCostCard rfl, countCharge_providerCostCard rfl, add_zero, tokenCost]
    simp only [add_assoc]
    rfl
  have priced := priceUsage_of_cost costs currency positive
  have margin : tokenCost entry counts * (entry.providerCostCard minted).margin =
      tokenCost entry counts := mul_one _
  rw [margin] at priced
  exact priced

end

/-! ### A stream that prices -/

section

variable {ι : Type} {usageOf : ι → Usage} {before after : ι → PricedUsage}
variable {current proposed : RateCard} {creditValue : Money} {items : List ι}

theorem rerateLoop_of_prices
    (prices : ∀ item ∈ items, priceUsage (usageOf item) current creditValue = .ok (before item))
    (prices' : ∀ item ∈ items, priceUsage (usageOf item) proposed creditValue = .ok (after item))
    (first second : Credit) (lines : List RerateLine) :
    rerateLoop current proposed creditValue (items.map usageOf) first second lines =
      .ok (first + creditsOf (items.map before), second + creditsOf (items.map after),
        lines ++ items.map fun item =>
          ⟨before item, after item, (after item).credits - (before item).credits⟩) := by
  induction items generalizing first second lines with
  | nil => simp [rerateLoop, creditsOf]
  | cons item rest ih =>
    obtain ⟨here, later⟩ := List.forall_mem_cons.mp prices
    obtain ⟨here', later'⟩ := List.forall_mem_cons.mp prices'
    have rated : rerateEvent (usageOf item) current proposed creditValue =
        .ok ⟨before item, after item, (after item).credits - (before item).credits⟩ := by
      rw [rerateEvent, here, here']
      rfl
    rw [List.map_cons, rerateLoop, rated]
    show rerateLoop current proposed creditValue (rest.map usageOf) _ _ _ = _
    rw [ih later later']
    simp [creditsOf, add_assoc]

/-- **A stream that prices under both cards is simulated**, whatever the cards are. -/
theorem simulateRerate_of_prices
    (prices : ∀ item ∈ items, priceUsage (usageOf item) current creditValue = .ok (before item))
    (prices' : ∀ item ∈ items, priceUsage (usageOf item) proposed creditValue = .ok (after item)) :
    ∃ lines, simulateRerate (items.map usageOf) current proposed creditValue = .ok {
      eventCount := items.length
      creditsCurrent := creditsOf (items.map before)
      creditsProposed := creditsOf (items.map after)
      creditDelta := creditsOf (items.map after) - creditsOf (items.map before)
      lines } := by
  refine ⟨items.map fun item =>
    ⟨before item, after item, (after item).credits - (before item).credits⟩, ?_⟩
  rw [simulateRerate, rerateLoop_of_prices prices prices', zero_add, zero_add, List.nil_append,
    List.length_map]
  rfl

end

/-! ### Charges -/

/-- What metering the events one by one, with the catalog card of a model, would charge. -/
def WouldCharge (env : Env) (model : String) (events : List UsageDimensions) (priced : List PricedUsage) :
    Prop :=
  List.Forall₂ (fun event result => ∃ card, price env model none event = .ok (card, result)) events priced

/-- The credits of a stream before any rounding. -/
def exactCredits (entry : ModelCatalogEntry) (creditValue : Money) (events : List UsageDimensions) :
    Decimal :=
  (events.map (tokenCost entry)).sum / creditValue.amount

/-- **An answer that is right.** -/
structure Simulated (env : Env) (body : SimulateBody) (entry entry' : ModelCatalogEntry)
    (answer : SimulateAnswer) : Prop where
  currentModel : answer.currentModel = body.currentModel
  proposedModel : answer.proposedModel = body.proposedModel
  eventCount : answer.eventCount = body.events.length
  totals : ∃ before after, WouldCharge env body.currentModel body.events before ∧
    WouldCharge env body.proposedModel body.events after ∧
    answer.creditsCurrent = env.showDecimal (creditsOf before) ∧
    answer.creditsProposed = env.showDecimal (creditsOf after) ∧
    answer.creditDelta = env.showDecimal (creditsOf after - creditsOf before) ∧
    |creditsOf before - exactCredits entry env.creditValue body.events| ≤
      body.events.length * halfStep ∧
    |creditsOf after - exactCredits entry' env.creditValue body.events| ≤
      body.events.length * halfStep

section

variable {env : Env} {minted : RateCardId} {entry : ModelCatalogEntry} {model : String}
variable {events : List UsageDimensions}

theorem catalogCard_of_find (found : Ratecards.find model = some entry) (minted : RateCardId) :
    catalogCard minted model = .ok (entry.providerCostCard minted) := by
  rw [catalogCard, Ratecards.rateCardFor, found]
  rfl

theorem catalogCard_of_unknown (unknown : Ratecards.find model = none) (minted : RateCardId) :
    catalogCard minted model = .error (.notFound ("unknown model: " ++ model)) := by
  rw [catalogCard, Ratecards.rateCardFor, unknown]
  rfl

/-- Metering charges the price of the tokens. -/
theorem wouldCharge_tokenPrice (catalogued : env.rateCardFor = Ratecards.rateCardFor minted)
    (currency : env.creditValue.currency = Ratecards.usd) (positive : 0 < env.creditValue.amount)
    (found : Ratecards.find model = some entry) :
    WouldCharge env model events (events.map (tokenPrice entry env.creditValue)) := by
  refine List.forall₂_map_right_iff.mpr (List.forall₂_same.mpr fun event _ => ?_)
  refine ⟨entry.providerCostCard minted, ?_⟩
  have resolved : resolveCard env model none = .ok (entry.providerCostCard minted) := by
    rw [resolveCard, catalogued, Ratecards.rateCardFor, found]
    rfl
  rw [price, resolved]
  show (priceUsage event.toUsage _ env.creditValue).mapError _ >>= _ = _
  rw [priceUsage_providerCostCard currency positive]
  rfl

theorem creditsOf_tokenPrice (entry : ModelCatalogEntry) (creditValue : Money)
    (events : List UsageDimensions) :
    |creditsOf (events.map (tokenPrice entry creditValue)) - exactCredits entry creditValue events| ≤
      events.length * halfStep := by
  have near : ∀ event ∈ events,
      |(tokenPrice entry creditValue event).credits - tokenCost entry event / creditValue.amount| ≤
        decimalStep creditScale / 2 := fun event _ => roundDp_error _ _
  have drift := sum_error near
  have exact' : (events.map fun event => tokenCost entry event / creditValue.amount).sum =
      exactCredits entry creditValue events := by
    rw [exactCredits, div_eq_mul_inv, ← List.sum_map_mul_right]
    simp only [div_eq_mul_inv]
  rw [exact', ← halfStep_eq] at drift
  rw [creditsOf, List.map_map]
  exact drift

/-- **What is simulated is what would be charged.** The route answers exactly for two known models, and
then for every stream of usage. -/
theorem simulate_matches_charges (catalogued : env.rateCardFor = Ratecards.rateCardFor minted)
    (currency : env.creditValue.currency = Ratecards.usd) (positive : 0 < env.creditValue.amount)
    (first second : RateCardId) (body : SimulateBody) :
    (Ratecards.find body.currentModel = none → simulate env first second body =
      .error (.notFound ("unknown model: " ++ body.currentModel))) ∧
    (∀ entry, Ratecards.find body.currentModel = some entry →
      Ratecards.find body.proposedModel = none → simulate env first second body =
        .error (.notFound ("unknown model: " ++ body.proposedModel))) ∧
    ∀ entry entry', Ratecards.find body.currentModel = some entry →
      Ratecards.find body.proposedModel = some entry' →
        ∃ answer, simulate env first second body = .ok answer ∧ Simulated env body entry entry' answer := by
  refine ⟨fun unknown => ?_, fun entry found unknown => ?_, fun entry entry' found found' => ?_⟩
  · rw [simulate, catalogCard_of_unknown unknown]
    rfl
  · rw [simulate, catalogCard_of_find found, catalogCard_of_unknown unknown]
    rfl
  · obtain ⟨lines, simulated⟩ := @simulateRerate_of_prices _ UsageDimensions.toUsage
      (tokenPrice entry env.creditValue) (tokenPrice entry' env.creditValue)
      (entry.providerCostCard first) (entry'.providerCostCard second) env.creditValue body.events
      (fun event _ => priceUsage_providerCostCard currency positive event)
      (fun event _ => priceUsage_providerCostCard currency positive event)
    refine ⟨{
      currentModel := body.currentModel
      proposedModel := body.proposedModel
      eventCount := body.events.length
      creditsCurrent := env.showDecimal (creditsOf (body.events.map (tokenPrice entry env.creditValue)))
      creditsProposed :=
        env.showDecimal (creditsOf (body.events.map (tokenPrice entry' env.creditValue)))
      creditDelta := env.showDecimal (creditsOf (body.events.map (tokenPrice entry' env.creditValue)) -
        creditsOf (body.events.map (tokenPrice entry env.creditValue))) }, ?_, rfl, rfl, rfl, _, _,
      wouldCharge_tokenPrice catalogued currency positive found,
      wouldCharge_tokenPrice catalogued currency positive found', rfl, rfl, rfl,
      creditsOf_tokenPrice entry _ _, creditsOf_tokenPrice entry' _ _⟩
    rw [simulate, catalogCard_of_find found, catalogCard_of_find found']
    show (simulateRerate _ _ _ _).mapError _ >>= _ = _
    rw [simulated]
    rfl

end

/-- Handlers with the catalog, and credits of two cents. -/
def catalogEnv : Env := { flatEnv with
  rateCardFor := Ratecards.rateCardFor 1
  creditValue := ⟨0.02, Ratecards.usd⟩
  showDecimal := fun value => toString value.num ++ "/" ++ toString value.den }

/-- A switch to a smaller model saves a quarter of a credit. -/
theorem simulate_matches_charges_smaller : ∃ entry entry' answer,
    simulate catalogEnv 2 3 ⟨"gpt-5", "gpt-5-mini", [⟨1000, 0, 0, 500, 0⟩]⟩ = .ok answer ∧
      answer.creditsCurrent = "5/16" ∧ answer.creditDelta = "-1/4" ∧
      Simulated catalogEnv ⟨"gpt-5", "gpt-5-mini", [⟨1000, 0, 0, 500, 0⟩]⟩ entry entry' answer := by
  have computed : (simulate catalogEnv 2 3 ⟨"gpt-5", "gpt-5-mini", [⟨1000, 0, 0, 500, 0⟩]⟩).toOption.map
      (fun answer => (answer.creditsCurrent, answer.creditDelta)) = some ("5/16", "-1/4") := by
    decide +kernel
  obtain ⟨entry, found⟩ := Option.isSome_iff_exists.mp
    (show (Ratecards.find "gpt-5").isSome = true by decide +kernel)
  obtain ⟨entry', found'⟩ := Option.isSome_iff_exists.mp
    (show (Ratecards.find "gpt-5-mini").isSome = true by decide +kernel)
  obtain ⟨_, _, known⟩ := @simulate_matches_charges catalogEnv 1 rfl rfl (by decide +kernel) 2 3
    ⟨"gpt-5", "gpt-5-mini", [⟨1000, 0, 0, 500, 0⟩]⟩
  obtain ⟨answer, answered, simulated⟩ := known entry entry' found found'
  rw [answered] at computed
  have shown := Option.some.inj computed
  exact ⟨entry, entry', answer, answered, congrArg Prod.fst shown, congrArg Prod.snd shown, simulated⟩

end Meter.Api
