/-
**Rate cards that are accepted** (`crates/meter-pricing/src/card.rs`, `price.rs`).

`validate` is run when a card is put: it looks at the currency and the sign of every component's own
price, at the bounds of its tiers, and for two components that price one cell. It looks at neither
the currency nor the sign of the price of a tier.

* `validate_iff` — what an accepted card is.
* `costLoop_of_lines` — **the loop of `cost`**: the charges of the lines add up.
* `charges_iff` — when a component charges every quantity, in the card's currency and nothing below
  zero: `Sound` asks it of the tiers.
* `prices_iff_sound` — **an accepted card prices everything it covers, and never below zero, exactly
  if its tiers are sound**.
-/

import Meter.Pricing.Tiers

namespace Meter.Pricing

open Meter.Lib

/-! ### Validation -/

/-- A component is well formed: its schedule, or the size of its packages. -/
def PriceComponent.validate (component : PriceComponent) : Except PricingError Unit :=
  match component.chargeModel with
  | .standard => .ok ()
  | .graduated tiers | .volume tiers => validateTiers tiers
  | .package size => if 0 < size then .ok () else .error .invalidPackageSize

/-- What a component prices. -/
def PriceComponent.cell (component : PriceComponent) : PricingDimension × Modality × ContextTier :=
  (component.dimension, component.modality, component.contextTier)

/-- The loop of `RateCard::validate`, with the cells seen so far. -/
def validateLoop (currency : Currency) :
    List PriceComponent → List (PricingDimension × Modality × ContextTier) → Except PricingError Unit
  | [], _ => .ok ()
  | component :: rest, seen =>
    if component.unitPrice.currency ≠ currency then .error .currencyMismatch
    else if component.unitPrice.amount < 0 then .error (.negativePrice component.dimension)
    else do
      component.validate
      if component.cell ∈ seen then .error (.duplicateComponent component.dimension)
      else validateLoop currency rest (component.cell :: seen)

/-- The structure of the card is in order. -/
def RateCard.validate (card : RateCard) : Except PricingError Unit :=
  validateLoop card.currency card.components []

/-- What `validate` asks of each component. -/
structure PriceComponent.Valid (currency : Currency) (component : PriceComponent) : Prop where
  currency : component.unitPrice.currency = currency
  nonneg : 0 ≤ component.unitPrice.amount
  model : component.validate = .ok ()

theorem validateLoop_iff {currency : Currency} {components : List PriceComponent}
    {seen : List (PricingDimension × Modality × ContextTier)} :
    validateLoop currency components seen = .ok () ↔
      (∀ component ∈ components, component.Valid currency) ∧
        (components.map PriceComponent.cell).Nodup ∧
        ∀ component ∈ components, component.cell ∉ seen := by
  induction components generalizing seen with
  | nil => exact ⟨fun _ => ⟨by simp, by simp, by simp⟩, fun _ => rfl⟩
  | cons component rest ih =>
    rw [validateLoop, List.forall_mem_cons, List.forall_mem_cons, List.map_cons, List.nodup_cons]
    by_cases other : component.unitPrice.currency ≠ currency
    · rw [if_pos other]
      refine ⟨fun valid => ?_, fun valid => absurd valid.1.1.currency other⟩
      cases valid
    rw [if_neg other]
    by_cases negative : component.unitPrice.amount < 0
    · rw [if_pos negative]
      refine ⟨fun valid => ?_, fun valid => absurd negative (not_lt.mpr valid.1.1.nonneg)⟩
      cases valid
    rw [if_neg negative]
    cases model : component.validate with
    | error error =>
      refine ⟨fun valid => ?_, fun valid => ?_⟩
      · cases valid
      · cases model.symm.trans valid.1.1.model
    | ok =>
      have here : component.Valid currency := ⟨not_not.mp other, not_lt.mp negative, model⟩
      show (if _ then _ else _) = _ ↔ _
      by_cases duplicate : component.cell ∈ seen
      · rw [if_pos duplicate]
        refine ⟨fun valid => ?_, fun valid => absurd duplicate valid.2.2.1⟩
        cases valid
      rw [if_neg duplicate, ih]
      refine ⟨fun ⟨valid, distinct, unseen⟩ => ⟨⟨here, valid⟩, ⟨fun twice => ?_, distinct⟩, duplicate,
        fun later member => ?_⟩, fun ⟨⟨_, valid⟩, ⟨once, distinct⟩, _, unseen⟩ => ⟨valid, distinct,
        fun later member twice => ?_⟩⟩
      · obtain ⟨later, member, same⟩ := List.mem_map.mp twice
        exact unseen later member (same ▸ List.mem_cons_self)
      · exact fun twice => unseen later member (List.mem_cons_of_mem _ twice)
      · rcases List.mem_cons.mp twice with same | before
        · exact once (same ▸ List.mem_map_of_mem member)
        · exact unseen later member before

/-- **What an accepted card is.** -/
theorem RateCard.validate_iff {card : RateCard} :
    card.validate = .ok () ↔ (∀ component ∈ card.components, component.Valid card.currency) ∧
      (card.components.map PriceComponent.cell).Nodup := by
  rw [validate, validateLoop_iff]
  exact ⟨fun ⟨valid, distinct, _⟩ => ⟨valid, distinct⟩,
    fun ⟨valid, distinct⟩ => ⟨valid, distinct, fun _ _ => List.not_mem_nil⟩⟩

/-- Each component of an accepted card prices its own cell. -/
theorem RateCard.component_of_mem {card : RateCard} (accepted : card.validate = .ok ())
    {component : PriceComponent} (member : component ∈ card.components) :
    card.component component.dimension component.modality component.contextTier =
      some component := by
  obtain ⟨_, distinct⟩ := RateCard.validate_iff.mp accepted
  unfold RateCard.component
  generalize card.components = components at member distinct
  induction components with
  | nil => cases member
  | cons first rest ih =>
    rw [List.map_cons, List.nodup_cons] at distinct
    rcases List.mem_cons.mp member with rfl | later
    · exact List.find?_cons_of_pos (decide_eq_true ⟨rfl, rfl, rfl⟩)
    · rw [List.find?_cons_of_neg, ih later distinct.2]
      intro prices
      obtain ⟨dimension, modality, contextTier⟩ := of_decide_eq_true prices
      refine distinct.1 (List.mem_map.mpr ⟨component, later, ?_⟩)
      rw [PriceComponent.cell, PriceComponent.cell, dimension, modality, contextTier]

/-! ### Lines add up -/

/-- The component of a line charges an amount. -/
def RateCard.Charges (card : RateCard) (usage : Usage) (line : PricingDimension × Decimal)
    (amount : Decimal) : Prop :=
  ∃ component, card.component line.1 usage.modality usage.contextTier = some component ∧
    component.charge line.2 = .ok ⟨amount, card.currency⟩

/-- **The loop of `cost`**: the charges of the lines add up. -/
theorem costLoop_of_lines {usage : Usage} {card : RateCard}
    {amount : PricingDimension × Decimal → Decimal} {lines : List (PricingDimension × Decimal)}
    (charges : ∀ line ∈ lines, card.Charges usage line (amount line)) (total : Decimal) :
    costLoop usage card lines ⟨total, card.currency⟩ =
      .ok ⟨total + (lines.map amount).sum, card.currency⟩ := by
  induction lines generalizing total with
  | nil =>
    show Except.ok _ = _
    rw [List.map_nil, List.sum_nil, add_zero]
  | cons line rest ih =>
    obtain ⟨⟨component, found, charged⟩, later⟩ := List.forall_mem_cons.mp charges
    have added : Money.tryAdd ⟨total, card.currency⟩ ⟨amount line, card.currency⟩ =
        .ok ⟨total + amount line, card.currency⟩ := if_neg (not_not.mpr rfl)
    rw [costLoop, found, Option.elim_some]
    show component.charge line.2 >>= _ = _
    rw [charged]
    show (Money.tryAdd _ _).mapError _ >>= _ = _
    rw [added]
    show costLoop usage card rest _ = _
    rw [ih later, List.map_cons, List.sum_cons, add_assoc]

theorem cost_of_lines {usage : Usage} {card : RateCard}
    {amount : PricingDimension × Decimal → Decimal}
    (charges : ∀ line ∈ usage.quantities, card.Charges usage line (amount line)) :
    cost usage card = .ok ⟨(usage.quantities.map amount).sum, card.currency⟩ := by
  rw [cost, Money.zero, costLoop_of_lines charges, zero_add]

/-- The price of usage from its cost. -/
theorem priceUsage_of_cost {usage : Usage} {card : RateCard} {creditValue : Money} {cogs : Decimal}
    (costs : cost usage card = .ok ⟨cogs, card.currency⟩)
    (currency : creditValue.currency = card.currency) (positive : 0 < creditValue.amount) :
    priceUsage usage card creditValue = .ok {
      cogs := ⟨cogs, card.currency⟩
      customerPrice := ⟨cogs * card.margin, card.currency⟩
      credits := roundDp (cogs * card.margin / creditValue.amount) creditScale } := by
  have credits : toCredits ⟨cogs * card.margin, card.currency⟩ creditValue =
      .ok (roundDp (cogs * card.margin / creditValue.amount) creditScale) := by
    rw [toCredits, if_neg (not_not.mpr currency.symm), if_neg (not_le.mpr positive)]
  rw [priceUsage, costs]
  show toCredits _ _ >>= _ = _
  rw [applyMargin, Money.scaleBy, credits]
  rfl

/-! ### Sound schedules -/

/-- The prices of the tiers are in the currency of the card, and no charge falls below zero: no
price of a volume schedule is negative, and neither is the total of a graduated one at any bound,
nor its last price. -/
def PriceComponent.Sound (currency : Currency) (component : PriceComponent) : Prop :=
  match component.chargeModel with
  | .graduated tiers => InCurrency currency tiers ∧ Accrues 0 (bands 0 tiers)
  | .volume tiers => InCurrency currency tiers ∧ TiersNonneg tiers
  | .standard | .package _ => True

/-- The component charges every quantity, in the currency and not below zero. -/
def PriceComponent.AlwaysCharges (currency : Currency) (component : PriceComponent) : Prop :=
  ∀ quantity, ∃ amount, 0 ≤ amount ∧ component.charge quantity = .ok ⟨amount, currency⟩

/-- The first tier of a schedule: the only one, or bounded and followed by others. -/
theorem cases_of_stacked {tier : PriceTier} {rest : List PriceTier} {lower : Decimal}
    (stacked : Stacked lower (bands lower (tier :: rest))) :
    tier.upTo = none ∧ rest = [] ∨
      ∃ upper, tier.upTo = some upper ∧ lower < upper ∧ Stacked upper (bands upper rest) := by
  obtain ⟨upTo, unitPrice⟩ := tier
  cases upTo with
  | none =>
    cases rest with
    | nil => exact .inl ⟨rfl, rfl⟩
    | cons next rest => cases stacked
  | some upper =>
    cases stacked with
    | next _ ascends stacked => exact .inr ⟨upper, rfl, ascends, stacked⟩

/-- The loop of `graduated_charge` keeps to one currency, and fails at the first tier of another. -/
theorem inCurrency_of_graduatedLoop {tiers : List PriceTier} {lower : Decimal} {total : Money}
    (stacked : Stacked lower (bands lower tiers))
    (charged : ∀ remaining, 0 < remaining →
      ∃ result, graduatedLoop tiers total lower remaining = .ok result) :
    InCurrency total.currency tiers := by
  induction tiers generalizing lower total with
  | nil => cases stacked
  | cons tier rest ih =>
    obtain ⟨upTo, unitPrice⟩ := tier
    have here : unitPrice.currency = total.currency := by
      obtain ⟨result, computed⟩ := charged 1 one_pos
      rw [graduatedLoop, if_neg (not_le.mpr one_pos)] at computed
      obtain ⟨band, _, computed⟩ := ok_of_bind computed
      obtain ⟨total', added, _⟩ := ok_of_bind computed
      unfold Money.tryAdd at added
      split at added
      · cases added
      · rename_i same
        exact (not_not.mp same).symm
    refine List.forall_mem_cons.mpr ⟨here, ?_⟩
    rcases cases_of_stacked stacked with ⟨_, rfl⟩ | ⟨upper, bounded, ascends, after⟩
    · exact fun _ member => absurd member List.not_mem_nil
    · cases bounded
      have next : ∀ remaining, 0 < remaining → ∃ result, graduatedLoop rest
          ⟨total.amount + unitPrice.amount * (upper - lower), total.currency⟩ upper remaining =
            .ok result := by
        intro remaining positive
        have width : 0 < upper - lower := sub_pos.mpr ascends
        obtain ⟨result, computed⟩ := charged (upper - lower + remaining) (add_pos width positive)
        refine ⟨result, ?_⟩
        have band : tierBand ⟨some upper, unitPrice⟩ lower (upper - lower + remaining) =
            .ok (upper - lower) := if_pos ascends
        rw [graduatedLoop, if_neg (not_le.mpr (add_pos width positive)), band] at computed
        change (Money.tryAdd _ (unitPrice.scaleBy (min _ (upper - lower)))).mapError _ >>= _ = _
          at computed
        rw [min_eq_right (le_add_of_nonneg_right positive.le), tryAdd_scaleBy here] at computed
        change graduatedLoop rest _ upper (_ + remaining - (upper - lower)) = _ at computed
        rwa [add_sub_cancel_left] at computed
      exact @ih upper ⟨total.amount + unitPrice.amount * (upper - lower), total.currency⟩ after next

theorem graduated_iff {currency : Currency} {tiers : List PriceTier}
    (valid : validateTiers tiers = .ok ()) :
    (∀ quantity, ∃ amount, 0 ≤ amount ∧
      graduatedCharge tiers (max quantity 0) = .ok ⟨amount, currency⟩) ↔
      InCurrency currency tiers ∧ Accrues 0 (bands 0 tiers) := by
  have stacked := (validateTiers_iff tiers).mp valid
  refine ⟨fun charges => ?_, fun ⟨same, accrues⟩ quantity => ?_⟩
  · have same : InCurrency currency tiers := by
      cases tiers with
      | nil => cases stacked
      | cons tier rest =>
        have first : tier.unitPrice.currency = currency := by
          obtain ⟨amount, _, charged⟩ := charges 0
          rw [max_self] at charged
          cases charged
          rfl
        have looped : InCurrency (Money.zero tier.unitPrice.currency).currency (tier :: rest) := by
          refine inCurrency_of_graduatedLoop stacked fun remaining positive => ?_
          obtain ⟨amount, _, charged⟩ := charges remaining
          rw [max_eq_left positive.le] at charged
          obtain ⟨currency, scheduled, charged⟩ := ok_of_bind charged
          cases scheduled
          obtain ⟨result, computed, _⟩ := ok_of_bind charged
          exact ⟨result, computed⟩
        rwa [first] at looped
    refine ⟨same, (stacked.accrues_iff (le_refl 0)).mp fun stop nonneg => ?_⟩
    obtain ⟨amount, positive, charged⟩ := charges stop
    rw [graduatedCharge_eq valid same, max_eq_left nonneg, max_eq_left nonneg] at charged
    cases charged
    rwa [zero_add]
  · refine ⟨_, ?_, graduatedCharge_eq valid same _⟩
    have never := (stacked.accrues_iff (le_refl 0)).mpr accrues _ (le_max_right quantity 0)
    rwa [zero_add, ← max_eq_left (le_max_right quantity 0)] at never

/-- A volume schedule that charges every quantity above a bound. -/
theorem volume_of_charges {currency : Currency} {tiers : List PriceTier} {lower : Decimal}
    (stacked : Stacked lower (bands lower tiers)) (nonneg : 0 ≤ lower)
    (charges : ∀ quantity, lower < quantity →
      ∃ amount, 0 ≤ amount ∧ volumeCharge tiers quantity = .ok ⟨amount, currency⟩) :
    InCurrency currency tiers ∧ TiersNonneg tiers := by
  induction tiers generalizing lower with
  | nil => cases stacked
  | cons tier rest ih =>
    obtain ⟨upTo, unitPrice⟩ := tier
    have head : ∀ quantity, lower < quantity → volumeCharge (⟨upTo, unitPrice⟩ :: rest) quantity =
        .ok (unitPrice.scaleBy quantity) → unitPrice.currency = currency ∧ 0 ≤ unitPrice.amount := by
      intro quantity above computed
      obtain ⟨amount, positive, charged⟩ := charges quantity above
      rw [computed] at charged
      cases charged
      exact ⟨rfl, nonneg_of_mul_nonneg_left positive (nonneg.trans_lt above)⟩
    rcases cases_of_stacked stacked with ⟨unbounded, rfl⟩ | ⟨upper, bounded, ascends, after⟩
    · cases unbounded
      obtain ⟨same, price⟩ := head (lower + 1) (lt_add_one lower) rfl
      exact ⟨List.forall_mem_singleton.mpr same, List.forall_mem_singleton.mpr price⟩
    · cases bounded
      obtain ⟨same, price⟩ := head upper ascends (if_pos le_rfl)
      have later := ih after (nonneg.trans ascends.le) fun quantity above => by
        obtain ⟨amount, positive, charged⟩ := charges quantity (ascends.trans above)
        refine ⟨amount, positive, ?_⟩
        rwa [show volumeCharge (⟨some upper, unitPrice⟩ :: rest) quantity = _ from
          if_neg (not_le.mpr above)] at charged
      exact ⟨List.forall_mem_cons.mpr ⟨same, later.1⟩, List.forall_mem_cons.mpr ⟨price, later.2⟩⟩

theorem volume_iff {currency : Currency} {tiers : List PriceTier}
    (valid : validateTiers tiers = .ok ()) :
    (∀ quantity, ∃ amount, 0 ≤ amount ∧
      volumeCharge tiers (max quantity 0) = .ok ⟨amount, currency⟩) ↔
      InCurrency currency tiers ∧ TiersNonneg tiers := by
  have stacked := (validateTiers_iff tiers).mp valid
  refine ⟨fun charges => volume_of_charges stacked le_rfl fun quantity above => ?_,
    fun ⟨same, prices⟩ quantity => ?_⟩
  · obtain ⟨amount, positive, charged⟩ := charges quantity
    rw [max_eq_left above.le] at charged
    exact ⟨amount, positive, charged⟩
  · obtain ⟨_, _, _, _, _, _, _, charged⟩ :=
      volumeCharge_landed stacked same (le_max_right quantity 0)
    exact ⟨_, volumeCharge_nonneg prices (le_max_right quantity 0) charged, charged⟩

/-- **When a component charges every quantity.** -/
theorem charges_iff {currency : Currency} {component : PriceComponent}
    (valid : component.Valid currency) :
    component.AlwaysCharges currency ↔ component.Sound currency := by
  obtain ⟨same, price, model⟩ := valid
  unfold PriceComponent.AlwaysCharges PriceComponent.Sound PriceComponent.charge
  unfold PriceComponent.validate at model
  cases isModel : component.chargeModel with
  | standard =>
    refine iff_of_true (fun quantity => ⟨_, mul_nonneg price (le_max_right quantity 0), ?_⟩) trivial
    rw [← same]
    rfl
  | graduated tiers =>
    rw [isModel] at model
    exact graduated_iff model
  | volume tiers =>
    rw [isModel] at model
    exact volume_iff model
  | package size =>
    rw [isModel] at model
    have positive : 0 < size := by
      by_contra empty
      change (if 0 < size then _ else _) = _ at model
      rw [if_neg empty] at model
      cases model
    refine iff_of_true (fun quantity => ?_) trivial
    have packages : 0 ≤ max quantity 0 / size := div_nonneg (le_max_right _ _) positive.le
    refine ⟨component.unitPrice.amount * ⌈max quantity 0 / size⌉, mul_nonneg price ?_, ?_⟩
    · exact_mod_cast Int.ceil_nonneg packages
    · show component.packageCharge size _ = _
      rw [PriceComponent.packageCharge, if_neg (not_le.mpr positive), Money.scaleBy, same]

/-! ### Cards that always price -/

/-- The usage is covered: every dimension has a component. -/
def RateCard.Covers (card : RateCard) (usage : Usage) : Prop :=
  ∀ line ∈ usage.quantities,
    (card.component line.1 usage.modality usage.contextTier).isSome

instance (card : RateCard) (usage : Usage) : Decidable (card.Covers usage) :=
  inferInstanceAs (Decidable (∀ line ∈ usage.quantities, _))

/-- The card prices all usage it covers, at any positive credit value of its currency, and neither
the cost nor the price nor the credits are negative. -/
def RateCard.AlwaysPrices (card : RateCard) : Prop :=
  ∀ usage : Usage, card.Covers usage → ∀ creditValue : Money,
    creditValue.currency = card.currency → 0 < creditValue.amount →
    ∃ priced, priceUsage usage card creditValue = .ok priced ∧
      0 ≤ priced.cogs.amount ∧ 0 ≤ priced.customerPrice.amount ∧ 0 ≤ priced.credits

/-- Components that always charge make a card that always prices. -/
theorem alwaysPrices_of_charges {card : RateCard} (margin : 0 ≤ card.margin)
    (charges : ∀ component ∈ card.components, component.AlwaysCharges card.currency) :
    card.AlwaysPrices := by
  intro usage covered creditValue currency positive
  have lines : ∀ line ∈ usage.quantities, ∃ amount, 0 ≤ amount ∧
      card.Charges usage line amount := by
    intro line member
    obtain ⟨component, found⟩ := Option.isSome_iff_exists.mp (covered line member)
    obtain ⟨amount, nonneg, charged⟩ :=
      charges component (List.mem_of_find?_eq_some found) line.2
    exact ⟨amount, nonneg, component, found, charged⟩
  choose! amount nonneg charged using lines
  have cogs : 0 ≤ (usage.quantities.map amount).sum := by
    refine List.sum_nonneg fun share member => ?_
    obtain ⟨line, inside, rfl⟩ := List.mem_map.mp member
    exact nonneg line inside
  have price := mul_nonneg cogs margin
  exact ⟨_, priceUsage_of_cost (cost_of_lines charged) currency positive, cogs, price,
    roundDp_nonneg (div_nonneg price positive.le) _⟩

/-- The usage of one line. -/
def PriceComponent.line (component : PriceComponent) (quantity : Decimal) : Usage :=
  ⟨component.modality, component.contextTier, [(component.dimension, quantity)]⟩

/-- A card that always prices has components that always charge: price one line. -/
theorem charges_of_alwaysPrices {card : RateCard} (accepted : card.validate = .ok ())
    (prices : card.AlwaysPrices) {component : PriceComponent}
    (member : component ∈ card.components) : component.AlwaysCharges card.currency := by
  intro quantity
  have found := RateCard.component_of_mem accepted member
  have covered : card.Covers (component.line quantity) :=
    List.forall_mem_singleton.mpr (found ▸ rfl)
  obtain ⟨priced, computed, cogs, _⟩ :=
    prices _ covered ⟨1, card.currency⟩ rfl one_pos
  obtain ⟨total, costs, computed⟩ := ok_of_bind computed
  obtain ⟨credits, _, computed⟩ := ok_of_bind computed
  cases computed
  unfold cost costLoop PriceComponent.line at costs
  dsimp only at costs
  rw [found, Option.elim_some] at costs
  obtain ⟨_, isComponent, costs⟩ := ok_of_bind costs
  cases isComponent
  obtain ⟨line, charged, costs⟩ := ok_of_bind costs
  obtain ⟨total', added, costs⟩ := ok_of_bind costs
  cases costs
  obtain ⟨amount, currency⟩ := line
  unfold Money.tryAdd at added
  split at added
  · cases added
  · rename_i same
    cases added
    refine ⟨amount, ?_, charged.trans ?_⟩
    · change 0 ≤ 0 + amount at cogs
      rwa [zero_add] at cogs
    · rw [show currency = card.currency from (not_not.mp same).symm]

/-- **An accepted card prices everything, never below zero, exactly if its tiers are sound.** -/
theorem prices_iff_sound {card : RateCard} (accepted : card.validate = .ok ())
    (margin : 0 ≤ card.margin) :
    card.AlwaysPrices ↔ ∀ component ∈ card.components, component.Sound card.currency := by
  have valid := (RateCard.validate_iff.mp accepted).1
  refine ⟨fun prices component member => ?_, fun sound => ?_⟩
  · exact (charges_iff (valid component member)).mp (charges_of_alwaysPrices accepted prices member)
  · exact alwaysPrices_of_charges margin fun component member =>
      (charges_iff (valid component member)).mpr (sound component member)

/-- A card in dollars that prices input in graduated tiers. -/
def graduatedCard (tiers : List PriceTier) : RateCard where
  id := 0
  kind := .customer
  currency := ⟨"USD"⟩
  version := 1
  margin := 1
  components := [⟨.inputUncached, .text, .standard, .token, .graduated tiers, ⟨0, ⟨"USD"⟩⟩⟩]

theorem prices_iff_sound_hundreds : (graduatedCard hundreds).validate = .ok () ∧
    (graduatedCard hundreds).AlwaysPrices := by
  have accepted : (graduatedCard hundreds).validate = .ok () := by decide +kernel
  refine ⟨accepted, (prices_iff_sound accepted zero_le_one).mpr ?_⟩
  refine List.forall_mem_singleton.mpr ⟨by decide, ?_⟩
  refine ⟨?_, ?_, ?_⟩
  · show (0 : Decimal) ≤ 0 + 1 * (100 - 0)
    norm_num
  · show (0 : Decimal) ≤ 0 + 1 * (100 - 0) + 1 / 2 * (200 - 100)
    norm_num
  · show (0 : Decimal) ≤ 1 / 10
    norm_num

/-- A hundred units at 1, and then a rebate of 3 for each further unit. -/
def rebate : List PriceTier := [⟨some 100, ⟨1, ⟨"USD"⟩⟩⟩, ⟨none, ⟨-3, ⟨"USD"⟩⟩⟩]

/-- A card with a negative tier is accepted, and prices 200 units below zero. -/
theorem validated_card_prices_below_zero : (graduatedCard rebate).validate = .ok () ∧
    0 ≤ (graduatedCard rebate).margin ∧ ¬ (graduatedCard rebate).AlwaysPrices := by
  refine ⟨by decide +kernel, zero_le_one, fun prices => ?_⟩
  obtain ⟨priced, computed, cogs, _⟩ := prices ⟨.text, .standard, [(.inputUncached, 200)]⟩
    (List.forall_mem_singleton.mpr rfl) ⟨1, ⟨"USD"⟩⟩ rfl one_pos
  have below : priceUsage ⟨.text, .standard, [(.inputUncached, 200)]⟩ (graduatedCard rebate)
      ⟨1, ⟨"USD"⟩⟩ = .ok ⟨⟨-200, ⟨"USD"⟩⟩, ⟨-200, ⟨"USD"⟩⟩, -200⟩ := by decide +kernel
  rw [below] at computed
  cases computed
  exact absurd cogs (by decide +kernel)

end Meter.Pricing
