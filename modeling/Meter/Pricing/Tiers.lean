/-
**Tier schedules** (`crates/meter-pricing/src/component.rs`).

`validateTiers` accepts a schedule whose bounds ascend from zero and whose last tier only is
unbounded. Such a schedule cuts the quantities into bands (`bands`, `validateTiers_iff`). Decimals
are exact rationals: no product or sum is rounded to 28 digits, and none overflows.

* `graduatedLoop_eq` — **the loop of `graduated_charge`**: the total grows by the marginal price of
  the units that are left, from the last bound on, and nothing is left over.
* `graduated_is_marginal` — a graduated charge is the marginal price; it adds up across any split, is
  continuous, and grows with the quantity.
* `volume_against_graduated` — a volume charge is the price of the band where the quantity lands,
  and lies below or above the graduated one as the prices fall or rise.
-/

import Meter.Lib.Bands
import Meter.Pricing.Price
import Mathlib.Analysis.Normed.Field.Lemmas
import Mathlib.Topology.Order.Lattice

namespace Meter.Pricing

open Meter.Lib

/-! ### Validation -/

/-- The loop of `validate_tiers`: an unbounded tier at the end, and before it bounds that ascend. -/
def validateTiersLoop : List PriceTier → Decimal → Except PricingError Unit
  | [], _ => .ok ()
  | tier :: rest, previous => match tier.upTo, rest.isEmpty with
    | none, true => validateTiersLoop rest previous
    | some upper, false =>
      if previous < upper then validateTiersLoop rest upper else .error .invalidTierSchedule
    | _, _ => .error .invalidTierSchedule

/-- A tier schedule is well formed: not empty, every bounded tier strictly above the previous bound
and above zero, and only the final tier unbounded. -/
def validateTiers (tiers : List PriceTier) : Except PricingError Unit :=
  if tiers.isEmpty then .error .invalidTierSchedule else validateTiersLoop tiers 0

/-- The bands of a schedule, from a lower bound on. -/
def bands : Decimal → List PriceTier → List (Band Decimal)
  | _, [] => []
  | lower, tier :: rest =>
    ⟨lower, tier.upTo, tier.unitPrice.amount⟩ :: bands (tier.upTo.getD lower) rest

theorem validateTiersLoop_iff (tiers : List PriceTier) (lower : Decimal) :
    tiers ≠ [] ∧ validateTiersLoop tiers lower = .ok () ↔ Stacked lower (bands lower tiers) := by
  induction tiers generalizing lower with
  | nil =>
    refine ⟨fun valid => absurd rfl valid.1, fun stacked => ?_⟩
    cases stacked
  | cons tier rest ih =>
    obtain ⟨upTo, unitPrice⟩ := tier
    cases upTo with
    | none =>
      cases rest with
      | nil => exact ⟨fun _ => .last _ _, fun _ => ⟨List.cons_ne_nil _ _, rfl⟩⟩
      | cons next rest =>
        refine ⟨fun valid => ?_, fun stacked => ?_⟩
        · cases valid.2
        · cases stacked
    | some upper =>
      cases rest with
      | nil =>
        refine ⟨fun valid => ?_, fun stacked => ?_⟩
        · cases valid.2
        · cases stacked with
          | next _ _ stacked => cases stacked
      | cons next rest =>
        rw [and_iff_right (List.cons_ne_nil _ _)]
        show (if lower < upper then validateTiersLoop (next :: rest) upper else _) = _ ↔ _
        by_cases ascends : lower < upper
        · rw [if_pos ascends]
          refine ⟨fun valid => .next _ ascends ((ih upper).mp ⟨List.cons_ne_nil _ _, valid⟩),
            fun stacked => ?_⟩
          cases stacked with
          | next _ _ stacked => exact ((ih upper).mpr stacked).2
        · rw [if_neg ascends]
          refine ⟨fun valid => ?_, fun stacked => ?_⟩
          · cases valid
          · cases stacked with
            | next _ ascends' _ => exact absurd ascends' ascends

/-- **A schedule is valid exactly if its bands follow each other from zero on.** -/
theorem validateTiers_iff (tiers : List PriceTier) :
    validateTiers tiers = .ok () ↔ Stacked 0 (bands 0 tiers) := by
  rw [← validateTiersLoop_iff, validateTiers]
  cases tiers with
  | nil =>
    refine ⟨fun valid => ?_, fun valid => absurd rfl valid.1⟩
    cases valid
  | cons tier rest => exact ⟨fun valid => ⟨List.cons_ne_nil _ _, valid⟩, And.right⟩

/-- The schedule prices in one currency. -/
def InCurrency (currency : Currency) (tiers : List PriceTier) : Prop :=
  ∀ tier ∈ tiers, tier.unitPrice.currency = currency

instance (currency : Currency) (tiers : List PriceTier) : Decidable (InCurrency currency tiers) :=
  inferInstanceAs (Decidable (∀ tier ∈ tiers, tier.unitPrice.currency = currency))

/-! ### Graduated charges -/

/-- The units that a tier takes are its band's share. -/
theorem overlap_eq_min {lower upper remaining : Decimal} (price : Decimal) (ascends : lower < upper)
    (positive : 0 < remaining) :
    Band.overlap ⟨lower, some upper, price⟩ lower (lower + remaining) =
      min remaining (upper - lower) := by
  show max (min (lower + remaining) upper - max lower lower) 0 = _
  grind

theorem tryAdd_scaleBy {price : Money} {currency : Currency} (same : price.currency = currency)
    (amount quantity : Decimal) : Money.tryAdd ⟨amount, currency⟩ (price.scaleBy quantity) =
      .ok ⟨amount + price.amount * quantity, currency⟩ := by
  have equal : currency = (price.scaleBy quantity).currency := same.symm
  exact if_neg (not_not.mpr equal)

/-- **The loop of `graduated_charge`**: what it adds is the marginal price of the units left. -/
theorem graduatedLoop_eq {currency : Currency} {tiers : List PriceTier} {lower : Decimal}
    (stacked : Stacked lower (bands lower tiers)) (same : InCurrency currency tiers)
    (amount remaining : Decimal) :
    graduatedLoop tiers ⟨amount, currency⟩ lower remaining =
      .ok (⟨amount + marginal (bands lower tiers) lower (lower + remaining), currency⟩,
        min remaining 0) := by
  induction tiers generalizing lower amount remaining with
  | nil => cases stacked
  | cons tier rest ih =>
    obtain ⟨here, later⟩ := List.forall_mem_cons.mp same
    rw [graduatedLoop]
    by_cases none : remaining ≤ 0
    · rw [if_pos none, stacked.marginal_of_le lower (add_le_of_nonpos_right none), add_zero,
        min_eq_left none]
    · rw [if_neg none]
      have positive := not_le.mp none
      obtain ⟨upTo, unitPrice⟩ := tier
      cases upTo with
      | none =>
        cases rest with
        | cons next rest => cases stacked
        | nil =>
          have last : Band.overlap ⟨lower, Option.none, unitPrice.amount⟩ lower
              (lower + remaining) = remaining := by
            show max (lower + remaining - max lower lower) 0 = remaining
            grind
          show ((Money.tryAdd _ (unitPrice.scaleBy (min remaining remaining))).mapError _ >>= _) = _
          rw [tryAdd_scaleBy here, min_self]
          show Except.ok (_, remaining - remaining) = _
          rw [bands, bands, marginal_cons, last, sub_self, min_eq_right positive.le]
          show _ = Except.ok (Money.mk (amount + (unitPrice.amount * remaining + 0)) currency, _)
          rw [add_zero]
      | some upper =>
        cases stacked with
        | next _ ascends after =>
          have stacked : Stacked upper (bands upper rest) := after
          have band : tierBand ⟨some upper, unitPrice⟩ lower remaining = .ok (upper - lower) :=
            if_pos ascends
          rw [band]
          show ((Money.tryAdd _ (unitPrice.scaleBy (min remaining (upper - lower)))).mapError _
            >>= _) = _
          rw [tryAdd_scaleBy here]
          show graduatedLoop rest _ upper (remaining - min remaining (upper - lower)) = _
          rw [ih stacked later, bands, marginal_cons, overlap_eq_min _ ascends positive]
          have rest' : marginal (bands upper rest) upper
              (upper + (remaining - min remaining (upper - lower))) =
              marginal (bands upper rest) lower (lower + remaining) := by
            rw [stacked.marginal_start ascends.le]
            rcases le_total remaining (upper - lower) with inside | beyond
            · rw [min_eq_left inside, sub_self, add_zero,
                stacked.marginal_of_le upper le_rfl, stacked.marginal_of_le upper (by linarith)]
            · rw [min_eq_right beyond]
              congr 1
              ring
          have left : min (remaining - min remaining (upper - lower)) 0 = min remaining 0 := by
            rw [min_eq_right positive.le, min_eq_right (sub_nonneg.mpr (min_le_left _ _))]
          rw [rest', left, add_assoc]
          rfl

/-- **A graduated charge is the marginal price.** -/
theorem graduatedCharge_eq {currency : Currency} {tiers : List PriceTier}
    (valid : validateTiers tiers = .ok ()) (same : InCurrency currency tiers)
    (quantity : Decimal) : graduatedCharge tiers quantity =
      .ok ⟨marginal (bands 0 tiers) 0 (max quantity 0), currency⟩ := by
  have stacked := (validateTiers_iff tiers).mp valid
  have first : scheduleCurrency tiers = .ok currency := by
    cases tiers with
    | nil => cases stacked
    | cons tier rest =>
      rw [← same tier List.mem_cons_self]
      rfl
  rw [graduatedCharge, first]
  show (graduatedLoop tiers ⟨0, currency⟩ 0 quantity >>= _) = _
  rw [graduatedLoop_eq stacked same]
  show (if min quantity 0 ≤ 0 then _ else _) = _
  rw [if_pos (min_le_right _ _), zero_add, zero_add]
  rcases le_total quantity 0 with negative | nonneg
  · rw [max_eq_right negative, stacked.marginal_of_le 0 negative, stacked.marginal_of_le 0 le_rfl]
  · rw [max_eq_left nonneg]

theorem continuous_marginal (bands : List (Band Decimal)) :
    Continuous fun quantity => marginal bands 0 (max quantity 0) := by
  refine continuous_list_sum bands fun band _ => Continuous.mul continuous_const ?_
  unfold Band.overlap
  cases band.upper with
  | none =>
    show Continuous fun quantity : Decimal => max (max quantity 0 - max 0 band.lower) 0
    fun_prop
  | some upper =>
    show Continuous fun quantity : Decimal => max (min (max quantity 0) upper - max 0 band.lower) 0
    fun_prop

theorem price_of_bands {tiers : List PriceTier} {lower : Decimal} {band : Band Decimal}
    (member : band ∈ bands lower tiers) : ∃ tier ∈ tiers, band.price = tier.unitPrice.amount := by
  induction tiers generalizing lower with
  | nil => cases member
  | cons tier rest ih =>
    rcases List.mem_cons.mp member with rfl | later
    · exact ⟨tier, List.mem_cons_self, rfl⟩
    · obtain ⟨other, inside, price⟩ := ih later
      exact ⟨other, List.mem_cons_of_mem _ inside, price⟩

theorem monotone_marginal {bands : List (Band Decimal)} (prices : ∀ band ∈ bands, 0 ≤ band.price) :
    Monotone fun quantity => marginal bands 0 (max quantity 0) := by
  intro first second ordered
  exact marginal_mono prices (le_max_right _ _) (max_le_max_right 0 ordered)

/-- **Graduated pricing is the marginal sum.** A schedule that is accepted and prices in one currency
charges every quantity, and the charge is the sum over its bands of the price times the length of
the part of `(0, max q 0]` inside the band. So charges add up across any split point, are continuous,
and do not fall as the quantity grows, if no price is negative. -/
theorem graduated_is_marginal {currency : Currency} {tiers : List PriceTier}
    (valid : validateTiers tiers = .ok ()) (same : InCurrency currency tiers) :
    ∃ amount : Decimal → Decimal,
      (∀ quantity, graduatedCharge tiers quantity = .ok ⟨amount quantity, currency⟩) ∧
      (∀ quantity, amount quantity =
        ((bands 0 tiers).map fun band => band.price * band.overlap 0 (max quantity 0)).sum) ∧
      (∀ first second, 0 ≤ first → first ≤ second → amount second = amount first +
        ((bands 0 tiers).map fun band => band.price * band.overlap first second).sum) ∧
      Continuous amount ∧
      (TiersNonneg tiers → Monotone amount) := by
  refine ⟨fun quantity => marginal (bands 0 tiers) 0 (max quantity 0), graduatedCharge_eq valid same,
    fun _ => rfl, fun first second positive ordered => ?_, continuous_marginal _,
    fun nonneg => monotone_marginal fun band member => ?_⟩
  · show marginal _ 0 (max second 0) = marginal _ 0 (max first 0) + marginal _ first second
    rw [max_eq_left positive, max_eq_left (positive.trans ordered), marginal_add _ positive ordered]
  · obtain ⟨tier, inside, price⟩ := price_of_bands member
    rw [price]
    exact nonneg tier inside

/-- The first hundred units at 1, the next hundred at one half, the rest at a tenth. -/
def hundreds : List PriceTier := [
  ⟨some 100, ⟨1, ⟨"USD"⟩⟩⟩, ⟨some 200, ⟨1 / 2, ⟨"USD"⟩⟩⟩, ⟨none, ⟨1 / 10, ⟨"USD"⟩⟩⟩]

theorem graduated_is_marginal_hundreds : validateTiers hundreds = .ok () ∧
    ∃ amount : Decimal → Decimal,
      (∀ quantity, graduatedCharge hundreds quantity = .ok ⟨amount quantity, ⟨"USD"⟩⟩) ∧
      Continuous amount := by
  have valid : validateTiers hundreds = .ok () := by decide +kernel
  have same : InCurrency ⟨"USD"⟩ hundreds := by decide
  obtain ⟨amount, charges, _, _, continuous, _⟩ := graduated_is_marginal valid same
  exact ⟨valid, amount, charges, continuous⟩

/-! ### Volume charges -/

/-- A volume charge is at the price of the band where the quantity lands. -/
theorem volumeCharge_landing {currency : Currency} {quantity : Decimal}
    {before after : List (Band Decimal)} {band : Band Decimal} {tiers : List PriceTier}
    {lower : Decimal} (split : bands lower tiers = before ++ band :: after)
    (same : InCurrency currency tiers) (contains : band.Contains quantity)
    (full : ∀ earlier ∈ before, ∃ upper, earlier.upper = some upper ∧ upper < quantity) :
    volumeCharge tiers quantity = .ok ⟨band.price * quantity, currency⟩ := by
  induction before generalizing tiers lower with
  | nil =>
    cases tiers with
    | nil => cases split
    | cons tier rest =>
      obtain ⟨upTo, unitPrice⟩ := tier
      cases split
      have here : unitPrice.currency = currency := same _ List.mem_cons_self
      have charged : Except.ok (unitPrice.scaleBy quantity) =
          (Except.ok ⟨unitPrice.amount * quantity, currency⟩ : Except PricingError Money) := by
        rw [← here]
        rfl
      cases upTo with
      | none => exact charged
      | some upper => exact (if_pos (contains.2 upper rfl)).trans charged
  | cons earlier before ih =>
    cases tiers with
    | nil => cases split
    | cons tier rest =>
      obtain ⟨upTo, unitPrice⟩ := tier
      obtain ⟨head, tail⟩ := List.cons.inj split
      obtain ⟨⟨upper, bounded, below⟩, later⟩ := List.forall_mem_cons.mp full
      rw [← head] at bounded
      cases bounded
      rw [volumeCharge]
      show (if quantity ≤ upper then _ else volumeCharge rest quantity) = _
      rw [if_neg (not_le.mpr below)]
      exact ih tail (fun tier inside => same tier (List.mem_cons_of_mem _ inside)) later

/-- Where a positive quantity lands, and what it is charged. -/
theorem volumeCharge_of_pos {currency : Currency} {tiers : List PriceTier} {quantity : Decimal}
    (stacked : Stacked 0 (bands 0 tiers)) (same : InCurrency currency tiers)
    (positive : 0 < quantity) :
    ∃ before band after, bands 0 tiers = before ++ band :: after ∧ band.Contains quantity ∧
      (∀ other ∈ bands 0 tiers, other.Contains quantity → other = band) ∧
      (∀ later ∈ after, quantity ≤ later.lower) ∧
      volumeCharge tiers quantity = .ok ⟨band.price * quantity, currency⟩ := by
  obtain ⟨before, band, after, split, contains, full, empty⟩ := stacked.landing positive
  refine ⟨before, band, after, split, contains, fun other member lands => ?_, empty,
    volumeCharge_landing split same contains full⟩
  rw [split, List.mem_append, List.mem_cons] at member
  rcases member with earlier | rfl | later
  · obtain ⟨upper, bounded, below⟩ := full other earlier
    exact absurd (lands.2 upper bounded) (not_le.mpr below)
  · rfl
  · exact absurd lands.1 (not_lt.mpr (empty other later))

/-- Nothing lands in the first tier. -/
theorem volumeCharge_zero {currency : Currency} {tiers : List PriceTier}
    (stacked : Stacked 0 (bands 0 tiers)) (same : InCurrency currency tiers) :
    ∃ band after, bands 0 tiers = band :: after ∧
      volumeCharge tiers 0 = .ok ⟨band.price * 0, currency⟩ := by
  cases tiers with
  | nil => cases stacked
  | cons tier rest =>
    obtain ⟨upTo, unitPrice⟩ := tier
    have here : unitPrice.currency = currency := same _ List.mem_cons_self
    refine ⟨_, _, rfl, ?_⟩
    have charged : Except.ok (unitPrice.scaleBy 0) =
        (Except.ok ⟨unitPrice.amount * 0, currency⟩ : Except PricingError Money) := by
      rw [← here]
      rfl
    cases upTo with
    | none => exact charged
    | some upper =>
      cases stacked with
      | next _ ascends _ => exact (if_pos ascends.le).trans charged

/-- **Where a quantity lands, and what it is charged**; zero lands in the first tier. -/
theorem volumeCharge_landed {currency : Currency} {tiers : List PriceTier} {quantity : Decimal}
    (stacked : Stacked 0 (bands 0 tiers)) (same : InCurrency currency tiers)
    (nonneg : 0 ≤ quantity) :
    ∃ before band after, bands 0 tiers = before ++ band :: after ∧
      (0 < quantity → band.Contains quantity ∧
        ∀ other ∈ bands 0 tiers, other.Contains quantity → other = band) ∧
      (quantity = 0 → (bands 0 tiers).head? = some band) ∧
      (∀ later ∈ after, quantity ≤ later.lower) ∧
      volumeCharge tiers quantity = .ok ⟨quantity * band.price, currency⟩ := by
  rcases nonneg.eq_or_lt with rfl | positive
  · obtain ⟨band, after, split, charged⟩ := volumeCharge_zero stacked same
    refine ⟨[], band, after, split, fun positive => absurd positive (lt_irrefl _), fun _ => ?_,
      fun later member => ?_, ?_⟩
    · rw [split]
      rfl
    · refine stacked.lower_le ?_
      rw [split]
      exact List.mem_cons_of_mem _ member
    · rw [mul_comm]
      exact charged
  · obtain ⟨before, band, after, split, contains, unique, empty, charged⟩ :=
      volumeCharge_of_pos stacked same positive
    refine ⟨before, band, after, split, fun _ => ⟨contains, unique⟩,
      fun zero => absurd zero positive.ne', empty, ?_⟩
    rw [mul_comm]
    exact charged

/-- The prices from tier to tier. -/
def tierPrices (tiers : List PriceTier) : List Decimal := tiers.map fun tier => tier.unitPrice.amount

theorem prices_bands (tiers : List PriceTier) (lower : Decimal) :
    (bands lower tiers).map Band.price = tierPrices tiers := by
  induction tiers generalizing lower with
  | nil => rfl
  | cons tier rest ih =>
    rw [bands, List.map_cons, ih]
    rfl

section

variable {tiers : List PriceTier} {before after : List (Band Decimal)} {band : Band Decimal}
  {quantity : Decimal}

/-- The units lie in the landing band and in those before it, so a relation that the landing price
has to all earlier prices, it has to the price of every unit. -/
theorem related_of_share {R : Decimal → Decimal → Prop} [Trans R R R] [Std.Refl R]
    (split : bands 0 tiers = before ++ band :: after) (empty : ∀ later ∈ after, quantity ≤ later.lower)
    (chain : (tierPrices tiers).IsChain R) :
    ∀ other ∈ bands 0 tiers, other.overlap 0 quantity ≠ 0 → R other.price band.price := by
  rw [← prices_bands tiers 0, split, List.map_append, List.map_cons] at chain
  have ordered := (List.pairwise_append.mp chain.pairwise).2.2
  intro other member share
  rw [split, List.mem_append, List.mem_cons] at member
  rcases member with earlier | rfl | later
  · exact ordered _ (List.mem_map_of_mem earlier) _ List.mem_cons_self
  · exact Std.Refl.refl _
  · exact absurd (other.overlap_of_le 0 (empty other later)) share

/-- Falling prices: the landing price is the lowest that any unit pays. -/
theorem landing_le_marginal (stacked : Stacked 0 (bands 0 tiers)) (nonneg : 0 ≤ quantity)
    (split : bands 0 tiers = before ++ band :: after) (empty : ∀ later ∈ after, quantity ≤ later.lower)
    (chain : (tierPrices tiers).IsChain (· ≥ ·)) :
    quantity * band.price ≤ marginal (bands 0 tiers) 0 quantity := by
  have bound := le_marginal_of_prices (related_of_share split empty chain)
  rwa [stacked.sum_overlap le_rfl nonneg, sub_zero, mul_comm] at bound

/-- Rising prices: it is the highest. -/
theorem marginal_le_landing (stacked : Stacked 0 (bands 0 tiers)) (nonneg : 0 ≤ quantity)
    (split : bands 0 tiers = before ++ band :: after) (empty : ∀ later ∈ after, quantity ≤ later.lower)
    (chain : (tierPrices tiers).IsChain (· ≤ ·)) :
    marginal (bands 0 tiers) 0 quantity ≤ quantity * band.price := by
  have bound := marginal_le_of_prices (related_of_share split empty chain)
  rwa [stacked.sum_overlap le_rfl nonneg, sub_zero, mul_comm] at bound

end

/-- **Volume against graduated.** For a schedule that is accepted and prices in one currency, and a
quantity that is not negative: the volume charge is the quantity times the price of the one band
where it lands, the first for zero. It is at most the graduated charge if prices never increase from
tier to tier, and at least that if they never decrease. If all tiers have one price, both are the
standard charge. -/
theorem volume_against_graduated {currency : Currency} {tiers : List PriceTier} {quantity : Decimal}
    (valid : validateTiers tiers = .ok ()) (same : InCurrency currency tiers)
    (nonneg : 0 ≤ quantity) :
    ∃ band ∈ bands 0 tiers, ∃ graduated : Decimal,
      (0 < quantity → band.Contains quantity ∧
        ∀ other ∈ bands 0 tiers, other.Contains quantity → other = band) ∧
      (quantity = 0 → (bands 0 tiers).head? = some band) ∧
      volumeCharge tiers quantity = .ok ⟨quantity * band.price, currency⟩ ∧
      graduatedCharge tiers quantity = .ok ⟨graduated, currency⟩ ∧
      ((tierPrices tiers).IsChain (· ≥ ·) → quantity * band.price ≤ graduated) ∧
      ((tierPrices tiers).IsChain (· ≤ ·) → graduated ≤ quantity * band.price) ∧
      ∀ price, (∀ tier ∈ tiers, tier.unitPrice.amount = price) →
        ∀ component : PriceComponent, component.chargeModel = .standard →
          component.unitPrice = ⟨price, currency⟩ →
          volumeCharge tiers quantity = component.charge quantity ∧
            graduatedCharge tiers quantity = component.charge quantity := by
  have stacked := (validateTiers_iff tiers).mp valid
  have graduated := graduatedCharge_eq valid same quantity
  rw [max_eq_left nonneg] at graduated
  obtain ⟨before, band, after, split, lands, first, empty, charged⟩ :=
    volumeCharge_landed stacked same nonneg
  have member : band ∈ bands 0 tiers := by
    rw [split]
    exact List.mem_append_right _ List.mem_cons_self
  have below := landing_le_marginal stacked nonneg split empty
  have above := marginal_le_landing stacked nonneg split empty
  refine ⟨band, member, _, lands, first, charged, graduated, below, above,
    fun price flat component standard unitPrice => ?_⟩
  have prices : tierPrices tiers = List.replicate tiers.length price := by
    refine List.eq_replicate_iff.mpr ⟨List.length_map .., fun other inside => ?_⟩
    obtain ⟨tier, here, rfl⟩ := List.mem_map.mp inside
    exact flat tier here
  have equal : band.price = price := by
    obtain ⟨tier, inside, same⟩ := price_of_bands member
    rw [same, flat tier inside]
  have charge : component.charge quantity = .ok ⟨quantity * band.price, currency⟩ := by
    rw [PriceComponent.charge, standard, max_eq_left nonneg, unitPrice, equal, mul_comm]
    rfl
  refine ⟨charged.trans charge.symm, graduated.trans ?_⟩
  rw [charge, le_antisymm (above ?_) (below ?_)]
  · rw [prices]
    exact List.isChain_replicate_of_rel _ le_rfl
  · rw [prices]
    exact List.isChain_replicate_of_rel _ le_rfl

theorem volume_against_graduated_hundreds : validateTiers hundreds = .ok () ∧
    ∃ band ∈ bands 0 hundreds, ∃ graduated,
      volumeCharge hundreds 150 = .ok ⟨150 * band.price, ⟨"USD"⟩⟩ ∧
      graduatedCharge hundreds 150 = .ok ⟨graduated, ⟨"USD"⟩⟩ ∧
      150 * band.price ≤ graduated := by
  have valid : validateTiers hundreds = .ok () := by decide +kernel
  have same : InCurrency ⟨"USD"⟩ hundreds := by decide
  have falling : (tierPrices hundreds).IsChain (· ≥ ·) := by decide +kernel
  obtain ⟨band, member, graduated, _, _, charged, marginal, below, _⟩ :=
    volume_against_graduated valid same (by norm_num : (0 : Decimal) ≤ 150)
  exact ⟨valid, band, member, graduated, charged, marginal, below falling⟩

end Meter.Pricing
