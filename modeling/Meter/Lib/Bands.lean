/-
**Prices by bands.**

A quantity is cut into bands that follow each other, the last one unbounded, and each band has a
price. `marginal` prices the units of every band at its own price.

* `marginal_add` — what lies between two points is added up across any third.
* `sum_overlap` — the bands cover everything: their shares add up to the whole.
* `Stacked.landing` — **every quantity lands in one band**: the bands before it are full, and the
  ones after it empty.
* `marginal_le_of_prices`, `le_marginal_of_prices` — the marginal price against a flat one.
* `Stacked.accrues_iff` — **when a total never goes below zero**: it does not at any bound, and the
  last price is not negative.
-/

import Mathlib.Algebra.BigOperators.Group.List.Basic
import Mathlib.Algebra.BigOperators.Ring.List
import Mathlib.Algebra.Order.BigOperators.Group.List
import Mathlib.Algebra.Order.Field.Basic
import Mathlib.Algebra.Order.Ring.Defs
import Mathlib.Tactic.Linarith
import Mathlib.Tactic.Ring

namespace Meter.Lib

section

variable {α : Type} [CommRing α] [LinearOrder α] [IsStrictOrderedRing α]

/-! ### One band -/

/-- The band `(lower, upper]`, or everything above `lower`, and its price. -/
structure Band (α : Type) where
  lower : α
  upper : Option α
  price : α

namespace Band

/-- A quantity lands in the band. -/
def Contains (band : Band α) (quantity : α) : Prop :=
  band.lower < quantity ∧ ∀ upper, band.upper = some upper → quantity ≤ upper

/-- The length of the part of `(start, stop]` inside the band. -/
def overlap (band : Band α) (start stop : α) : α :=
  max (band.upper.elim stop (min stop) - max start band.lower) 0

omit [IsStrictOrderedRing α] in
theorem overlap_nonneg (band : Band α) (start stop : α) : 0 ≤ band.overlap start stop :=
  le_max_right _ _

/-- Nothing lies in a band that begins at the end or later. -/
theorem overlap_of_le {band : Band α} {stop : α} (start : α) (ends : stop ≤ band.lower) :
    band.overlap start stop = 0 := by
  refine max_eq_right (sub_nonpos.mpr (le_trans ?_ (le_max_right _ _)))
  cases band.upper with
  | none => exact ends
  | some upper => exact (min_le_left _ _).trans ends

/-- **A band is shared out at any point.** -/
theorem overlap_add (band : Band α) {start middle stop : α} (first : start ≤ middle)
    (second : middle ≤ stop) :
    band.overlap start stop = band.overlap start middle + band.overlap middle stop := by
  unfold overlap
  cases band.upper with
  | none =>
    show max (stop - max start band.lower) 0 =
      max (middle - max start band.lower) 0 + max (stop - max middle band.lower) 0
    grind
  | some upper =>
    show max (min stop upper - max start band.lower) 0 =
      max (min middle upper - max start band.lower) 0 +
        max (min stop upper - max middle band.lower) 0
    grind

end Band

/-! ### Bands that follow each other -/

/-- Bands one after another, from `lower` on; the last one is unbounded. -/
inductive Stacked : α → List (Band α) → Prop
  | last (lower price : α) : Stacked lower [⟨lower, none, price⟩]
  | next {lower upper : α} {rest : List (Band α)} (price : α) : lower < upper →
      Stacked upper rest → Stacked lower (⟨lower, some upper, price⟩ :: rest)

/-- **The marginal price** of the units in `(start, stop]`: every band's units at its own price. -/
def marginal (bands : List (Band α)) (start stop : α) : α :=
  (bands.map fun band => band.price * band.overlap start stop).sum

variable {bands : List (Band α)} {lower start middle stop quantity : α}

omit [IsStrictOrderedRing α] in
theorem marginal_cons (band : Band α) (bands : List (Band α)) (start stop : α) :
    marginal (band :: bands) start stop =
      band.price * band.overlap start stop + marginal bands start stop := by
  rw [marginal, List.map_cons, List.sum_cons, marginal]

/-- **Marginal prices add up across any split.** -/
theorem marginal_add (bands : List (Band α)) (first : start ≤ middle) (second : middle ≤ stop) :
    marginal bands start stop = marginal bands start middle + marginal bands middle stop := by
  induction bands with
  | nil => exact (add_zero 0).symm
  | cons band bands ih =>
    rw [marginal_cons, marginal_cons, marginal_cons, ih, band.overlap_add first second]
    ring

theorem marginal_nonneg (prices : ∀ band ∈ bands, 0 ≤ band.price) (start stop : α) :
    0 ≤ marginal bands start stop := by
  refine List.sum_nonneg fun share member => ?_
  obtain ⟨band, inside, rfl⟩ := List.mem_map.mp member
  exact mul_nonneg (prices band inside) (band.overlap_nonneg _ _)

theorem marginal_mono (prices : ∀ band ∈ bands, 0 ≤ band.price) (first : start ≤ middle)
    (second : middle ≤ stop) : marginal bands start middle ≤ marginal bands start stop := by
  rw [marginal_add bands first second]
  exact le_add_of_nonneg_right (marginal_nonneg prices _ _)

omit [CommRing α] [IsStrictOrderedRing α] in
theorem Stacked.lower_le (stacked : Stacked lower bands) {band : Band α} (member : band ∈ bands) :
    lower ≤ band.lower := by
  induction stacked with
  | last lower price =>
    rw [List.mem_singleton.mp member]
  | next price above _ ih =>
    rcases List.mem_cons.mp member with rfl | later
    · exact le_rfl
    · exact above.le.trans (ih later)

/-- Nothing lies in bands that begin at the end or later. -/
theorem Stacked.marginal_of_le (stacked : Stacked lower bands) (start : α) (ends : stop ≤ lower) :
    marginal bands start stop = 0 := by
  refine List.sum_eq_zero fun share member => ?_
  obtain ⟨band, inside, rfl⟩ := List.mem_map.mp member
  rw [band.overlap_of_le start (ends.trans (stacked.lower_le inside)), mul_zero]

omit [IsStrictOrderedRing α] in
/-- Bands do not see what lies below them. -/
theorem Stacked.marginal_start (stacked : Stacked lower bands) (below : start ≤ lower) (stop : α) :
    marginal bands start stop = marginal bands lower stop := by
  refine congrArg List.sum (List.map_congr_left fun band member => ?_)
  have above := stacked.lower_le member
  rw [Band.overlap, Band.overlap, max_eq_right (below.trans above), max_eq_right above]

/-- What the bands cover of `(start, stop]`: all of it above the first bound. -/
theorem Stacked.sum_overlap_above (stacked : Stacked lower bands) (start stop : α) :
    (bands.map fun band => band.overlap start stop).sum = max (stop - max start lower) 0 := by
  induction stacked with
  | last lower price => exact add_zero _
  | @next lower upper rest price above _ ih =>
    rw [List.map_cons, List.sum_cons, ih]
    show max (min stop upper - max start lower) 0 + max (stop - max start upper) 0 = _
    grind

/-- **The bands share out everything.** -/
theorem Stacked.sum_overlap (stacked : Stacked lower bands) (begins : lower ≤ start)
    (ordered : start ≤ stop) :
    (bands.map fun band => band.overlap start stop).sum = stop - start := by
  rw [stacked.sum_overlap_above, max_eq_left begins, max_eq_left (sub_nonneg.mpr ordered)]

omit [CommRing α] [IsStrictOrderedRing α] in
/-- **Every quantity lands in one band**: the bands before it end below, and those after it begin
at it or above. -/
theorem Stacked.landing (stacked : Stacked lower bands) (above : lower < quantity) :
    ∃ before band after, bands = before ++ band :: after ∧ band.Contains quantity ∧
      (∀ earlier ∈ before, ∃ upper, earlier.upper = some upper ∧ upper < quantity) ∧
      ∀ later ∈ after, quantity ≤ later.lower := by
  induction stacked with
  | last lower price =>
    refine ⟨[], _, [], rfl, ⟨above, fun upper bounded => ?_⟩, fun _ member => ?_, fun _ member => ?_⟩
    · cases bounded
    · cases member
    · cases member
  | @next lower upper rest price ascends stacked ih =>
    rcases le_or_gt quantity upper with inside | beyond
    · refine ⟨[], _, rest, rfl, ⟨above, fun upper' bounded => ?_⟩, fun _ member => ?_,
        fun later member => inside.trans (stacked.lower_le member)⟩
      · cases bounded
        exact inside
      · cases member
    · obtain ⟨before, band, after, rfl, contains, full, empty⟩ := ih beyond
      refine ⟨_ :: before, band, after, rfl, contains, fun earlier member => ?_, empty⟩
      rcases List.mem_cons.mp member with rfl | later
      · exact ⟨upper, rfl, beyond⟩
      · exact full earlier later

/-! ### Against a flat price -/

/-- If the bands that have a share cost at least a price, so do all the units together. -/
theorem le_marginal_of_prices {price : α}
    (prices : ∀ band ∈ bands, band.overlap start stop ≠ 0 → price ≤ band.price) :
    price * (bands.map fun band => band.overlap start stop).sum ≤ marginal bands start stop := by
  rw [marginal, ← List.sum_map_mul_left]
  refine List.sum_le_sum fun band member => ?_
  by_cases share : band.overlap start stop = 0
  · rw [share, mul_zero, mul_zero]
  · exact mul_le_mul_of_nonneg_right (prices band member share) (band.overlap_nonneg _ _)

/-- If they cost at most a price, so do all the units together. -/
theorem marginal_le_of_prices {price : α}
    (prices : ∀ band ∈ bands, band.overlap start stop ≠ 0 → band.price ≤ price) :
    marginal bands start stop ≤ price * (bands.map fun band => band.overlap start stop).sum := by
  rw [marginal, ← List.sum_map_mul_left]
  refine List.sum_le_sum fun band member => ?_
  by_cases share : band.overlap start stop = 0
  · rw [share, mul_zero, mul_zero]
  · exact mul_le_mul_of_nonneg_right (prices band member share) (band.overlap_nonneg _ _)

end

/-! ### Totals that stay above zero -/

section

variable {α : Type} [Field α] [LinearOrder α] [IsStrictOrderedRing α]

/-- The total is not negative at any bound, nor does it fall beyond the last one. -/
def Accrues : α → List (Band α) → Prop
  | _, [] => True
  | total, band :: rest => match band.upper with
    | some upper => 0 ≤ total + band.price * (upper - band.lower) ∧
        Accrues (total + band.price * (upper - band.lower)) rest
    | none => 0 ≤ band.price

variable {bands : List (Band α)} {lower total : α}

/-- A line that never goes below zero does not fall. -/
theorem nonneg_slope {price : α} (line : ∀ length, 0 ≤ length → 0 ≤ total + price * length) :
    0 ≤ price := by
  by_contra falls
  have slope : 0 < -price := neg_pos.mpr (not_le.mp falls)
  have start : 0 ≤ total := by simpa using line 0 le_rfl
  have far := line ((total + 1) / -price) (div_nonneg (by linarith) slope.le)
  rw [← neg_neg (price * _), ← neg_mul, mul_div_cancel₀ _ slope.ne'] at far
  linarith

/-- A line that is not negative at its ends is not negative between them. -/
theorem nonneg_between {price width length : α} (starts : 0 ≤ total)
    (ends : 0 ≤ total + price * width) (nonneg : 0 ≤ length) (inside : length ≤ width) :
    0 ≤ total + price * length := by
  rcases le_or_gt 0 price with rises | falls
  · exact add_nonneg starts (mul_nonneg rises nonneg)
  · have later : price * width ≤ price * length := mul_le_mul_of_nonpos_left inside falls.le
    linarith

/-- **When a total never goes below zero.** -/
theorem Stacked.accrues_iff (stacked : Stacked lower bands) (starts : 0 ≤ total) :
    (∀ stop, lower ≤ stop → 0 ≤ total + marginal bands lower stop) ↔ Accrues total bands := by
  induction stacked generalizing total with
  | last lower price =>
    have line : ∀ stop, lower ≤ stop →
        marginal [⟨lower, none, price⟩] lower stop = price * (stop - lower) := by
      intro stop above
      show price * max (stop - max lower lower) 0 + 0 = _
      rw [max_self, max_eq_left (sub_nonneg.mpr above), add_zero]
    refine ⟨fun never => ?_, fun (rises : 0 ≤ price) stop above => ?_⟩
    · show 0 ≤ price
      refine @nonneg_slope _ _ _ _ total _ fun length nonneg => ?_
      have here := never (lower + length) (le_add_of_nonneg_right nonneg)
      rwa [line _ (le_add_of_nonneg_right nonneg), add_sub_cancel_left] at here
    · rw [line stop above]
      exact add_nonneg starts (mul_nonneg rises (sub_nonneg.mpr above))
  | @next lower upper rest price ascends stacked ih =>
    have inside : ∀ stop, lower ≤ stop → stop ≤ upper →
        marginal (⟨lower, some upper, price⟩ :: rest) lower stop = price * (stop - lower) := by
      intro stop above below
      rw [marginal_cons, stacked.marginal_of_le lower below, add_zero]
      show price * max (min stop upper - max lower lower) 0 = _
      rw [max_self, min_eq_left below, max_eq_left (sub_nonneg.mpr above)]
    have beyond : ∀ stop, upper ≤ stop →
        marginal (⟨lower, some upper, price⟩ :: rest) lower stop =
          price * (upper - lower) + marginal rest upper stop := by
      intro stop above
      rw [marginal_cons, stacked.marginal_start ascends.le]
      show price * max (min stop upper - max lower lower) 0 + _ = _
      rw [max_self, min_eq_right above, max_eq_left (sub_nonneg.mpr ascends.le)]
    refine ⟨fun never => ?_, fun accrues stop above => ?_⟩
    · have atBound := never upper ascends.le
      rw [inside upper ascends.le le_rfl] at atBound
      refine ⟨atBound, (ih atBound).mp fun stop above => ?_⟩
      have here := never stop (ascends.le.trans above)
      rwa [beyond stop above, ← add_assoc] at here
    · obtain ⟨atBound, accrues⟩ := accrues
      rcases le_total stop upper with below | past
      · rw [inside stop above below]
        exact nonneg_between starts atBound (sub_nonneg.mpr above) (sub_le_sub_right below _)
      · rw [beyond stop past, ← add_assoc]
        exact (ih atBound).mpr accrues stop past

end

end Meter.Lib
