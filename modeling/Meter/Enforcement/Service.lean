/-
**The enforcement service** (`crates/meter-enforcement/src/service.rs`).

`reserve_usage` prices a worst-case estimate and places a hold for it; `settle_usage` prices the
actual usage and closes the hold at that. Here over the in-memory ledger.

* `price_mono` — **token counts that stay within an estimate cost no more credits**, on an accepted
  card whose volume schedules do not fall.
* `settle_within_hold` — a hold that was placed for an estimate keeps its amount whatever is called
  after, and settling within the estimate posts no more than that.
* `estimate_covers_actual` — both together.
-/

import Meter.Api.Priced
import Meter.Ledger.Allowed
import Meter.Ledger.Holds

namespace Meter.Enforcement

open Meter.Lib Meter.Pricing Meter.Ledger
open Meter.Api (UsageDimensions countCharge sum_charged covers_iff)

/-- Pricing the usage or applying it to the ledger failed. -/
inductive EnforcementError where
  | ledger (error : LedgerError)
  | pricing (error : PricingError)
  deriving DecidableEq

/-- A settled reservation: the entry, and the pricing that produced it. -/
structure Settlement where
  entry : LedgerEntry
  priced : PricedUsage
  deriving DecidableEq

/-- The service, with the cash value of one credit. Its ledger is the state passed along. -/
structure EnforcementService where
  creditValue : Money

/-- A method's result and the ledger it leaves, or `none` for a panic. -/
abbrev Outcome (α : Type) := Option (Except EnforcementError α × State)

namespace EnforcementService

/-- Price an estimate and place a hold for it. -/
def reserveUsage (service : EnforcementService) (account : AccountId)
    (reservationId : ReservationId) (estimate : Usage) (card : RateCard) (limit : LimitClass)
    (runId : Option RunId) (s : State) : Outcome ReserveOutcome :=
  match priceUsage estimate card service.creditValue with
  | .error error => some (.error (.pricing error), s)
  | .ok priced =>
    (reserve {
        account
        reservationId
        amount := priced.credits
        limit
        expiresAt := none
        runId } s).map fun result => (result.1.mapError .ledger, result.2)

/-- Price the actual usage and post it, closing the reservation. -/
def settleUsage (service : EnforcementService) (amb : Ambient) (reservationId : ReservationId)
    (actual : Usage) (card : RateCard) (s : State) : Outcome Settlement :=
  match priceUsage actual card service.creditValue with
  | .error error => some (.error (.pricing error), s)
  | .ok priced =>
    (settle amb ⟨reservationId, priced.credits⟩ s).map fun result =>
      ((result.1.mapError .ledger).map fun entry => { entry, priced }, result.2)

end EnforcementService

/-! ### Counts within an estimate -/

/-- No count exceeds the estimate. -/
structure Within (actual estimate : UsageDimensions) : Prop where
  inputUncached : actual.inputUncached ≤ estimate.inputUncached
  cacheRead : actual.cacheRead ≤ estimate.cacheRead
  cacheWrite : actual.cacheWrite ≤ estimate.cacheWrite
  output : actual.output ≤ estimate.output
  reasoning : actual.reasoning ≤ estimate.reasoning

section Prices

variable {card : RateCard} (accepted : card.validate = .ok ()) (rising : card.Rising)

/-- Every positive count is one of the estimate. -/
theorem covers_of_within {actual estimate : UsageDimensions} (within : Within actual estimate)
    (covered : card.Covers estimate.toUsage) : card.Covers actual.toUsage := by
  rw [covers_iff] at covered ⊢
  obtain ⟨input, read, write, output⟩ := covered
  exact ⟨fun counted => input (UInt64.lt_of_lt_of_le counted within.inputUncached),
    fun counted => read (UInt64.lt_of_lt_of_le counted within.cacheRead),
    fun counted => write (UInt64.lt_of_lt_of_le counted within.cacheWrite),
    fun counted => output (UInt64.lt_of_lt_of_le counted within.output)⟩

include accepted rising

theorem countCharge_mono (dimension : PricingDimension) {first second : UInt64}
    (ordered : first ≤ second) :
    countCharge card dimension first ≤ countCharge card dimension second := by
  refine charged_mono accepted rising _ _ _ ?_
  exact_mod_cast UInt64.le_iff_toNat_le.mp ordered

/-- **Counts within an estimate cost no more credits.** -/
theorem price_mono {actual estimate : UsageDimensions} (within : Within actual estimate)
    (covered : card.Covers estimate.toUsage) (margin : 0 ≤ card.margin) {creditValue : Money}
    (currency : creditValue.currency = card.currency) (positive : 0 < creditValue.amount) :
    ∃ less more, priceUsage actual.toUsage card creditValue = .ok less ∧
      priceUsage estimate.toUsage card creditValue = .ok more ∧ less.credits ≤ more.credits := by
  have less := priceUsage_of_cost (cost_of_covered accepted rising
    (covers_of_within within covered)) currency positive
  have more := priceUsage_of_cost (cost_of_covered accepted rising covered) currency positive
  refine ⟨_, _, less, more, roundDp_mono ?_ _⟩
  refine div_le_div_of_nonneg_right (mul_le_mul_of_nonneg_right ?_ margin) positive.le
  show (actual.toUsage.quantities.map (card.charged .text .standard)).sum ≤
    (estimate.toUsage.quantities.map (card.charged .text .standard)).sum
  rw [sum_charged, sum_charged]
  have input := countCharge_mono accepted rising .inputUncached within.inputUncached
  have read := countCharge_mono accepted rising .cacheRead within.cacheRead
  have write := countCharge_mono accepted rising .cacheWrite within.cacheWrite
  have output := countCharge_mono accepted rising .output within.output
  linarith

end Prices

/-! ### Holds and what is settled against them -/

/-- What was posted, on the hold's account, is no more than the hold; nor does the balance fall by
more. -/
structure SettledWithin (hold : Hold) (s s' : State) : Prop where
  entries : ∃ posted, s'.entries = s.entries ++ posted ∧
    ∀ entry ∈ posted, entry.accountId = hold.account ∧ -entry.deltaCredits ≤ hold.amount
  balance : s.settled hold.account - hold.amount ≤ s'.settled hold.account

theorem SettledWithin.refl {hold : Hold} (nonneg : 0 ≤ hold.amount) (s : State) :
    SettledWithin hold s s :=
  ⟨⟨[], (List.append_nil _).symm, fun _ member => absurd member List.not_mem_nil⟩,
    sub_le_self _ nonneg⟩

theorem flow_ge {account : AccountId} {amount : Credit} (nonneg : 0 ≤ amount) :
    -amount ≤ flow systemAccount account (-amount) account := by
  unfold flow
  rw [if_pos rfl]
  split
  · linarith
  · linarith

/-- **Settling within a hold posts no more than it.** -/
theorem settle_within_hold {amb : Ambient} {s s' : State} (wf : s.WellFormed) {req : SettleRequest}
    {hold : Hold} (found : s.holds.get? req.reservationId = some hold)
    (within : req.actual ≤ hold.amount) {reply : Except LedgerError LedgerEntry}
    (result : settle amb req s = some (reply, s')) : SettledWithin hold s s' := by
  have still := SettledWithin.refl (wf.holdTerms found).2 s
  unfold settle at result
  split at result
  · cases result
    exact still
  rename_i nonneg
  rw [found] at result
  dsimp only at result
  split at result
  · obtain ⟨entry, _, same⟩ := Option.map_eq_some_iff.mp result
    cases same
    exact still
  · cases result
    exact still
  · obtain ⟨row, isRow⟩ := Table.contains_iff.mp (wf.holdTerms found).1
    rw [postDebit_eq (req.posting hold.account) isRow] at result
    cases result
    refine ⟨⟨[_], rfl, List.forall_mem_singleton.mpr ⟨rfl, ?_⟩⟩, ?_⟩
    · show -(-req.actual) ≤ hold.amount
      rwa [neg_neg]
    · have paid := State.settled_pay (Table.contains_iff.mpr ⟨row, isRow⟩) systemAccount
        hold.account (-req.actual)
      have moved : -req.actual ≤ flow systemAccount hold.account (-req.actual) hold.account :=
        flow_ge (not_lt.mp nonneg)
      show s.settled hold.account - hold.amount ≤
        (s.pay systemAccount hold.account (-req.actual)).settled hold.account
      rw [paid]
      linarith

/-- A new hold for an estimate. -/
theorem reserveUsage_places {service : EnforcementService} {account : AccountId}
    {reservationId reservation : ReservationId} {estimate : Usage} {card : RateCard}
    {limit : LimitClass} {runId : Option RunId} {s s' : State} {priced : PricedUsage}
    (computed : priceUsage estimate card service.creditValue = .ok priced)
    (absent : s.holds.get? reservationId = none)
    (allowed : service.reserveUsage account reservationId estimate card limit runId s =
      some (.ok (.allowed reservation), s')) :
    ∃ hold, s'.holds.get? reservationId = some hold ∧ hold.account = account ∧
      hold.amount = priced.credits ∧ ∃ actions, Path s actions s' := by
  rw [EnforcementService.reserveUsage, computed] at allowed
  obtain ⟨⟨reply, after⟩, result, same⟩ := Option.map_eq_some_iff.mp allowed
  cases reply with
  | error error => cases same
  | ok outcome =>
    cases same
    obtain ⟨actions, path, _⟩ := (reserve_refines _).follows _ _ result
    obtain ⟨_, ⟨hold, found, _⟩ | ⟨_, _, rfl⟩⟩ := allowed_cases result
    · cases absent.symm.trans found
    · exact ⟨_, (Table.get?_set _ _ _ _).trans (if_pos rfl), rfl, rfl, actions, path⟩

theorem settleUsage_settles {service : EnforcementService} {amb : Ambient}
    {reservationId : ReservationId} {actual : Usage} {card : RateCard} {s s' : State}
    {priced : PricedUsage} {reply : Except EnforcementError Settlement}
    (computed : priceUsage actual card service.creditValue = .ok priced)
    (result : service.settleUsage amb reservationId actual card s = some (reply, s')) :
    ∃ answer, settle amb ⟨reservationId, priced.credits⟩ s = some (answer, s') := by
  rw [EnforcementService.settleUsage, computed] at result
  obtain ⟨⟨answer, after⟩, settled, same⟩ := Option.map_eq_some_iff.mp result
  cases same
  exact ⟨answer, settled⟩

/-- **A worst-case estimate covers the actual usage.** On an accepted card with no negative margin,
whose tiers are in its currency, not negative and, in volume schedules, do not fall: counts within an
estimate cost no more credits. So when `reserve_usage` was allowed and placed a hold for the estimate,
then whatever else is called in between, `settle_usage` of the counts posts no more than that hold,
and takes no more from the balance. -/
theorem estimate_covers_actual {card : RateCard} (accepted : card.validate = .ok ())
    (rising : card.Rising) (margin : 0 ≤ card.margin) {service : EnforcementService}
    (currency : service.creditValue.currency = card.currency)
    (positive : 0 < service.creditValue.amount) {actual estimate : UsageDimensions}
    (within : Within actual estimate) (covered : card.Covers estimate.toUsage) :
    (∃ less more, priceUsage actual.toUsage card service.creditValue = .ok less ∧
      priceUsage estimate.toUsage card service.creditValue = .ok more ∧
      less.credits ≤ more.credits) ∧
    ∀ before s account reservationId limit runId reservation placed between reached amb reply last,
      History State.new before s → s.holds.get? reservationId = none →
      service.reserveUsage account reservationId estimate.toUsage card limit runId s =
        some (.ok (.allowed reservation), placed) →
      History placed between reached →
      service.settleUsage amb reservationId actual.toUsage card reached = some (reply, last) →
      ∃ hold, reached.holds.get? reservationId = some hold ∧ hold.account = account ∧
        SettledWithin hold reached last := by
  obtain ⟨less, more, priced, priced', ordered⟩ :=
    price_mono accepted rising within covered margin currency positive
  refine ⟨⟨less, more, priced, priced', ordered⟩, ?_⟩
  intro before s account reservationId limit runId reservation placed between reached amb reply last
    history absent allowed rest settled
  obtain ⟨hold, found, own, amount, actions, path⟩ := reserveUsage_places priced' absent allowed
  have wf := (history.wellFormed .new).path path
  obtain ⟨steps, later, _⟩ := rest.path wf
  obtain ⟨new, found', evolves⟩ := later.hold found
  obtain ⟨answer, settles⟩ := settleUsage_settles priced settled
  refine ⟨new, found', evolves.account.trans own, ?_⟩
  refine settle_within_hold (rest.wellFormed wf) found' ?_ settles
  rw [evolves.amount, amount]
  exact ordered

/-- A card that prices input tokens, in dollars. -/
def inputCard (model : ChargeModel) : RateCard where
  id := 0
  kind := .customer
  currency := ⟨"USD"⟩
  version := 1
  margin := 1
  components := [⟨.inputUncached, .text, .standard, .token, model, ⟨1, ⟨"USD"⟩⟩⟩]

/-- Input tokens only. -/
def inputTokens (count : UInt64) : UsageDimensions := ⟨count, 0, 0, 0, 0⟩

/-- Graduated tiers, and a service whose credit is a dollar. -/
def graduatedCard : RateCard := inputCard (.graduated hundreds)

def dollarService : EnforcementService := ⟨⟨1, ⟨"USD"⟩⟩⟩

/-- An account with 200 credits. -/
def fundedCalls : List (Ambient × Call) :=
  [.openAccount ⟨1, .user, true, none⟩, .grant ⟨1, 200, .paid, none⟩].zipIdx.map
    fun call => (numbered call.2, call.1)

/-- The state that the script ends in. -/
def funded : State := (perform State.new fundedCalls).elim State.new Prod.snd

theorem history_funded : ∃ events, History State.new events funded := by
  have result : (perform State.new fundedCalls).isSome := by decide +kernel
  obtain ⟨⟨events, last⟩, found⟩ := Option.isSome_iff_exists.mp result
  refine ⟨events, ?_⟩
  rw [funded, found]
  exact history_of_perform found

/-- A hold for 150 tokens has been placed. -/
def heldFunds : State := (dollarService.reserveUsage 1 11 (inputTokens 150).toUsage graduatedCard
  .hard none funded).elim funded Prod.snd

theorem reserve_heldFunds : dollarService.reserveUsage 1 11 (inputTokens 150).toUsage graduatedCard
    .hard none funded = some (.ok (.allowed 11), heldFunds) := by
  have allowed : (dollarService.reserveUsage 1 11 (inputTokens 150).toUsage graduatedCard .hard none
      funded).map Prod.fst = some (.ok (.allowed 11)) := by decide +kernel
  obtain ⟨⟨reply, placed⟩, found, rfl⟩ := Option.map_eq_some_iff.mp allowed
  rw [heldFunds, found]
  rfl

/-- On graduated tiers, 100 tokens are within an estimate of 150. The hold for the estimate is 125
credits, and after another charge the 100 tokens are settled within it. -/
theorem estimate_covers_actual_graduated :
    (∃ less more, priceUsage (inputTokens 100).toUsage graduatedCard dollarService.creditValue =
        .ok less ∧
      priceUsage (inputTokens 150).toUsage graduatedCard dollarService.creditValue = .ok more ∧
      less.credits ≤ more.credits) ∧
    ∃ between reached settlement last hold, History heldFunds between reached ∧
      between.length = 1 ∧
      dollarService.settleUsage (numbered 3) 11 (inputTokens 100).toUsage graduatedCard reached =
        some (.ok settlement, last) ∧
      reached.holds.get? 11 = some hold ∧ hold.amount = 125 ∧ SettledWithin hold reached last := by
  have accepted : graduatedCard.validate = .ok () := by decide +kernel
  have rising : graduatedCard.Rising := by
    refine List.forall_mem_singleton.mpr ⟨by decide, ?_⟩
    show ∀ tier ∈ hundreds, (0 : Decimal) ≤ tier.unitPrice.amount
    decide +kernel
  have within : Within (inputTokens 100) (inputTokens 150) :=
    ⟨by decide, by decide, by decide, by decide, by decide⟩
  obtain ⟨priced, settles⟩ := estimate_covers_actual accepted rising zero_le_one
    (show dollarService.creditValue.currency = ⟨"USD"⟩ from rfl) one_pos within (by decide)
  refine ⟨priced, ?_⟩
  obtain ⟨before, history⟩ := history_funded
  -- another charge between the reservation and the settle
  have computed : (perform heldFunds [(numbered 2, .charge ⟨1, 5, none, none⟩)]).any (fun result =>
      decide (result.1.length = 1 ∧ (result.2.holds.get? 11).map Hold.amount = some 125 ∧
        ((dollarService.settleUsage (numbered 3) 11 (inputTokens 100).toUsage graduatedCard
          result.2).map fun settled => settled.1.isOk) = some true)) = true := by
    decide +kernel
  obtain ⟨⟨between, reached⟩, performed, facts⟩ := (Option.any_eq_true _ _).mp computed
  obtain ⟨one, amount, closes⟩ := of_decide_eq_true facts
  obtain ⟨⟨reply, last⟩, settled, isOk⟩ := Option.map_eq_some_iff.mp closes
  obtain ⟨hold, found, _, inside⟩ := settles before funded 1 11 .hard none 11 heldFunds between
    reached (numbered 3) reply last history (by decide +kernel) reserve_heldFunds
    (history_of_perform performed) settled
  cases reply with
  | error error => cases isOk
  | ok settlement =>
    rw [found] at amount
    exact ⟨between, reached, settlement, last, hold, history_of_perform performed, one, settled,
      found, Option.some.inj amount, inside⟩

/-- A hundred tokens at 1 each, or any more of them at a tenth each. -/
def bulk : List PriceTier := [⟨some 100, ⟨1, ⟨"USD"⟩⟩⟩, ⟨none, ⟨1 / 10, ⟨"USD"⟩⟩⟩]

/-- On volume tiers whose price falls, 100 tokens cost ten times what an estimate of 101 does. -/
theorem bulk_undercuts : (inputCard (.volume bulk)).validate = .ok () ∧
    (inputCard (.volume bulk)).Nonneg ∧ InCurrency ⟨"USD"⟩ bulk ∧
    Within (inputTokens 100) (inputTokens 101) ∧
    (inputCard (.volume bulk)).Covers (inputTokens 101).toUsage ∧
    ∃ less more, priceUsage (inputTokens 100).toUsage (inputCard (.volume bulk)) ⟨1, ⟨"USD"⟩⟩ =
        .ok less ∧
      priceUsage (inputTokens 101).toUsage (inputCard (.volume bulk)) ⟨1, ⟨"USD"⟩⟩ = .ok more ∧
      ¬ less.credits ≤ more.credits := by
  refine ⟨by decide +kernel, ⟨zero_le_one, ?_, ?_⟩, by decide,
    ⟨by decide, by decide, by decide, by decide, by decide⟩, by decide, ?_⟩
  · exact List.forall_mem_singleton.mpr zero_le_one
  · refine List.forall_mem_singleton.mpr ?_
    show ∀ tier ∈ bulk, (0 : Decimal) ≤ tier.unitPrice.amount
    decide +kernel
  · refine ⟨⟨⟨100, ⟨"USD"⟩⟩, ⟨100, ⟨"USD"⟩⟩, 100⟩, ⟨⟨101 / 10, ⟨"USD"⟩⟩, ⟨101 / 10, ⟨"USD"⟩⟩, 101 / 10⟩,
      by decide +kernel, by decide +kernel, by decide +kernel⟩

end Meter.Enforcement
