/-
**What a governed run leaves behind.**

`withRun` reserves an estimate, hands the work a `settle`, and voids the reservation if the work ends
without having settled: in the `try` block if it returned, best effort in the `catch` block if it
threw or the void failed. The reserve itself is outside the `try`. `withRunUsage` is the same with
amounts that the engine prices.

The work is not written down: at any moment it may ask for a settle, await it or not, return, or
throw. A call reaches the engine some time after it is made, and its answer the client some time
later, or never (`Step`).

* `Step.inv` — what every step keeps, phase by phase.
* `governed_run_closed_iff` — **the condition**: nothing lingers if and only if the answer to a
  granted reserve arrives, and a refused one is for a reservation that is unused or voided;
  `withRunUsage_closed_iff` for an estimate that the engine prices.
* `lost_reserve_lingers` — the answer to the reserve is lost, and the hold stays open.
-/

import Meter.Ledger.Holds
import Meter.Pricing.Price

namespace Meter.Sdk

open Meter.Lib Meter.Ledger

/-! ### The two entry points -/

/-- A run under a reservation, as the ledger sees it. The estimate is what the engine reads or prices
it as, and nothing if it refuses it. -/
structure Governed where
  account : AccountId
  reservationId : ReservationId
  estimate : Option Credit
  limit : LimitClass

structure RunOptions where
  account : AccountId
  estimate : String
  reservationId : ReservationId
  limit : Option LimitClass := none

structure UsageRunOptions where
  account : AccountId
  model : String
  estimate : Pricing.Usage
  reservationId : ReservationId
  limit : Option LimitClass := none

/-- `withRun`: the estimate is a decimal number of credits. -/
def withRun (decode : String → Option Credit) (options : RunOptions) : Governed where
  account := options.account
  reservationId := options.reservationId
  estimate := decode options.estimate
  limit := options.limit.getD .hard

/-- `withRunUsage`: the estimate is an amount of tokens, priced by the card of the model. -/
def withRunUsage (resolveCard : String → Option Pricing.RateCard) (creditValue : Pricing.Money)
    (options : UsageRunOptions) : Governed where
  account := options.account
  reservationId := options.reservationId
  estimate := (resolveCard options.model).bind fun card =>
    (Pricing.priceUsage options.estimate card creditValue).toOption.map Pricing.PricedUsage.credits
  limit := options.limit.getD .hard

/-- The reserve request: no expiry and no run. -/
def Governed.request (run : Governed) (amount : Credit) : ReserveRequest where
  account := run.account
  reservationId := run.reservationId
  amount := amount
  limit := run.limit
  expiresAt := none
  runId := none

/-! ### The client and the engine -/

/-- What an awaited call comes to: an answer, or an error that is thrown. -/
inductive Heard (α : Type) where
  | answer (value : α)
  | failure

def heard {α : Type} : Except LedgerError α → Heard α
  | .ok value => .answer value
  | .error _ => .failure

/-- Where the client is. A call that is awaited has been performed by the engine or not yet. -/
inductive Phase where
  | reserving (performed : Option (Heard ReserveOutcome))
  | working
  | voiding (performed : Option (Heard Unit))
  | cleaning (performed : Bool)
  | ended

/-- The engine's ledger, the client, and the settles that are under way. -/
structure World where
  ledger : State
  phase : Phase
  /-- The flag that the handle sets. -/
  settled : Bool
  /-- Whether the work has asked for a settle. -/
  asked : Bool
  /-- Settles that the engine has not performed yet, with the amount it will read. -/
  pending : List (Option Credit)
  /-- Settles that succeeded and whose answer the client does not have yet. -/
  answers : Nat

def start (ledger : State) : World := ⟨ledger, .reserving none, false, false, [], 0⟩

/-- What the engine makes of the reserve. -/
def attempt (run : Governed) (ledger : State) : Heard ReserveOutcome × State :=
  match run.estimate with
  | none => (.failure, ledger)
  | some amount => match reserve (run.request amount) ledger with
    | none => (.failure, ledger)
    | some (reply, ledger') => (heard reply, ledger')

/-- An answer that lets the work run. -/
def Heard.Allows : Heard ReserveOutcome → Prop
  | .answer (.allowed _) => True
  | .answer (.denied _ _) | .failure => False

/-- The work can call the handle: it has it, and `withRun` has not ended. -/
def Phase.Handed : Phase → Prop
  | .reserving _ | .ended => False
  | .working | .voiding _ | .cleaning _ => True

/-- One step of the client, of the work or of the engine. `lost` says that the answer to the reserve
does not arrive; any other answer may be lost too. -/
inductive Step (run : Governed) (lost : Bool) : World → World → Prop
  /-- The engine performs the reserve. -/
  | reserve {world : World} : world.phase = .reserving none →
      Step run lost world { world with
        ledger := (attempt run world.ledger).2
        phase := .reserving (some (attempt run world.ledger).1) }
  /-- The work starts. -/
  | allowed {world : World} {answer : Heard ReserveOutcome} :
      world.phase = .reserving (some answer) → lost = false → answer.Allows →
      Step run lost world { world with phase := .working }
  /-- The reserve is denied, refused, or its answer lost. -/
  | unreserved {world : World} {answer : Heard ReserveOutcome} :
      world.phase = .reserving (some answer) → lost = true ∨ ¬ answer.Allows →
      Step run lost world { world with phase := .ended }
  /-- The work calls `handle.settle`. -/
  | ask {world : World} (actual : Option Credit) : world.phase.Handed →
      Step run lost world { world with asked := true, pending := actual :: world.pending }
  /-- The work returns. -/
  | returned {world : World} : world.phase = .working →
      Step run lost world { world with
        phase := if world.settled then .ended else .voiding none }
  /-- The work throws. -/
  | threw {world : World} : world.phase = .working →
      Step run lost world { world with
        phase := if world.settled then .ended else .cleaning false }
  /-- The engine refuses a settle: not a number, no such model. -/
  | refuse {world : World} {before after : List (Option Credit)} :
      world.pending = before ++ none :: after →
      Step run lost world { world with pending := before ++ after }
  /-- The engine performs a settle. -/
  | settle {world : World} {before after : List (Option Credit)} {actual : Credit} {amb : Ambient}
      {reply : Except LedgerError LedgerEntry} {ledger : State} :
      world.pending = before ++ some actual :: after → amb.Fresh world.ledger →
      Ledger.settle amb ⟨run.reservationId, actual⟩ world.ledger = some (reply, ledger) →
      Step run lost world { world with
        ledger
        pending := before ++ after
        answers := world.answers + if reply.isOk then 1 else 0 }
  /-- The answer to a settle arrives. -/
  | settled {world : World} {answers : Nat} : world.answers = answers + 1 →
      Step run lost world { world with settled := true, answers }
  /-- The answer to a settle is lost. -/
  | settleLost {world : World} {answers : Nat} : world.answers = answers + 1 →
      Step run lost world { world with answers }
  /-- The engine performs the void of a run that never settled. -/
  | void {world : World} {reply : Except LedgerError Unit} {ledger : State} :
      world.phase = .voiding none →
      Ledger.void run.reservationId world.ledger = some (reply, ledger) →
      Step run lost world { world with ledger, phase := .voiding (some (heard reply)) }
  | voided {world : World} : world.phase = .voiding (some (.answer ())) →
      Step run lost world { world with phase := .ended }
  /-- The void failed, or its answer is lost: that is caught like an error of the work. -/
  | voidFailed {world : World} {answer : Heard Unit} : world.phase = .voiding (some answer) →
      Step run lost world { world with
        phase := if world.settled then .ended else .cleaning false }
  /-- The engine performs the void of `safeVoid`. -/
  | clean {world : World} {reply : Except LedgerError Unit} {ledger : State} :
      world.phase = .cleaning false →
      Ledger.void run.reservationId world.ledger = some (reply, ledger) →
      Step run lost world { world with ledger, phase := .cleaning true }
  /-- `safeVoid` is done, whatever came of it. -/
  | cleaned {world : World} : world.phase = .cleaning true →
      Step run lost world { world with phase := .ended }

/-! ### What the engine does to the hold -/

/-- The reservation is not open. -/
def NotOpen (ledger : State) (reservation : ReservationId) : Prop :=
  ∀ hold, ledger.holds.get? reservation = some hold → hold.status ≠ .open

/-- The reservation is settled. -/
def IsSettled (ledger : State) (reservation : ReservationId) : Prop :=
  ∃ hold, ledger.holds.get? reservation = some hold ∧ hold.status = .settled

theorem IsSettled.notOpen {ledger : State} {reservation : ReservationId}
    (isSettled : IsSettled ledger reservation) : NotOpen ledger reservation := by
  obtain ⟨hold, found, status⟩ := isSettled
  intro other found' isOpen
  cases found.symm.trans found'
  cases status.symm.trans isOpen

section

variable {ledger ledger' : State} {reservation : ReservationId}

/-- **A settle**: an open hold is settled or stays, a closed one stays as it is, and success means
that the hold is settled. -/
theorem settle_hold {amb : Ambient} {actual : Credit} {reply : Except LedgerError LedgerEntry}
    (result : settle amb ⟨reservation, actual⟩ ledger = some (reply, ledger')) :
    (NotOpen ledger reservation → NotOpen ledger' reservation) ∧
      (IsSettled ledger reservation → IsSettled ledger' reservation) ∧
      (reply.isOk = true → IsSettled ledger' reservation) := by
  unfold settle at result
  split at result
  · cases result
    exact ⟨id, id, fun fails => by cases fails⟩
  split at result
  · cases result
    exact ⟨id, id, fun fails => by cases fails⟩
  rename_i hold found
  split at result
  · rename_i status
    obtain ⟨entry, _, same⟩ := Option.map_eq_some_iff.mp result
    cases same
    exact ⟨id, id, fun _ => ⟨hold, found, status⟩⟩
  · cases result
    exact ⟨id, id, fun fails => by cases fails⟩
  · rename_i status
    obtain ⟨⟨entry, posted⟩, debited, same⟩ := Option.map_eq_some_iff.mp result
    cases same
    have isSettled : IsSettled { posted with holds := posted.holds.modify reservation fun hold =>
        { hold with status := .settled, settleEntry := some entry.id } } reservation := by
      have same : posted.holds.get? reservation = some hold := by
        obtain ⟨row, _, posts⟩ := Option.bind_eq_some_iff.mp debited
        cases posts
        exact found
      refine ⟨{ hold with status := .settled, settleEntry := some entry.id }, ?_, rfl⟩
      rw [Table.get?_modify, if_pos rfl, same]
      rfl
    exact ⟨fun _ => isSettled.notOpen, fun _ => isSettled, fun _ => isSettled⟩

/-- **A void**: the hold is not open afterwards, and settled only if it was. -/
theorem void_hold {reply : Except LedgerError Unit}
    (result : void reservation ledger = some (reply, ledger')) :
    NotOpen ledger' reservation ∧ (IsSettled ledger' reservation ↔ IsSettled ledger reservation) := by
  unfold void at result
  split at result
  · rename_i absent
    cases result
    refine ⟨fun hold found => ?_, Iff.rfl⟩
    cases absent.symm.trans found
  rename_i hold found
  have unchanged : hold.status ≠ .open → NotOpen ledger reservation := by
    intro isClosed other found'
    cases found.symm.trans found'
    exact isClosed
  split at result
  · rename_i status
    cases result
    have now : (ledger.holds.modify reservation fun hold => { hold with status := .voided }).get?
        reservation = some { hold with status := .voided } := by
      rw [Table.get?_modify, if_pos rfl, found]
      rfl
    refine ⟨fun other found' isOpen => ?_, fun ⟨other, found', isSettled⟩ => ?_,
      fun ⟨other, found', isSettled⟩ => ?_⟩
    · cases now.symm.trans found'
      cases isOpen
    · cases now.symm.trans found'
      cases isSettled
    · cases found.symm.trans found'
      cases status.symm.trans isSettled
  · rename_i status
    cases result
    exact ⟨unchanged fun isOpen => (by cases status.symm.trans isOpen), Iff.rfl⟩
  · rename_i status
    cases result
    exact ⟨unchanged fun isOpen => (by cases status.symm.trans isOpen), Iff.rfl⟩

end

/-! ### What every step keeps -/

/-- What is true in each phase. -/
def Phase.Fits (run : Governed) (origin ledger : State) : Phase → Prop
  | .reserving none => ledger = origin
  | .reserving (some answer) => attempt run origin = (answer, ledger)
  | .working | .voiding none | .cleaning false => True
  | .voiding (some _) | .cleaning true | .ended => NotOpen ledger run.reservationId

/-- The reserve is not over. -/
def Phase.Early : Phase → Prop
  | .reserving _ => True
  | .working | .voiding _ | .cleaning _ | .ended => False

/-- The invariant of a governed run. -/
structure Inv (run : Governed) (origin : State) (world : World) : Prop where
  wellFormed : world.ledger.WellFormed
  fits : world.phase.Fits run origin world.ledger
  /-- Nothing is under way before the work has the handle. -/
  early : world.phase.Early → world.pending = [] ∧ world.answers = 0 ∧ world.settled = false
  /-- A settle that the client has heard of, or will, has closed the hold. -/
  flagged : world.settled = true ∨ 0 < world.answers → IsSettled world.ledger run.reservationId
  /-- From then on a settled hold was asked for. -/
  asked : ¬ world.phase.Early → IsSettled world.ledger run.reservationId → world.asked = true
  sent : world.pending ≠ [] → world.asked = true

/-- The ledger grants the reserve: the estimate is positive, the account exists, and the hold is
open already or there is room for a new one. -/
def Governed.Granted (run : Governed) (ledger : State) : Prop :=
  ∃ amount row, run.estimate = some amount ∧ 0 < amount ∧
    ledger.accounts.get? run.account = some row ∧
    match ledger.holds.get? run.reservationId with
    | some hold => hold.status = .open
    | none => ¬ ((run.limit = .hard ∨ row.account.noOverdraft) ∧
        row.settled - ledger.held run.account < amount)

/-- The reserve does no harm: if it is granted its answer arrives, and if it is not, the reservation
is unused or voided. -/
def Harmless (run : Governed) (lost : Bool) (ledger : State) : Prop :=
  (run.Granted ledger → lost = false) ∧
    (¬ run.Granted ledger → NotOpen ledger run.reservationId ∧ ¬ IsSettled ledger run.reservationId)

section

variable {run : Governed} {lost : Bool} {origin ledger ledger' : State} {world world' : World}

theorem wellFormed_of_refines {α : Type} {s s' : State} {permits : Action → Prop}
    {outcome : Outcome α} {reply : Except LedgerError α} (wf : s.WellFormed)
    (refines : Refines s permits outcome) (result : outcome = some (reply, s')) :
    s'.WellFormed := by
  obtain ⟨_, _, actions, same, path, _⟩ := refines
  cases result.symm.trans same
  exact wf.path path

theorem attempt_wellFormed (wf : ledger.WellFormed) : (attempt run ledger).2.WellFormed := by
  unfold attempt
  split
  · exact wf
  · split
    · exact wf
    · rename_i result
      exact wellFormed_of_refines wf (reserve_refines _) result

/-- **The reserve**: it is granted, allows the run and leaves the hold open, or it is not and changes
nothing. -/
theorem attempt_cases (run : Governed) (ledger : State) :
    (run.Granted ledger ∧ (attempt run ledger).1.Allows ∧
      ∃ hold, (attempt run ledger).2.holds.get? run.reservationId = some hold ∧
        hold.status = .open) ∨
    (¬ run.Granted ledger ∧ ¬ (attempt run ledger).1.Allows ∧ (attempt run ledger).2 = ledger) := by
  cases read : run.estimate with
  | none =>
    have result : attempt run ledger = (.failure, ledger) := by rw [attempt, read]
    rw [result]
    refine Or.inr ⟨?_, id, rfl⟩
    rintro ⟨_, _, read', _⟩
    cases read.symm.trans read'
  | some amount =>
    by_cases positive : 0 < amount
    · cases found : ledger.accounts.get? run.account with
      | none =>
        have result : attempt run ledger = (.failure, ledger) := by
          simp [attempt, reserve, Governed.request, read, positive, found, heard]
        rw [result]
        refine Or.inr ⟨?_, id, rfl⟩
        rintro ⟨_, _, _, _, found', _⟩
        cases found.symm.trans found'
      | some row =>
        cases held : ledger.holds.get? run.reservationId with
        | some hold =>
          by_cases isOpen : hold.status = .open
          · have result : attempt run ledger =
                (.answer (.allowed run.reservationId), ledger) := by
              simp [attempt, reserve, Governed.request, read, positive, found, held, isOpen, heard]
            rw [result]
            exact Or.inl ⟨⟨amount, row, read, positive, found, by rw [held]; exact isOpen⟩,
              trivial, hold, held, isOpen⟩
          · have result : attempt run ledger = (.failure, ledger) := by
              simp [attempt, reserve, Governed.request, read, positive, found, held, isOpen, heard]
            rw [result]
            refine Or.inr ⟨?_, id, rfl⟩
            rintro ⟨_, _, _, _, _, room⟩
            rw [held] at room
            exact isOpen room
        | none =>
          by_cases short : (run.limit = .hard ∨ row.account.noOverdraft) ∧
              row.settled - ledger.held run.account < amount
          · have result : attempt run ledger =
                (.answer (.denied (row.settled - ledger.held run.account) amount), ledger) := by
              simp [attempt, reserve, Governed.request, read, positive, found, held, short.1, short.2,
                heard]
            rw [result]
            refine Or.inr ⟨?_, id, rfl⟩
            rintro ⟨_, _, read', _, found', room⟩
            cases read.symm.trans read'
            cases found.symm.trans found'
            rw [held] at room
            exact room short
          · have result : attempt run ledger = (.answer (.allowed run.reservationId),
                { ledger with
                  holds := ledger.holds.set run.reservationId
                    ⟨run.account, amount, .open, none, none, none⟩ }) := by
              simp only [attempt, reserve, Governed.request, read, positive, found, held, short,
                heard, not_true_eq_false, if_false]
            rw [result]
            exact Or.inl ⟨⟨amount, row, read, positive, found, by rw [held]; exact short⟩, trivial,
              _, (Table.get?_set _ _ _ _).trans (if_pos rfl), rfl⟩
    · have result : attempt run ledger = (.failure, ledger) := by
        simp [attempt, reserve, Governed.request, read, positive, heard]
      rw [result]
      refine Or.inr ⟨?_, id, rfl⟩
      rintro ⟨_, _, read', positive', _⟩
      cases read.symm.trans read'
      exact positive positive'

/-- After the reserve, a phase fits a ledger in which the hold did not open. -/
theorem Phase.Fits.mono {phase : Phase} (late : ¬ phase.Early)
    (closed : NotOpen ledger run.reservationId → NotOpen ledger' run.reservationId)
    (fits : phase.Fits run origin ledger) : phase.Fits run origin ledger' := by
  cases phase with
  | reserving _ => exact absurd trivial late
  | working => trivial
  | voiding performed =>
    cases performed with
    | none => trivial
    | some _ => exact closed fits
  | cleaning performed =>
    cases performed with
    | false => trivial
    | true => exact closed fits
  | ended => exact closed fits

/-- A change of phase only. -/
theorem Inv.move (inv : Inv run origin world) {phase : Phase} (late : ¬ world.phase.Early)
    (later : ¬ phase.Early) (fits : phase.Fits run origin world.ledger) :
    Inv run origin { world with phase } :=
  ⟨inv.wellFormed, fits, fun isEarly => absurd isEarly later, inv.flagged, fun _ => inv.asked late,
    inv.sent⟩

/-- The client ends if it knows of a settle, and else goes on. -/
theorem Inv.branch (inv : Inv run origin world) {phase : Phase} (late : ¬ world.phase.Early)
    (later : ¬ phase.Early) (fits : phase.Fits run origin world.ledger) :
    Inv run origin { world with phase := if world.settled then .ended else phase } := by
  split
  · rename_i isSettled
    exact inv.move late id (inv.flagged (Or.inl isSettled)).notOpen
  · exact inv.move late later fits

/-- The engine performs the reserve. -/
theorem Inv.reserve (inv : Inv run origin world) (reserving : world.phase = .reserving none) :
    Inv run origin { world with
      ledger := (attempt run world.ledger).2
      phase := .reserving (some (attempt run world.ledger).1) } := by
  have same : Phase.Fits run origin world.ledger (.reserving none) := reserving ▸ inv.fits
  cases (same : world.ledger = origin)
  obtain ⟨quiet, unanswered, unsettled⟩ := inv.early (reserving ▸ trivial)
  refine ⟨attempt_wellFormed inv.wellFormed, rfl, fun _ => ⟨quiet, unanswered, unsettled⟩,
    fun flagged => ?_, fun isLate => absurd trivial isLate, fun sent => absurd quiet sent⟩
  rw [unsettled, unanswered] at flagged
  simp at flagged

/-- The work starts: the hold is open. -/
theorem Inv.allowed (inv : Inv run origin world) {answer : Heard ReserveOutcome}
    (reserving : world.phase = .reserving (some answer)) (allows : answer.Allows) :
    Inv run origin { world with phase := .working } := by
  have attempted : Phase.Fits run origin world.ledger (.reserving (some answer)) :=
    reserving ▸ inv.fits
  have attempted : attempt run origin = (answer, world.ledger) := attempted
  refine ⟨inv.wellFormed, trivial, fun isEarly => isEarly.elim, inv.flagged,
    fun _ ⟨hold, found, status⟩ => ?_, inv.sent⟩
  rcases attempt_cases run origin with ⟨_, _, hold', found', isOpen⟩ | ⟨_, refused, _⟩
  · rw [attempted] at found'
    cases found.symm.trans found'
    cases status.symm.trans isOpen
  · rw [attempted] at refused
    exact absurd allows refused

/-- The run ends without a reserve, which does no harm. -/
theorem Inv.unreserved (inv : Inv run origin world) (harmless : Harmless run lost origin)
    {answer : Heard ReserveOutcome} (reserving : world.phase = .reserving (some answer))
    (fails : lost = true ∨ ¬ answer.Allows) : Inv run origin { world with phase := .ended } := by
  have attempted : Phase.Fits run origin world.ledger (.reserving (some answer)) :=
    reserving ▸ inv.fits
  have attempted : attempt run origin = (answer, world.ledger) := attempted
  obtain ⟨closed, unsettled⟩ : NotOpen world.ledger run.reservationId ∧
      ¬ IsSettled world.ledger run.reservationId := by
    rcases attempt_cases run origin with ⟨granted, allows, _⟩ | ⟨refused, _, same⟩
    · rw [attempted] at allows
      rcases fails with isLost | refused
      · cases (harmless.1 granted).symm.trans isLost
      · exact absurd allows refused
    · rw [attempted] at same
      cases same
      exact harmless.2 refused
  exact ⟨inv.wellFormed, closed, fun isEarly => isEarly.elim, inv.flagged,
    fun _ isSettled => absurd isSettled unsettled, inv.sent⟩

theorem Phase.Handed.late {phase : Phase} (handed : phase.Handed) : ¬ phase.Early := by
  intro isEarly
  cases phase with
  | reserving _ => exact handed
  | working | voiding _ | cleaning _ | ended => exact isEarly

/-- A settle is under way only after the reserve. -/
theorem Inv.late_of_pending (inv : Inv run origin world) {before after : List (Option Credit)}
    {actual : Option Credit} (pending : world.pending = before ++ actual :: after) :
    ¬ world.phase.Early := by
  intro isEarly
  rw [(inv.early isEarly).1] at pending
  simp at pending

/-- The work asks for a settle. -/
theorem Inv.ask (inv : Inv run origin world) (actual : Option Credit)
    (handed : world.phase.Handed) :
    Inv run origin { world with asked := true, pending := actual :: world.pending } :=
  ⟨inv.wellFormed, inv.fits, fun isEarly => absurd isEarly handed.late, inv.flagged,
    fun _ _ => rfl, fun _ => rfl⟩

/-- The engine refuses a settle. -/
theorem Inv.refuse (inv : Inv run origin world) {before after : List (Option Credit)}
    (pending : world.pending = before ++ none :: after) :
    Inv run origin { world with pending := before ++ after } :=
  ⟨inv.wellFormed, inv.fits, fun isEarly => absurd isEarly (inv.late_of_pending pending),
    inv.flagged, inv.asked, fun _ => inv.sent (by rw [pending]; simp)⟩

/-- The engine performs a settle. -/
theorem Inv.settle (inv : Inv run origin world) {before after : List (Option Credit)}
    {actual : Credit} {amb : Ambient} {reply : Except LedgerError LedgerEntry}
    (pending : world.pending = before ++ some actual :: after) (fresh : amb.Fresh world.ledger)
    (result : Ledger.settle amb ⟨run.reservationId, actual⟩ world.ledger = some (reply, ledger)) :
    Inv run origin { world with
      ledger
      pending := before ++ after
      answers := world.answers + if reply.isOk then 1 else 0 } := by
  obtain ⟨closed, stays, succeeds⟩ := settle_hold result
  have isAsked : world.asked = true := inv.sent (by rw [pending]; simp)
  have isLate := inv.late_of_pending pending
  refine ⟨wellFormed_of_refines inv.wellFormed (settle_refines inv.wellFormed fresh _) result,
    Phase.Fits.mono isLate closed inv.fits, fun isEarly => absurd isEarly isLate, fun flagged => ?_,
    fun _ _ => isAsked, fun _ => isAsked⟩
  rcases flagged with isSettled | answered
  · exact stays (inv.flagged (Or.inl isSettled))
  · dsimp only at answered
    split at answered
    · rename_i succeeded
      exact succeeds succeeded
    · exact stays (inv.flagged (Or.inr answered))

/-- The answer to a settle arrives, or is lost. -/
theorem Inv.answered (inv : Inv run origin world) {answers : Nat}
    (waiting : world.answers = answers + 1) (flag : Bool) :
    Inv run origin { world with settled := flag, answers } := by
  have isSettled := inv.flagged (Or.inr (by omega))
  have isLate : ¬ world.phase.Early := fun isEarly => by
    have none := (inv.early isEarly).2.1
    omega
  exact ⟨inv.wellFormed, inv.fits, fun isEarly => absurd isEarly isLate, fun _ => isSettled,
    inv.asked, inv.sent⟩

/-- The engine performs a void. -/
theorem Inv.void (inv : Inv run origin world) {reply : Except LedgerError Unit} {phase : Phase}
    (late : ¬ world.phase.Early) (later : ¬ phase.Early)
    (fits : NotOpen ledger run.reservationId → phase.Fits run origin ledger)
    (result : Ledger.void run.reservationId world.ledger = some (reply, ledger)) :
    Inv run origin { world with ledger, phase } := by
  obtain ⟨closed, same⟩ := void_hold result
  exact ⟨wellFormed_of_refines inv.wellFormed (void_refines _) result, fits closed,
    fun isEarly => absurd isEarly later, fun flagged => same.mpr (inv.flagged flagged),
    fun _ isSettled => inv.asked late (same.mp isSettled), inv.sent⟩

/-- **Every step keeps the invariant.** -/
theorem Step.inv (harmless : Harmless run lost origin) (inv : Inv run origin world)
    (step : Step run lost world world') : Inv run origin world' := by
  have late : ∀ {phase : Phase}, world.phase = phase → ¬ phase.Early → ¬ world.phase.Early :=
    fun same => same ▸ id
  cases step with
  | reserve reserving => exact inv.reserve reserving
  | allowed reserving _ allows => exact inv.allowed reserving allows
  | unreserved reserving fails => exact inv.unreserved harmless reserving fails
  | ask actual handed => exact inv.ask actual handed
  | returned working | threw working => exact inv.branch (late working id) id trivial
  | refuse pending => exact inv.refuse pending
  | settle pending fresh result => exact inv.settle pending fresh result
  | settled waiting => exact inv.answered waiting true
  | settleLost waiting => exact inv.answered waiting world.settled
  | void voiding result => exact inv.void (late voiding id) id id result
  | voided voiding =>
    have fits : Phase.Fits run origin world.ledger (.voiding (some (.answer ()))) :=
      voiding ▸ inv.fits
    exact inv.move (late voiding id) id fits
  | voidFailed voiding => exact inv.branch (late voiding id) id trivial
  | clean cleaning result => exact inv.void (late cleaning id) id id result
  | cleaned cleaning =>
    have fits : Phase.Fits run origin world.ledger (.cleaning true) := cleaning ▸ inv.fits
    exact inv.move (late cleaning id) id fits

/-- The worlds that a run can reach. -/
abbrev Steps (run : Governed) (lost : Bool) : World → World → Prop :=
  Relation.ReflTransGen (Step run lost)

theorem inv_start (wf : origin.WellFormed) : Inv run origin (start origin) := by
  refine ⟨wf, rfl, fun _ => ⟨rfl, rfl, rfl⟩, fun flagged => ?_, fun isLate => absurd trivial isLate,
    fun sent => absurd rfl sent⟩
  rcases flagged with isSettled | answered
  · cases isSettled
  · cases answered

/-- **Every world that a run reaches satisfies the invariant.** -/
theorem inv_of_steps (wf : origin.WellFormed) (harmless : Harmless run lost origin)
    (steps : Steps run lost (start origin) world) : Inv run origin world := by
  induction steps with
  | refl => exact inv_start wf
  | tail _ step ih => exact step.inv harmless ih

/-- What a run should leave behind: the reservation is not open, settled only if the work asked for
it, and charged at most once. -/
structure World.Closed (world : World) (reservation : ReservationId) : Prop where
  notOpen : NotOpen world.ledger reservation
  asked : IsSettled world.ledger reservation → world.asked = true
  once : (world.ledger.settles reservation).length ≤ 1

theorem Inv.closed (inv : Inv run origin world) (ended : world.phase = .ended) :
    world.Closed run.reservationId := by
  have fits : Phase.Fits run origin world.ledger .ended := ended ▸ inv.fits
  refine ⟨fits, inv.asked ?_, inv.wellFormed.settles_length_le_one run.reservationId⟩
  rw [ended]
  exact id

/-- The run whose reserve is performed, and then lost, denied or refused. -/
theorem steps_unreserved (fails : lost = true ∨ ¬ (attempt run origin).1.Allows) :
    Steps run lost (start origin) ⟨(attempt run origin).2, .ended, false, false, [], 0⟩ :=
  (Relation.ReflTransGen.single (Step.reserve rfl)).tail (Step.unreserved rfl fails)

/-- Nothing lingers if and only if the reserve does no harm. -/
theorem closes_iff_harmless (wf : origin.WellFormed) :
    (∀ world, Steps run lost (start origin) world → world.phase = .ended →
      world.Closed run.reservationId) ↔ Harmless run lost origin := by
  refine ⟨fun closes => ⟨fun granted => ?_, fun refused => ?_⟩, fun harmless world steps ended =>
    (inv_of_steps wf harmless steps).closed ended⟩
  · -- The hold is open, and nobody is left to close it.
    rcases attempt_cases run origin with ⟨_, _, hold, found, isOpen⟩ | ⟨refused, _⟩
    · by_contra arrives
      rw [Bool.not_eq_false] at arrives
      exact (closes _ (steps_unreserved (Or.inl arrives)) rfl).notOpen hold found isOpen
    · exact absurd granted refused
  · rcases attempt_cases run origin with ⟨granted, _⟩ | ⟨_, fails, same⟩
    · exact absurd granted refused
    · have closed := closes _ (steps_unreserved (Or.inr fails)) rfl
      rw [same] at closed
      refine ⟨closed.notOpen, fun isSettled => ?_⟩
      cases closed.asked isSettled

variable {calls : List Event}

/-- **A governed run leaves no lingering hold if and only if its reserve does no harm.** Whatever the
work does, and whichever answers other than that of the reserve are lost. -/
theorem governed_run_closed_iff (history : History State.new calls origin) :
    (∀ world, Steps run lost (start origin) world → world.phase = .ended →
      world.Closed run.reservationId) ↔ Harmless run lost origin :=
  closes_iff_harmless (history.wellFormed .new)

/-- The reserve of `withRunUsage` is granted if the engine can price the estimate, at a positive number
of credits, and grants that. -/
theorem granted_withRunUsage {resolveCard : String → Option Pricing.RateCard}
    {creditValue : Pricing.Money} {options : UsageRunOptions} :
    (withRunUsage resolveCard creditValue options).Granted ledger ↔ ∃ card priced,
      resolveCard options.model = some card ∧
      Pricing.priceUsage options.estimate card creditValue = .ok priced ∧
      Governed.Granted ⟨options.account, options.reservationId, some priced.credits,
        options.limit.getD .hard⟩ ledger := by
  constructor
  · rintro ⟨amount, row, isPriced, granted⟩
    obtain ⟨card, isCard, isPriced⟩ := Option.bind_eq_some_iff.mp isPriced
    obtain ⟨priced, isOk, rfl⟩ := Option.map_eq_some_iff.mp isPriced
    cases result : Pricing.priceUsage options.estimate card creditValue with
    | error error =>
      rw [result] at isOk
      cases isOk
    | ok priced' =>
      rw [result] at isOk
      cases isOk
      exact ⟨card, priced, isCard, result, priced.credits, row, rfl, granted⟩
  · rintro ⟨card, priced, isCard, result, amount, row, isAmount, granted⟩
    refine ⟨amount, row, ?_, granted⟩
    rw [withRunUsage, isCard, Option.bind_some, result]
    exact isAmount

/-- **`withRunUsage` leaves no lingering hold** if and only if the answer to a granted reserve of the
priced estimate arrives, and a refused one is for a reservation that is unused or voided. -/
theorem withRunUsage_closed_iff (history : History State.new calls origin)
    {resolveCard : String → Option Pricing.RateCard} {creditValue : Pricing.Money}
    {options : UsageRunOptions} :
    (∀ world, Steps (withRunUsage resolveCard creditValue options) lost (start origin) world →
      world.phase = .ended → world.Closed options.reservationId) ↔
    (∀ card priced, resolveCard options.model = some card →
      Pricing.priceUsage options.estimate card creditValue = .ok priced →
      Governed.Granted ⟨options.account, options.reservationId, some priced.credits,
        options.limit.getD .hard⟩ origin → lost = false) ∧
    ((∀ card priced, resolveCard options.model = some card →
      Pricing.priceUsage options.estimate card creditValue = .ok priced →
      ¬ Governed.Granted ⟨options.account, options.reservationId, some priced.credits,
        options.limit.getD .hard⟩ origin) →
      NotOpen origin options.reservationId ∧ ¬ IsSettled origin options.reservationId) := by
  refine (closes_iff_harmless (history.wellFormed .new)).trans ?_
  rw [Harmless, granted_withRunUsage]
  simp only [forall_exists_index, and_imp, not_exists, not_and]
  rfl

end

/-- A run of ten credits under an unused reservation. -/
def tenCredits : Governed :=
  withRun (fun text => if text = "10" then some 10 else none)
    { account := 1, estimate := "10", reservationId := 13 }

theorem tenCredits_harmless : Harmless tenCredits false sample := by
  have unused : sample.holds.get? tenCredits.reservationId = none := by decide +kernel
  refine ⟨fun _ => rfl, fun _ => ⟨fun hold found => ?_, fun ⟨hold, found, _⟩ => ?_⟩⟩
  · cases unused.symm.trans found
  · cases unused.symm.trans found

/-- The answers to a settle and to both voids may be lost. -/
theorem governed_run_closed_iff_tenCredits : (∃ calls, History State.new calls sample) ∧
    ∀ world, Steps tenCredits false (start sample) world → world.phase = .ended →
      world.Closed tenCredits.reservationId := by
  obtain ⟨calls, history⟩ := history_sample
  exact ⟨⟨calls, history⟩, (governed_run_closed_iff history).mpr tenCredits_harmless⟩

/-- **A lost answer to the reserve**: `withRun` throws, and the hold stays open. -/
theorem lost_reserve_lingers : Reachable sample ∧ sample.holds.get? tenCredits.reservationId = none ∧
    ∃ world, Steps tenCredits true (start sample) world ∧ world.phase = .ended ∧
      ¬ NotOpen world.ledger tenCredits.reservationId := by
  refine ⟨reachable_sample, by decide +kernel, _, steps_unreserved (Or.inl rfl), rfl,
    fun closed => ?_⟩
  have found : (attempt tenCredits sample).2.holds.get? tenCredits.reservationId =
      some ⟨1, 10, .open, none, none, none⟩ := by decide +kernel
  exact closed _ found rfl

end Meter.Sdk
