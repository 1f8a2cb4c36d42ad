/-
**Metering twice under one key.**

A charge is known by its account and key, an event by its organization and key, and every answer is
built from a fresh pricing. Between two requests any store calls of other handlers are made and any
cards are put (`UsageCall`).

* `settleUsage` — the handler that settles a reservation.
* `held_of_runs` — **the event of an answered metering stays**, so that no repeat records another.
* `meterUsage_untouched_iff` — metering again leaves everything alone exactly if it does not debit.
* `meterUsage_reports_iff`, `settleUsage_reports_iff` — when one answer reports what was posted.
* `metering_idempotent_iff` — **when a repeat changes nothing, and when an answer reports what was
  posted**.
-/

import Meter.Api.MeterRace
import Meter.Api.Reprice
import Meter.Ledger.Replay

namespace Meter.Api

open Meter.Lib Meter.Pricing Meter.Events
open Meter.Ledger (LedgerEntry LedgerError Action Balance systemAccount flow flow_payee)

/-! ### Settling a reservation -/

structure SettleUsageBody where
  model : String
  actual : UsageDimensions
  rateCardId : Option String

structure SettleUsageResult where
  creditsCharged : String
  balanceAfter : String

/-- `POST /v1/usage/reservations/{id}/settle`. -/
def settleUsage (env : Env) (reservation : ReservationId) (body : SettleUsageBody) :
    Handler SettleUsageResult :=
  match price env body.model body.rateCardId body.actual with
  | .error error => fail error
  | .ok (_, priced) =>
    tryLedger (.ledger (.settle { reservationId := reservation, actual := priced.credits })) fun
      | .entry entry => .done (.ok {
          creditsCharged := env.showDecimal priced.credits
          balanceAfter := env.showDecimal entry.balanceAfter })
      -- a settle answers with nothing but an entry
      | _ => fail (.unprocessable "not an entry")

/-! ### Runs -/

/-- A request of usage metering with its reply, or something else that happens in between. -/
inductive UsageCall where
  | meter (now : OffsetDateTime) (body : MeterUsageBody) (reply : Except ApiError MeterUsageResult)
  | settle (reservation : ReservationId) (body : SettleUsageBody)
      (reply : Except ApiError SettleUsageResult)
  /-- Any store call, as any other handler makes it, or one that stops half-way. -/
  | storeCall
  | putRateCard (minted : Uuid) (card : Option ProtoRateCard)

/-- Requests are served over the cards that are stored when they are made. -/
def UsageCall.Served (env : Env) (serde : Serde) : UsageCall → Engine → Engine → Prop
  | .meter now body reply, found, after => after.cards = found.cards ∧
      (server (env.withCards serde found.cards)).Serves
        (meterUsage (env.withCards serde found.cards) now body) found.stores reply after.stores
  | .settle reservation body reply, found, after => after.cards = found.cards ∧
      (server (env.withCards serde found.cards)).Serves
        (settleUsage (env.withCards serde found.cards) reservation body) found.stores reply
        after.stores
  | .storeCall, found, after => after.cards = found.cards ∧
      ∃ (α : Type) (call : StoreCall α) (answer : α),
        (server (env.withCards serde found.cards)).perform call found.stores answer after.stores
  | .putRateCard minted card, found, after => after =
      { found with cards := (putRateCardGrpc env serde minted card found.cards).2 }

/-- Metering was answered under a key of an organization. -/
def UsageCall.Meters (org : OrgId) (key : String) : UsageCall → Prop
  | .meter _ body (.ok _) => body.orgId = org ∧ body.idempotencyKey = key
  | _ => False

instance (org : OrgId) (key : String) : DecidablePred (UsageCall.Meters org key)
  | .meter _ body (.ok _) =>
    inferInstanceAs (Decidable (body.orgId = org ∧ body.idempotencyKey = key))
  | .meter _ _ (.error _) | .settle _ _ _ | .storeCall | .putRateCard _ _ =>
    inferInstanceAs (Decidable False)

/-- Metering was answered before under a key of an organization. -/
def MeteredBefore (calls : List (UsageCall × Engine)) (org : OrgId) (key : String) : Prop :=
  ∃ call ∈ calls, call.1.Meters org key

instance (calls : List (UsageCall × Engine)) (org : OrgId) (key : String) :
    Decidable (MeteredBefore calls org key) :=
  inferInstanceAs (Decidable (∃ call ∈ calls, call.1.Meters org key))

/-! ### What is compared -/

/-- What a balance request answers. -/
def balanceOf (account : AccountId) (s : Stores) : Option (Except LedgerError Balance) :=
  (Ledger.balance account s.ledger).map Prod.fst

/-- Neither a balance nor the events change. -/
def Untouched (s s' : Stores) : Prop :=
  (∀ account, balanceOf account s' = balanceOf account s) ∧ s'.events = s.events

/-- The entry of a metering key on the account of a request. -/
def chargeOf (body : MeterUsageBody) (s : Stores) : Option LedgerEntry :=
  s.ledger.findKeyed body.account (chargeKey body.idempotencyKey)

/-- The magnitude of what was posted, zero if nothing was. -/
def magnitude (posted : Option LedgerEntry) : Credit :=
  posted.elim 0 fun entry => |entry.deltaCredits|

/-- Metering moves a balance: it posts a charge, and not on the account that all charges pay. -/
def Debits (env : Env) (body : MeterUsageBody) (s : Stores) : Prop :=
  PostsCharge env body s ∧ body.account ≠ systemAccount

/-- Credits that fit what is posted already; without it they must not be negative. -/
def AsPosted (posted : Option LedgerEntry) (credits : Credit) : Prop :=
  match posted with
  | some entry => credits = |entry.deltaCredits|
  | none => 0 ≤ credits

/-! ### The events stay -/

section Held

variable {env : Env} {serde : Serde} {s s' : Stores} {id : EventId}

/-- **A store call** leaves the events alone, or takes a step of the event store. -/
theorem perform_events {α : Type} {call : StoreCall α} {answer : α}
    (performed : (server env).perform call s answer s') :
    s'.events = s.events ∨ ∃ step, s'.events = Events.step env.idempotentEventId s.events step := by
  obtain ⟨out, _, result⟩ := performed
  cases call with
  | getEvent id =>
    cases result
    exact Or.inl rfl
  | recordEvent req =>
    cases result
    exact Or.inr ⟨.record (out.now 0) req, rfl⟩
  | recordBatch reqs =>
    cases result
    exact Or.inr ⟨.recordBatch (reqs.zipIdx.map fun req => (out.now req.2, req.1)), rfl⟩
  | amendEvent req =>
    cases result
    exact Or.inr ⟨.amend ⟨out.now 0, out.version⟩ req, rfl⟩
  | voidEvents run =>
    cases result
    exact Or.inr ⟨.voidRun run, rfl⟩
  | charge _ | reverseCharge _ | balance _ | voidCharges _ | ledger _ =>
    obtain ⟨ledger, _, rfl⟩ := onLedger_eq result
    exact Or.inl rfl

theorem held_perform {α : Type} {call : StoreCall α} {answer : α}
    (performed : (server env).perform call s answer s') (held : id ∈ s.events.map Event.id) :
    id ∈ s'.events.map Event.id := by
  rcases perform_events performed with same | ⟨step, stepped⟩
  · rw [same]
    exact held
  · rw [stepped]
    exact ids_subset_step step held

theorem held_serves {α : Type} {program : Handler α} {reply : Except ApiError α}
    (serves : (server env).Serves program s reply s') (held : id ∈ s.events.map Event.id) :
    id ∈ s'.events.map Event.id := by
  obtain ⟨count, calls⟩ := serves
  exact calls.keeps (fun s => id ∈ s.events.map Event.id)
    (fun _ _ _ _ performed => held_perform performed) held

theorem UsageCall.Served.held {call : UsageCall} {found after : Engine}
    (served : call.Served env serde found after) (held : id ∈ found.stores.events.map Event.id) :
    id ∈ after.stores.events.map Event.id := by
  cases call with
  | meter now body reply => exact held_serves served.2 held
  | settle reservation body reply => exact held_serves served.2 held
  | storeCall =>
    obtain ⟨_, _, _, _, performed⟩ := served
    exact held_perform performed held
  | putRateCard minted card =>
    rw [served]
    exact held

/-- An answered metering leaves its event behind. -/
theorem held_of_answer {now : OffsetDateTime} {body : MeterUsageBody} {result : MeterUsageResult}
    (serves : (server env).Serves (meterUsage env now body) s (.ok result) s') :
    meteredId env body ∈ s'.events.map Event.id := by
  rcases answers_meterUsage serves with ⟨_, ⟨_, impossible⟩, _⟩ |
    ⟨card, priced, middle, link, recordedAt, _, _, rfl, _⟩
  · cases impossible
  · show meteredId env body ∈ (if _ then s.events else _).map Event.id
    split
    · rename_i known
      exact find_isSome.mp known
    · rw [List.map_append]
      exact List.mem_append_right _ (List.mem_singleton_self _)

/-- **The event of an answered metering stays.** -/
theorem held_of_runs {calls : List (UsageCall × Engine)} {found : Engine}
    (runs : Runs (UsageCall.Served env serde) Engine.new calls found) {org : OrgId} {key : String}
    (before : MeteredBefore calls org key) :
    env.idempotentEventId org (eventKey key) ∈ found.stores.events.map Event.id := by
  induction runs with
  | nil =>
    obtain ⟨_, impossible, _⟩ := before
    cases impossible
  | @snoc calls found after call _ served ih =>
    obtain ⟨step, member, meters⟩ := before
    rcases List.mem_append.mp member with earlier | last
    · exact served.held (ih ⟨step, earlier, meters⟩)
    · rw [List.mem_singleton.mp last] at meters
      cases call with
      | meter now body reply =>
        cases reply with
        | ok result =>
          obtain ⟨rfl, rfl⟩ := meters
          have held := held_of_answer served.2
          exact held
        | error error => exact meters.elim
      | settle _ _ _ | storeCall | putRateCard _ _ => exact meters.elim

end Held

/-! ### What one request does -/

section Request

variable {env : Env} {s s' : Stores}

/-- **A charge moves a balance**, except on the account that all charges pay. -/
theorem charge_untouched_iff {entry : LedgerEntry}
    (enabled : (Action.charge entry).Enabled s.ledger)
    (ledger : s'.ledger = (Action.charge entry).apply s.ledger) :
    (∀ account, balanceOf account s' = balanceOf account s) ↔ entry.accountId = systemAccount := by
  obtain ⟨row, found⟩ := Table.contains_iff.mp enabled.1.present
  have rows : ∀ account, s'.ledger.accounts.get? account = (s.ledger.accounts.get? account).map
      fun row => row.add (flow systemAccount entry.accountId entry.deltaCredits account) := by
    intro account
    rw [ledger]
    exact Ledger.State.get?_pay s.ledger systemAccount entry.accountId entry.deltaCredits account
  constructor
  · intro same
    by_contra other
    have equal := same entry.accountId
    rw [balanceOf, balanceOf, Ledger.balance, Ledger.balance, rows, found,
      flow_payee other] at equal
    have settled : row.settled + entry.deltaCredits = row.settled :=
      congrArg Balance.settled (Except.ok.inj (Option.some.inj equal))
    exact absurd (add_eq_left.mp settled) enabled.2.2.1.ne
  · intro system account
    have unmoved : s'.ledger.accounts.get? account = s.ledger.accounts.get? account := by
      rw [rows, system, flow, sub_self]
      cases s.ledger.accounts.get? account with
      | none => rfl
      | some row => rw [Option.map_some, Ledger.AccountRow.add_eq_self]
    have held : s'.ledger.held account = s.ledger.held account := by
      rw [ledger]
      rfl
    rw [balanceOf, balanceOf, Ledger.balance, Ledger.balance, unmoved, held]
    cases s.ledger.accounts.get? account with
    | none => rfl
    | some row => rfl

/-- **Metering again leaves everything alone exactly if it does not debit.** -/
theorem meterUsage_untouched_iff {now : OffsetDateTime} {body : MeterUsageBody}
    {reply : Except ApiError MeterUsageResult} (held : meteredId env body ∈ s.events.map Event.id)
    (serves : (server env).Serves (meterUsage env now body) s reply s') :
    Untouched s s' ↔ ¬ Debits env body s := by
  rcases answers_meterUsage serves with ⟨rfl, _, refused⟩ |
    ⟨card, priced, middle, link, recordedAt, isPriced, charges, same, _⟩
  · refine iff_of_true ⟨fun _ => rfl, rfl⟩ ?_
    rintro ⟨⟨⟨card, priced, isPriced, positive⟩, present, _⟩, _⟩
    cases (refused card priced isPriced positive).symm.trans present
  have events : s'.events = s.events := by
    rw [same]
    exact if_pos (find_isSome.mpr held)
  have ledger : s'.ledger = middle.ledger := by rw [same]
  have unmoved : middle = s → ∀ account, balanceOf account s' = balanceOf account s := by
    intro same account
    rw [balanceOf, ledger, same]
    rfl
  rcases charges.cases with ⟨nothing, still, _⟩ | ⟨positive, present, entry, _, ⟨found, still⟩ |
    posts⟩
  · refine iff_of_true ⟨unmoved still, events⟩ ?_
    rintro ⟨⟨⟨card', priced', isPriced', positive⟩, _⟩, _⟩
    cases isPriced.symm.trans isPriced'
    exact nothing positive
  · refine iff_of_true ⟨unmoved still, events⟩ ?_
    rintro ⟨⟨_, _, unused⟩, _⟩
    cases found.symm.trans unused
  · have moves : (∀ account, balanceOf account s' = balanceOf account s) ↔
        entry.accountId = systemAccount :=
      charge_untouched_iff posts.enabled (by rw [ledger, posts.after])
    rw [posts.account] at moves
    constructor
    · rintro ⟨balances, _⟩ ⟨_, other⟩
      exact other (moves.mp balances)
    · intro quiet
      refine ⟨moves.mpr ?_, events⟩
      by_contra other
      exact quiet ⟨⟨⟨card, priced, isPriced, positive⟩, present, posts.unused⟩, other⟩

/-! ### What is reported -/

theorem showDecimal_inj (lawful : env.Lawful) {first second : Credit} :
    env.showDecimal first = env.showDecimal second ↔ first = second := by
  refine ⟨fun same => ?_, congrArg _⟩
  have parsed := congrArg env.parseDecimal same
  rwa [lawful.decimal, lawful.decimal, Option.some.injEq] at parsed

/-- Where nothing is posted now, credits are the magnitude of what is there if they fit it. -/
theorem eq_magnitude_iff {credits : Credit} {posted : Option LedgerEntry}
    (nothing : posted = none → ¬ 0 < credits) :
    credits = magnitude posted ↔ AsPosted posted credits := by
  cases posted with
  | some entry => exact Iff.rfl
  | none => exact ⟨ge_of_eq, le_antisymm (not_lt.mp (nothing rfl))⟩

/-- A usage has one price. -/
theorem forall_priced {model : String} {rateCardId : Option String} {usage : UsageDimensions}
    {card : RateCard} {priced : PricedUsage}
    (isPriced : price env model rateCardId usage = .ok (card, priced)) {P : PricedUsage → Prop} :
    (∀ card priced, price env model rateCardId usage = .ok (card, priced) → P priced) ↔
      P priced := by
  refine ⟨fun every => every card priced isPriced, fun holds card' priced' isPriced' => ?_⟩
  cases isPriced.symm.trans isPriced'
  exact holds

/-- **An answer of metering reports what its key posted exactly if the usage prices to it.** -/
theorem meterUsage_reports_iff (lawful : env.Lawful) {now : OffsetDateTime} {body : MeterUsageBody}
    {result : MeterUsageResult}
    (serves : (server env).Serves (meterUsage env now body) s (.ok result) s') :
    result.credits = env.showDecimal (magnitude (chargeOf body s')) ↔
      ∀ card priced, price env body.model body.rateCardId body.usage = .ok (card, priced) →
        AsPosted (chargeOf body s) (burnedCredits body.burnable priced.credits) := by
  rcases answers_meterUsage serves with ⟨_, ⟨_, impossible⟩, _⟩ |
    ⟨card, priced, middle, link, recordedAt, isPriced, charges, same, credits⟩
  · cases impossible
  have after : chargeOf body s' = chargeOf body middle := by
    rw [same]
    rfl
  rw [credits result rfl, showDecimal_inj lawful, forall_priced isPriced, after]
  rcases charges.cases with ⟨nothing, unmoved, _⟩ | ⟨positive, _, entry, _, ⟨found, unmoved⟩ |
    posts⟩
  · rw [unmoved]
    exact eq_magnitude_iff fun _ => nothing
  · rw [unmoved]
    refine eq_magnitude_iff fun unused => ?_
    cases found.symm.trans unused
  · have unused : chargeOf body s = none := posts.unused
    have posted : chargeOf body middle = some entry := by
      rw [chargeOf, Ledger.State.findKeyed] at unused ⊢
      rw [posts.entries, List.find?_append, unused, Option.none_or]
      exact List.find?_cons_of_pos (decide_eq_true ⟨posts.account, posts.key⟩)
    rw [unused, posted]
    refine iff_of_true ?_ positive.le
    show _ = |entry.deltaCredits|
    rw [posts.delta, abs_neg, abs_of_pos positive]

/-- **A settle** is answered with what it priced, over the entry that closes the reservation. -/
theorem answers_settleUsage {reservation : ReservationId} {body : SettleUsageBody}
    {result : SettleUsageResult}
    (serves : (server env).Serves (settleUsage env reservation body) s (.ok result) s') :
    ∃ card priced entry, price env body.model body.rateCardId body.actual = .ok (card, priced) ∧
      result.creditsCharged = env.showDecimal priced.credits ∧
      s'.ledger.settlement reservation = some entry ∧
      (s.ledger.settlement reservation = some entry ∨
        s.ledger.settlement reservation = none ∧ 0 ≤ priced.credits ∧
          entry.deltaCredits = -priced.credits) := by
  unfold settleUsage at serves
  split at serves
  · obtain ⟨impossible, _⟩ := Server.serves_done.mp serves
    cases impossible
  rename_i card priced isPriced
  obtain ⟨answer, middle, ⟨out, ⟨fresh, _⟩, performed⟩, rest⟩ := Server.serves_stmt.mp serves
  obtain ⟨ledger, stepped, rfl⟩ := onLedger_eq performed
  obtain ⟨⟨settled, after⟩, isSettled, same⟩ := Option.map_eq_some_iff.mp stepped
  cases same
  cases settled with
  | error error =>
    obtain ⟨impossible, _⟩ := Server.serves_done.mp rest
    cases impossible
  | ok entry =>
    obtain ⟨isResult, rfl⟩ := Server.serves_done.mp rest
    cases isResult
    obtain ⟨closed, before⟩ := Ledger.settle_cases fresh isSettled
    exact ⟨card, priced, entry, isPriced, rfl, closed, before⟩

/-- **An answer of a settle reports what its reservation posted exactly if the usage prices to
it.** -/
theorem settleUsage_reports_iff (lawful : env.Lawful) {reservation : ReservationId}
    {body : SettleUsageBody} {result : SettleUsageResult}
    (serves : (server env).Serves (settleUsage env reservation body) s (.ok result) s') :
    result.creditsCharged = env.showDecimal (magnitude (s'.ledger.settlement reservation)) ↔
      ∀ card priced, price env body.model body.rateCardId body.actual = .ok (card, priced) →
        AsPosted (s.ledger.settlement reservation) priced.credits := by
  obtain ⟨card, priced, entry, isPriced, credits, closed, before⟩ := answers_settleUsage serves
  rw [credits, showDecimal_inj lawful, forall_priced isPriced, closed]
  rcases before with settled | ⟨unsettled, nonneg, delta⟩
  · rw [settled]
    exact Iff.rfl
  · rw [unsettled]
    refine iff_of_true ?_ nonneg
    show _ = |entry.deltaCredits|
    rw [delta, abs_neg, abs_of_nonneg nonneg]

end Request

/-! ### Any run -/

/-- **Metering under a key that was metered before, and what answers report.** Take any run of
metering and settling requests, of any store calls of other handlers, and of cards put in between.
A metering request under a key and an organization for which metering was answered, whatever its
other fields, changes neither a balance nor the events **if and only if it does not debit**: the
usage burns nothing, its account does not exist or is the system account, or the key has posted on
that account already. An answer of metering reports the magnitude of its key's entry **if and only
if the usage prices, now, to what the key had posted on the account**, and not below zero if it had
posted nothing; an answer of a settle likewise with the entry of its reservation. -/
theorem metering_idempotent_iff {env : Env} {serde : Serde} (lawful : env.Lawful)
    {calls : List (UsageCall × Engine)} {found : Engine}
    (runs : Runs (UsageCall.Served env serde) Engine.new calls found) :
    (∀ now body reply after, (UsageCall.meter now body reply).Served env serde found after →
      (MeteredBefore calls body.orgId body.idempotencyKey →
        (Untouched found.stores after.stores ↔
          ¬ Debits (env.withCards serde found.cards) body found.stores)) ∧
      ∀ result, reply = .ok result →
        (result.credits = env.showDecimal (magnitude (chargeOf body after.stores)) ↔
          ∀ card priced, price (env.withCards serde found.cards) body.model body.rateCardId
              body.usage = .ok (card, priced) →
            AsPosted (chargeOf body found.stores) (burnedCredits body.burnable priced.credits))) ∧
    ∀ reservation body result after,
      (UsageCall.settle reservation body (.ok result)).Served env serde found after →
      (result.creditsCharged =
          env.showDecimal (magnitude (after.stores.ledger.settlement reservation)) ↔
        ∀ card priced, price (env.withCards serde found.cards) body.model body.rateCardId
            body.actual = .ok (card, priced) →
          AsPosted (found.stores.ledger.settlement reservation) priced.credits) := by
  refine ⟨fun now body reply after served => ⟨fun before => ?_, ?_⟩, ?_⟩
  · exact meterUsage_untouched_iff (held_of_runs runs before) served.2
  · rintro result rfl
    exact meterUsage_reports_iff lawful.withCards served.2
  · exact fun reservation body result after served =>
      settleUsage_reports_iff lawful.withCards served.2

/-! ### A repeat that charges, and reports that are not posted -/

/-- A step of a script. -/
inductive UsageStep where
  | meter (body : MeterUsageBody)
  | settle (reservation : ReservationId) (body : SettleUsageBody)
  | ledger (call : Ledger.Call)

/-- Run a step, with what its calls draw from outside. -/
def UsageStep.serve (env : Env) (serde : Serde) (outs : List Outside) :
    UsageStep → Engine → Option (UsageCall × Engine)
  | .meter body, found =>
    (Api.serve (env.withCards serde found.cards)
      (meterUsage (env.withCards serde found.cards) 0 body) outs found.stores).map
      fun served => (.meter 0 body served.1, { found with stores := served.2 })
  | .settle reservation body, found =>
    (Api.serve (env.withCards serde found.cards)
      (settleUsage (env.withCards serde found.cards) reservation body) outs found.stores).map
      fun served => (.settle reservation body served.1, { found with stores := served.2 })
  | .ledger call, found =>
    (Api.serve (env.withCards serde found.cards) (ledgerRoute call) outs found.stores).map
      fun served => (.storeCall, { found with stores := served.2 })

theorem UsageStep.served {env : Env} {serde : Serde} {outs : List Outside} {step : UsageStep}
    {call : UsageCall} {found after : Engine}
    (computed : step.serve env serde outs found = some (call, after)) :
    call.Served env serde found after := by
  cases step with
  | meter body =>
    obtain ⟨_, ran, same⟩ := Option.map_eq_some_iff.mp computed
    cases same
    exact ⟨rfl, serves_of_serve ran⟩
  | settle reservation body =>
    obtain ⟨_, ran, same⟩ := Option.map_eq_some_iff.mp computed
    cases same
    exact ⟨rfl, serves_of_serve ran⟩
  | ledger request =>
    obtain ⟨⟨reply, stores⟩, ran, same⟩ := Option.map_eq_some_iff.mp computed
    cases same
    obtain ⟨answer, middle, performed, rest⟩ := serves_tryLedger (serves_of_serve ran)
    have last : stores = middle := by
      rcases rest with ⟨_, _, same⟩ | ⟨_, _, done⟩
      · exact same
      · exact (Server.serves_done.mp done).2
    rw [← last] at performed
    exact ⟨rfl, _, _, _, performed⟩

/-- Ten tokens under key `kk`. -/
def secondBody : MeterUsageBody := { sampleBody with idempotencyKey := "kk" }

/-- A hold settled at four tokens, ten tokens under key `k` that do not burn, and ten under `kk`
that do. -/
def usageScript : List (List Outside × UsageStep) := [
  ([drawn 0], .ledger (.openAccount ⟨1, .user, false, none⟩)),
  ([drawn 1], .ledger (.reserve ⟨1, 5, 10, .soft, none, none⟩)),
  ([drawn 2], .settle 5 ⟨"small", ⟨4, 0, 0, 0, 0⟩, none⟩),
  ([drawn 3, drawn 4], .meter { sampleBody with burnable := false }),
  ([drawn 5, drawn 6, drawn 7], .meter secondBody)]

/-- The calls of the script, with the states they found, and the state at the end. -/
def usageRun : Option (List (UsageCall × Engine) × Engine) :=
  usageScript.foldlM (fun run step => (step.2.serve sampleEnv sampleSerde step.1 run.2).map
    fun served => (run.1 ++ [(served.1, run.2)], served.2)) ([], Engine.new)

def usageCalls : List (UsageCall × Engine) := usageRun.elim [] Prod.fst

def usageEngine : Engine := usageRun.elim Engine.new Prod.snd

theorem usage_runs :
    Runs (UsageCall.Served sampleEnv sampleSerde) Engine.new usageCalls usageEngine := by
  have done : usageRun.isSome := by decide +kernel
  obtain ⟨⟨calls, found⟩, replayed⟩ := Option.isSome_iff_exists.mp done
  rw [usageCalls, usageEngine, replayed]
  exact runs_of_replies (fun (step : List Outside × UsageStep) found =>
    step.2.serve sampleEnv sampleSerde step.1 found) (fun _ _ _ _ => UsageStep.served) .nil replayed

/-- The environment after the script. -/
def usageEnv : Env := sampleEnv.withCards sampleSerde usageEngine.cards

/-- What is seen of a computed answer. -/
theorem exists_answer {α β : Type} (outcome : Option (Except ApiError α × Stores))
    (view : α → Stores → β) {seen : β} (computed : (outcome.bind fun served =>
      served.1.toOption.map fun result => view result served.2) = some seen) :
    ∃ result stores, outcome = some (.ok result, stores) ∧ view result stores = seen := by
  obtain ⟨⟨reply, stores⟩, rfl, computed⟩ := Option.bind_eq_some_iff.mp computed
  cases reply with
  | error error => cases computed
  | ok result => exact ⟨result, stores, rfl, Option.some.inj computed⟩

theorem credits_of_price {env : Env} {model : String} {rateCardId : Option String}
    {usage : UsageDimensions} {card : RateCard} {priced : PricedUsage} {credits : Credit}
    (isPriced : price env model rateCardId usage = .ok (card, priced))
    (computed : (price env model rateCardId usage).toOption.map (fun result => result.2.credits) =
      some credits) : priced.credits = credits := by
  rw [isPriced] at computed
  exact Option.some.inj computed

/-- **A repeat of `k` with burnable usage charges ten credits.** A repeat of `kk` that does not burn
answers zero credits over a charge of ten, and a repeated settle answers six over an entry of
four. -/
theorem repeat_charges : sampleEnv.Lawful ∧
    Runs (UsageCall.Served sampleEnv sampleSerde) Engine.new usageCalls usageEngine ∧
    MeteredBefore usageCalls sampleBody.orgId sampleBody.idempotencyKey ∧
    (∃ result after, (UsageCall.meter 0 sampleBody (.ok result)).Served sampleEnv sampleSerde
        usageEngine after ∧
      usageEngine.stores.ledger.settled 1 = -14 ∧ after.stores.ledger.settled 1 = -24 ∧
      ¬ Untouched usageEngine.stores after.stores) ∧
    (∃ body result after, (UsageCall.meter 0 body (.ok result)).Served sampleEnv sampleSerde
        usageEngine after ∧
      result.credits = "0" ∧ magnitude (chargeOf body after.stores) = 10 ∧
      result.credits ≠ sampleEnv.showDecimal (magnitude (chargeOf body after.stores))) ∧
    ∃ body result after, (UsageCall.settle 5 body (.ok result)).Served sampleEnv sampleSerde
        usageEngine after ∧
      result.creditsCharged = "6" ∧ magnitude (after.stores.ledger.settlement 5) = 4 ∧
      result.creditsCharged ≠
        sampleEnv.showDecimal (magnitude (after.stores.ledger.settlement 5)) := by
  refine ⟨sampleEnv_lawful, usage_runs, by decide +kernel, ?_, ?_, ?_⟩
  · have before : usageEngine.stores.ledger.settled 1 = -14 ∧
        balanceOf 1 usageEngine.stores = some (.ok ⟨-14, 0⟩) := by decide +kernel
    obtain ⟨result, stores, ran, seen⟩ := exists_answer
      (serve usageEnv (meterUsage usageEnv 0 sampleBody) [drawn 8, drawn 9, drawn 10]
        usageEngine.stores) (fun _ stores => (stores.ledger.settled 1, balanceOf 1 stores))
      (show _ = some (-24, some (.ok ⟨-24, 0⟩)) by decide +kernel)
    obtain ⟨settled, balance⟩ := Prod.mk.inj seen
    refine ⟨result, ⟨stores, usageEngine.cards⟩, ⟨rfl, serves_of_serve ran⟩, before.1, settled, ?_⟩
    rintro ⟨same, _⟩
    have equal := (balance.symm.trans (same 1)).trans before.2
    exact absurd equal (by decide)
  · let again : MeterUsageBody := { secondBody with burnable := false }
    obtain ⟨result, stores, ran, seen⟩ := exists_answer
      (serve usageEnv (meterUsage usageEnv 0 again) [drawn 8, drawn 9] usageEngine.stores)
      (fun result stores => (result.credits, magnitude (chargeOf again stores)))
      (show _ = some ("0", 10) by decide +kernel)
    obtain ⟨credits, posted⟩ := Prod.mk.inj seen
    refine ⟨again, result, ⟨stores, usageEngine.cards⟩, ⟨rfl, serves_of_serve ran⟩, credits, posted,
      ?_⟩
    rw [credits, posted]
    decide
  · let again : SettleUsageBody := ⟨"small", ⟨6, 0, 0, 0, 0⟩, none⟩
    obtain ⟨result, stores, ran, seen⟩ := exists_answer
      (serve usageEnv (settleUsage usageEnv 5 again) [drawn 8] usageEngine.stores)
      (fun result stores => (result.creditsCharged, magnitude (stores.ledger.settlement 5)))
      (show _ = some ("6", 4) by decide +kernel)
    obtain ⟨credits, posted⟩ := Prod.mk.inj seen
    refine ⟨again, result, ⟨stores, usageEngine.cards⟩, ⟨rfl, serves_of_serve ran⟩, credits, posted,
      ?_⟩
    rw [credits, posted]
    decide

/-- The same usage under `kk` again changes nothing, and it and the same settle report what was
posted. -/
theorem metering_idempotent_iff_sample : ∃ result after again result' after',
    (UsageCall.meter 0 secondBody (.ok result)).Served sampleEnv sampleSerde usageEngine after ∧
    Untouched usageEngine.stores after.stores ∧
    result.credits = sampleEnv.showDecimal (magnitude (chargeOf secondBody after.stores)) ∧
    (UsageCall.settle 5 again (.ok result')).Served sampleEnv sampleSerde usageEngine after' ∧
    result'.creditsCharged =
      sampleEnv.showDecimal (magnitude (after'.stores.ledger.settlement 5)) := by
  let again : SettleUsageBody := ⟨"small", ⟨4, 0, 0, 0, 0⟩, none⟩
  obtain ⟨result, stores, ran, -⟩ := exists_answer
    (serve usageEnv (meterUsage usageEnv 0 secondBody) [drawn 8, drawn 9, drawn 10]
      usageEngine.stores) (fun _ _ => ()) (show _ = some () by decide +kernel)
  obtain ⟨result', stores', ran', -⟩ := exists_answer
    (serve usageEnv (settleUsage usageEnv 5 again) [drawn 8] usageEngine.stores)
    (fun _ _ => ()) (show _ = some () by decide +kernel)
  have served : (UsageCall.meter 0 secondBody (.ok result)).Served sampleEnv sampleSerde usageEngine
    ⟨stores, usageEngine.cards⟩ := ⟨rfl, serves_of_serve ran⟩
  have served' : (UsageCall.settle 5 again (.ok result')).Served sampleEnv sampleSerde usageEngine
    ⟨stores', usageEngine.cards⟩ := ⟨rfl, serves_of_serve ran'⟩
  obtain ⟨meters, settles⟩ := metering_idempotent_iff sampleEnv_lawful usage_runs
  obtain ⟨repeats, reports⟩ := meters 0 secondBody (.ok result) _ served
  have before : MeteredBefore usageCalls 1 "kk" := by decide +kernel
  have posted : (chargeOf secondBody usageEngine.stores).map LedgerEntry.deltaCredits =
    some (-10) := by decide +kernel
  have closed : (usageEngine.stores.ledger.settlement 5).map LedgerEntry.deltaCredits =
    some (-4) := by decide +kernel
  obtain ⟨entry, isPosted, delta⟩ := Option.map_eq_some_iff.mp posted
  obtain ⟨entry', isClosed, delta'⟩ := Option.map_eq_some_iff.mp closed
  refine ⟨result, _, again, result', _, served, (repeats before).mpr ?_,
    (reports result rfl).mpr ?_, served', (settles 5 again result' _ served').mpr ?_⟩
  · rintro ⟨⟨_, _, unused⟩, _⟩
    cases unused.symm.trans isPosted
  · intro card priced isPriced
    rw [isPosted]
    show priced.credits = |entry.deltaCredits|
    rw [credits_of_price isPriced (show _ = some 10 by decide +kernel), delta]
    norm_num
  · intro card priced isPriced
    rw [isClosed]
    show priced.credits = |entry'.deltaCredits|
    rw [credits_of_price isPriced (show _ = some 4 by decide +kernel), delta']
    norm_num

end Meter.Api
