/-
**Usage metering over HTTP** (`crates/meter-api/src/routes/usage.rs`, `routes/events.rs`).

A handler is a program of store calls: the ledger and the event store are two separate stores, and
every call of either is one atomic step. `meterUsage` charges and then records an event that carries
the charge's entry id in its JSON; `amendUsage` reverses that charge, posts the re-priced one and
records a new version; `voidRun` voids the run's events and then its charges.

What is not code of the repository is a parameter of `Env`: the hash of event ids, the text form of
decimals and the parsers (`rust_decimal`, `uuid`), with the two rate-card sources.
-/

import Meter.Events.Store
import Meter.Ledger.Step
import Meter.Lib.Transaction
import Meter.Pricing.Price

namespace Meter.Api

open Meter.Lib Meter.Pricing
open Meter.Ledger (LedgerEntry LedgerError Balance RunVoidSummary ChargeRequest ReverseChargeRequest
  GrantRequest)
open Meter.Events (Event EventStatus EventError RecordEvent AmendEvent)

/-! ### Errors and environment -/

/-- A handler error. -/
inductive ApiError where
  | ledger (error : LedgerError)
  | event (error : EventError)
  | status (code : Nat) (kind message : String)
  deriving DecidableEq

def ApiError.notFound (message : String) : ApiError := .status 404 "not_found" message

def ApiError.unprocessable (message : String) : ApiError := .status 422 "unprocessable" message

/-- What handlers read besides the two stores. -/
structure Env where
  /-- `EventId::deterministic`: a hash of the organization and the key. -/
  idempotentEventId : OrgId → String → EventId
  /-- The built-in catalog card of a model. -/
  rateCardFor : String → Option RateCard
  /-- The live synced card of an id. -/
  loadStoredCard : Uuid → Except ApiError RateCard
  creditValue : Money
  /-- `Decimal::normalize().to_string()`. -/
  showDecimal : Decimal → String
  /-- `Decimal::from_str`. -/
  parseDecimal : String → Option Decimal
  /-- `Uuid::parse_str`. -/
  parseUuid : String → Option Uuid

/-- What the two parsers are documented to do on what the engine printed itself. -/
structure Env.Lawful (env : Env) : Prop where
  decimal : ∀ value, env.parseDecimal (env.showDecimal value) = some value
  uuid : ∀ uuid : Uuid, env.parseUuid uuid.toString = some uuid

/-- The card to price against. -/
def resolveCard (env : Env) (model : String) (rateCardId : Option String) :
    Except ApiError RateCard :=
  match rateCardId with
  | none => (env.rateCardFor model).elim (.error (.notFound ("unknown model: " ++ model))) .ok
  | some id => match env.parseUuid id with
    | none => .error (.unprocessable ("invalid rate_card_id: " ++ id))
    | some uuid => env.loadStoredCard uuid

/-! ### Store calls -/

/-- One call of a store, with the type of its answer. -/
inductive StoreCall : Type → Type where
  | getEvent (id : EventId) : StoreCall (Except EventError Event)
  | recordEvent (req : RecordEvent) : StoreCall (Except EventError Event)
  | recordBatch (reqs : List RecordEvent) : StoreCall (Except EventError (List Event))
  | amendEvent (req : AmendEvent) : StoreCall (Except EventError Event)
  | voidEvents (run : RunId) : StoreCall (Except EventError Nat)
  | charge (req : ChargeRequest) : StoreCall (Except LedgerError LedgerEntry)
  | reverseCharge (req : ReverseChargeRequest) :
      StoreCall (Except LedgerError (Option LedgerEntry))
  | balance (account : AccountId) : StoreCall (Except LedgerError Balance)
  | voidCharges (run : RunId) : StoreCall (Except LedgerError RunVoidSummary)
  /-- Any other ledger call of a route. -/
  | ledger (call : Ledger.Call) : StoreCall (Except LedgerError Ledger.Reply)

/-- The two stores. -/
structure Stores where
  ledger : Ledger.State
  events : List Event

/-- Empty stores. -/
def Stores.new : Stores := ⟨Ledger.State.new, []⟩

/-- What a store call draws from outside: minted ids and clock readings. -/
structure Outside where
  ledger : Ledger.Ambient
  now : Nat → OffsetDateTime
  version : EventId

/-- A ledger call on the two stores. -/
def Stores.onLedger {α : Type} (stores : Stores) (outcome : Ledger.Outcome α) :
    Option (Except LedgerError α × Stores) :=
  outcome.map fun result => (result.1, { stores with ledger := result.2 })

/-- An event-store call on the two stores. -/
def Stores.onEvents {α : Type} (stores : Stores) (outcome : Except EventError α × List Event) :
    Option (Except EventError α × Stores) :=
  some (outcome.1, { stores with events := outcome.2 })

/-- What a call answers and leaves behind, or `none` for a panic. -/
def StoreCall.exec (env : Env) (out : Outside) {α : Type} (call : StoreCall α) (stores : Stores) :
    Option (α × Stores) :=
  match call with
  | .getEvent id => stores.onEvents (Events.get id stores.events, stores.events)
  | .recordEvent req =>
    stores.onEvents (Events.record env.idempotentEventId (out.now 0) req stores.events)
  | .recordBatch reqs => stores.onEvents (Events.recordBatch env.idempotentEventId
      (reqs.zipIdx.map fun req => (out.now req.2, req.1)) stores.events)
  | .amendEvent req =>
    stores.onEvents (Events.amend env.idempotentEventId ⟨out.now 0, out.version⟩ req stores.events)
  | .voidEvents run => stores.onEvents (Events.voidRun run stores.events)
  | .charge req => stores.onLedger (Ledger.charge out.ledger req stores.ledger)
  | .reverseCharge req => stores.onLedger (Ledger.reverseCharge out.ledger req stores.ledger)
  | .balance account => stores.onLedger (Ledger.balance account stores.ledger)
  | .voidCharges run => stores.onLedger (Ledger.voidRun out.ledger run stores.ledger)
  | .ledger call => stores.onLedger (Ledger.step out.ledger call stores.ledger)

/-- A program of store calls that answers or fails. -/
abbrev Handler (α : Type) := Prog StoreCall (Except ApiError α)

/-- `?` on a ledger call. -/
def tryLedger {α β : Type} (call : StoreCall (Except LedgerError α)) (next : α → Handler β) :
    Handler β :=
  .stmt call fun
    | .error error => .done (.error (.ledger error))
    | .ok answer => next answer

/-- `?` on an event-store call. -/
def tryEvent {α β : Type} (call : StoreCall (Except EventError α)) (next : α → Handler β) :
    Handler β :=
  .stmt call fun
    | .error error => .done (.error (.event error))
    | .ok answer => next answer

/-- `return Err(..)`. -/
def fail {α : Type} (error : ApiError) : Handler α := .done (.error error)

/-! ### Pricing a request -/

/-- Token counts. -/
structure UsageDimensions where
  inputUncached : UInt64
  cacheRead : UInt64
  cacheWrite : UInt64
  output : UInt64
  reasoning : UInt64
  deriving DecidableEq

/-- The priceable usage: only the positive counts, and not the reasoning tokens. -/
def UsageDimensions.toUsage (usage : UsageDimensions) : Usage where
  modality := .text
  contextTier := .standard
  quantities := ([(.inputUncached, usage.inputUncached), (.cacheRead, usage.cacheRead),
      (.cacheWrite, usage.cacheWrite), (.output, usage.output)].filter fun line =>
        decide (0 < line.2)).map fun line => (line.1, line.2.toNat)

/-- Resolve the card and price the usage. -/
def price (env : Env) (model : String) (rateCardId : Option String) (usage : UsageDimensions) :
    Except ApiError (RateCard × PricedUsage) := do
  let card ← resolveCard env model rateCardId
  let priced ← (priceUsage usage.toUsage card env.creditValue).mapError fun error =>
    ApiError.unprocessable ("pricing: " ++ error.message)
  return (card, priced)

def pricingSource (rateCardId : Option String) : String :=
  match rateCardId with
  | some _ => "synced"
  | none => "catalog"

/-- Merge custom fields into the reserved properties, which win. -/
def mergeTags (base : List (String × Json)) (tags : Json) : Json :=
  match tags with
  | .object fields => .object (Json.orInsert base fields)
  | _ => .object base

/-- Credits actually burned. -/
def burnedCredits (burnable : Bool) (priced : Credit) : Credit :=
  match burnable with
  | true => priced
  | false => 0

/-! ### Metering -/

structure MeterUsageBody where
  orgId : OrgId
  account : AccountId
  model : String
  idempotencyKey : String
  runId : Option RunId
  usage : UsageDimensions
  rateCardId : Option String
  tags : Json
  burnable : Bool

structure MeterUsageResult where
  credits : String
  pricedCredits : String
  cogsUsd : String
  customerPriceUsd : String
  eventId : String
  charged : Bool
  settled : String
  available : String

/-- The reserved properties of a priced event. -/
def pricedProperties (env : Env) (model : String) (usage : UsageDimensions) (burned : Credit)
    (burnable : Bool) (chargeEntryId rateCardId : Option String) (card : RateCard)
    (priced : PricedUsage) : List (String × Json) := [
  ("model", .string model),
  ("input_uncached", .number usage.inputUncached.toNat),
  ("cache_read", .number usage.cacheRead.toNat),
  ("cache_write", .number usage.cacheWrite.toNat),
  ("output", .number usage.output.toNat),
  ("reasoning", .number usage.reasoning.toNat),
  ("cogs_usd", .string (env.showDecimal priced.cogs.amount)),
  ("credits", .string (env.showDecimal burned)),
  ("priced_credits", .string (env.showDecimal priced.credits)),
  ("burnable", .bool burnable),
  ("charge_entry_id", .ofOption chargeEntryId),
  ("rate_card_id", .ofOption rateCardId),
  ("rate_card_version", .number card.version),
  ("priced_via", .string (pricingSource rateCardId))]

/-- The key of a metered usage's charge. -/
def chargeKey (key : String) : String := key ++ "::charge"

/-- The key of a metered usage's event. -/
def eventKey (key : String) : String := key ++ "::event"

/-- The event that metering records. -/
def meteredEvent (env : Env) (now : OffsetDateTime) (body : MeterUsageBody) (card : RateCard)
    (priced : PricedUsage) (chargeEntryId : Option String) : RecordEvent where
  orgId := body.orgId
  idempotencyKey := eventKey body.idempotencyKey
  eventTime := now
  meter := "tokens"
  accountId := body.account
  runId := body.runId
  properties := mergeTags (pricedProperties env body.model body.usage
    (burnedCredits body.burnable priced.credits) body.burnable chargeEntryId body.rateCardId card
    priced) body.tags

/-- The end of metering: record the event and read the balance. -/
def recordMetered (env : Env) (now : OffsetDateTime) (body : MeterUsageBody) (card : RateCard)
    (priced : PricedUsage) (chargeEntryId : Option String) : Handler MeterUsageResult :=
  let burned := burnedCredits body.burnable priced.credits
  tryEvent (.recordEvent (meteredEvent env now body card priced chargeEntryId)) fun event =>
  tryLedger (.balance body.account) fun balance =>
  .done (.ok {
    credits := env.showDecimal burned
    pricedCredits := env.showDecimal priced.credits
    cogsUsd := env.showDecimal priced.cogs.amount
    customerPriceUsd := env.showDecimal priced.customerPrice.amount
    eventId := event.id.toString
    charged := decide (0 < burned)
    settled := env.showDecimal balance.settled
    available := env.showDecimal balance.available })

/-- `POST /v1/usage`. -/
def meterUsage (env : Env) (now : OffsetDateTime) (body : MeterUsageBody) :
    Handler MeterUsageResult :=
  match price env body.model body.rateCardId body.usage with
  | .error error => fail error
  | .ok (card, priced) =>
    let burned := burnedCredits body.burnable priced.credits
    if 0 < burned then
      tryLedger (.charge {
        account := body.account
        amount := burned
        runId := body.runId
        idempotencyKey := some (chargeKey body.idempotencyKey) }) fun entry =>
      recordMetered env now body card priced (some entry.id.toString)
    else recordMetered env now body card priced none

/-! ### Amending -/

structure AmendUsageBody where
  usage : UsageDimensions
  model : Option String
  rateCardId : Option String
  idempotencyKey : String

structure AmendUsageResult where
  eventId : String
  credits : String
  pricedCredits : String
  delta : String
  settled : String
  available : String

/-- Only an event that carries pricing provenance can be amended. -/
def isEnginePriced (event : Event) : Bool :=
  (event.properties.get? "priced_via").any fun value => !value.isNull

/-- A string property of an event. -/
def propStr (event : Event) (key : String) : Option String :=
  (event.properties.get? key).bind Json.asStr?

/-- The burned credits recorded on an event, zero if there are none. -/
def recordedCredits (env : Env) (event : Event) : Credit :=
  ((propStr event "credits").bind env.parseDecimal).getD 0

/-- The ledger entry that an event's charge produced. -/
def recordedChargeEntry (env : Env) (event : Event) : Option EntryId :=
  ((propStr event "charge_entry_id").bind env.parseUuid).map Id.mk

/-- The id of the version that an amendment produces. -/
def amendedId (env : Env) (original : Event) (key : String) : EventId :=
  env.idempotentEventId original.orgId (Events.amendKey original key)

def amendReverseKey (scope : EventId) : String := scope.toString ++ "::amend-reverse"

def amendChargeKey (scope : EventId) : String := scope.toString ++ "::amend-charge"

def amendCompensateKey (scope : EventId) : String := scope.toString ++ "::amend-compensate"

/-- The version that an amendment records. -/
def amendedEvent (env : Env) (original : Event) (body : AmendUsageBody) (model : String)
    (rateCardId : Option String) (card : RateCard) (priced : PricedUsage) (burnable : Bool)
    (chargeEntryId : Option String) : AmendEvent where
  eventId := original.id
  properties := .object (pricedProperties env model body.usage
    (burnedCredits burnable priced.credits) burnable chargeEntryId rateCardId card priced ++
      [("amends", .string original.id.toString)])
  idempotencyKey := some body.idempotencyKey

/-- An amendment that was priced: what to write. -/
structure Repriced where
  original : Event
  body : AmendUsageBody
  model : String
  rateCardId : Option String
  card : RateCard
  priced : PricedUsage

namespace Repriced

/-- The original's immutable flag. -/
def burnable (amendment : Repriced) : Bool :=
  ((amendment.original.properties.get? "burnable").bind Json.asBool?).getD true

def burned (amendment : Repriced) : Credit :=
  burnedCredits amendment.burnable amendment.priced.credits

/-- The version it produces. -/
def version (env : Env) (amendment : Repriced) : EventId :=
  amendedId env amendment.original amendment.body.idempotencyKey

end Repriced

/-- The event was voided in between: reverse the charge that was just posted. -/
def compensate (env : Env) (amendment : Repriced) (chargeEntryId : Option String) :
    Handler AmendUsageResult :=
  let refused : Handler AmendUsageResult := fail (.unprocessable
    "event was voided concurrently; the amendment was aborted and its charge reversed")
  match chargeEntryId.bind env.parseUuid with
  | none => refused
  | some charge => tryLedger (.reverseCharge {
      account := amendment.original.accountId
      chargeEntryId := ⟨charge⟩
      runId := amendment.original.runId
      idempotencyKey := amendCompensateKey (amendment.version env) }) fun _ => refused

/-- Record the amended version with its charge link. -/
def recordAmended (env : Env) (amendment : Repriced) (chargeEntryId : Option String) :
    Handler AmendUsageResult :=
  .stmt (.amendEvent (amendedEvent env amendment.original amendment.body amendment.model
    amendment.rateCardId amendment.card amendment.priced amendment.burnable chargeEntryId)) fun
    | .ok amended => tryLedger (.balance amendment.original.accountId) fun balance =>
      .done (.ok {
        eventId := amended.id.toString
        credits := env.showDecimal amendment.burned
        pricedCredits := env.showDecimal amendment.priced.credits
        delta := env.showDecimal (amendment.burned - recordedCredits env amendment.original)
        settled := env.showDecimal balance.settled
        available := env.showDecimal balance.available })
    | .error (.voided _) => compensate env amendment chargeEntryId
    | .error other => fail (.event other)

/-- Post the re-priced charge. -/
def chargeAmended (env : Env) (amendment : Repriced) : Handler AmendUsageResult :=
  if 0 < amendment.burned then
    tryLedger (.charge {
      account := amendment.original.accountId
      amount := amendment.burned
      runId := amendment.original.runId
      idempotencyKey := some (amendChargeKey (amendment.version env)) }) fun entry =>
    recordAmended env amendment (some entry.id.toString)
  else recordAmended env amendment none

/-- Reverse the current charge's remainder, then go on. -/
def applyAmendment (env : Env) (amendment : Repriced) : Handler AmendUsageResult :=
  match recordedChargeEntry env amendment.original with
  | some charge => tryLedger (.reverseCharge {
      account := amendment.original.accountId
      chargeEntryId := charge
      runId := amendment.original.runId
      idempotencyKey := amendReverseKey (amendment.version env) }) fun _ =>
    chargeAmended env amendment
  | none => chargeAmended env amendment

/-- Re-price the corrected usage. Model and card default to the original event's. -/
def reprice (env : Env) (original : Event) (body : AmendUsageBody) : Except ApiError Repriced :=
  match body.model <|> propStr original "model" with
  | none => .error (.unprocessable "original event has no model to re-price against")
  | some model =>
    let rateCardId := body.rateCardId <|> propStr original "rate_card_id"
    (price env model rateCardId body.usage).map fun (card, priced) =>
      { original, body, model, rateCardId, card, priced }

/-- The answer to a retry. -/
def alreadyAmended (env : Env) (original existing : Event) : Handler AmendUsageResult :=
  tryLedger (.balance original.accountId) fun balance =>
  .done (.ok {
    eventId := existing.id.toString
    credits := env.showDecimal (recordedCredits env existing)
    pricedCredits := (propStr existing "priced_credits").getD ""
    delta := env.showDecimal (recordedCredits env existing - recordedCredits env original)
    settled := env.showDecimal balance.settled
    available := env.showDecimal balance.available })

/-- What is left of an amendment after it has read its event. -/
def recheck (env : Env) (original : Event) (body : AmendUsageBody) : Handler AmendUsageResult :=
  if original.status = .voided then fail (.unprocessable
    "event is voided; a voided run's events cannot be amended (would re-charge a dead run)")
  else if ¬ isEnginePriced original then fail (.unprocessable
    "not an engine-priced usage event; only POST /v1/usage events can be amended")
  else .stmt (.getEvent (amendedId env original body.idempotencyKey)) fun
    | .ok existing => alreadyAmended env original existing
    | .error _ =>
      if original.status ≠ .recorded then fail (.unprocessable
        "event is superseded; amend its current version instead")
      else match reprice env original body with
        | .error error => fail error
        | .ok amendment => applyAmendment env amendment

/-- `POST /v1/usage/{event_id}/amend`. -/
def amendUsage (env : Env) (eventId : EventId) (body : AmendUsageBody) : Handler AmendUsageResult :=
  tryEvent (.getEvent eventId) fun original => recheck env original body

/-! ### Voiding a run -/

structure VoidRunResult where
  eventsVoided : Nat
  ledger : RunVoidSummary

/-- `POST /v1/runs/{id}/void`. -/
def voidRun (run : RunId) : Handler VoidRunResult :=
  tryEvent (.voidEvents run) fun eventsVoided =>
  tryLedger (.voidCharges run) fun ledger =>
  .done (.ok { eventsVoided, ledger })

end Meter.Api
