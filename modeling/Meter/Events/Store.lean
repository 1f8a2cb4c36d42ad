/-
**Usage events and their in-memory store** (`crates/meter-event`).

Events are immutable facts with arbitrary JSON properties. Editing appends: `amend` records a new
version that supersedes the original, which becomes `amended`, and `voidRun` marks the recorded
events of a run `voided`.

`InMemoryEventStore` is the list of events behind its mutex, oldest first. Every operation is a
function of that list. What it draws from outside are clock readings and, for an amendment without a
key, a new version id. The id of an event is content-addressed from its organization and key; the
hash (`Uuid::new_v5`) is the parameter `idempotentEventId`.
-/

import Meter.Core
import Meter.Lib.Json

namespace Meter.Events

open Meter.Lib

/-- The life cycle of an event version. -/
inductive EventStatus where
  /-- The current, in-effect version. -/
  | recorded
  /-- Superseded by a later amended version. -/
  | amended
  /-- Reversed: its run was voided. -/
  | voided
  deriving DecidableEq

/-- One usage event. -/
structure Event where
  id : EventId
  orgId : OrgId
  idempotencyKey : String
  eventTime : OffsetDateTime
  meter : String
  accountId : AccountId
  runId : Option RunId
  properties : Json
  status : EventStatus
  supersedes : Option EventId
  createdAt : OffsetDateTime

inductive EventError where
  | notFound (event : EventId)
  | voided (event : EventId)
  | backend (message : String)
  deriving DecidableEq

/-- Record a usage event. -/
structure RecordEvent where
  orgId : OrgId
  idempotencyKey : String
  eventTime : OffsetDateTime
  meter : String
  accountId : AccountId
  runId : Option RunId
  properties : Json

/-- Amend an event: a new version with the given properties. -/
structure AmendEvent where
  eventId : EventId
  properties : Json
  idempotencyKey : Option String

/-- What one write draws from outside: the clock, and an id for an amendment without a key. -/
structure Draw where
  now : OffsetDateTime
  version : EventId

section

variable (idempotentEventId : OrgId → String → EventId)

/-- The freshly recorded event of a request. -/
def RecordEvent.intoEvent (req : RecordEvent) (now : OffsetDateTime) : Event where
  id := idempotentEventId req.orgId req.idempotencyKey
  orgId := req.orgId
  idempotencyKey := req.idempotencyKey
  eventTime := req.eventTime
  meter := req.meter
  accountId := req.accountId
  runId := req.runId
  properties := req.properties
  status := .recorded
  supersedes := none
  createdAt := now

/-- The key of an amended version. -/
def amendKey (original : Event) (key : String) : String :=
  original.idempotencyKey ++ "::amend::" ++ key

/-- The new version of an amended event. -/
def AmendEvent.intoAmendedEvent (req : AmendEvent) (original : Event) (draw : Draw) : Event :=
  let key := amendKey original (req.idempotencyKey.getD draw.version.toString)
  { id := idempotentEventId original.orgId key
    orgId := original.orgId
    idempotencyKey := key
    eventTime := original.eventTime
    meter := original.meter
    accountId := original.accountId
    runId := original.runId
    properties := req.properties
    status := .recorded
    supersedes := some original.id
    createdAt := draw.now }

/-- The stored version with an id. -/
def find (events : List Event) (id : EventId) : Option Event :=
  events.find? fun event => event.id = id

/-- Record one event, unless its id is taken. -/
def recordLocked (now : OffsetDateTime) (req : RecordEvent) (events : List Event) :
    Event × List Event :=
  let event := req.intoEvent idempotentEventId now
  match find events event.id with
  | some existing => (existing, events)
  | none => (event, events ++ [event])

def record (now : OffsetDateTime) (req : RecordEvent) (events : List Event) :
    Except EventError Event × List Event :=
  let (event, events) := recordLocked idempotentEventId now req events
  (.ok event, events)

/-- Record many events, each with its clock reading. -/
def recordBatch : List (OffsetDateTime × RecordEvent) → List Event →
    Except EventError (List Event) × List Event
  | [], events => (.ok [], events)
  | (now, req) :: rest, events =>
    let (event, events) := recordLocked idempotentEventId now req events
    let (recorded, events) := recordBatch rest events
    (recorded.map (event :: ·), events)

def get (id : EventId) (events : List Event) : Except EventError Event :=
  (find events id).elim (.error (.notFound id)) .ok

/-- The current events of an account. -/
def listForAccount (account : AccountId) (events : List Event) : List Event :=
  events.filter fun event => event.accountId = account ∧ event.status = .recorded

/-- Set the status of the first event with an id. -/
def setStatus (id : EventId) (status : EventStatus) : List Event → List Event
  | [] => []
  | event :: rest =>
    if event.id = id then { event with status } :: rest else event :: setStatus id status rest

def amend (draw : Draw) (req : AmendEvent) (events : List Event) :
    Except EventError Event × List Event :=
  match find events req.eventId with
  | none => (.error (.notFound req.eventId), events)
  | some original =>
    if original.status = .voided then (.error (.voided req.eventId), events)
    else
      let amended := req.intoAmendedEvent idempotentEventId original draw
      match find events amended.id with
      | some existing => (.ok existing, events)
      | none => (.ok amended, setStatus original.id .amended events ++ [amended])

end

/-- Whether a run void voids an event. -/
def Event.Voids (run : RunId) (event : Event) : Prop :=
  event.runId = some run ∧ event.status = .recorded

instance (run : RunId) : DecidablePred (Event.Voids run) := fun event =>
  inferInstanceAs (Decidable (event.runId = some run ∧ event.status = .recorded))

def voidRun (run : RunId) (events : List Event) : Except EventError Nat × List Event :=
  (.ok (events.countP fun event => event.Voids run),
    events.map fun event => if event.Voids run then { event with status := .voided } else event)

end Meter.Events
