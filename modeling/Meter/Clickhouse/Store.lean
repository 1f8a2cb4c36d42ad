/-
**The ClickHouse event store** (`crates/meter-store-ch`).

`events` is a `ReplacingMergeTree` keyed by organization and id: every status change inserts a whole
row again, and `FINAL` reads the row with the highest version of each key. Two materialized views see
every inserted row and keep two pre-aggregated tables, `usage_rollup` and `field_usage_rollup`, in
which a row that is not `recorded` counts negatively.

* `ChStmt` — one statement of the client; a query or an insert is atomic, and what `SELECT` leaves
  open (which row `LIMIT 1` takes, the order of rows) is open in `perform` too.
* `recordBatch`, `amend`, `voidRun`, `rebuildRollups` — the operations, as programs of statements.
* `usageByField` — the burndown read, from the rollup for a promoted field and from a scan otherwise.

An insert assigns the versions of its rows (`next_version`). Credits are exact, token sums are of 64
bits, and the JSON and conversion functions of the server are parameters.
-/

import Mathlib.Algebra.Field.Rat
import Mathlib.Algebra.Group.Prod
import Mathlib.Algebra.Ring.Int.Defs
import Mathlib.Data.BitVec
import Meter.Events.Store
import Meter.Lib.Race
import Meter.Lib.Rollup

namespace Meter.Clickhouse

open Meter.Lib Meter.Events

/-! ### Tables -/

/-- Functions of the server. -/
structure Functions where
  jsonExtractString : Json → String → String
  jsonExtractUInt : Json → String → BitVec 64
  toFloat64OrZero : String → ℚ
  toDate : OffsetDateTime → Int

/-- A row of `events`: one version of an event. -/
structure EventRow extends Event where
  version : Nat

/-- The sorting key of `events`. -/
def key (row : EventRow) : OrgId × EventId := (row.orgId, row.id)

/-- The sorting key of `usage_rollup`. -/
structure UsageGroup where
  orgId : OrgId
  meter : String
  model : String
  day : Int
  deriving DecidableEq

/-- Events, input tokens, output tokens and credits. -/
abbrev UsageMetrics := ℤ × BitVec 64 × BitVec 64 × ℚ

/-- The sorting key of `field_usage_rollup`. -/
structure FieldGroup where
  orgId : OrgId
  fieldName : String
  fieldValue : String
  day : Int
  deriving DecidableEq

/-- Events and credits. -/
abbrev FieldMetrics := ℤ × ℚ

/-- The tables, and the client's version counter. -/
structure Tables where
  events : List EventRow
  usageRollup : List (UsageGroup × UsageMetrics)
  fieldUsageRollup : List (FieldGroup × FieldMetrics)
  versionSeq : Nat

def Tables.new (versionSeq : Nat) : Tables := ⟨[], [], [], versionSeq⟩

/-- `events FINAL`. -/
def Tables.final (s : Tables) : List EventRow := Lib.final key EventRow.version s.events

/-- `events FINAL WHERE status = 'recorded'`. -/
def Tables.live (s : Tables) : List EventRow := s.final.filter fun row => row.status = .recorded

/-! ### Materialized views -/

/-- `if(status = 'recorded', 1, -1)`. -/
def sign (row : EventRow) : ℤ := if row.status = .recorded then 1 else -1

def promotedFields : List String := ["team", "feature", "customer", "environment"]

section Views

variable (fns : Functions)

def model (row : EventRow) : String := fns.jsonExtractString row.properties "model"

def inputTokens (row : EventRow) : BitVec 64 :=
  fns.jsonExtractUInt row.properties "input_uncached" +
    fns.jsonExtractUInt row.properties "cache_read" +
    fns.jsonExtractUInt row.properties "cache_write"

def outputTokens (row : EventRow) : BitVec 64 :=
  fns.jsonExtractUInt row.properties "output" + fns.jsonExtractUInt row.properties "reasoning"

def credits (row : EventRow) : ℚ :=
  fns.toFloat64OrZero (fns.jsonExtractString row.properties "credits")

def usageGroup (row : EventRow) : UsageGroup :=
  ⟨row.orgId, row.meter, model fns row, fns.toDate row.eventTime⟩

/-- `usage_rollup_mv`. -/
def usageRollupMv (row : EventRow) : UsageGroup × UsageMetrics :=
  (usageGroup fns row, sign row, BitVec.ofInt 64 (sign row) * inputTokens fns row,
    BitVec.ofInt 64 (sign row) * outputTokens fns row, sign row * credits fns row)

/-- The promoted fields that an event carries, with their values. -/
def promotedFieldsArrayJoin (row : EventRow) : List (String × String) :=
  (promotedFields.map fun field => (field, fns.jsonExtractString row.properties field)).filter
    fun field => field.2 ≠ ""

def fieldGroup (row : EventRow) (field : String × String) : FieldGroup :=
  ⟨row.orgId, field.1, field.2, fns.toDate row.eventTime⟩

/-- `field_usage_rollup_mv`. -/
def fieldUsageRollupMv (row : EventRow) : List (FieldGroup × FieldMetrics) :=
  (promotedFieldsArrayJoin fns row).map fun field =>
    (fieldGroup fns row field, sign row, sign row * credits fns row)

/-! ### Statements -/

/-- What a `DateTime64(3)` column keeps of an instant. -/
def millis (time : OffsetDateTime) : OffsetDateTime := time.tdiv 1000000 * 1000000

/-- The row of an event version. -/
def eventToRow (version : Nat) (event : Event) : EventRow :=
  { event with eventTime := millis event.eventTime, createdAt := millis event.createdAt, version }

/-- One inserted row, with what the views make of it. -/
def Tables.insertEvent (s : Tables) (event : Event) : Tables :=
  let row := eventToRow s.versionSeq event
  { events := s.events ++ [row]
    usageRollup := s.usageRollup ++ [usageRollupMv fns row]
    fieldUsageRollup := s.fieldUsageRollup ++ fieldUsageRollupMv fns row
    versionSeq := s.versionSeq + 1 }

/-- One insert of some rows. -/
def Tables.insertEvents (s : Tables) (events : List Event) : Tables :=
  events.foldl (Tables.insertEvent fns) s

/-- What a live event contributes to `usage_rollup` in a rebuild. -/
def usageOf (row : EventRow) : UsageGroup × UsageMetrics :=
  (usageGroup fns row, 1, inputTokens fns row, outputTokens fns row, credits fns row)

/-- What a live event contributes to `field_usage_rollup` in a rebuild. -/
def fieldUsageOf (row : EventRow) : List (FieldGroup × FieldMetrics) :=
  (promotedFieldsArrayJoin fns row).map fun field => (fieldGroup fns row field, 1, credits fns row)

/-- One statement of the client, with the type of its answer. -/
inductive ChStmt : Type → Type where
  /-- `FROM events FINAL WHERE id = ? LIMIT 1`. -/
  | selectById (id : EventId) : ChStmt (Option Event)
  /-- `SELECT id FROM events WHERE org_id = ? AND id IN (..)`. -/
  | selectExisting (org : OrgId) (ids : List EventId) : ChStmt (List EventId)
  /-- `FROM events FINAL WHERE run_id = ? AND status = 'recorded'`. -/
  | selectForRun (run : RunId) : ChStmt (List Event)
  | insertEvents (events : List Event) : ChStmt Unit
  | deleteUsageRollup (org : OrgId) : ChStmt Unit
  | deleteFieldUsageRollup (org : OrgId) : ChStmt Unit
  /-- `INSERT INTO usage_rollup SELECT .. GROUP BY org_id, meter, model, day`. -/
  | insertUsageRollup (org : OrgId) : ChStmt Unit
  /-- `INSERT INTO field_usage_rollup SELECT .. GROUP BY org_id, field_name, field_value, day`. -/
  | insertFieldUsageRollup (org : OrgId) : ChStmt Unit

/-- The live rows of an organization. -/
def Tables.liveOfOrg (s : Tables) (org : OrgId) : List EventRow :=
  s.live.filter fun row => row.orgId = org

/-- The live events of a run. -/
def Tables.liveOfRun (s : Tables) (run : RunId) : List Event :=
  (s.live.filter fun row => row.runId = some run).map EventRow.toEvent

/-- What a statement may answer, and what it leaves. -/
def ChStmt.Performs {β : Type} (statement : ChStmt β) (s : Tables) (answer : β) (s' : Tables) :
    Prop :=
  match statement with
  | .selectById id => s' = s ∧ match answer with
    | none => ∀ row ∈ s.final, row.id ≠ id
    | some event => ∃ row ∈ s.final, row.id = id ∧ row.toEvent = event
  | .selectExisting org ids => s' = s ∧
      ∀ id, id ∈ answer ↔ id ∈ ids ∧ ∃ row ∈ s.events, key row = (org, id)
  | .selectForRun run => s' = s ∧ List.Perm answer (s.liveOfRun run)
  | .insertEvents events => s' = s.insertEvents fns events
  | .deleteUsageRollup org => s' = { s with
      usageRollup := s.usageRollup.filter fun row => row.1.orgId ≠ org }
  | .deleteFieldUsageRollup org => s' = { s with
      fieldUsageRollup := s.fieldUsageRollup.filter fun row => row.1.orgId ≠ org }
  | .insertUsageRollup org => s' = { s with
      usageRollup := s.usageRollup ++ Lib.groupBy ((s.liveOfOrg org).map (usageOf fns)) }
  | .insertFieldUsageRollup org => s' = { s with
      fieldUsageRollup :=
        s.fieldUsageRollup ++ Lib.groupBy ((s.liveOfOrg org).flatMap (fieldUsageOf fns)) }

/-- The server. -/
def server : Server ChStmt Tables := ⟨ChStmt.Performs fns⟩

end Views

/-! ### Operations -/

/-- How the ingest path enforces idempotency. -/
inductive IngestMode where
  | exactlyOnce
  | append
  deriving DecidableEq

/-- The client: the hash of event ids, and the order in which it walks a `HashMap`. -/
structure Client where
  idempotentEventId : OrgId → String → EventId
  iterate : List (OrgId × List EventId) → List (OrgId × List EventId)
  iterate_perm : ∀ groups, (iterate groups).Perm groups
  ingestMode : IngestMode

/-- Pieces of at most `size` items, for as many as `fuel`. -/
def chunksOf {α : Type} (size : Nat) : Nat → List α → List (List α)
  | 0, _ => []
  | _ + 1, [] => []
  | fuel + 1, item :: items =>
    (item :: items).take size :: chunksOf size fuel ((item :: items).drop size)

/-- Pieces of at most `size` items. -/
def chunks {α : Type} (size : Nat) (items : List α) : List (List α) :=
  chunksOf size items.length items

/-- Event ids by organization. -/
def byOrg (events : List Event) : List (OrgId × List EventId) :=
  (events.map Event.orgId).dedup.map fun org =>
    (org, (events.filter fun event => event.orgId = org).map Event.id)

section Programs

variable {α : Type}

/-- The loop over the lookups: what was found so far, and what to do with it. -/
def lookUp (next : List EventId → Prog ChStmt α) :
    List (OrgId × List EventId) → List EventId → Prog ChStmt α
  | [], found => next found
  | (org, ids) :: rest, found =>
    .stmt (.selectExisting org ids) fun rows => lookUp next rest (found ++ rows)

/-- Which of these events already exist. -/
def existingIds (client : Client) (events : List Event) (next : List EventId → Prog ChStmt α) :
    Prog ChStmt α :=
  lookUp next ((client.iterate (byOrg events)).flatMap fun group =>
    (chunks 4000 group.2).map fun ids => (group.1, ids)) []

/-- The events of a batch that are to be written. -/
def survivors (existing : List EventId) : List EventId → List Event → List Event
  | _, [] => []
  | seen, event :: rest =>
    if event.id ∈ existing ∨ event.id ∈ seen then survivors existing seen rest
    else event :: survivors existing (event.id :: seen) rest

/-- `record_batch`, each request with its clock reading. -/
def recordBatch (client : Client) (reqs : List (OffsetDateTime × RecordEvent)) :
    Prog ChStmt (Except EventError (List Event)) :=
  if reqs.isEmpty then .done (.ok []) else
    let events := reqs.map fun req => req.2.intoEvent client.idempotentEventId req.1
    let write (existing : List EventId) : Prog ChStmt (Except EventError (List Event)) :=
      match survivors existing [] events with
      | [] => .done (.ok events)
      | first :: rest => .stmt (.insertEvents (first :: rest)) fun _ => .done (.ok events)
    match client.ingestMode with
    | .append => write []
    | .exactlyOnce => existingIds client events write

/-- `record`. -/
def record (client : Client) (now : OffsetDateTime) (req : RecordEvent) :
    Prog ChStmt (Except EventError Event) :=
  (recordBatch client [(now, req)]).bind fun
    | .error error => .done (.error error)
    | .ok events => .done
      (events.getLast?.elim (.error (.backend "record produced no event")) .ok)

/-- `get`. -/
def get (id : EventId) (next : Event → Prog ChStmt (Except EventError α)) :
    Prog ChStmt (Except EventError α) :=
  .stmt (.selectById id) fun
    | none => .done (.error (.notFound id))
    | some event => next event

/-- `amend`. -/
def amend (client : Client) (draw : Draw) (req : AmendEvent) :
    Prog ChStmt (Except EventError Event) :=
  get req.eventId fun original =>
  if original.status = .voided then .done (.error (.voided req.eventId)) else
    let amended := req.intoAmendedEvent client.idempotentEventId original draw
    existingIds client [amended] fun existing =>
    if amended.id ∈ existing then get amended.id fun event => .done (.ok event) else
      .stmt (.insertEvents [{ original with status := .amended }]) fun _ =>
      .stmt (.insertEvents [amended]) fun _ =>
      .done (.ok amended)

/-- The loop of `void_run`. -/
def voidEach : List Event → Nat → Prog ChStmt (Except EventError Nat)
  | [], count => .done (.ok count)
  | event :: rest, count =>
    .stmt (.insertEvents [{ event with status := .voided }]) fun _ => voidEach rest (count + 1)

/-- `void_run`. -/
def voidRun (run : RunId) : Prog ChStmt (Except EventError Nat) :=
  .stmt (.selectForRun run) fun rows => voidEach rows 0

/-- `rebuild_rollups`. -/
def rebuildRollups (org : OrgId) : Prog ChStmt Unit :=
  .stmt (.deleteUsageRollup org) fun _ =>
  .stmt (.deleteFieldUsageRollup org) fun _ =>
  .stmt (.insertUsageRollup org) fun _ =>
  .stmt (.insertFieldUsageRollup org) fun _ =>
  .done ()

end Programs

/-! ### Reading -/

/-- The burndown of one value of a field. -/
structure FieldUsage where
  dimension : String
  events : ℤ
  credits : ℚ

/-- `ORDER BY credits DESC, events DESC`. -/
def orderBySpend (rows : List FieldUsage) : List FieldUsage :=
  rows.mergeSort fun first second =>
    decide (second.credits < first.credits ∨
      second.credits = first.credits ∧ second.events ≤ first.events)

def FieldUsage.ofGroup (row : String × FieldMetrics) : FieldUsage := ⟨row.1, row.2.1, row.2.2⟩

/-- `usage_by_promoted_field`: from the rollup. -/
def usageByPromotedField (org : OrgId) (field : String) (s : Tables) : List FieldUsage :=
  orderBySpend (((Lib.groupBy ((s.fieldUsageRollup.filter fun row =>
      row.1.orgId = org ∧ row.1.fieldName = field).map fun row =>
        (row.1.fieldValue, row.2))).filter fun row => 0 < row.2.1).map .ofGroup)

/-- The same from a scan of the live events. -/
def usageByScan (fns : Functions) (org : OrgId) (field : String) (s : Tables) : List FieldUsage :=
  orderBySpend (((Lib.groupBy ((s.liveOfOrg org).map fun row =>
      (fns.jsonExtractString row.properties field, ((1, credits fns row) : FieldMetrics)))).filter
    fun row => row.1 ≠ "").map .ofGroup)

/-- `usage_by_field`. -/
def usageByField (fns : Functions) (org : OrgId) (field : String) (s : Tables) : List FieldUsage :=
  if field ∈ promotedFields then usageByPromotedField org field s else usageByScan fns org field s

end Meter.Clickhouse
