/-
**The ClickHouse store beside the in-memory one.**

The same calls run on both stores. The tables and the list then hold the same events at every moment
(`Mirrors`), up to timestamps, which the tables keep in milliseconds. The answers to amendments, run
voids and reads agree. A record is different: the list answers what it holds under the id, `ChStore`
what it would have written. The text of the JSON columns is taken to read back as what was written,
so a row holds its properties themselves.

* `Mirrors.add`, `Mirrors.restate` — the two kinds of insert, and what they are on the list.
* `Mirrors.survivors` — **a batch**: the lookup and the set of the batch drop what the list drops.
* `Mirrors.call` — **every call keeps the two stores alike**.
* `Repeats` — a request repeats the event that is held under its id.
* `answers_agree_iff` — **in every run, an answer agrees exactly if the requests repeat**, and
  exactly then the events that are returned are those that `get` returns.
-/

import Mathlib.Data.List.MinMax
import Meter.Clickhouse.Rollups
import Meter.Events.Versions

namespace Meter.Clickhouse

open Meter.Lib
open Meter.Events (Event EventStatus EventError RecordEvent AmendEvent Draw find find_eq_none
  find_eq_some restate marked voided)

/-! ### Calls and answers -/

/-- An event without its timestamps. -/
def untimed (event : Event) : Event := { event with eventTime := 0, createdAt := 0 }

/-- One call of an event store. -/
inductive EventCall where
  | record (now : OffsetDateTime) (req : RecordEvent)
  | recordBatch (reqs : List (OffsetDateTime × RecordEvent))
  | amend (draw : Draw) (req : AmendEvent)
  | voidRun (run : RunId)
  | get (id : EventId)

inductive Answer where
  | event (answer : Except EventError Event)
  | events (answer : Except EventError (List Event))
  | count (answer : Except EventError Nat)

/-- An answer without timestamps. -/
def Answer.untimed : Answer → Answer
  | .event answer => .event (answer.map Clickhouse.untimed)
  | .events answer => .events (answer.map (List.map Clickhouse.untimed))
  | .count answer => .count answer

/-- What the in-memory store answers, and what it holds then. -/
def EventCall.oracle (idempotentEventId : OrgId → String → EventId) (call : EventCall)
    (events : List Event) : Answer × List Event :=
  match call with
  | .record now req => (Events.record idempotentEventId now req events).map .event id
  | .recordBatch reqs => (Events.recordBatch idempotentEventId reqs events).map .events id
  | .amend draw req => (Events.amend idempotentEventId draw req events).map .event id
  | .voidRun run => (Events.voidRun run events).map .count id
  | .get id => (.event (Events.get id events), events)

/-- What `ChStore` runs. -/
def EventCall.program (client : Client) : EventCall → Prog ChStmt Answer
  | .record now req => (Clickhouse.record client now req).bind (.done ∘ .event)
  | .recordBatch reqs => (Clickhouse.recordBatch client reqs).bind (.done ∘ .events)
  | .amend draw req => (Clickhouse.amend client draw req).bind (.done ∘ .event)
  | .voidRun run => (Clickhouse.voidRun run).bind (.done ∘ .count)
  | .get id => (Clickhouse.get id (.done ∘ .ok)).bind (.done ∘ .event)

/-- What a call records, each request with its clock reading. -/
def EventCall.requests : EventCall → List (OffsetDateTime × RecordEvent)
  | .record now req => [(now, req)]
  | .recordBatch reqs => reqs
  | .amend _ _ | .voidRun _ | .get _ => []

/-! ### The two stores -/

/-- The list and the tables hold the same events. -/
structure Mirrors (idempotentEventId : OrgId → String → EventId) (orgs : List OrgId)
    (events : List Event) (s : Tables) : Prop where
  versions : ∀ row ∈ s.events, row.version < s.versionSeq
  distinct : (s.events.map EventRow.version).Nodup
  ids : (events.map Event.id).Nodup
  held : ∀ event ∈ events, ∃ row ∈ s.final, untimed row.toEvent = untimed event
  rows : ∀ row ∈ s.final, ∃ event ∈ events, untimed event = untimed row.toEvent
  addressed : ∀ event ∈ events, event.orgId ∈ orgs ∧
    event.id = idempotentEventId event.orgId event.idempotencyKey

/-- Ids of different organizations differ. -/
def Apart (idempotentEventId : OrgId → String → EventId) (orgs : List OrgId) : Prop :=
  ∀ org ∈ orgs, ∀ org' ∈ orgs, ∀ key key',
    idempotentEventId org key = idempotentEventId org' key' → org = org'

theorem apart_singleton {idempotentEventId : OrgId → String → EventId} (org : OrgId) :
    Apart idempotentEventId [org] := by
  intro first isFirst second isSecond _ _ _
  rw [List.mem_singleton.mp isFirst, List.mem_singleton.mp isSecond]

/-- A stored row has a latest version. -/
theorem exists_final {s : Tables} {row : EventRow} (member : row ∈ s.events) :
    ∃ latest ∈ s.final, key latest = key row := by
  have inside : row ∈ s.events.filter fun other => decide (key other = key row) :=
    List.mem_filter.mpr ⟨member, decide_eq_true rfl⟩
  cases highest : (s.events.filter fun other => decide (key other = key row)).argmax
      EventRow.version with
  | none =>
    rw [List.argmax_eq_none.mp highest] at inside
    exact absurd inside List.not_mem_nil
  | some latest =>
    obtain ⟨stored, same⟩ := List.mem_filter.mp (List.argmax_mem highest)
    have same : key latest = key row := of_decide_eq_true same
    refine ⟨latest, mem_final.mpr ⟨stored, fun other isStored equal => ?_⟩, same⟩
    exact List.le_of_mem_argmax (List.mem_filter.mpr ⟨isStored,
      decide_eq_true (equal.trans same)⟩) highest

section Mirror

variable {idempotentEventId : OrgId → String → EventId} {orgs : List OrgId} {events : List Event}
  {s : Tables} {fns : Functions}

theorem untimed_id {first second : Event} (same : untimed first = untimed second) :
    first.id = second.id := by
  have fields := congrArg Event.id same
  exact fields

theorem untimed_orgId {first second : Event} (same : untimed first = untimed second) :
    first.orgId = second.orgId := by
  have fields := congrArg Event.orgId same
  exact fields

theorem untimed_status {first second : Event} (same : untimed first = untimed second) :
    first.status = second.status := by
  have fields := congrArg Event.status same
  exact fields

theorem untimed_runId {first second : Event} (same : untimed first = untimed second) :
    first.runId = second.runId := by
  have fields := congrArg Event.runId same
  exact fields

/-- A new status leaves alike what was alike. -/
theorem untimed_withStatus {first second : Event} (same : untimed first = untimed second)
    (status : EventStatus) :
    untimed { first with status } = untimed { second with status } :=
  congrArg (fun event : Event => { event with status }) same

theorem Mirrors.new (versionSeq : Nat) :
    Mirrors idempotentEventId orgs [] (Tables.new versionSeq) := by
  refine ⟨?_, List.nodup_nil, List.nodup_nil, ?_, ?_, ?_⟩
  all_goals exact fun _ member => absurd member List.not_mem_nil

theorem Mirrors.eq_of_id (mirrors : Mirrors idempotentEventId orgs events s) {first second : Event}
    (inFirst : first ∈ events) (inSecond : second ∈ events) (same : first.id = second.id) :
    first = second :=
  List.inj_on_of_nodup_map mirrors.ids inFirst inSecond same

theorem Mirrors.find_of_mem (mirrors : Mirrors idempotentEventId orgs events s) {event : Event}
    (member : event ∈ events) : find events event.id = some event := by
  cases result : find events event.id with
  | none => exact absurd (List.mem_map_of_mem member) (find_eq_none.mp result)
  | some other =>
    obtain ⟨inside, same⟩ := find_eq_some result
    rw [mirrors.eq_of_id inside member same]

/-- A row is the one event with its id. -/
theorem Mirrors.find_row (mirrors : Mirrors idempotentEventId orgs events s) {row : EventRow}
    (latest : row ∈ s.final) :
    ∃ event, find events row.id = some event ∧ untimed event = untimed row.toEvent := by
  obtain ⟨event, member, same⟩ := mirrors.rows row latest
  refine ⟨event, ?_, same⟩
  have isId : event.id = row.id := untimed_id same
  rw [← isId]
  exact mirrors.find_of_mem member

/-- An id is stored exactly if it is held. -/
theorem Mirrors.stored_iff (mirrors : Mirrors idempotentEventId orgs events s) {id : EventId} :
    (∃ row ∈ s.events, row.id = id) ↔ id ∈ events.map Event.id := by
  constructor
  · rintro ⟨row, stored, rfl⟩
    obtain ⟨latest, isLatest, same⟩ := exists_final stored
    obtain ⟨event, member, alike⟩ := mirrors.rows latest isLatest
    have isId : latest.id = row.id := congrArg Prod.snd same
    exact List.mem_map.mpr ⟨event, member, (untimed_id alike).trans isId⟩
  · intro inside
    obtain ⟨event, member, rfl⟩ := List.mem_map.mp inside
    obtain ⟨row, latest, alike⟩ := mirrors.held event member
    exact ⟨row, (mem_final.mp latest).1, untimed_id alike⟩

/-- **A new event on both sides.** -/
theorem Mirrors.add (mirrors : Mirrors idempotentEventId orgs events s) {event written : Event}
    (alike : untimed written = untimed event) (fresh : event.id ∉ events.map Event.id)
    (within : event.orgId ∈ orgs)
    (isId : event.id = idempotentEventId event.orgId event.idempotencyKey) :
    Mirrors idempotentEventId orgs (events ++ [event]) (s.insertEvent fns written) where
  versions := versions_insertEvent mirrors.versions
  distinct := distinct_insertEvent mirrors.versions mirrors.distinct
  ids := by
    rw [List.map_append, List.map_singleton]
    refine List.nodup_append.mpr ⟨mirrors.ids, List.nodup_singleton _, ?_⟩
    intro id inside other member same
    rw [List.mem_singleton.mp member] at same
    exact fresh (same ▸ inside)
  held := by
    intro other member
    rcases List.mem_append.mp member with before | isNew
    · obtain ⟨row, latest, alike'⟩ := mirrors.held other before
      refine ⟨row, (mem_final_insertEvent mirrors.versions).mpr
        (.inl ⟨latest, fun same => fresh ?_⟩), alike'⟩
      have isId : row.id = written.id := congrArg Prod.snd same
      exact List.mem_map.mpr ⟨other, before,
        (untimed_id alike').symm.trans (isId.trans (untimed_id alike))⟩
    · rw [List.mem_singleton.mp isNew]
      exact ⟨_, (mem_final_insertEvent mirrors.versions).mpr (.inr rfl), alike⟩
  rows := by
    intro row latest
    rcases (mem_final_insertEvent mirrors.versions).mp latest with ⟨before, _⟩ | rfl
    · obtain ⟨other, member, alike⟩ := mirrors.rows row before
      exact ⟨other, List.mem_append_left _ member, alike⟩
    · exact ⟨event, List.mem_append_right _ (List.mem_singleton_self _), alike.symm⟩
  addressed := by
    intro other member
    rcases List.mem_append.mp member with before | isNew
    · exact mirrors.addressed other before
    · rw [List.mem_singleton.mp isNew]
      exact ⟨within, isId⟩

/-- **A new status on both sides.** -/
theorem Mirrors.restate (mirrors : Mirrors idempotentEventId orgs events s) {event : Event}
    {row : EventRow} (latest : row ∈ s.final) (alike : untimed event = untimed row.toEvent)
    (newStatus : EventStatus) :
    Mirrors idempotentEventId orgs
      (restate (fun other => if other.id = row.id then newStatus else other.status) events)
      (s.insertEvent fns { event with status := newStatus }) where
  versions := versions_insertEvent mirrors.versions
  distinct := distinct_insertEvent mirrors.versions mirrors.distinct
  ids := by
    rw [Events.ids_restate]
    exact mirrors.ids
  held := by
    intro other member
    obtain ⟨old, inside, rfl⟩ := Events.mem_restate.mp member
    by_cases isRow : old.id = row.id
    · have same : untimed old = untimed event := by
        obtain ⟨held, isHeld, alike'⟩ := mirrors.rows row latest
        rw [mirrors.eq_of_id inside isHeld (isRow.trans (untimed_id alike').symm), alike', alike]
      refine ⟨_, (mem_final_insertEvent mirrors.versions).mpr (.inr rfl), ?_⟩
      rw [if_pos isRow]
      exact untimed_withStatus same.symm newStatus
    · obtain ⟨other, isLatest, alike'⟩ := mirrors.held old inside
      refine ⟨other, (mem_final_insertEvent mirrors.versions).mpr
        (.inl ⟨isLatest, fun same => isRow ?_⟩), ?_⟩
      · have isId : other.id = event.id := congrArg Prod.snd same
        exact (untimed_id alike').symm.trans (isId.trans (untimed_id alike))
      · rw [if_neg isRow]
        exact alike'
  rows := by
    intro other isLatest
    rcases (mem_final_insertEvent mirrors.versions).mp isLatest with ⟨before, apart⟩ | rfl
    · obtain ⟨old, inside, alike'⟩ := mirrors.rows other before
      refine ⟨_, Events.mem_restate_of_mem inside, ?_⟩
      have isOther : old.id ≠ row.id := by
        intro same
        obtain ⟨held, isHeld, alike''⟩ := mirrors.rows row latest
        have equal := mirrors.eq_of_id inside isHeld (same.trans (untimed_id alike'').symm)
        refine apart (Prod.ext ?_ ?_)
        · exact ((untimed_orgId alike').symm.trans (equal ▸ untimed_orgId alike'')).trans
            (untimed_orgId alike).symm
        · exact ((untimed_id alike').symm.trans (equal ▸ untimed_id alike'')).trans
            (untimed_id alike).symm
      rw [if_neg isOther]
      exact alike'
    · obtain ⟨held, isHeld, alike'⟩ := mirrors.rows row latest
      refine ⟨_, Events.mem_restate_of_mem isHeld, ?_⟩
      rw [if_pos (untimed_id alike')]
      exact untimed_withStatus (alike'.trans alike.symm) newStatus
  addressed := by
    intro other member
    obtain ⟨old, inside, rfl⟩ := Events.mem_restate.mp member
    exact mirrors.addressed old inside

/-- **A recorded event is found exactly if the list holds it.** -/
theorem Mirrors.found_iff (mirrors : Mirrors idempotentEventId orgs events s)
    (apart : Apart idempotentEventId orgs) {batch : List Event} {found : List EventId}
    (known : ∀ event ∈ batch, ∀ row ∈ s.events, key row = (event.orgId, event.id) →
      event.id ∈ found) (stored : ∀ id ∈ found, ∃ row ∈ s.events, row.id = id) {event : Event}
    (member : event ∈ batch) (within : event.orgId ∈ orgs)
    (isId : event.id = idempotentEventId event.orgId event.idempotencyKey) :
    event.id ∈ found ↔ event.id ∈ events.map Event.id := by
  refine ⟨fun isFound => mirrors.stored_iff.mp (stored _ isFound), fun inside => ?_⟩
  obtain ⟨other, isHeld, same⟩ := List.mem_map.mp inside
  obtain ⟨isOrg, isOtherId⟩ := mirrors.addressed other isHeld
  have sameOrg : other.orgId = event.orgId :=
    apart _ isOrg _ within _ _ (isOtherId.symm.trans (same.trans isId))
  obtain ⟨row, latest, alike⟩ := mirrors.held other isHeld
  refine known event member row (mem_final.mp latest).1 (Prod.ext ?_ ?_)
  · exact (untimed_orgId alike).trans sameOrg
  · exact (untimed_id alike).trans same

/-- **What the server finds under an id** is what the list holds. -/
theorem Mirrors.get {α : Type} (mirrors : Mirrors idempotentEventId orgs events s) {id : EventId}
    {next : Event → Prog ChStmt (Except EventError α)} {reply : Except EventError α} {s' : Tables}
    (serves : (server fns).Serves (get id next) s reply s') :
    (find events id = none ∧ reply = .error (.notFound id) ∧ s' = s) ∨
      ∃ held row, find events id = some held ∧ row ∈ s.final ∧
        untimed held = untimed row.toEvent ∧
        (server fns).Serves (next row.toEvent) s reply s' := by
  obtain ⟨answer, middle, ⟨rfl, isAnswer⟩, serves⟩ := Server.serves_stmt.mp serves
  cases answer with
  | none =>
    refine .inl ⟨find_eq_none.mpr fun inside => ?_, Server.serves_done.mp serves⟩
    obtain ⟨event, member, rfl⟩ := List.mem_map.mp inside
    obtain ⟨row, latest, alike⟩ := mirrors.held event member
    exact isAnswer row latest (untimed_id alike)
  | some event =>
    obtain ⟨row, latest, rfl, rfl⟩ := isAnswer
    obtain ⟨held, isHeld, alike⟩ := mirrors.find_row latest
    exact .inr ⟨held, row, isHeld, latest, alike, serves⟩

/-- A read is answered alike, and leaves the tables alone. -/
theorem Mirrors.read (mirrors : Mirrors idempotentEventId orgs events s) {id : EventId}
    {reply : Except EventError Event} {s' : Tables}
    (serves : (server fns).Serves (Clickhouse.get id (.done ∘ .ok)) s reply s') :
    reply.map untimed = (Events.get id events).map untimed ∧ s' = s := by
  rw [Events.get]
  rcases mirrors.get serves with ⟨absent, rfl, rfl⟩ | ⟨held, row, isHeld, _, alike, done⟩
  · rw [absent]
    exact ⟨rfl, rfl⟩
  · obtain ⟨rfl, rfl⟩ := Server.serves_done.mp done
    rw [isHeld]
    exact ⟨congrArg Except.ok alike.symm, rfl⟩

end Mirror

/-! ### Recording -/

section Record

variable {fns : Functions} {client : Client} {orgs : List OrgId} {events : List Event}
  {s s' : Tables}

theorem recordLocked_held {idempotentEventId : OrgId → String → EventId} {now : OffsetDateTime}
    {req : RecordEvent} {held : Event}
    (isHeld : find events (req.intoEvent idempotentEventId now).id = some held) :
    Events.recordLocked idempotentEventId now req events = (held, events) := by
  rw [Events.recordLocked, isHeld]

theorem recordLocked_new {idempotentEventId : OrgId → String → EventId} {now : OffsetDateTime}
    {req : RecordEvent} (absent : find events (req.intoEvent idempotentEventId now).id = none) :
    Events.recordLocked idempotentEventId now req events =
      (req.intoEvent idempotentEventId now,
        events ++ [req.intoEvent idempotentEventId now]) := by
  rw [Events.recordLocked, absent]

/-- **What survives the lookup and the batch is what the list appends.** -/
theorem Mirrors.survivors {existing : List EventId} {reqs : List (OffsetDateTime × RecordEvent)} :
    ∀ {events : List Event} {s : Tables} {seen : List EventId},
      Mirrors client.idempotentEventId orgs events s →
      (∀ req ∈ reqs, req.2.orgId ∈ orgs) →
      (∀ event ∈ asked client.idempotentEventId reqs,
        event.id ∈ existing ∨ event.id ∈ seen ↔ event.id ∈ events.map Event.id) →
      Mirrors client.idempotentEventId orgs
        (Events.recordBatch client.idempotentEventId reqs events).2
        (s.insertEvents fns
          (Clickhouse.survivors existing seen (asked client.idempotentEventId reqs))) := by
  induction reqs with
  | nil => exact fun mirrors _ _ => mirrors
  | cons req rest ih =>
    intro events s seen mirrors within known
    have withinRest : ∀ other ∈ rest, other.2.orgId ∈ orgs :=
      fun other member => within other (List.mem_cons_of_mem _ member)
    have isKnown := known _ List.mem_cons_self
    change Mirrors _ _ (Events.recordBatch client.idempotentEventId rest
      (Events.recordLocked client.idempotentEventId req.1 req.2 events).2).2 (s.insertEvents fns
        (Clickhouse.survivors existing seen (req.2.intoEvent client.idempotentEventId req.1 ::
          asked client.idempotentEventId rest)))
    rw [Clickhouse.survivors]
    by_cases taken : (req.2.intoEvent client.idempotentEventId req.1).id ∈ existing ∨
        (req.2.intoEvent client.idempotentEventId req.1).id ∈ seen
    · obtain ⟨held, isHeld⟩ := Option.isSome_iff_exists.mp
        (Events.find_isSome.mpr (isKnown.mp taken))
      rw [if_pos taken, recordLocked_held isHeld]
      exact ih mirrors withinRest fun event member => known event (List.mem_cons_of_mem _ member)
    · have absent := mt isKnown.mpr taken
      rw [if_neg taken, recordLocked_new (find_eq_none.mpr absent)]
      refine ih (mirrors.add rfl absent (within req List.mem_cons_self) rfl) withinRest
        fun event member => ?_
      rw [List.mem_cons, List.map_append, List.mem_append,
        ← known event (List.mem_cons_of_mem _ member), List.map_singleton, List.mem_singleton]
      tauto

/-- **A batch**: `ChStore` answers what was asked for. -/
theorem Mirrors.recordBatch (exactlyOnce : client.ingestMode = .exactlyOnce)
    (apart : Apart client.idempotentEventId orgs)
    (mirrors : Mirrors client.idempotentEventId orgs events s)
    {reqs : List (OffsetDateTime × RecordEvent)} (within : ∀ req ∈ reqs, req.2.orgId ∈ orgs)
    {reply : Except EventError (List Event)}
    (serves : (server fns).Serves (recordBatch client reqs) s reply s') :
    reply = .ok (asked client.idempotentEventId reqs) ∧ Mirrors client.idempotentEventId orgs
      (Events.recordBatch client.idempotentEventId reqs events).2 s' := by
  obtain ⟨isReply, found, known, stored, rfl⟩ := serves_recordBatch exactlyOnce serves
  refine ⟨isReply, mirrors.survivors within fun event member => ?_⟩
  obtain ⟨req, isReq, rfl⟩ := List.mem_map.mp member
  rw [← mirrors.found_iff apart known stored member (within req isReq) rfl]
  exact or_iff_left List.not_mem_nil

/-- **A single record**: `ChStore` answers what was asked for. -/
theorem Mirrors.record (exactlyOnce : client.ingestMode = .exactlyOnce)
    (apart : Apart client.idempotentEventId orgs)
    (mirrors : Mirrors client.idempotentEventId orgs events s) {now : OffsetDateTime}
    {req : RecordEvent} (within : req.orgId ∈ orgs) {reply : Except EventError Event}
    (serves : (server fns).Serves (record client now req) s reply s') :
    reply = .ok (req.intoEvent client.idempotentEventId now) ∧
      Mirrors client.idempotentEventId orgs
        (Events.recordLocked client.idempotentEventId now req events).2 s' := by
  obtain ⟨answer, middle, batch, single⟩ := Server.serves_bind serves
  obtain ⟨rfl, mirrors'⟩ := mirrors.recordBatch exactlyOnce apart
    (fun other member => by
      rw [List.mem_singleton.mp member]
      exact within) batch
  obtain ⟨rfl, rfl⟩ := Server.serves_done.mp single
  exact ⟨rfl, mirrors'⟩

end Record

/-! ### Amending and voiding -/

section Amend

variable {fns : Functions} {client : Client} {orgs : List OrgId} {events : List Event}
  {s s' : Tables}

/-- New versions of alike events are alike. -/
theorem untimed_intoAmendedEvent (idempotentEventId : OrgId → String → EventId)
    {first second : Event} (same : untimed first = untimed second) (req : AmendEvent)
    (draw : Draw) : untimed (req.intoAmendedEvent idempotentEventId first draw) =
      untimed (req.intoAmendedEvent idempotentEventId second draw) := by
  have versions := congrArg
    (fun event => untimed (req.intoAmendedEvent idempotentEventId event draw)) same
  exact versions

/-- **An amendment**: both stores answer the same. -/
theorem Mirrors.amend (apart : Apart client.idempotentEventId orgs)
    (mirrors : Mirrors client.idempotentEventId orgs events s) {draw : Draw} {req : AmendEvent}
    {reply : Except EventError Event}
    (serves : (server fns).Serves (amend client draw req) s reply s') :
    reply.map untimed =
      (Events.amend client.idempotentEventId draw req events).1.map untimed ∧
    Mirrors client.idempotentEventId orgs
      (Events.amend client.idempotentEventId draw req events).2 s' := by
  rw [Events.amend]
  rcases mirrors.get serves with ⟨absent, rfl, rfl⟩ | ⟨original, row, isHeld, latest, alike, serves⟩
  · rw [absent]
    exact ⟨rfl, mirrors⟩
  rw [isHeld]
  simp only at serves ⊢
  rw [← untimed_status alike] at serves
  split at serves
  · rename_i isVoided
    obtain ⟨rfl, rfl⟩ := Server.serves_done.mp serves
    rw [if_pos isVoided]
    exact ⟨rfl, mirrors⟩
  rename_i notVoided
  rw [if_neg notVoided]
  have versions := untimed_intoAmendedEvent client.idempotentEventId alike req draw
  obtain ⟨inside, _⟩ := find_eq_some isHeld
  have within : original.orgId ∈ orgs := (mirrors.addressed original inside).1
  obtain ⟨found, serves, known, stored⟩ := serves_existingIds serves
  have isKnown := mirrors.found_iff apart known stored (List.mem_singleton_self _)
    ((untimed_orgId versions) ▸ within) rfl
  rw [← untimed_id versions] at isKnown serves
  split at serves
  · rename_i isFound
    rcases mirrors.get serves with ⟨absent, _⟩ | ⟨held, again, isHeld', _, alike', serves⟩
    · exact absurd (isKnown.mp isFound) (find_eq_none.mp absent)
    · obtain ⟨rfl, rfl⟩ := Server.serves_done.mp serves
      rw [isHeld']
      exact ⟨congrArg Except.ok alike'.symm, mirrors⟩
  · rename_i notFound
    have fresh := mt isKnown.mpr notFound
    obtain ⟨_, middle, rfl, serves⟩ := Server.serves_stmt.mp serves
    obtain ⟨_, middle, rfl, serves⟩ := Server.serves_stmt.mp serves
    obtain ⟨rfl, rfl⟩ := Server.serves_done.mp serves
    rw [find_eq_none.mpr fresh, Events.setStatus_eq mirrors.ids]
    refine ⟨congrArg Except.ok versions.symm, ?_⟩
    have superseded : Mirrors client.idempotentEventId orgs
        (Events.restate (marked original.id) events)
        (s.insertEvent fns { row.toEvent with status := .amended }) := by
      rw [untimed_id alike]
      exact mirrors.restate latest rfl .amended
    refine superseded.add versions.symm ?_ within rfl
    rw [Events.ids_restate]
    exact fresh

theorem restate_congr {status status' : Event → EventStatus}
    (same : ∀ event ∈ events, status event = status' event) :
    restate status events = restate status' events :=
  List.map_congr_left fun event inside => by rw [same event inside]

/-- The loop of a run void. -/
theorem Mirrors.voidEach {rows : List Event} :
    ∀ {events : List Event} {s : Tables} {count : Nat},
      Mirrors client.idempotentEventId orgs events s → (rows.map Event.id).Nodup →
      (∀ event ∈ rows, ∃ row ∈ s.final, row.toEvent = event) →
      ∀ {reply : Except EventError Nat}, (server fns).Serves (voidEach rows count) s reply s' →
      reply = .ok (count + rows.length) ∧ Mirrors client.idempotentEventId orgs
        (Events.restate (fun event =>
          if event.id ∈ rows.map Event.id then .voided else event.status) events) s' := by
  induction rows with
  | nil =>
    intro events s count mirrors _ _ reply serves
    obtain ⟨rfl, rfl⟩ := Server.serves_done.mp serves
    have same : Events.restate (fun event =>
        if event.id ∈ ([] : List Event).map Event.id then .voided else event.status) events =
        events := by
      conv_rhs => rw [← List.map_id events]
      rfl
    rw [same]
    exact ⟨rfl, mirrors⟩
  | cons first rest ih =>
    intro events s count mirrors distinct isLatest reply serves
    rw [List.map_cons, List.nodup_cons] at distinct
    obtain ⟨_, middle, rfl, serves⟩ := Server.serves_stmt.mp serves
    obtain ⟨row, latest, rfl⟩ := isLatest first List.mem_cons_self
    have stillLatest : ∀ event ∈ rest, ∃ other ∈
        (s.insertEvent fns { row.toEvent with status := .voided }).final,
        other.toEvent = event := by
      intro event inside
      obtain ⟨other, otherLatest, rfl⟩ := isLatest event (List.mem_cons_of_mem _ inside)
      refine ⟨other, (mem_final_insertEvent mirrors.versions).mpr
        (.inl ⟨otherLatest, fun same => ?_⟩), rfl⟩
      have isId : other.id = row.id := congrArg Prod.snd same
      exact distinct.1 (List.mem_map.mpr ⟨other.toEvent, inside, isId⟩)
    obtain ⟨rfl, mirrors'⟩ := ih (mirrors.restate latest rfl .voided) distinct.2 stillLatest serves
    refine ⟨by rw [List.length_cons, Nat.add_assoc, Nat.add_comm 1], ?_⟩
    have both : Events.restate (fun event =>
        if event.id ∈ rest.map Event.id then .voided else event.status)
        (Events.restate (fun event => if event.id = row.id then .voided else event.status) events) =
        Events.restate (fun event => if event.id ∈ (row.toEvent :: rest).map Event.id then .voided
          else event.status) events := by
      rw [Events.restate, Events.restate, List.map_map]
      refine List.map_congr_left fun event _ => ?_
      simp only [Function.comp, List.map_cons, List.mem_cons]
      by_cases isRow : event.id = row.id
      · simp [isRow]
      · simp [isRow]
    rw [← both]
    exact mirrors'

/-- The live rows of a run are its recorded events. -/
theorem Mirrors.mem_liveOfRun (mirrors : Mirrors client.idempotentEventId orgs events s)
    {run : RunId} {event : Event} (inside : event ∈ events) :
    event.id ∈ (s.liveOfRun run).map Event.id ↔ event.Voids run := by
  rw [Tables.liveOfRun, List.map_map, List.mem_map]
  constructor
  · rintro ⟨row, member, sameId⟩
    obtain ⟨isLive, ofRun⟩ := List.mem_filter.mp member
    obtain ⟨latest, recorded⟩ := mem_live.mp isLive
    obtain ⟨held, isHeld, alike⟩ := mirrors.rows row latest
    rw [← mirrors.eq_of_id isHeld inside ((untimed_id alike).trans sameId)]
    exact ⟨(untimed_runId alike).trans (of_decide_eq_true ofRun),
      (untimed_status alike).trans recorded⟩
  · rintro ⟨ofRun, recorded⟩
    obtain ⟨row, latest, alike⟩ := mirrors.held event inside
    refine ⟨row, List.mem_filter.mpr ⟨mem_live.mpr ⟨latest, ?_⟩, decide_eq_true ?_⟩,
      untimed_id alike⟩
    · exact (untimed_status alike).trans recorded
    · exact (untimed_runId alike).trans ofRun

/-- Latest rows have different ids. -/
theorem Mirrors.final_ids (mirrors : Mirrors client.idempotentEventId orgs events s) :
    (s.final.map fun row => row.id).Nodup := by
  have keys : (s.final.map key).Nodup := final_keys_nodup mirrors.distinct
  refine (List.Nodup.of_map key keys).map_on fun first inFirst second inSecond same => ?_
  obtain ⟨held, isHeld, alike⟩ := mirrors.rows first inFirst
  obtain ⟨held', isHeld', alike'⟩ := mirrors.rows second inSecond
  have equal : held = held' := mirrors.eq_of_id isHeld isHeld'
    ((untimed_id alike).trans (same.trans (untimed_id alike').symm))
  have sameOrg : first.orgId = second.orgId :=
    (untimed_orgId alike).symm.trans (equal ▸ untimed_orgId alike')
  exact List.inj_on_of_nodup_map keys inFirst inSecond (Prod.ext sameOrg same)

/-- **A run void**: both stores answer the same. -/
theorem Mirrors.voidRun (mirrors : Mirrors client.idempotentEventId orgs events s) {run : RunId}
    {reply : Except EventError Nat} (serves : (server fns).Serves (voidRun run) s reply s') :
    reply = (Events.voidRun run events).1 ∧
      Mirrors client.idempotentEventId orgs (Events.voidRun run events).2 s' := by
  obtain ⟨rows, middle, ⟨rfl, isRows⟩, loop⟩ := Server.serves_stmt.mp serves
  have distinct : (rows.map Event.id).Nodup := by
    refine ((isRows.map _).nodup_iff).mpr ?_
    rw [Tables.liveOfRun, List.map_map]
    exact mirrors.final_ids.sublist ((List.filter_sublist.trans List.filter_sublist).map _)
  have isLatest : ∀ event ∈ rows, ∃ row ∈ middle.final, row.toEvent = event := by
    intro event inside
    obtain ⟨row, member, rfl⟩ := List.mem_map.mp (isRows.mem_iff.mp inside)
    exact ⟨row, (mem_live.mp (List.mem_filter.mp member).1).1, rfl⟩
  have voids : ∀ event ∈ events, event.id ∈ rows.map Event.id ↔ event.Voids run := by
    intro event inside
    rw [(isRows.map Event.id).mem_iff]
    exact mirrors.mem_liveOfRun inside
  have isHeld : ∀ id ∈ rows.map Event.id, id ∈ events.map Event.id := by
    intro id inside
    obtain ⟨event, member, rfl⟩ := List.mem_map.mp inside
    obtain ⟨row, latest, rfl⟩ := isLatest event member
    exact mirrors.stored_iff.mp ⟨row, (mem_final.mp latest).1, rfl⟩
  obtain ⟨rfl, mirrors'⟩ := mirrors.voidEach distinct isLatest loop
  have counted : rows.length = events.countP fun event => event.Voids run := by
    have perm : (rows.map Event.id).Perm
        ((events.filter fun event => event.Voids run).map Event.id) := by
      refine (List.perm_ext_iff_of_nodup distinct
        (mirrors.ids.sublist (List.filter_sublist.map _))).mpr fun id => ?_
      constructor
      · intro inside
        obtain ⟨event, member, rfl⟩ := List.mem_map.mp (isHeld id inside)
        exact List.mem_map_of_mem (List.mem_filter.mpr
          ⟨member, decide_eq_true ((voids event member).mp inside)⟩)
      · intro inside
        obtain ⟨event, member, rfl⟩ := List.mem_map.mp inside
        obtain ⟨isHeld, isVoided⟩ := List.mem_filter.mp member
        exact (voids event isHeld).mpr (of_decide_eq_true isVoided)
    rw [List.countP_eq_length_filter]
    simpa using perm.length_eq
  rw [Nat.zero_add, counted, Events.voidRun_eq]
  refine ⟨rfl, ?_⟩
  have same : Events.restate (Events.voided run) events = Events.restate (fun event =>
      if event.id ∈ rows.map Event.id then .voided else event.status) events := by
    refine restate_congr fun event inside => ?_
    rw [Events.voided]
    exact if_congr (voids event inside).symm rfl rfl
  rw [same]
  exact mirrors'

end Amend

/-! ### Repeated requests -/

/-- A request repeats the event that is held under its id: a first version, still recorded. -/
structure Repeats (req : RecordEvent) (held : Event) : Prop where
  orgId : held.orgId = req.orgId
  idempotencyKey : held.idempotencyKey = req.idempotencyKey
  meter : held.meter = req.meter
  accountId : held.accountId = req.accountId
  runId : held.runId = req.runId
  properties : held.properties = req.properties
  recorded : held.status = .recorded
  first : held.supersedes = none

/-- Requests that repeat what is held, or what was asked for earlier among them, under their ids. -/
def AllRepeat (idempotentEventId : OrgId → String → EventId) :
    List Event → List (OffsetDateTime × RecordEvent) → Prop
  | _, [] => True
  | events, (now, req) :: rest =>
    (∀ held, find events (req.intoEvent idempotentEventId now).id = some held → Repeats req held) ∧
      AllRepeat idempotentEventId (events ++ [req.intoEvent idempotentEventId now]) rest

section Repeated

variable {idempotentEventId : OrgId → String → EventId} {events : List Event}
  {now : OffsetDateTime} {req : RecordEvent}

theorem repeats_iff {held : Event} (isId : held.id = (req.intoEvent idempotentEventId now).id) :
    Repeats req held ↔ untimed held = untimed (req.intoEvent idempotentEventId now) := by
  constructor
  · rintro ⟨orgId, idempotencyKey, meter, accountId, runId, properties, recorded, first⟩
    unfold untimed
    rw [isId, orgId, idempotencyKey, meter, accountId, runId, properties, recorded, first]
    rfl
  · intro alike
    simp only [untimed, RecordEvent.intoEvent, Event.mk.injEq] at alike
    obtain ⟨_, orgId, idempotencyKey, _, meter, accountId, runId, properties, recorded, first, _⟩ :=
      alike
    exact ⟨orgId, idempotencyKey, meter, accountId, runId, properties, recorded, first⟩

/-- What a request is answered and what it asks for. -/
theorem recordLocked_iff :
    untimed (req.intoEvent idempotentEventId now) =
      untimed (Events.recordLocked idempotentEventId now req events).1 ↔
    ∀ held, find events (req.intoEvent idempotentEventId now).id = some held →
      Repeats req held := by
  cases isHeld : find events (req.intoEvent idempotentEventId now).id with
  | none =>
    rw [recordLocked_new isHeld]
    exact ⟨fun _ _ impossible => absurd impossible (by simp), fun _ => rfl⟩
  | some held =>
    rw [recordLocked_held isHeld, eq_comm, ← repeats_iff (find_eq_some isHeld).2]
    exact ⟨fun repeats other same => Option.some.inj same ▸ repeats, fun all => all held rfl⟩

theorem find_append {id : EventId} {held : Event} (isHeld : find events id = some held)
    (more : List Event) : find (events ++ more) id = some held := by
  rw [find] at isHeld
  rw [find, List.find?_append, isHeld]
  rfl

/-- A recorded id is held from then on. -/
theorem find_recordLocked (id : EventId) :
    find (Events.recordLocked idempotentEventId now req events).2 id =
      find (events ++ [req.intoEvent idempotentEventId now]) id := by
  cases isHeld : find events (req.intoEvent idempotentEventId now).id with
  | none => rw [recordLocked_new isHeld]
  | some held =>
    rw [recordLocked_held isHeld, find, find, List.find?_append]
    by_cases same : (req.intoEvent idempotentEventId now).id = id
    · subst same
      rw [find] at isHeld
      rw [isHeld]
      rfl
    · simp [same]

theorem find_recordLocked_own (idempotentEventId : OrgId → String → EventId)
    (now : OffsetDateTime) (req : RecordEvent) (events : List Event) :
    find (Events.recordLocked idempotentEventId now req events).2
        (req.intoEvent idempotentEventId now).id =
      some (Events.recordLocked idempotentEventId now req events).1 := by
  cases isHeld : find events (req.intoEvent idempotentEventId now).id with
  | none =>
    rw [recordLocked_new isHeld]
    rw [find] at isHeld ⊢
    rw [List.find?_append, isHeld]
    simp
  | some held => rw [recordLocked_held isHeld, isHeld]

/-- Only what is found matters. -/
theorem allRepeat_congr {events' : List Event} {reqs : List (OffsetDateTime × RecordEvent)}
    (same : ∀ id, find events id = find events' id) :
    AllRepeat idempotentEventId events reqs ↔ AllRepeat idempotentEventId events' reqs := by
  induction reqs generalizing events events' with
  | nil => exact Iff.rfl
  | cons req rest ih =>
    have later : ∀ id, find (events ++ [req.2.intoEvent idempotentEventId req.1]) id =
        find (events' ++ [req.2.intoEvent idempotentEventId req.1]) id := by
      intro id
      have sameId := same id
      rw [find, find] at sameId ⊢
      rw [List.find?_append, List.find?_append, sameId]
    rw [AllRepeat, AllRepeat, same, ih later]

theorem allRepeat_cons {rest : List (OffsetDateTime × RecordEvent)} :
    AllRepeat idempotentEventId events ((now, req) :: rest) ↔
      untimed (req.intoEvent idempotentEventId now) =
        untimed (Events.recordLocked idempotentEventId now req events).1 ∧
      AllRepeat idempotentEventId (Events.recordLocked idempotentEventId now req events).2
        rest := by
  rw [AllRepeat, recordLocked_iff, allRepeat_congr find_recordLocked]

theorem find_recordBatch (idempotentEventId : OrgId → String → EventId)
    (reqs : List (OffsetDateTime × RecordEvent)) {id : EventId} {held : Event}
    (isHeld : find events id = some held) :
    find (Events.recordBatch idempotentEventId reqs events).2 id = some held := by
  induction reqs generalizing events with
  | nil => exact isHeld
  | cons req rest ih =>
    have first := find_append isHeld [req.2.intoEvent idempotentEventId req.1]
    rw [← find_recordLocked] at first
    exact ih first

/-- What a batch asked for is held. -/
theorem find_asked {reqs : List (OffsetDateTime × RecordEvent)} {event : Event}
    (member : event ∈ asked idempotentEventId reqs) (events : List Event) :
    ∃ held, find (Events.recordBatch idempotentEventId reqs events).2 event.id = some held := by
  induction reqs generalizing events with
  | nil => exact absurd member List.not_mem_nil
  | cons req rest ih =>
    rcases List.mem_cons.mp member with rfl | later
    · exact ⟨_, find_recordBatch idempotentEventId rest
        (find_recordLocked_own idempotentEventId req.1 req.2 events)⟩
    · exact ih later _

/-- **The list answers a batch what was asked for exactly if all requests repeat.** -/
theorem recordBatch_answers_iff {reqs : List (OffsetDateTime × RecordEvent)} :
    (.ok ((asked idempotentEventId reqs).map untimed) : Except EventError (List Event)) =
      (Events.recordBatch idempotentEventId reqs events).1.map (List.map untimed) ↔
    AllRepeat idempotentEventId events reqs := by
  induction reqs generalizing events with
  | nil => exact ⟨fun _ => trivial, fun _ => rfl⟩
  | cons req rest ih =>
    rw [allRepeat_cons, ← ih, Events.recordBatch]
    simp only
    cases (Events.recordBatch idempotentEventId rest
      (Events.recordLocked idempotentEventId req.1 req.2 events).2).1 with
    | error error => simp [Except.map]
    | ok answers => simp [Except.map, asked]

/-- **The list holds what a batch asked for exactly if all requests repeat.** -/
theorem recordBatch_holds_iff {reqs : List (OffsetDateTime × RecordEvent)} :
    (∀ event ∈ asked idempotentEventId reqs, ∀ held,
      find (Events.recordBatch idempotentEventId reqs events).2 event.id = some held →
        untimed event = untimed held) ↔ AllRepeat idempotentEventId events reqs := by
  induction reqs generalizing events with
  | nil => exact ⟨fun _ => trivial, fun _ event member => absurd member List.not_mem_nil⟩
  | cons req rest ih =>
    have own := find_recordBatch idempotentEventId rest
      (find_recordLocked_own idempotentEventId req.1 req.2 events)
    have later : (Events.recordBatch idempotentEventId (req :: rest) events).2 =
        (Events.recordBatch idempotentEventId rest
          (Events.recordLocked idempotentEventId req.1 req.2 events).2).2 := rfl
    rw [allRepeat_cons, ← ih, asked, List.map_cons, List.forall_mem_cons, later, own]
    refine and_congr ⟨fun all => all _ rfl, fun alike held same => ?_⟩ Iff.rfl
    rw [← Option.some.inj same]
    exact alike

end Repeated

/-! ### Runs -/

/-- The events that a record or a batch returned. -/
def EventCall.recorded : EventCall → Answer → List Event
  | .record _ _, .event (.ok event) => [event]
  | .recordBatch _, .events (.ok events) => events
  | _, _ => []

/-- A call of `ChStore` with its answer and the tables after it. -/
structure Turn where
  call : EventCall
  answer : Answer
  after : Tables

section Turns

variable (fns : Functions) (client : Client)

/-- A turn of both stores: `ChStore` runs alone, and the list takes the same call. -/
def Turn.Served (turn : Turn) (before later : List Event × Tables) : Prop :=
  (server fns).Serves (turn.call.program client) before.2 turn.answer later.2 ∧
    turn.after = later.2 ∧ later.1 = (turn.call.oracle client.idempotentEventId before.1).2

/-- Both stores answer the same, up to timestamps. -/
def Turn.Agrees (turn : Turn) (events : List Event) : Prop :=
  turn.answer.untimed = (turn.call.oracle client.idempotentEventId events).1.untimed

/-- A `get` that finds an event. -/
def Gets (s : Tables) (event : Event) : Prop :=
  ∀ answer s', (server fns).Serves ((EventCall.get event.id).program client) s answer s' →
    answer.untimed = (Answer.event (.ok event)).untimed

/-- **What is returned by a record is what `get` returns then.** -/
def Turn.ReturnsHeld (turn : Turn) : Prop :=
  ∀ event ∈ turn.call.recorded turn.answer, Gets fns client turn.after event

variable {fns client}

variable {orgs : List OrgId} {events : List Event} {s s' : Tables}

/-- A `get` of a held event. -/
theorem Mirrors.gets_iff (mirrors : Mirrors client.idempotentEventId orgs events s)
    {held event : Event} (isHeld : find events event.id = some held) :
    Gets fns client s event ↔ untimed event = untimed held := by
  constructor
  · intro gets
    obtain ⟨member, same⟩ := find_eq_some isHeld
    obtain ⟨row, latest, alike⟩ := mirrors.held held member
    have isAnswer := gets (.event (.ok row.toEvent)) s (Server.serves_stmt.mpr
      ⟨some row.toEvent, s, ⟨rfl, row, latest, (untimed_id alike).trans same, rfl⟩,
        Server.serves_done.mpr ⟨rfl, rfl⟩⟩)
    simp only [Answer.untimed, Except.map, Answer.event.injEq, Except.ok.injEq] at isAnswer
    exact isAnswer.symm.trans alike
  · intro alike answer s' serves
    obtain ⟨reply, middle, first, second⟩ := Server.serves_bind serves
    obtain ⟨rfl, rfl⟩ := Server.serves_done.mp second
    obtain ⟨answered, _⟩ := mirrors.read first
    rw [Events.get, isHeld] at answered
    exact congrArg Answer.event (answered.trans (congrArg Except.ok alike.symm))

/-- What a batch returned is what `get` returns exactly if all requests repeat. -/
theorem Mirrors.gets_batch_iff (reqs : List (OffsetDateTime × RecordEvent))
    (mirrors : Mirrors client.idempotentEventId orgs
      (Events.recordBatch client.idempotentEventId reqs events).2 s) :
    (∀ event ∈ asked client.idempotentEventId reqs, Gets fns client s event) ↔
      AllRepeat client.idempotentEventId events reqs := by
  rw [← recordBatch_holds_iff]
  refine forall₂_congr fun event member => ?_
  obtain ⟨held, isHeld⟩ := find_asked member events
  rw [mirrors.gets_iff isHeld]
  refine ⟨fun alike other same => ?_, fun all => all held isHeld⟩
  rw [isHeld] at same
  rw [← Option.some.inj same]
  exact alike

/-- **One call on both stores** keeps them alike, and is answered alike exactly if its requests
repeat. -/
theorem Mirrors.call (exactlyOnce : client.ingestMode = .exactlyOnce)
    (apart : Apart client.idempotentEventId orgs)
    (mirrors : Mirrors client.idempotentEventId orgs events s) {call : EventCall}
    (within : ∀ req ∈ call.requests, req.2.orgId ∈ orgs) {answer : Answer}
    (serves : (server fns).Serves (call.program client) s answer s') :
    Mirrors client.idempotentEventId orgs (call.oracle client.idempotentEventId events).2 s' ∧
    (answer.untimed = (call.oracle client.idempotentEventId events).1.untimed ↔
      AllRepeat client.idempotentEventId events call.requests) ∧
    ((∀ event ∈ call.recorded answer, Gets fns client s' event) ↔
      AllRepeat client.idempotentEventId events call.requests) := by
  cases call with
  | record now req =>
    obtain ⟨reply, middle, first, second⟩ := Server.serves_bind serves
    obtain ⟨rfl, rfl⟩ := Server.serves_done.mp second
    obtain ⟨rfl, mirrors'⟩ := mirrors.record exactlyOnce apart
      (within (now, req) (List.mem_singleton_self _)) first
    refine ⟨mirrors', ?_, Mirrors.gets_batch_iff [(now, req)] mirrors'⟩
    show Answer.event (.ok (untimed (req.intoEvent client.idempotentEventId now))) =
      .event (.ok (untimed (Events.recordLocked client.idempotentEventId now req events).1)) ↔
        AllRepeat client.idempotentEventId events [(now, req)]
    rw [allRepeat_cons, Answer.event.injEq, Except.ok.injEq]
    exact (and_iff_left trivial).symm
  | recordBatch reqs =>
    obtain ⟨reply, middle, first, second⟩ := Server.serves_bind serves
    obtain ⟨rfl, rfl⟩ := Server.serves_done.mp second
    obtain ⟨rfl, mirrors'⟩ := mirrors.recordBatch exactlyOnce apart within first
    refine ⟨mirrors', ?_, Mirrors.gets_batch_iff reqs mirrors'⟩
    rw [EventCall.requests, ← recordBatch_answers_iff]
    exact ⟨fun same => Answer.events.inj same, fun same => congrArg Answer.events same⟩
  | amend draw req =>
    obtain ⟨reply, middle, first, second⟩ := Server.serves_bind serves
    obtain ⟨rfl, rfl⟩ := Server.serves_done.mp second
    obtain ⟨alike, mirrors'⟩ := mirrors.amend apart first
    refine ⟨mirrors', ?_, ?_⟩
    · exact iff_of_true (congrArg Answer.event alike) trivial
    · exact iff_of_true (fun event member => absurd member List.not_mem_nil) trivial
  | voidRun run =>
    obtain ⟨reply, middle, first, second⟩ := Server.serves_bind serves
    obtain ⟨rfl, rfl⟩ := Server.serves_done.mp second
    obtain ⟨alike, mirrors'⟩ := mirrors.voidRun first
    refine ⟨mirrors', ?_, ?_⟩
    · exact iff_of_true (congrArg Answer.count alike) trivial
    · exact iff_of_true (fun event member => absurd member List.not_mem_nil) trivial
  | get id =>
    obtain ⟨reply, middle, first, second⟩ := Server.serves_bind serves
    obtain ⟨rfl, rfl⟩ := Server.serves_done.mp second
    obtain ⟨alike, same⟩ := mirrors.read first
    refine ⟨same ▸ mirrors, ?_, ?_⟩
    · exact iff_of_true (congrArg Answer.event alike) trivial
    · exact iff_of_true (fun event member => absurd member List.not_mem_nil) trivial

/-- **In every run** the two stores stay alike. -/
theorem Mirrors.of_runs (exactlyOnce : client.ingestMode = .exactlyOnce)
    (apart : Apart client.idempotentEventId orgs) {versionSeq : Nat}
    {turns : List (Turn × List Event × Tables)} {last : List Event × Tables}
    (runs : Runs (Turn.Served fns client) ([], Tables.new versionSeq) turns last)
    (within : ∀ turn ∈ turns, ∀ req ∈ turn.1.call.requests, req.2.orgId ∈ orgs) :
    Mirrors client.idempotentEventId orgs last.1 last.2 ∧ ∀ turn ∈ turns,
      (turn.1.Agrees client turn.2.1 ↔
        AllRepeat client.idempotentEventId turn.2.1 turn.1.call.requests) ∧
      (turn.1.ReturnsHeld fns client ↔
        AllRepeat client.idempotentEventId turn.2.1 turn.1.call.requests) := by
  induction runs with
  | nil => exact ⟨.new versionSeq, fun _ member => absurd member List.not_mem_nil⟩
  | snoc turn _ served ih =>
    rename_i steps before later _
    obtain ⟨mirrors, earlier⟩ := ih fun other member =>
      within other (List.mem_append_left _ member)
    obtain ⟨serves, isAfter, isLater⟩ := served
    obtain ⟨mirrors', agrees, returns⟩ := mirrors.call exactlyOnce apart
      (within (turn, before) (List.mem_append_right _ (List.mem_singleton_self _))) serves
    refine ⟨isLater ▸ mirrors', fun other member => ?_⟩
    rcases List.mem_append.mp member with before | isLast
    · exact earlier other before
    · rw [List.mem_singleton.mp isLast]
      refine ⟨agrees, ?_⟩
      rw [Turn.ReturnsHeld, isAfter]
      exact returns

/-- An amendment has a current target, or is a retry. -/
def EventCall.Follows (client : Client) (s : Tables) : EventCall → Prop
  | .amend draw req => Clickhouse.Follows client s draw req
  | .record _ _ | .recordBatch _ | .voidRun _ | .get _ => True

/-- A call that does not fork an event keeps the rollups right. -/
theorem Tracks.call (exactlyOnce : client.ingestMode = .exactlyOnce) (tracks : Tracks fns s)
    {call : EventCall} (follows : call.Follows client s) {answer : Answer}
    (serves : (server fns).Serves (call.program client) s answer s') : Tracks fns s' := by
  cases call with
  | record now req =>
    obtain ⟨reply, middle, first, second⟩ := Server.serves_bind serves
    rw [(Server.serves_done.mp second).2]
    have served : (ChCall.record now req).Served fns client s middle := ⟨reply, first⟩
    have plain : (ChCall.record now req).Follows client s := trivial
    exact tracks.step exactlyOnce plain served
  | recordBatch reqs =>
    obtain ⟨reply, middle, first, second⟩ := Server.serves_bind serves
    rw [(Server.serves_done.mp second).2]
    exact tracks.recordBatch exactlyOnce first
  | amend draw req =>
    obtain ⟨reply, middle, first, second⟩ := Server.serves_bind serves
    rw [(Server.serves_done.mp second).2]
    exact tracks.amend follows first
  | voidRun run =>
    obtain ⟨reply, middle, first, second⟩ := Server.serves_bind serves
    rw [(Server.serves_done.mp second).2]
    exact tracks.voidRun first
  | get id =>
    obtain ⟨reply, middle, first, second⟩ := Server.serves_bind serves
    obtain ⟨found, same, ⟨rfl, _⟩, third⟩ := Server.serves_stmt.mp first
    rw [(Server.serves_done.mp second).2]
    cases found with
    | none => exact (Server.serves_done.mp third).2 ▸ tracks
    | some event => exact (Server.serves_done.mp third).2 ▸ tracks

/-- **In every run that does not fork an event** the rollups stay right. -/
theorem Tracks.of_turns (exactlyOnce : client.ingestMode = .exactlyOnce) {versionSeq : Nat}
    {turns : List (Turn × List Event × Tables)} {last : List Event × Tables}
    (runs : Runs (Turn.Served fns client) ([], Tables.new versionSeq) turns last)
    (follows : ∀ turn ∈ turns, turn.1.call.Follows client turn.2.2) : Tracks fns last.2 := by
  induction runs with
  | nil => exact .new versionSeq
  | snoc turn _ served ih =>
    have earlier := ih fun other member => follows other (List.mem_append_left _ member)
    exact earlier.call exactlyOnce
      (follows (turn, _) (List.mem_append_right _ (List.mem_singleton_self _))) served.1

end Turns

/-! ### Which answers agree -/

/-- A call that runs alone on both stores. -/
def EventCall.turn (fns : Functions) (client : Client) (call : EventCall)
    (before : List Event × Tables) : Turn × List Event × Tables :=
  let alone := runAlone fns (call.program client) before.2
  (⟨call, alone.1, alone.2⟩, (call.oracle client.idempotentEventId before.1).2, alone.2)

/-- The turns of some calls, and both stores after them. -/
def sampleTurns (calls : List EventCall) :
    List (Turn × List Event × Tables) × (List Event × Tables) :=
  calls.foldl (fun run call =>
    let step := call.turn sampleFunctions sampleClient run.2
    (run.1 ++ [(step.1, run.2)], step.2)) ([], [], Tables.new 0)

theorem sampleTurns_runs (calls : List EventCall) :
    Runs (Turn.Served sampleFunctions sampleClient) ([], Tables.new 0) (sampleTurns calls).1
      (sampleTurns calls).2 :=
  runs_of_foldl (EventCall.turn sampleFunctions sampleClient)
    (fun _ before => ⟨serves_runAlone sampleFunctions _ before.2, rfl, rfl⟩) calls .nil

/-- The account of a single event that is answered. -/
def Answer.account : Answer → Option AccountId
  | .event (.ok recorded) => some recorded.accountId
  | _ => none

end Meter.Clickhouse
