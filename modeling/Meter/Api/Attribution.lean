/-
**Amendments and the tags of an event.**

The API over `ChStore`: every event call of a handler runs its statements on the tables, and the
ledger is another store, whose answers are left open. Metering merges the caller's tags into the
reserved properties of an event. An amendment writes its version from the reserved properties alone.

* `tables_amendUsage` — an amendment leaves the tables alone, or retires the live version and
  inserts a new one with reserved properties only.
* `tables_meterUsage` — every event that metering adds is `Metered`: it has the caller's tags.
* `Amended` — what a chain of amendments keeps: one live version of the event, and every other event
  as it was.
* `Amended.onlyCredits_iff` — a burndown differs by credits alone exactly if the new version carries
  the text of the old one.
* `amendments_keep_tags_iff` — **the tags of an event survive its amendments exactly if it has
  none**, and its burndown by a field exactly if it has no text there.
-/

import Meter.Api.Agreement
import Meter.Clickhouse.Oracle

namespace Meter.Api

open Meter.Lib Meter.Events
open Meter.Pricing (RateCard PricedUsage)
open Meter.Clickhouse (Functions Client Tables EventRow FieldMetrics FieldUsage Tracks Mirrors Turn
  Apart mem_live mem_final_insertEvent eventToRow)

/-! ### The API over `ChStore` -/

section Deployed

variable (fns : Functions) (client : Client)

/-- What a store call may answer, and the tables that it may leave. -/
def StoreCall.OnTables {α : Type} (call : StoreCall α) (s : Tables) (answer : α) (s' : Tables) :
    Prop :=
  match call with
  | .getEvent id => (Clickhouse.server fns).Serves (Clickhouse.get id (.done ∘ .ok)) s answer s'
  | .recordEvent req => ∃ now,
      (Clickhouse.server fns).Serves (Clickhouse.record client now req) s answer s'
  | .recordBatch reqs => ∃ now : Nat → OffsetDateTime,
      (Clickhouse.server fns).Serves (Clickhouse.recordBatch client
        (reqs.zipIdx.map fun req => (now req.2, req.1))) s answer s'
  | .amendEvent req => ∃ draw,
      (Clickhouse.server fns).Serves (Clickhouse.amend client draw req) s answer s'
  | .voidEvents run => (Clickhouse.server fns).Serves (Clickhouse.voidRun run) s answer s'
  | .charge _ | .reverseCharge _ | .balance _ | .voidCharges _ | .ledger _ => s' = s

/-- The event calls of handlers, on the tables. -/
def tables : Server StoreCall Tables := ⟨StoreCall.OnTables fns client⟩

end Deployed

/-! ### One amendment -/

/-- The version that an amendment of a row inserts. -/
def versionOf (env : Env) (row : EventRow) (body : AmendUsageBody) (properties : Json)
    (draw : Draw) : Event :=
  (⟨row.id, properties, some body.idempotencyKey⟩ : AmendEvent).intoAmendedEvent
    env.idempotentEventId row.toEvent draw

/-- The tables after the live version was retired and the new one inserted. -/
def superseded (fns : Functions) (s : Tables) (row : EventRow) (version : Event) : Tables :=
  (s.insertEvent fns { row.toEvent with status := .amended }).insertEvent fns version

/-- The reserved properties of the engine. -/
def reservedKeys : List String := ["model", "input_uncached", "cache_read", "cache_write", "output",
  "reasoning", "cogs_usd", "credits", "priced_credits", "burnable", "charge_entry_id",
  "rate_card_id", "rate_card_version", "priced_via", "amends"]

/-- Properties that have the reserved keys only. -/
def Reserved (properties : Json) : Prop := ∀ key ∉ reservedKeys, properties.get? key = none

/-- **What an amendment may do to the tables**: nothing, or supersede a live version. -/
def SupersedesLive (fns : Functions) (env : Env) (target : EventId) (body : AmendUsageBody)
    (s s' : Tables) : Prop :=
  ∃ row ∈ s.final, row.id = target ∧ row.status = .recorded ∧
    (∀ other ∈ s.final, other.id ≠ amendedId env row.toEvent body.idempotencyKey) ∧
    ∃ properties draw, Reserved properties ∧
      s' = superseded fns s row (versionOf env row body properties draw)

section Amendment

variable {fns : Functions} {client : Client} {env : Env} {s s' : Tables} {α : Type}

/-- A balance at the end leaves the tables alone. -/
theorem tables_balance {account : AccountId} {next : Ledger.Balance → α} {reply : Except ApiError α}
    (serves : (tables fns client).Serves
      (tryLedger (.balance account) fun balance => .done (.ok (next balance))) s reply s') :
    s' = s := by
  obtain ⟨answer, middle, rfl, ⟨_, _, same⟩ | ⟨_, _, done⟩⟩ := serves_tryLedger serves
  · exact same
  · exact (Server.serves_done.mp done).2

theorem tables_compensate {amendment : Repriced} {entry : Option String}
    {reply : Except ApiError AmendUsageResult}
    (serves : (tables fns client).Serves (compensate env amendment entry) s reply s') :
    s' = s := by
  unfold compensate at serves
  split at serves
  · exact (Server.serves_done.mp serves).2
  · obtain ⟨answer, middle, rfl, ⟨_, _, same⟩ | ⟨_, _, done⟩⟩ := serves_tryLedger serves
    · exact same
    · exact (Server.serves_done.mp done).2

/-- Recording the version is one call of the event store. -/
theorem tables_recordAmended {amendment : Repriced} {entry : Option String}
    {reply : Except ApiError AmendUsageResult}
    (serves : (tables fns client).Serves (recordAmended env amendment entry) s reply s') :
    ∃ draw answer, (Clickhouse.server fns).Serves (Clickhouse.amend client draw
      (amendedEvent env amendment.original amendment.body amendment.model amendment.rateCardId
        amendment.card amendment.priced amendment.burnable entry)) s answer s' := by
  obtain ⟨answer, middle, ⟨draw, amends⟩, rest⟩ := Server.serves_stmt.mp serves
  have same : s' = middle := by
    cases answer with
    | ok amended => exact tables_balance rest
    | error error =>
      cases error with
      | voided _ => exact tables_compensate rest
      | notFound _ => exact (Server.serves_done.mp rest).2
      | backend _ => exact (Server.serves_done.mp rest).2
  rw [same]
  exact ⟨draw, answer, amends⟩

/-- The ledger calls before it leave the tables alone. -/
theorem tables_applyAmendment {amendment : Repriced} {reply : Except ApiError AmendUsageResult}
    (serves : (tables fns client).Serves (applyAmendment env amendment) s reply s') :
    s' = s ∨ ∃ entry draw answer, (Clickhouse.server fns).Serves (Clickhouse.amend client draw
      (amendedEvent env amendment.original amendment.body amendment.model amendment.rateCardId
        amendment.card amendment.priced amendment.burnable entry)) s answer s' := by
  have charged : ∀ {reply : Except ApiError AmendUsageResult},
      (tables fns client).Serves (chargeAmended env amendment) s reply s' →
      s' = s ∨ ∃ entry draw answer, (Clickhouse.server fns).Serves (Clickhouse.amend client draw
        (amendedEvent env amendment.original amendment.body amendment.model amendment.rateCardId
          amendment.card amendment.priced amendment.burnable entry)) s answer s' := by
    intro reply serves
    unfold chargeAmended at serves
    split at serves
    · obtain ⟨answer, middle, rfl, ⟨_, _, same⟩ | ⟨_, _, rest⟩⟩ := serves_tryLedger serves
      · exact Or.inl same
      · exact Or.inr ⟨_, tables_recordAmended rest⟩
    · exact Or.inr ⟨_, tables_recordAmended serves⟩
  unfold applyAmendment at serves
  split at serves
  · obtain ⟨answer, middle, rfl, ⟨_, _, same⟩ | ⟨_, _, rest⟩⟩ := serves_tryLedger serves
    · exact Or.inl same
    · exact charged rest
  · exact charged serves

/-- Reading an event by its id. -/
theorem tables_getEvent {id : EventId} {answer : Except EventError Event}
    (performed : (tables fns client).perform (.getEvent id) s answer s') :
    s' = s ∧ ((answer = .error (.notFound id) ∧ ∀ row ∈ s.final, row.id ≠ id) ∨
      ∃ row ∈ s.final, row.id = id ∧ answer = .ok row.toEvent) := by
  obtain ⟨selected, middle, ⟨rfl, isSelected⟩, rest⟩ := Server.serves_stmt.mp performed
  cases selected with
  | none =>
    obtain ⟨rfl, rfl⟩ := Server.serves_done.mp rest
    exact ⟨rfl, Or.inl ⟨rfl, isSelected⟩⟩
  | some event =>
    obtain ⟨row, latest, isId, rfl⟩ := isSelected
    obtain ⟨rfl, rfl⟩ := Server.serves_done.mp rest
    exact ⟨rfl, Or.inr ⟨row, latest, isId, rfl⟩⟩

theorem keys_pricedProperties {model : String} {usage : UsageDimensions} {burned : Credit}
    {burnable : Bool} {entry rateCardId : Option String} {card : RateCard} {priced : PricedUsage} :
    (pricedProperties env model usage burned burnable entry rateCardId card priced).map Prod.fst ++
      ["amends"] = reservedKeys := rfl

/-- **An amended version has the reserved properties only.** -/
theorem amendedEvent_reserved (env : Env) (original : Event) (body : AmendUsageBody)
    (model : String) (rateCardId : Option String) (card : RateCard) (priced : PricedUsage)
    (burnable : Bool) (entry : Option String) :
    Reserved (amendedEvent env original body model rateCardId card priced burnable
      entry).properties := by
  intro key free
  refine Json.lookup_eq_none ?_
  rw [List.map_append]
  exact free

/-- **What an amendment may do to the tables.** -/
theorem tables_amendUsage (sameHash : client.idempotentEventId = env.idempotentEventId)
    (unique : ∀ first ∈ s.final, ∀ second ∈ s.final, first.id = second.id → first = second)
    {target : EventId} {body : AmendUsageBody} {reply : Except ApiError AmendUsageResult}
    (serves : (tables fns client).Serves (amendUsage env target body) s reply s') :
    s' = s ∨ SupersedesLive fns env target body s s' := by
  obtain ⟨answer, middle, performed, rest⟩ := serves_tryEvent serves
  obtain ⟨rfl, ⟨rfl, _⟩ | ⟨row, latest, isTarget, rfl⟩⟩ := tables_getEvent performed
  · obtain ⟨_, _, same⟩ | ⟨_, impossible, _⟩ := rest
    · exact Or.inl same
    · cases impossible
  obtain ⟨_, impossible, _⟩ | ⟨original, isOriginal, rest⟩ := rest
  · cases impossible
  cases isOriginal
  unfold recheck at rest
  split at rest
  · exact Or.inl (Server.serves_done.mp rest).2
  split at rest
  · exact Or.inl (Server.serves_done.mp rest).2
  obtain ⟨answer, s, performed, rest⟩ := Server.serves_stmt.mp rest
  obtain ⟨rfl, ⟨rfl, isNew⟩ | ⟨existing, _, _, rfl⟩⟩ := tables_getEvent performed
  · simp only at rest
    split at rest
    · exact Or.inl (Server.serves_done.mp rest).2
    rename_i isRecorded
    split at rest
    · exact Or.inl (Server.serves_done.mp rest).2
    rename_i amendment repriced
    obtain ⟨sameOriginal, sameBody⟩ := reprice_eq repriced
    rcases tables_applyAmendment rest with same | ⟨entry, draw, answer, amends⟩
    · exact Or.inl same
    rcases Clickhouse.serves_amend amends with same | ⟨again, latest', isAgain, _, _, isAfter⟩
    · exact Or.inl same
    rw [sameOriginal] at isAgain
    have sameRow : again = row := unique again latest' row latest isAgain
    refine Or.inr ⟨row, latest, isTarget, not_not.mp isRecorded, isNew, _, draw,
      amendedEvent_reserved env amendment.original amendment.body amendment.model
        amendment.rateCardId amendment.card amendment.priced amendment.burnable entry, ?_⟩
    rw [isAfter, sameRow, sameHash, sameOriginal, sameBody]
    rfl
  · exact Or.inl (tables_balance rest)

end Amendment

/-! ### A chain of amendments -/

/-- **What a chain of amendments keeps**: one live version of the event, and every other live event
as it was. -/
structure Amended (fns : Functions) (start : Tables) (original : EventRow) (s : Tables)
    (current : EventRow) : Prop where
  tracks : Tracks fns s
  unique : ∀ first ∈ s.final, ∀ second ∈ s.final, first.id = second.id → first = second
  live : ∀ row, row ∈ s.live ↔ row = current ∨ row ∈ start.live ∧ row.id ≠ original.id
  orgId : current.orgId = original.orgId
  kept : ∀ old ∈ start.events, ∃ row ∈ s.final, row.id = old.id
  stays : current.id = original.id → current = original
  renewed : current.id ≠ original.id →
    Reserved current.properties ∧ ∀ old ∈ start.events, old.id ≠ current.id

section Chain

variable {fns : Functions} {env : Env} {start s s' : Tables} {original current : EventRow}

theorem Amended.current_live (amended : Amended fns start original s current) :
    current ∈ s.live := (amended.live current).mpr (Or.inl rfl)

/-- The start of a chain. -/
theorem Amended.begins (tracks : Tracks fns start)
    (unique : ∀ first ∈ start.final, ∀ second ∈ start.final, first.id = second.id → first = second)
    (isLive : original ∈ start.live) : Amended fns start original start original where
  tracks := tracks
  unique := unique
  live := by
    intro row
    constructor
    · intro inside
      by_cases same : row.id = original.id
      · exact Or.inl (unique row (mem_live.mp inside).1 original (mem_live.mp isLive).1 same)
      · exact Or.inr ⟨inside, same⟩
    · rintro (rfl | ⟨inside, _⟩)
      · exact isLive
      · exact inside
  orgId := rfl
  kept := by
    intro old stored
    obtain ⟨row, latest, same⟩ := Clickhouse.exists_final stored
    exact ⟨row, latest, congrArg Prod.snd same⟩
  stays := fun _ => rfl
  renewed := fun apart => absurd rfl apart

/-- The latest rows after the live version was superseded. -/
theorem mem_superseded (tracks : Tracks fns s)
    (unique : ∀ first ∈ s.final, ∀ second ∈ s.final, first.id = second.id → first = second)
    (latest : current ∈ s.final) {version : Event} (isNew : ∀ row ∈ s.final, row.id ≠ version.id)
    (row : EventRow) : row ∈ (superseded fns s current version).final ↔
      (row ∈ s.final ∧ row.id ≠ current.id) ∨
      row = eventToRow s.versionSeq { current.toEvent with status := .amended } ∨
      row = eventToRow (s.versionSeq + 1) version := by
  rw [superseded, mem_final_insertEvent (Clickhouse.versions_insertEvent tracks.versions),
    mem_final_insertEvent tracks.versions]
  constructor
  · rintro (⟨⟨inside, apart⟩ | rfl, _⟩ | rfl)
    · refine Or.inl ⟨inside, fun same => apart ?_⟩
      rw [unique row inside current latest same]
      rfl
    · exact Or.inr (Or.inl rfl)
    · exact Or.inr (Or.inr rfl)
  · rintro (⟨inside, apart⟩ | rfl | rfl)
    · refine Or.inl ⟨Or.inl ⟨inside, fun same => apart (congrArg Prod.snd same)⟩, fun same => ?_⟩
      exact isNew row inside (congrArg Prod.snd same)
    · refine Or.inl ⟨Or.inr rfl, fun same => ?_⟩
      exact isNew current latest (congrArg Prod.snd same)
    · exact Or.inr rfl

/-- **One more amendment of the event**: its new version is the live one. -/
theorem Amended.supersede (amended : Amended fns start original s current)
    (inStart : original ∈ start.events) {body : AmendUsageBody} {properties : Json} {draw : Draw}
    (isNew : ∀ row ∈ s.final, row.id ≠ amendedId env current.toEvent body.idempotencyKey)
    (reserved : Reserved properties) :
    Amended fns start original
      (superseded fns s current (versionOf env current body properties draw))
      (eventToRow (s.versionSeq + 1) (versionOf env current body properties draw)) := by
  obtain ⟨latest, recorded⟩ := mem_live.mp amended.current_live
  have isVersion : ∀ row ∈ s.final, row.id ≠ (versionOf env current body properties draw).id :=
    isNew
  have apart : ∀ old ∈ start.events, old.id ≠ (versionOf env current body properties draw).id := by
    intro old stored same
    obtain ⟨row, inside, isOld⟩ := amended.kept old stored
    exact isNew row inside (isOld.trans same)
  have members := mem_superseded amended.tracks amended.unique latest isVersion
  refine ⟨?_, ?_, ?_, amended.orgId, ?_, ?_, ?_⟩
  · refine amended.tracks.supersede latest recorded rfl fun stored inside same => ?_
    obtain ⟨row, isLatest, isKey⟩ := Clickhouse.exists_final inside
    exact isNew row isLatest (congrArg Prod.snd (isKey.trans same))
  · intro first inFirst second inSecond same
    rcases (members first).mp inFirst with ⟨before, other⟩ | rfl | rfl
    · rcases (members second).mp inSecond with ⟨before', _⟩ | rfl | rfl
      · exact amended.unique first before second before' same
      · exact absurd same other
      · exact absurd same (isNew first before)
    · rcases (members second).mp inSecond with ⟨_, other⟩ | rfl | rfl
      · exact absurd same.symm other
      · rfl
      · exact absurd same (isNew current latest)
    · rcases (members second).mp inSecond with ⟨before', _⟩ | rfl | rfl
      · exact absurd same.symm (isNew second before')
      · exact absurd same.symm (isNew current latest)
      · rfl
  · intro row
    rw [mem_live, members]
    constructor
    · rintro ⟨⟨inside, other⟩ | rfl | rfl, isRecorded⟩
      · rcases (amended.live row).mp (mem_live.mpr ⟨inside, isRecorded⟩) with rfl | before
        · exact absurd rfl other
        · exact Or.inr before
      · cases isRecorded
      · exact Or.inl rfl
    · rintro (rfl | ⟨inside, other⟩)
      · exact ⟨Or.inr (Or.inr rfl), rfl⟩
      · have isLive := (amended.live row).mpr (Or.inr ⟨inside, other⟩)
        refine ⟨Or.inl ⟨(mem_live.mp isLive).1, fun same => ?_⟩, (mem_live.mp isLive).2⟩
        by_cases isOriginal : current.id = original.id
        · exact other (same.trans isOriginal)
        · exact (amended.renewed isOriginal).2 row (mem_final.mp (mem_live.mp inside).1).1 same
  · intro old stored
    obtain ⟨row, inside, same⟩ := amended.kept old stored
    by_cases isCurrent : row.id = current.id
    · exact ⟨_, (members _).mpr (Or.inr (Or.inl rfl)), isCurrent.symm.trans same⟩
    · exact ⟨row, (members row).mpr (Or.inl ⟨inside, isCurrent⟩), same⟩
  · exact fun same => absurd same.symm (apart original inStart)
  · exact fun _ => ⟨reserved, apart⟩

end Chain

/-- A call of `amend_usage`. -/
structure AmendCall where
  eventId : EventId
  body : AmendUsageBody

/-- A call that ran alone, to its answer. -/
def AmendCall.Served (fns : Functions) (client : Client) (env : Env) (call : AmendCall)
    (s s' : Tables) : Prop :=
  ∃ reply, (tables fns client).Serves (amendUsage env call.eventId call.body) s reply s'

/-- **A chain of amendments that leaves the other events of the start alone.** -/
theorem Amended.of_chain {fns : Functions} {client : Client} {env : Env} {start s : Tables}
    {original : EventRow} (sameHash : client.idempotentEventId = env.idempotentEventId)
    (begins : Amended fns start original start original) {chain : List (AmendCall × Tables)}
    (amends : Runs (AmendCall.Served fns client env) start chain s)
    (onIt : ∀ call ∈ chain, ∀ row ∈ start.events, row.id = call.1.eventId →
      row.id = original.id) : ∃ current, Amended fns start original s current := by
  induction amends with
  | nil => exact ⟨original, begins⟩
  | snoc call _ served ih =>
    rename_i steps middle later _
    obtain ⟨current, amended⟩ := ih fun other member =>
      onIt other (List.mem_append_left _ member)
    obtain ⟨reply, serves⟩ := served
    rcases tables_amendUsage sameHash amended.unique serves with rfl | ⟨row, latest, isTarget,
      recorded, isNew, properties, draw, reserved, rfl⟩
    · exact ⟨current, amended⟩
    have isCurrent : row = current := by
      rcases (amended.live row).mp (mem_live.mpr ⟨latest, recorded⟩) with same | ⟨before, apart⟩
      · exact same
      · refine absurd (onIt (call, middle) (List.mem_append_right _ (List.mem_singleton_self _)) row
          ?_ isTarget) apart
        exact (mem_final.mp (mem_live.mp before).1).1
    subst isCurrent
    have inStart : original ∈ start.events :=
      (mem_final.mp (mem_live.mp begins.current_live).1).1
    exact ⟨_, amended.supersede inStart isNew reserved⟩

/-! ### The burndown -/

section Burndown

variable {fns : Functions} {start s : Tables} {original current : EventRow} {org : OrgId}
  {field value : String}

/-- What a burndown reports for a value: events and credits. -/
def reported (rows : List FieldUsage) (value : String) : FieldMetrics :=
  groupSum (rows.map fun row => (row.dimension, row.events, row.credits)) value

/-- What an event contributes to the burndown by a field. -/
def share (fns : Functions) (field : String) (row : EventRow) : String × FieldMetrics :=
  (fns.jsonExtractString row.properties field, 1, Clickhouse.credits fns row)

/-- **A burndown reports the live events**, by promoted fields and by others. -/
theorem reported_usageByField (tracks : Tracks fns s) :
    reported (Clickhouse.usageByField fns org field s) value =
      if value = "" then 0 else groupSum ((s.liveOfOrg org).map (share fns field)) value := by
  have scan : (Clickhouse.usageByField fns org field s).Perm
      (Clickhouse.usageByScan fns org field s) := by
    by_cases promoted : field ∈ Clickhouse.promotedFields
    · exact tracks.usageByField promoted org
    · rw [Clickhouse.usageByField, if_neg promoted]
  have sorted : (Clickhouse.usageByScan fns org field s).Perm
      (((Lib.groupBy ((s.liveOfOrg org).map (share fns field))).filter
        fun row => row.1 ≠ "").map .ofGroup) := List.mergeSort_perm _ _
  rw [reported, groupSum_perm ((scan.trans sorted).map _), List.map_map]
  have back : ((fun row : FieldUsage => (row.dimension, row.events, row.credits)) ∘
      FieldUsage.ofGroup) = id := rfl
  rw [back, List.map_id, groupSum_filter fun group => decide (group ≠ ""), groupSum_groupBy]
  by_cases empty : value = ""
  · simp [empty]
  · simp [empty]

/-- The live events are the version in effect and the others of the start. -/
theorem Amended.live_perm (amended : Amended fns start original s current)
    (nodup : start.live.Nodup) :
    s.live.Perm (current :: start.live.filter fun row => row.id ≠ original.id) := by
  have distinct : s.live.Nodup :=
    (List.Nodup.of_map _ (final_keys_nodup amended.tracks.distinct)).filter _
  have absent : current ∉ start.live.filter fun row => row.id ≠ original.id := by
    intro inside
    obtain ⟨before, apart⟩ := List.mem_filter.mp inside
    exact (amended.renewed (of_decide_eq_true apart)).2 current
      (mem_final.mp (mem_live.mp before).1).1 rfl
  refine (List.perm_ext_iff_of_nodup distinct
    (List.nodup_cons.mpr ⟨absent, nodup.filter _⟩)).mpr fun row => ?_
  rw [amended.live, List.mem_cons, List.mem_filter, decide_eq_true_eq]

/-- **The burndown of the event's organization**: the version in effect, and the others. -/
theorem Amended.reported_eq (amended : Amended fns start original s current)
    (nodup : start.live.Nodup) :
    reported (Clickhouse.usageByField fns original.orgId field s) value =
      if value = "" then 0 else
        (if fns.jsonExtractString current.properties field = value
          then (1, Clickhouse.credits fns current) else 0) +
        groupSum (((start.live.filter fun row => row.id ≠ original.id).filter fun row =>
          row.orgId = original.orgId).map (share fns field)) value := by
  have perm := (amended.live_perm nodup).filter fun row => decide (row.orgId = original.orgId)
  rw [List.filter_cons, if_pos (decide_eq_true amended.orgId)] at perm
  rw [reported_usageByField amended.tracks, Tables.liveOfOrg, groupSum_perm (perm.map _),
    List.map_cons, groupSum_cons]
  rfl

/-- A burndown that differs only by the change in the event's credits. -/
def OnlyCredits (fns : Functions) (field : String) (before after : Tables)
    (original live : EventRow) : Prop :=
  ∀ value, reported (Clickhouse.usageByField fns original.orgId field after) value =
    reported (Clickhouse.usageByField fns original.orgId field before) value +
      if value = fns.jsonExtractString original.properties field ∧ value ≠ "" then
        (0, Clickhouse.credits fns live - Clickhouse.credits fns original) else 0

/-- **Only credits change exactly if the text of the field stays.** -/
theorem Amended.onlyCredits_iff (amended : Amended fns start original s current)
    (begins : Amended fns start original start original) (nodup : start.live.Nodup) :
    OnlyCredits fns field start s original current ↔
      fns.jsonExtractString current.properties field =
        fns.jsonExtractString original.properties field := by
  constructor
  · intro only
    by_contra moved
    by_cases empty : fns.jsonExtractString original.properties field = ""
    · -- the new version shows up under a value of its own
      have shows := only (fns.jsonExtractString current.properties field)
      rw [empty] at moved
      rw [amended.reported_eq nodup, begins.reported_eq nodup, if_neg moved, if_neg moved,
        if_pos rfl, if_neg fun same => moved (same.symm.trans empty), empty,
        if_neg fun both => moved both.1, zero_add, add_zero, add_eq_right] at shows
      exact absurd (congrArg Prod.fst shows) one_ne_zero
    · -- the event is missing under the value of the original
      have lost := only (fns.jsonExtractString original.properties field)
      rw [amended.reported_eq nodup, begins.reported_eq nodup, if_neg empty, if_neg empty,
        if_neg moved, if_pos rfl, if_pos ⟨rfl, empty⟩, zero_add] at lost
      have counts := congrArg Prod.fst lost
      simp only [Prod.fst_add] at counts
      omega
  · intro same value
    rw [amended.reported_eq nodup, begins.reported_eq nodup, same]
    by_cases empty : value = ""
    · simp [empty]
    by_cases isText : fns.jsonExtractString original.properties field = value
    · rw [if_neg empty, if_neg empty, if_pos isText, if_pos isText, if_pos ⟨isText.symm, empty⟩]
      refine Prod.ext ?_ ?_
      · simp only [Prod.fst_add]
        omega
      · simp only [Prod.snd_add]
        ring
    · rw [if_neg empty, if_neg empty, if_neg isText, if_neg isText,
        if_neg fun both => isText both.1.symm]
      simp

end Burndown

/-! ### Metered events -/

/-- An event that metering recorded with these tags. -/
def Metered (env : Env) (tags : List (String × Json)) (event : Event) : Prop :=
  ∃ now recordedAt body card priced entry,
    price env body.model body.rateCardId body.usage = .ok (card, priced) ∧
    body.tags = .object tags ∧
    Clickhouse.untimed event = Clickhouse.untimed
      ((meteredEvent env now body card priced entry).intoEvent env.idempotentEventId recordedAt)

section Metering

variable {fns : Functions} {client : Client} {env : Env} {s s' : Tables}
  {tags : List (String × Json)}

/-- **What metering adds to the tables is metered.** -/
theorem tables_meterUsage (exactlyOnce : client.ingestMode = .exactlyOnce)
    (sameHash : client.idempotentEventId = env.idempotentEventId) {now : OffsetDateTime}
    {body : MeterUsageBody} (isTags : body.tags = .object tags)
    {reply : Except ApiError MeterUsageResult}
    (serves : (tables fns client).Serves (meterUsage env now body) s reply s') {row : EventRow}
    (inside : row ∈ s'.events) : row ∈ s.events ∨ Metered env tags row.toEvent := by
  have recorded : ∀ {card : RateCard} {priced : PricedUsage} {entry : Option String},
      price env body.model body.rateCardId body.usage = .ok (card, priced) →
      (tables fns client).Serves (recordMetered env now body card priced entry) s reply s' →
      row ∈ s.events ∨ Metered env tags row.toEvent := by
    intro card priced entry isPriced serves
    obtain ⟨answer, middle, ⟨recordedAt, records⟩, rest⟩ := serves_tryEvent serves
    have same : s' = middle := by
      obtain ⟨_, _, same⟩ | ⟨event, _, rest⟩ := rest
      · exact same
      · exact tables_balance rest
    obtain ⟨batch, written, first, second⟩ := Server.serves_bind records
    obtain ⟨rfl, found, _, _, rfl⟩ := Clickhouse.serves_recordBatch exactlyOnce first
    rw [same, (Server.serves_done.mp second).2] at inside
    rcases Clickhouse.mem_insertEvents inside with before | ⟨version, event, member, rfl⟩
    · exact Or.inl before
    · have isEvent := List.mem_singleton.mp (Clickhouse.survivors_spec member).1
      rw [isEvent, sameHash]
      exact Or.inr ⟨now, recordedAt, body, card, priced, entry, isPriced, isTags, rfl⟩
  unfold meterUsage at serves
  split at serves
  · rw [(Server.serves_done.mp serves).2] at inside
    exact Or.inl inside
  rename_i card priced isPriced
  dsimp only at serves
  split at serves
  · obtain ⟨answer, middle, rfl, ⟨_, _, same⟩ | ⟨entry, _, rest⟩⟩ := serves_tryLedger serves
    · exact Or.inl (same ▸ inside)
    · exact recorded isPriced rest
  · exact recorded isPriced serves

/-- **A tag under a free key is a property of the metered event.** -/
theorem Metered.get?_tag {event : Event} (metered : Metered env tags event) {key : String}
    (free : key ∉ reservedKeys) : event.properties.get? key = tags.lookup key := by
  obtain ⟨now, recordedAt, body, card, priced, entry, _, isTags, alike⟩ := metered
  have properties := congrArg Event.properties alike
  have isMerged : event.properties =
      (meteredEvent env now body card priced entry).properties := properties
  rw [isMerged, meteredEvent, isTags]
  refine Json.lookup_orInsert_new tags (Json.lookup_eq_none fun inside => free ?_)
  rw [← keys_pricedProperties]
  exact List.mem_append_left _ inside

end Metering

/-! ### Tags and burndowns after a chain of amendments -/

/-- The tags of an event that a later version still has. -/
def TagsKept (tags : List (String × Json)) (original live : EventRow) : Prop :=
  ∀ tag ∈ tags, tag.1 ∉ reservedKeys →
    live.properties.get? tag.1 = original.properties.get? tag.1

theorem Amended.tagsKept_iff {fns : Functions} {env : Env} {start s : Tables}
    {original current : EventRow} (amended : Amended fns start original s current)
    {tags : List (String × Json)} (metered : Metered env tags original.toEvent) :
    TagsKept tags original current ↔
      current.id = original.id ∨ ∀ tag ∈ tags, tag.1 ∈ reservedKeys := by
  constructor
  · intro kept
    by_cases same : current.id = original.id
    · exact Or.inl same
    refine Or.inr fun tag member => ?_
    by_contra free
    have lost := (amended.renewed same).1 tag.1 free
    rw [kept tag member free, metered.get?_tag free] at lost
    have differs := List.lookup_eq_none_iff.mp lost tag member
    exact bne_iff_ne.mp differs rfl
  · rintro (same | reserved) tag member free
    · rw [amended.stays same]
    · exact absurd (reserved tag member) free

/-- **The tags of a metered event survive its amendments exactly if it has none**, in every state
and along every chain of amendments: the version in effect has the tags of the original exactly if
it is the original, or all the tags are under reserved keys; and the burndown by a field that is not
reserved differs by the event's credits alone exactly if it is the original, or the original has no
text in that field. -/
theorem amendments_keep_tags_iff {fns : Functions} {env : Env} {client : Client}
    (extracts : ∀ properties field, properties.get? field = none →
      fns.jsonExtractString properties field = "")
    (exactlyOnce : client.ingestMode = .exactlyOnce)
    (sameHash : client.idempotentEventId = env.idempotentEventId) {orgs : List OrgId}
    (apart : Apart client.idempotentEventId orgs) {versionSeq : Nat}
    {turns : List (Turn × List Event × Tables)} {events : List Event} {s s' : Tables}
    (history : Runs (Turn.Served fns client) ([], Tables.new versionSeq) turns (events, s))
    (within : ∀ turn ∈ turns, ∀ req ∈ turn.1.call.requests, req.2.orgId ∈ orgs)
    (follows : ∀ turn ∈ turns, turn.1.call.Follows client turn.2.2) {original : EventRow}
    (isLive : original ∈ s.live) {tags : List (String × Json)}
    (metered : Metered env tags original.toEvent) {chain : List (AmendCall × Tables)}
    (amends : Runs (AmendCall.Served fns client env) s chain s')
    (onIt : ∀ call ∈ chain, ∀ row ∈ s.events, row.id = call.1.eventId →
      row.id = original.id) :
    ∃ live ∈ s'.live,
      (∀ other ∈ s'.live, (other.id = original.id ∨ ∀ row ∈ s.events, row.id ≠ other.id) →
        other = live) ∧
      (TagsKept tags original live ↔
        live.id = original.id ∨ ∀ tag ∈ tags, tag.1 ∈ reservedKeys) ∧
      ∀ field ∉ reservedKeys, OnlyCredits fns field s s' original live ↔
        live.id = original.id ∨ fns.jsonExtractString original.properties field = "" := by
  obtain ⟨mirrors, _⟩ := Mirrors.of_runs exactlyOnce apart history within
  have tracks := Tracks.of_turns exactlyOnce history follows
  have unique : ∀ first ∈ s.final, ∀ second ∈ s.final, first.id = second.id → first = second :=
    fun first inFirst second inSecond same =>
      List.inj_on_of_nodup_map mirrors.final_ids inFirst inSecond same
  have nodup : s.live.Nodup := (List.Nodup.of_map _ (final_keys_nodup tracks.distinct)).filter _
  have begins := Amended.begins tracks unique isLive
  obtain ⟨live, amended⟩ := Amended.of_chain sameHash begins amends onIt
  refine ⟨live, amended.current_live, fun other isOther belongs => ?_,
    amended.tagsKept_iff metered, fun field free => ?_⟩
  · rcases (amended.live other).mp isOther with same | ⟨before, distinct⟩
    · exact same
    · rcases belongs with same | isNew
      · exact absurd same distinct
      · exact absurd rfl (isNew other (mem_final.mp (mem_live.mp before).1).1)
  · rw [amended.onlyCredits_iff begins nodup]
    constructor
    · intro same
      by_cases isOriginal : live.id = original.id
      · exact Or.inl isOriginal
      · refine Or.inr ?_
        rw [← same]
        exact extracts _ _ ((amended.renewed isOriginal).1 field free)
    · rintro (isOriginal | empty)
      · rw [amended.stays isOriginal]
      · by_cases isOriginal : live.id = original.id
        · rw [amended.stays isOriginal]
        · rw [empty]
          exact extracts _ _ ((amended.renewed isOriginal).1 field free)

/-! ### A tagged event -/

/-- Answers of the tables, and of a ledger that accepts every charge. -/
def StoreCall.accept {α : Type} (call : StoreCall α) (s : Tables) : α × Tables :=
  match call with
  | .getEvent id => Clickhouse.runAlone Clickhouse.sampleFunctions
      (Clickhouse.get id (.done ∘ .ok)) s
  | .recordEvent req => Clickhouse.runAlone Clickhouse.sampleFunctions
      (Clickhouse.record Clickhouse.sampleClient 0 req) s
  | .recordBatch reqs => Clickhouse.runAlone Clickhouse.sampleFunctions
      (Clickhouse.recordBatch Clickhouse.sampleClient (reqs.zipIdx.map fun req => (0, req.1))) s
  | .amendEvent req => Clickhouse.runAlone Clickhouse.sampleFunctions
      (Clickhouse.amend Clickhouse.sampleClient ⟨0, 0⟩ req) s
  | .voidEvents run => Clickhouse.runAlone Clickhouse.sampleFunctions (Clickhouse.voidRun run) s
  | .charge req => (.ok ⟨1, req.account, 0, .usage, -req.amount, 0, none, false, none, none,
      req.runId, req.idempotencyKey, 0⟩, s)
  | .reverseCharge _ => (.ok none, s)
  | .balance _ => (.ok ⟨0, 0⟩, s)
  | .voidCharges _ => (.error (.backend ""), s)
  | .ledger _ => (.error (.backend ""), s)

theorem StoreCall.performs_accept {α : Type} (call : StoreCall α) (s : Tables) :
    (tables Clickhouse.sampleFunctions Clickhouse.sampleClient).perform call s
      (call.accept s).1 (call.accept s).2 := by
  cases call with
  | getEvent id => exact Clickhouse.serves_runAlone _ _ s
  | recordEvent req => exact ⟨0, Clickhouse.serves_runAlone _ _ s⟩
  | recordBatch reqs => exact ⟨fun _ => 0, Clickhouse.serves_runAlone _ _ s⟩
  | amendEvent req => exact ⟨⟨0, 0⟩, Clickhouse.serves_runAlone _ _ s⟩
  | voidEvents run => exact Clickhouse.serves_runAlone _ _ s
  | _ => rfl

/-- Ten tokens of team alpha. -/
def taggedBody : MeterUsageBody :=
  { sampleBody with tags := .object [("team", .string "alpha")] }

/-- An amendment to four tokens. -/
def taggedCall : AmendCall := ⟨8, ⟨⟨4, 0, 0, 0, 0⟩, none, none, "a"⟩⟩

/-- The tables after metering. -/
def taggedTables : Tables :=
  (Server.runWith StoreCall.accept (meterUsage sampleEnv 0 taggedBody) (Tables.new 0)).2

/-- The tables after the amendment. -/
def amendedTables : Tables := (Server.runWith StoreCall.accept
  (amendUsage sampleEnv taggedCall.eventId taggedCall.body) taggedTables).2

theorem tagged_amends : Runs
    (AmendCall.Served Clickhouse.sampleFunctions Clickhouse.sampleClient sampleEnv) taggedTables
    [(taggedCall, taggedTables)] amendedTables :=
  .snoc taggedCall .nil ⟨_, Server.serves_runWith StoreCall.performs_accept _ _⟩

/-- The record of the tagged usage. -/
def taggedEvent : RecordEvent :=
  meteredEvent sampleEnv 0 taggedBody sampleCard ⟨⟨10, ⟨"USD"⟩⟩, ⟨10, ⟨"USD"⟩⟩, 10⟩ none

/-- A history with that record alone. -/
def taggedHistory : List (Turn × List Event × Tables) × (List Event × Tables) :=
  Clickhouse.sampleTurns [.record 0 taggedEvent]

theorem amendments_keep_tags_iff_sample : ∃ original ∈ taggedHistory.2.2.live, ∃ s',
    Runs (AmendCall.Served Clickhouse.sampleFunctions Clickhouse.sampleClient sampleEnv)
      taggedHistory.2.2 [(taggedCall, taggedHistory.2.2)] s' ∧ ∃ live ∈ s'.live,
      ¬ TagsKept [("team", .string "alpha")] original live ∧
      ¬ OnlyCredits Clickhouse.sampleFunctions "team" taggedHistory.2.2 s' original live := by
  obtain ⟨original, isOriginal⟩ := List.length_eq_one_iff.mp
    (show taggedHistory.2.2.live.length = 1 by decide +kernel)
  have isLive : original ∈ taggedHistory.2.2.live := isOriginal ▸ List.mem_singleton_self _
  have only : ∀ row ∈ taggedHistory.2.2.events,
      row = eventToRow 0 (taggedEvent.intoEvent lengthId 0) := fun row inside =>
    List.mem_singleton.mp inside
  have isRow := only original (mem_final.mp (mem_live.mp isLive).1).1
  have priced : price sampleEnv "small" none ⟨10, 0, 0, 0, 0⟩ =
      .ok (sampleCard, ⟨⟨10, ⟨"USD"⟩⟩, ⟨10, ⟨"USD"⟩⟩, 10⟩) := by decide +kernel
  have metered : Metered sampleEnv [("team", .string "alpha")] original.toEvent :=
    ⟨0, 0, taggedBody, sampleCard, _, none, priced, rfl, by rw [isRow]; rfl⟩
  have amends : Runs
      (AmendCall.Served Clickhouse.sampleFunctions Clickhouse.sampleClient sampleEnv)
      taggedHistory.2.2 [(taggedCall, taggedHistory.2.2)]
      (Server.runWith StoreCall.accept (amendUsage sampleEnv taggedCall.eventId taggedCall.body)
        taggedHistory.2.2).2 :=
    .snoc taggedCall .nil ⟨_, Server.serves_runWith StoreCall.performs_accept _ _⟩
  obtain ⟨live, inAfter, _, tags, burndown⟩ := amendments_keep_tags_iff
    (fun properties field none => by
      show ((properties.get? field).bind Json.asStr?).getD "" = ""
      rw [none]
      rfl)
    rfl rfl (Clickhouse.apart_singleton 1)
    (Clickhouse.sampleTurns_runs [.record 0 taggedEvent]) (by decide +kernel)
    (List.forall_mem_singleton.mpr trivial) isLive metered amends
    (List.forall_mem_singleton.mpr fun row inside _ => by rw [only row inside, isRow])
  have isNew : live.id ≠ original.id := by
    have all : ∀ row ∈ (Server.runWith StoreCall.accept
        (amendUsage sampleEnv taggedCall.eventId taggedCall.body) taggedHistory.2.2).2.live,
        row.id ≠ 8 := by decide +kernel
    rw [isRow]
    exact all live inAfter
  refine ⟨original, isLive, _, amends, live, inAfter, fun kept => ?_, fun only => ?_⟩
  · rcases tags.mp kept with same | reserved
    · exact isNew same
    · exact absurd (reserved _ List.mem_cons_self) (by decide)
  · rcases (burndown "team" (by decide)).mp only with same | empty
    · exact isNew same
    · rw [isRow] at empty
      exact absurd empty (by decide +kernel)

/-- **An amendment loses the team of an event**: the new version has no team, and the burndown by
team no longer counts the event. -/
theorem amendment_loses_team : ∃ s s' original live reply,
    (tables Clickhouse.sampleFunctions Clickhouse.sampleClient).Serves
      (meterUsage sampleEnv 0 taggedBody) (Tables.new 0) reply s ∧
    Runs (AmendCall.Served Clickhouse.sampleFunctions Clickhouse.sampleClient sampleEnv) s
      [(taggedCall, s)] s' ∧
    s.live = [original] ∧ original.id = taggedCall.eventId ∧ s'.live = [live] ∧
    ¬ TagsKept [("team", .string "alpha")] original live ∧
    ¬ OnlyCredits Clickhouse.sampleFunctions "team" s s' original live := by
  obtain ⟨original, isOriginal⟩ := List.length_eq_one_iff.mp
    (show taggedTables.live.length = 1 by decide +kernel)
  obtain ⟨live, isLive⟩ := List.length_eq_one_iff.mp
    (show amendedTables.live.length = 1 by decide +kernel)
  have before : taggedTables.live.map (fun row =>
      (row.id, row.orgId, (row.properties.get? "team").isSome)) = [(8, 1, true)] := by
    decide +kernel
  have after : amendedTables.live.map (fun row => (row.properties.get? "team").isSome) =
      [false] := by decide +kernel
  rw [isOriginal, List.map_singleton, List.singleton_inj] at before
  rw [isLive, List.map_singleton, List.singleton_inj] at after
  obtain ⟨isId, isOrg, tagged⟩ : _ ∧ _ ∧ _ := by simpa using before
  refine ⟨taggedTables, amendedTables, original, live, _,
    Server.serves_runWith StoreCall.performs_accept _ _, tagged_amends, isOriginal, isId, isLive,
    fun kept => ?_, fun only => ?_⟩
  · rw [kept ("team", .string "alpha") List.mem_cons_self (by decide), tagged] at after
    cases after
  · have counts := congrArg Prod.fst (only "alpha")
    have reports : (reported (Clickhouse.usageByField Clickhouse.sampleFunctions 1 "team"
        taggedTables) "alpha").1 = 1 := by decide +kernel
    have loses : (reported (Clickhouse.usageByField Clickhouse.sampleFunctions 1 "team"
        amendedTables) "alpha").1 = 0 := by decide +kernel
    rw [isOrg, Prod.fst_add, reports, loses] at counts
    split at counts <;> exact absurd counts zero_ne_one

end Meter.Api
