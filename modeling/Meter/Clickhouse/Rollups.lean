/-
**The rollups equal the live scan.**

The views only see inserted rows, so what has to be shown is that every insert fits the table it goes
into (`Fits`): a `recorded` row has a key that is not stored yet, and any other row repeats the live
row of its key in all but the status. An insert that fits moves the rollups and the scan alike
(`Tracks.insertEvent`), and a rebuild writes the scan itself.

* `rollups_equal_scan` — **after every sequential run** of records, batches, run voids, rebuilds and
  amendments that do not fork an event, both rollups have the sums of the live events, group by
  group, and the burndown of a promoted field is that of the scan.
-/

import Mathlib.Algebra.Order.Ring.Rat
import Mathlib.Tactic.Linarith
import Meter.Clickhouse.Store

namespace Meter.Clickhouse

open Meter.Lib Meter.Events

/-! ### What an insert may do -/

/-- A row that the table admits: the first one of its key, or the live one with another status. -/
def Fits (s : Tables) (event : Event) : Prop :=
  (event.status = .recorded ∧ ∀ row ∈ s.events, key row ≠ (event.orgId, event.id)) ∨
  (event.status ≠ .recorded ∧ ∃ old ∈ s.live, event = { old.toEvent with status := event.status })

/-- **The rollups track the live events.** -/
structure Tracks (fns : Functions) (s : Tables) : Prop where
  versions : ∀ row ∈ s.events, row.version < s.versionSeq
  distinct : (s.events.map EventRow.version).Nodup
  stored : ∀ row ∈ s.events, millis row.eventTime = row.eventTime ∧
    millis row.createdAt = row.createdAt
  usage : ∀ group, groupSum s.usageRollup group = groupSum (s.live.map (usageOf fns)) group
  fieldUsage : ∀ group, groupSum s.fieldUsageRollup group =
    groupSum (s.live.flatMap (fieldUsageOf fns)) group

section Insert

variable {fns : Functions} {s : Tables} {event : Event}

theorem Tracks.new (versionSeq : Nat) : Tracks fns (Tables.new versionSeq) where
  versions := fun _ member => absurd member List.not_mem_nil
  distinct := List.nodup_nil
  stored := fun _ member => absurd member List.not_mem_nil
  usage := fun _ => rfl
  fieldUsage := fun _ => rfl

theorem millis_millis (time : OffsetDateTime) : millis (millis time) = millis time := by
  rw [millis, millis, Int.mul_tdiv_cancel _ (by decide)]

/-- A column of a live scan as a sum over the latest versions. -/
theorem groupSum_live {G M : Type} [DecidableEq G] [AddCommGroup M]
    (contribution : EventRow → List (G × M)) (group : G) :
    groupSum (s.live.flatMap contribution) group = liveSum (fun row => row.status = .recorded)
      (fun row => groupSum (contribution row) group) key EventRow.version s.events := by
  rw [groupSum_flatMap]
  rfl

theorem Tracks.newest (tracks : Tracks fns s) :
    ∀ other ∈ s.events, other.version < (eventToRow s.versionSeq event).version := tracks.versions

/-- **Rollup and scan move alike.** What a view makes of a row is its contribution, negated if the
row is not recorded. -/
theorem moves_alike {G M : Type} [DecidableEq G] [AddCommGroup M]
    {contribution : EventRow → List (G × M)} (view : EventRow → List (G × M))
    (tracks : Tracks fns s) (fits : Fits s event)
    (adds : ∀ row, row.status = .recorded → view row = contribution row)
    (takes : ∀ row, row.status ≠ .recorded →
      view row = (contribution row).map fun part => (part.1, -part.2))
    (same : ∀ old ∈ s.events, ∀ status, contribution (eventToRow s.versionSeq
      { old.toEvent with status }) = contribution old)
    {table : List (G × M)} {group : G}
    (before : groupSum table group = groupSum (s.live.flatMap contribution) group) :
    groupSum (table ++ view (eventToRow s.versionSeq event)) group =
      groupSum ((s.insertEvent fns event).live.flatMap contribution) group := by
  rw [groupSum_append, before, groupSum_live, groupSum_live]
  rcases fits with ⟨recorded, isNew⟩ | ⟨retires, old, isOld, repeats⟩
  · rw [adds _ recorded]
    refine (liveSum_add (tracks.newest) isNew ?_).symm
    exact decide_eq_true recorded
  · obtain ⟨latest, wasLive⟩ := List.mem_filter.mp isOld
    have member := (mem_final.mp latest).1
    rw [takes _ retires, groupSum_neg, ← sub_eq_add_neg]
    have equal : contribution (eventToRow s.versionSeq event) = contribution old := by
      rw [repeats]
      exact same old member event.status
    rw [equal]
    refine (liveSum_retire tracks.newest tracks.distinct ?_ latest wasLive ?_).symm
    · exact decide_eq_false retires
    · rw [repeats]
      rfl

theorem usageRollupMv_recorded {row : EventRow} (recorded : row.status = .recorded) :
    usageRollupMv fns row = usageOf fns row := by
  simp [usageRollupMv, usageOf, sign, recorded]

theorem usageRollupMv_retired {row : EventRow} (retired : row.status ≠ .recorded) :
    usageRollupMv fns row = ((usageOf fns row).1, -(usageOf fns row).2) := by
  have minusOne : BitVec.ofInt 64 (-1) = -1 := by decide
  rw [usageRollupMv, sign, if_neg retired, minusOne, neg_one_mul, neg_one_mul, Int.cast_neg,
    Int.cast_one, neg_one_mul]
  rfl

theorem fieldUsageRollupMv_recorded {row : EventRow} (recorded : row.status = .recorded) :
    fieldUsageRollupMv fns row = fieldUsageOf fns row := by
  simp [fieldUsageRollupMv, fieldUsageOf, sign, recorded]

theorem fieldUsageRollupMv_retired {row : EventRow} (retired : row.status ≠ .recorded) :
    fieldUsageRollupMv fns row = (fieldUsageOf fns row).map fun part => (part.1, -part.2) := by
  simp [fieldUsageRollupMv, fieldUsageOf, sign, retired]

theorem versions_insertEvent (versions : ∀ row ∈ s.events, row.version < s.versionSeq) :
    ∀ row ∈ (s.insertEvent fns event).events,
      row.version < (s.insertEvent fns event).versionSeq := by
  intro row inside
  rcases List.mem_append.mp inside with before | isNew
  · exact (versions row before).trans (Nat.lt_succ_self _)
  · rw [List.mem_singleton.mp isNew]
    exact Nat.lt_succ_self _

theorem distinct_insertEvent (versions : ∀ row ∈ s.events, row.version < s.versionSeq)
    (distinct : (s.events.map EventRow.version).Nodup) :
    ((s.insertEvent fns event).events.map EventRow.version).Nodup := by
  rw [Tables.insertEvent, List.map_append, List.nodup_append]
  refine ⟨distinct, List.nodup_singleton _, ?_⟩
  rintro old member _ isNew rfl
  obtain ⟨row, inside, isOld⟩ := List.mem_map.mp member
  rw [← isOld] at isNew
  exact absurd (List.mem_singleton.mp isNew) (versions row inside).ne

/-- The latest rows after an insert. -/
theorem mem_final_insertEvent (versions : ∀ row ∈ s.events, row.version < s.versionSeq)
    {row : EventRow} : row ∈ (s.insertEvent fns event).final ↔
      (row ∈ s.final ∧ key row ≠ (event.orgId, event.id)) ∨
        row = eventToRow s.versionSeq event := by
  have newest : ∀ other ∈ s.events, other.version < (eventToRow s.versionSeq event).version :=
    versions
  change row ∈ Lib.final key EventRow.version (s.events ++ [eventToRow s.versionSeq event]) ↔ _
  rw [final_concat newest, List.mem_append, List.mem_filter, List.mem_singleton, decide_eq_true_eq]
  rfl

/-- **An insert that fits keeps the rollups right.** -/
theorem Tracks.insertEvent (tracks : Tracks fns s) (fits : Fits s event) :
    Tracks fns (s.insertEvent fns event) := by
  refine ⟨versions_insertEvent tracks.versions,
    distinct_insertEvent tracks.versions tracks.distinct, fun row inside => ?_, fun group => ?_,
    fun group => ?_⟩
  · rcases List.mem_append.mp inside with before | isNew
    · exact tracks.stored row before
    · rw [List.mem_singleton.mp isNew]
      exact ⟨millis_millis _, millis_millis _⟩
  · have single : ∀ rows : List EventRow, rows.map (usageOf fns) =
        rows.flatMap fun row => [usageOf fns row] := fun rows => List.map_eq_flatMap
    have before := tracks.usage group
    rw [single] at before ⊢
    refine moves_alike (fun row => [usageRollupMv fns row]) tracks fits
      (fun row recorded => ?_) (fun row retired => ?_) (fun old inside status => ?_) before
    · rw [usageRollupMv_recorded recorded]
    · rw [usageRollupMv_retired retired]
      rfl
    · simp [usageOf, usageGroup, eventToRow, (tracks.stored old inside).1, model, inputTokens,
        outputTokens, credits]
  · refine moves_alike (fieldUsageRollupMv fns) tracks fits (fun row => fieldUsageRollupMv_recorded)
      (fun row => fieldUsageRollupMv_retired) (fun old inside status => ?_) (tracks.fieldUsage group)
    simp [fieldUsageOf, promotedFieldsArrayJoin, fieldGroup, eventToRow,
      (tracks.stored old inside).1, credits]

theorem mem_live {row : EventRow} : row ∈ s.live ↔ row ∈ s.final ∧ row.status = .recorded := by
  rw [Tables.live, List.mem_filter, decide_eq_true_eq]

theorem Tracks.live_insertEvent (tracks : Tracks fns s) {row : EventRow} (isLive : row ∈ s.live)
    (apart : key row ≠ (event.orgId, event.id)) : row ∈ (s.insertEvent fns event).live := by
  obtain ⟨latest, recorded⟩ := mem_live.mp isLive
  exact mem_live.mpr ⟨(mem_final_insertEvent tracks.versions).mpr (.inl ⟨latest, apart⟩), recorded⟩

/-- What fits still fits after an insert under another key. -/
theorem Fits.insertEvent (tracks : Tracks fns s) {other : Event} (fits : Fits s other)
    (apart : (other.orgId, other.id) ≠ (event.orgId, event.id)) :
    Fits (s.insertEvent fns event) other := by
  rcases fits with ⟨recorded, isNew⟩ | ⟨retires, old, isLive, repeats⟩
  · refine Or.inl ⟨recorded, fun row inside => ?_⟩
    rcases List.mem_append.mp inside with before | isRow
    · exact isNew row before
    · rw [List.mem_singleton.mp isRow]
      exact fun same => apart same.symm
  · refine Or.inr ⟨retires, old, tracks.live_insertEvent isLive fun same => apart ?_, repeats⟩
    rw [← same, repeats]
    rfl

/-- One insert of several rows. -/
theorem Tracks.insertEvents {events : List Event} :
    ∀ {s : Tables}, Tracks fns s →
      (events.map fun event => (event.orgId, event.id)).Nodup →
      (∀ event ∈ events, Fits s event) → Tracks fns (s.insertEvents fns events) := by
  induction events with
  | nil => exact fun tracks _ _ => tracks
  | cons first rest ih =>
    intro s tracks distinct fits
    rw [List.map_cons, List.nodup_cons] at distinct
    refine ih (tracks.insertEvent (fits first List.mem_cons_self)) distinct.2 fun event inside => ?_
    refine (fits event (List.mem_cons_of_mem _ inside)).insertEvent tracks fun same => ?_
    exact distinct.1 (List.mem_map.mpr ⟨event, inside, same⟩)

end Insert

/-! ### Lookups -/

section Lookups

variable {fns : Functions} {client : Client} {s s' : Tables} {α : Type}

theorem mem_chunksOf {β : Type} {size : Nat} (positive : 0 < size) :
    ∀ {fuel : Nat} {items : List β}, items.length ≤ fuel → ∀ item ∈ items,
      ∃ chunk ∈ chunksOf size fuel items, item ∈ chunk
  | 0, items, short, item, inside => by
    rw [List.length_eq_zero_iff.mp (Nat.le_zero.mp short)] at inside
    exact absurd inside List.not_mem_nil
  | fuel + 1, [], _, item, inside => absurd inside List.not_mem_nil
  | fuel + 1, first :: rest, short, item, inside => by
    rw [← List.take_append_drop size (first :: rest)] at inside
    rcases List.mem_append.mp inside with now | later
    · exact ⟨_, List.mem_cons_self, now⟩
    · have shorter : ((first :: rest).drop size).length ≤ fuel := by
        rw [List.length_drop]
        have := short
        omega
      obtain ⟨chunk, member, holds⟩ := mem_chunksOf positive shorter item later
      exact ⟨chunk, List.mem_cons_of_mem _ member, holds⟩

theorem chunks_cover {β : Type} {items : List β} (item : β) (inside : item ∈ items) :
    ∃ chunk ∈ chunks 4000 items, item ∈ chunk :=
  mem_chunksOf (by decide) le_rfl item inside

/-- What the lookups find, and what is done with it. -/
theorem serves_lookUp {next : List EventId → Prog ChStmt α} {reply : α}
    {lookups : List (OrgId × List EventId)} {found : List EventId}
    (serves : (server fns).Serves (lookUp next lookups found) s reply s') :
    ∃ found', (server fns).Serves (next found') s reply s' ∧ ∀ id, id ∈ found' ↔ id ∈ found ∨
      ∃ lookup ∈ lookups, id ∈ lookup.2 ∧ ∃ row ∈ s.events, key row = (lookup.1, id) := by
  induction lookups generalizing found with
  | nil => exact ⟨found, serves, fun id => by simp⟩
  | cons lookup rest ih =>
    obtain ⟨answer, middle, ⟨rfl, exact⟩, later⟩ := Server.serves_stmt.mp serves
    obtain ⟨found', serves', members⟩ := ih later
    refine ⟨found', serves', fun id => ?_⟩
    rw [members, List.mem_append, exact]
    simp [or_assoc]

/-- **A stored event is found**, whatever the order and size of the lookups. -/
theorem serves_existingIds {events : List Event} {next : List EventId → Prog ChStmt α} {reply : α}
    (serves : (server fns).Serves (existingIds client events next) s reply s') :
    ∃ found, (server fns).Serves (next found) s reply s' ∧
      (∀ event ∈ events, ∀ row ∈ s.events, key row = (event.orgId, event.id) → event.id ∈ found) ∧
      ∀ id ∈ found, ∃ row ∈ s.events, row.id = id := by
  obtain ⟨found, serves', members⟩ := serves_lookUp serves
  refine ⟨found, serves', fun event inside row stored same => ?_, fun id isFound => ?_⟩
  · rw [members]
    have grouped : (event.orgId, (events.filter fun other => other.orgId = event.orgId).map
        Event.id) ∈ client.iterate (byOrg events) := by
      refine (client.iterate_perm _).mem_iff.mpr (List.mem_map.mpr ⟨event.orgId, ?_, rfl⟩)
      exact List.mem_dedup.mpr (List.mem_map_of_mem inside)
    have own : event.id ∈ (events.filter fun other => other.orgId = event.orgId).map Event.id :=
      List.mem_map_of_mem (List.mem_filter.mpr ⟨inside, decide_eq_true rfl⟩)
    obtain ⟨chunk, member, holds⟩ := chunks_cover event.id own
    exact Or.inr ⟨(event.orgId, chunk), List.mem_flatMap.mpr ⟨_, grouped,
      List.mem_map.mpr ⟨chunk, member, rfl⟩⟩, holds, row, stored, same⟩
  · rcases (members id).mp isFound with impossible | ⟨lookup, _, _, row, stored, same⟩
    · exact absurd impossible List.not_mem_nil
    · exact ⟨row, stored, congrArg Prod.snd same⟩

theorem survivors_spec {existing : List EventId} {event : Event} :
    ∀ {events : List Event} {seen : List EventId}, event ∈ survivors existing seen events →
      event ∈ events ∧ event.id ∉ existing ∧ event.id ∉ seen
  | first :: rest, seen, inside => by
    rw [survivors] at inside
    split at inside
    · obtain ⟨member, spec⟩ := survivors_spec inside
      exact ⟨List.mem_cons_of_mem _ member, spec⟩
    · rename_i kept
      rw [not_or] at kept
      rcases List.mem_cons.mp inside with rfl | later
      · exact ⟨List.mem_cons_self, kept⟩
      · obtain ⟨member, absent, unseen⟩ := survivors_spec later
        exact ⟨List.mem_cons_of_mem _ member, absent, fun seen' =>
          unseen (List.mem_cons_of_mem _ seen')⟩

theorem survivors_nodup {existing : List EventId} :
    ∀ {events : List Event} {seen : List EventId},
      ((survivors existing seen events).map Event.id).Nodup
  | [], seen => List.nodup_nil
  | first :: rest, seen => by
    rw [survivors]
    split
    · exact survivors_nodup
    · rw [List.map_cons, List.nodup_cons]
      refine ⟨fun again => ?_, survivors_nodup⟩
      obtain ⟨event, inside, same⟩ := List.mem_map.mp again
      exact (survivors_spec inside).2.2 (same ▸ List.mem_cons_self)

theorem survivors_keys {existing seen : List EventId} {events : List Event} :
    ((survivors existing seen events).map fun event => (event.orgId, event.id)).Nodup := by
  refine List.Nodup.of_map Prod.snd ?_
  rw [List.map_map]
  exact survivors_nodup

end Lookups

/-! ### Operations -/

section Operations

variable {fns : Functions} {client : Client} {s s' : Tables}

/-- The events that a batch asks for. -/
def asked (idempotentEventId : OrgId → String → EventId)
    (reqs : List (OffsetDateTime × RecordEvent)) : List Event :=
  reqs.map fun req => req.2.intoEvent idempotentEventId req.1

theorem mem_insertEvents {events : List Event} :
    ∀ {s : Tables} {row : EventRow}, row ∈ (s.insertEvents fns events).events →
      row ∈ s.events ∨ ∃ version, ∃ event ∈ events, row = eventToRow version event := by
  induction events with
  | nil => exact fun inside => Or.inl inside
  | cons first rest ih =>
    intro s row inside
    rcases ih inside with before | ⟨version, event, member, isRow⟩
    · rcases List.mem_append.mp before with earlier | isFirst
      · exact Or.inl earlier
      · exact Or.inr ⟨_, first, List.mem_cons_self, List.mem_singleton.mp isFirst⟩
    · exact Or.inr ⟨version, event, List.mem_cons_of_mem _ member, isRow⟩

/-- **What a batch does**: one insert of what is neither stored nor repeated in it. -/
theorem serves_recordBatch (exactlyOnce : client.ingestMode = .exactlyOnce)
    {reqs : List (OffsetDateTime × RecordEvent)} {reply : Except EventError (List Event)}
    (serves : (server fns).Serves (recordBatch client reqs) s reply s') :
    reply = .ok (asked client.idempotentEventId reqs) ∧ ∃ found,
      (∀ event ∈ asked client.idempotentEventId reqs, ∀ row ∈ s.events,
        key row = (event.orgId, event.id) → event.id ∈ found) ∧
      (∀ id ∈ found, ∃ row ∈ s.events, row.id = id) ∧
      s' = s.insertEvents fns (survivors found [] (asked client.idempotentEventId reqs)) := by
  unfold Clickhouse.recordBatch at serves
  split at serves
  · rename_i isEmpty
    obtain ⟨rfl, rfl⟩ := Server.serves_done.mp serves
    rw [List.isEmpty_iff.mp isEmpty]
    refine ⟨rfl, [], fun _ member => absurd member List.not_mem_nil,
      fun _ member => absurd member List.not_mem_nil, rfl⟩
  simp only [exactlyOnce] at serves
  obtain ⟨found, serves, known, stored⟩ := serves_existingIds serves
  split at serves
  · rename_i none
    obtain ⟨rfl, rfl⟩ := Server.serves_done.mp serves
    refine ⟨rfl, found, known, stored, ?_⟩
    rw [asked, none]
    rfl
  · rename_i first rest isWritten
    obtain ⟨_, middle, rfl, done⟩ := Server.serves_stmt.mp serves
    obtain ⟨rfl, rfl⟩ := Server.serves_done.mp done
    refine ⟨rfl, found, known, stored, ?_⟩
    rw [asked, isWritten]

/-- **A batch records first versions only.** -/
theorem Tracks.recordBatch (exactlyOnce : client.ingestMode = .exactlyOnce)
    (tracks : Tracks fns s) {reqs : List (OffsetDateTime × RecordEvent)}
    {reply : Except EventError (List Event)}
    (serves : (server fns).Serves (recordBatch client reqs) s reply s') : Tracks fns s' := by
  obtain ⟨_, found, known, _, rfl⟩ := serves_recordBatch exactlyOnce serves
  refine tracks.insertEvents survivors_keys fun event inside => ?_
  obtain ⟨member, absent, _⟩ := survivors_spec inside
  refine Or.inl ⟨?_, fun row stored same => absent (known event member row stored same)⟩
  obtain ⟨req, _, rfl⟩ := List.mem_map.mp member
  rfl

/-- An amendment of a current version, or a retry: it does not fork the event. -/
def Follows (client : Client) (s : Tables) (draw : Draw) (req : AmendEvent) : Prop :=
  ∀ original ∈ s.final, original.id = req.eventId → original.status = .amended →
    ∃ row ∈ s.events, key row = (original.orgId,
      (req.intoAmendedEvent client.idempotentEventId original.toEvent draw).id)

/-- A live version retired, and a new one recorded. -/
theorem Tracks.supersede (tracks : Tracks fns s) {row : EventRow} (latest : row ∈ s.final)
    (recorded : row.status = .recorded) {version : Event} (isRecorded : version.status = .recorded)
    (isNew : ∀ stored ∈ s.events, key stored ≠ (version.orgId, version.id)) :
    Tracks fns
      ((s.insertEvent fns { row.toEvent with status := .amended }).insertEvent fns version) := by
  have retired : Tracks fns (s.insertEvent fns { row.toEvent with status := .amended }) :=
    tracks.insertEvent (Or.inr ⟨by simp, row, mem_live.mpr ⟨latest, recorded⟩, rfl⟩)
  refine retired.insertEvent (Or.inl ⟨isRecorded, fun stored inside => ?_⟩)
  rcases List.mem_append.mp inside with before | isCopy
  · exact isNew stored before
  · rw [List.mem_singleton.mp isCopy]
    exact isNew row (mem_final.mp latest).1

/-- **What an amendment does**: nothing, or two inserts. -/
theorem serves_amend {draw : Draw} {req : AmendEvent} {reply : Except EventError Event}
    (serves : (server fns).Serves (amend client draw req) s reply s') :
    s' = s ∨ ∃ row ∈ s.final, row.id = req.eventId ∧ row.status ≠ .voided ∧
      (∀ stored ∈ s.events, key stored ≠ (row.orgId,
        (req.intoAmendedEvent client.idempotentEventId row.toEvent draw).id)) ∧
      s' = (s.insertEvent fns { row.toEvent with status := .amended }).insertEvent fns
        (req.intoAmendedEvent client.idempotentEventId row.toEvent draw) := by
  obtain ⟨answer, s, ⟨rfl, isAnswer⟩, serves⟩ := Server.serves_stmt.mp serves
  cases answer with
  | none => exact Or.inl (Server.serves_done.mp serves).2
  | some original =>
    obtain ⟨row, latest, isTarget, rfl⟩ := isAnswer
    simp only at serves
    split at serves
    · exact Or.inl (Server.serves_done.mp serves).2
    rename_i notVoided
    obtain ⟨found, serves, known, _⟩ := serves_existingIds serves
    split at serves
    · obtain ⟨again, s, ⟨rfl, _⟩, serves⟩ := Server.serves_stmt.mp serves
      cases again with
      | none => exact Or.inl (Server.serves_done.mp serves).2
      | some event => exact Or.inl (Server.serves_done.mp serves).2
    rename_i absent
    obtain ⟨_, middle, rfl, serves⟩ := Server.serves_stmt.mp serves
    obtain ⟨_, middle, rfl, serves⟩ := Server.serves_stmt.mp serves
    rw [(Server.serves_done.mp serves).2]
    refine Or.inr ⟨row, latest, isTarget, notVoided, fun stored inside same => ?_, rfl⟩
    exact absent (known _ List.mem_cons_self stored inside same)

/-- **An amendment retires the live version and records a new one.** -/
theorem Tracks.amend (tracks : Tracks fns s) {draw : Draw} {req : AmendEvent}
    (follows : Follows client s draw req) {reply : Except EventError Event}
    (serves : (server fns).Serves (amend client draw req) s reply s') : Tracks fns s' := by
  rcases serves_amend serves with rfl | ⟨row, latest, isTarget, notVoided, isNew, rfl⟩
  · exact tracks
  have recorded : row.status = .recorded := by
    cases isStatus : row.status with
    | recorded => rfl
    | voided => exact absurd isStatus notVoided
    | amended =>
      obtain ⟨stored, inside, same⟩ := follows row latest isTarget isStatus
      exact absurd same (isNew stored inside)
  exact tracks.supersede latest recorded rfl isNew

/-- The loop of a run void. -/
theorem Tracks.voidEach {events : List Event} :
    ∀ {s : Tables} {count : Nat}, Tracks fns s →
      (events.map fun event => (event.orgId, event.id)).Nodup →
      (∀ event ∈ events, ∃ row ∈ s.live, row.toEvent = event) →
      ∀ {reply : Except EventError Nat}, (server fns).Serves (voidEach events count) s reply s' →
      Tracks fns s' := by
  induction events with
  | nil =>
    intro s count tracks _ _ reply serves
    rw [(Server.serves_done.mp serves).2]
    exact tracks
  | cons first rest ih =>
    intro s count tracks distinct isLive reply serves
    rw [List.map_cons, List.nodup_cons] at distinct
    obtain ⟨_, middle, rfl, serves⟩ := Server.serves_stmt.mp serves
    obtain ⟨row, live, rfl⟩ := isLive first List.mem_cons_self
    refine ih (tracks.insertEvent (Or.inr ⟨by simp, row, live, rfl⟩)) distinct.2
      (fun event inside => ?_) serves
    obtain ⟨other, otherLive, rfl⟩ := isLive event (List.mem_cons_of_mem _ inside)
    refine ⟨other, tracks.live_insertEvent otherLive fun same => ?_, rfl⟩
    exact distinct.1 (List.mem_map.mpr ⟨other.toEvent, inside, same⟩)

/-- **A run void retires the live versions of the run.** -/
theorem Tracks.voidRun (tracks : Tracks fns s) {run : RunId} {reply : Except EventError Nat}
    (serves : (server fns).Serves (voidRun run) s reply s') : Tracks fns s' := by
  obtain ⟨rows, s, ⟨rfl, isRows⟩, loop⟩ := Server.serves_stmt.mp serves
  refine Tracks.voidEach tracks ?_ (fun event inside => ?_) loop
  · refine ((isRows.map _).nodup_iff).mpr ?_
    have keys : (s.final.map key).Nodup := final_keys_nodup tracks.distinct
    rw [Tables.liveOfRun, List.map_map]
    exact keys.sublist ((List.filter_sublist.trans List.filter_sublist).map _)
  · obtain ⟨row, member, rfl⟩ := List.mem_map.mp (isRows.mem_iff.mp inside)
    exact ⟨row, (List.mem_filter.mp member).1, rfl⟩

/-- A cleared and repopulated organization has the sums of the scan. -/
theorem groupSum_rebuilt {G M : Type} [DecidableEq G] [AddCommGroup M] {table : List (G × M)}
    {contribution : EventRow → List (G × M)} {org : OrgId} (orgOf : G → OrgId)
    (own : ∀ row, ∀ part ∈ contribution row, orgOf part.1 = row.orgId)
    (before : ∀ group, groupSum table group = groupSum (s.live.flatMap contribution) group)
    (group : G) :
    groupSum ((table.filter fun row => orgOf row.1 ≠ org) ++
      Lib.groupBy ((s.liveOfOrg org).flatMap contribution)) group =
        groupSum (s.live.flatMap contribution) group := by
  have scan : (s.liveOfOrg org).flatMap contribution =
      (s.live.flatMap contribution).filter fun part => orgOf part.1 = org := by
    rw [Tables.liveOfOrg]
    generalize s.live = rows
    induction rows with
    | nil => rfl
    | cons row rest ih =>
      rw [List.flatMap_cons, List.filter_append, ← ih, List.filter_cons]
      by_cases isOrg : row.orgId = org
      · have kept : ((contribution row).filter fun part => orgOf part.1 = org) =
            contribution row := List.filter_eq_self.mpr fun part inside => by
          rw [own row part inside, isOrg, decide_eq_true rfl]
        rw [kept, if_pos (decide_eq_true isOrg), List.flatMap_cons]
      · have dropped : ((contribution row).filter fun part => orgOf part.1 = org) = [] :=
          List.filter_eq_nil_iff.mpr fun part inside => by
            rw [own row part inside]
            simpa using isOrg
        rw [dropped, if_neg (by simpa using isOrg), List.nil_append]
  rw [groupSum_append, groupSum_groupBy, scan, groupSum_filter (fun group => orgOf group ≠ org),
    groupSum_filter (fun group => orgOf group = org), before]
  by_cases isOrg : orgOf group = org
  · simp [isOrg]
  · simp [isOrg]

/-- **A rebuild writes the scan.** -/
theorem Tracks.rebuildRollups (tracks : Tracks fns s) {org : OrgId} {reply : Unit}
    (serves : (server fns).Serves (rebuildRollups org) s reply s') : Tracks fns s' := by
  obtain ⟨_, _, rfl, serves⟩ := Server.serves_stmt.mp serves
  obtain ⟨_, _, rfl, serves⟩ := Server.serves_stmt.mp serves
  obtain ⟨_, _, rfl, serves⟩ := Server.serves_stmt.mp serves
  obtain ⟨_, _, rfl, serves⟩ := Server.serves_stmt.mp serves
  rw [(Server.serves_done.mp serves).2]
  have single : ∀ rows : List EventRow, rows.map (usageOf fns) =
      rows.flatMap fun row => [usageOf fns row] := fun rows => List.map_eq_flatMap
  have usage := tracks.usage
  simp only [single] at usage
  refine ⟨tracks.versions, tracks.distinct, tracks.stored, fun group => ?_,
    groupSum_rebuilt FieldGroup.orgId (fun row part inside => ?_) tracks.fieldUsage⟩
  · show groupSum ((s.usageRollup.filter fun row => row.1.orgId ≠ org) ++
      Lib.groupBy ((s.liveOfOrg org).map (usageOf fns))) group =
        groupSum (s.live.map (usageOf fns)) group
    rw [single, single]
    refine groupSum_rebuilt UsageGroup.orgId (fun row part inside => ?_) usage group
    rw [List.mem_singleton.mp inside]
    rfl
  · obtain ⟨field, _, rfl⟩ := List.mem_map.mp inside
    rfl

end Operations

/-! ### Sequential runs -/

/-- A call of the store. -/
inductive ChCall where
  | record (now : OffsetDateTime) (req : RecordEvent)
  | recordBatch (reqs : List (OffsetDateTime × RecordEvent))
  | amend (draw : Draw) (req : AmendEvent)
  | voidRun (run : RunId)
  | rebuildRollups (org : OrgId)

/-- A call that ran alone, to its answer. -/
def ChCall.Served (fns : Functions) (client : Client) : ChCall → Tables → Tables → Prop
  | .record now req, s, s' =>
      ∃ reply, (server fns).Serves (Clickhouse.record client now req) s reply s'
  | .recordBatch reqs, s, s' =>
      ∃ reply, (server fns).Serves (Clickhouse.recordBatch client reqs) s reply s'
  | .amend draw req, s, s' =>
      ∃ reply, (server fns).Serves (Clickhouse.amend client draw req) s reply s'
  | .voidRun run, s, s' => ∃ reply, (server fns).Serves (Clickhouse.voidRun run) s reply s'
  | .rebuildRollups org, s, s' =>
      ∃ reply, (server fns).Serves (Clickhouse.rebuildRollups org) s reply s'

/-- An amendment has a current target, or is a retry. -/
def ChCall.Follows (client : Client) (s : Tables) : ChCall → Prop
  | .amend draw req => Clickhouse.Follows client s draw req
  | .record _ _ | .recordBatch _ | .voidRun _ | .rebuildRollups _ => True

section Runs

variable {fns : Functions} {client : Client} {s s' : Tables}

theorem Tracks.step (exactlyOnce : client.ingestMode = .exactlyOnce) (tracks : Tracks fns s)
    {call : ChCall} (follows : call.Follows client s) (served : call.Served fns client s s') :
    Tracks fns s' := by
  cases call with
  | record now req =>
    obtain ⟨reply, serves⟩ := served
    obtain ⟨answer, middle, first, second⟩ := Server.serves_bind serves
    have recorded := tracks.recordBatch exactlyOnce first
    cases answer with
    | error error =>
      rw [(Server.serves_done.mp second).2]
      exact recorded
    | ok events =>
      rw [(Server.serves_done.mp second).2]
      exact recorded
  | recordBatch reqs =>
    obtain ⟨reply, serves⟩ := served
    exact tracks.recordBatch exactlyOnce serves
  | amend draw req =>
    obtain ⟨reply, serves⟩ := served
    exact tracks.amend follows serves
  | voidRun run =>
    obtain ⟨reply, serves⟩ := served
    exact tracks.voidRun serves
  | rebuildRollups org =>
    obtain ⟨reply, serves⟩ := served
    exact tracks.rebuildRollups serves

theorem Tracks.of_runs (exactlyOnce : client.ingestMode = .exactlyOnce) {versionSeq : Nat}
    {steps : List (ChCall × Tables)}
    (runs : Runs (ChCall.Served fns client) (Tables.new versionSeq) steps s)
    (follows : ∀ step ∈ steps, step.1.Follows client step.2) : Tracks fns s := by
  induction runs with
  | nil => exact .new versionSeq
  | snoc call _ served ih =>
    refine (ih fun step inside => follows step (List.mem_append_left _ inside)).step exactlyOnce ?_
      served
    exact follows (call, _) (List.mem_append_right _ (List.mem_singleton_self _))

end Runs

/-! ### What the scan says -/

section Scan

variable {fns : Functions} {s : Tables}

/-- What an event contributes for one field. -/
def fieldPart (fns : Functions) (row : EventRow) (field : String) :
    List (FieldGroup × FieldMetrics) :=
  if fns.jsonExtractString row.properties field = "" then []
  else [(fieldGroup fns row (field, fns.jsonExtractString row.properties field), 1, credits fns row)]

theorem fieldUsageOf_eq (row : EventRow) :
    fieldUsageOf fns row = promotedFields.flatMap (fieldPart fns row) := by
  rw [fieldUsageOf, promotedFieldsArrayJoin]
  induction promotedFields with
  | nil => rfl
  | cons first rest ih =>
    rw [List.flatMap_cons, ← ih, List.map_cons, List.filter_cons, fieldPart]
    by_cases empty : fns.jsonExtractString row.properties first = ""
    · simp [empty]
    · simp [empty]

/-- A sum over the promoted fields to which only one contributes. -/
theorem sum_promoted {M : Type} [AddCommGroup M] {field : String}
    (promoted : field ∈ promotedFields) {amount : String → M}
    (others : ∀ name, name ≠ field → amount name = 0) :
    (promotedFields.map amount).sum = amount field := by
  obtain ⟨before, after, split⟩ := List.append_of_mem promoted
  have distinct : promotedFields.Nodup := by decide
  rw [split, List.nodup_append, List.nodup_cons] at distinct
  have zero : ∀ {part : List String}, field ∉ part → (part.map amount).sum = 0 := fun absent =>
    List.sum_eq_zero fun value inside => by
      obtain ⟨name, member, rfl⟩ := List.mem_map.mp inside
      exact others name fun equal => absent (equal ▸ member)
  rw [split, List.map_append, List.map_cons, List.sum_append, List.sum_cons,
    zero distinct.2.1.1, zero fun inside => distinct.2.2 field inside field List.mem_cons_self rfl,
    zero_add, add_zero]

theorem sum_map_ite {R M : Type} [AddCommGroup M] (rows : List R) (keep : R → Prop)
    [DecidablePred keep] (amount : R → M) :
    (rows.map fun row => if keep row then amount row else 0).sum =
      ((rows.filter fun row => keep row).map amount).sum := by
  rw [List.sum_map_ite]
  simp

/-- **What the rollup says of a value, in all days together.** -/
theorem Tracks.value (tracks : Tracks fns s) {field : String} (promoted : field ∈ promotedFields)
    (org : OrgId) (value : String) :
    groupSum ((s.fieldUsageRollup.filter fun row => row.1.orgId = org ∧ row.1.fieldName = field).map
      fun row => (row.1.fieldValue, row.2)) value = if value = "" then 0 else
        groupSum ((s.liveOfOrg org).map fun row =>
          (fns.jsonExtractString row.properties field, ((1, credits fns row) : FieldMetrics)))
            value := by
  rw [groupSum_coarse_congr (fun group : FieldGroup => group.orgId = org ∧ group.fieldName = field)
    FieldGroup.fieldValue value tracks.fieldUsage, List.filter_flatMap, List.map_flatMap,
    groupSum_flatMap]
  have each : ∀ row : EventRow, groupSum (((fieldUsageOf fns row).filter fun part =>
      decide (part.1.orgId = org ∧ part.1.fieldName = field)).map fun part =>
        (part.1.fieldValue, part.2)) value =
      if row.orgId = org ∧ value ≠ "" ∧ fns.jsonExtractString row.properties field = value then
        ((1, credits fns row) : FieldMetrics) else 0 := fun row => by
    rw [fieldUsageOf_eq, List.filter_flatMap, List.map_flatMap, groupSum_flatMap,
      sum_promoted promoted fun name apart => ?_]
    · by_cases empty : fns.jsonExtractString row.properties field = ""
      · rw [fieldPart, if_pos empty, if_neg]
        · rfl
        · exact fun all => all.2.1 (all.2.2.symm.trans empty)
      · by_cases sameOrg : row.orgId = org
        · simp only [fieldPart, empty, fieldGroup, sameOrg, groupSum_cons, List.filter_cons,
            decide_true, and_self, if_true, if_false, List.filter_nil, List.map_cons, List.map_nil,
            groupSum_nil, add_zero, true_and]
          refine if_congr ⟨?_, fun both => both.2⟩ rfl rfl
          rintro rfl
          exact ⟨empty, rfl⟩
        · simp [fieldPart, empty, fieldGroup, sameOrg]
    · rw [fieldPart]
      split
      · rfl
      · simp [fieldGroup, apart]
  rw [List.map_congr_left fun row _ => each row, sum_map_ite]
  by_cases empty : value = ""
  · simp [empty]
  · rw [if_neg empty, groupSum, List.filter_map, List.map_map, Tables.liveOfOrg, List.filter_filter]
    congr 2
    refine List.filter_congr fun row _ => ?_
    simp [empty, Bool.and_comm]

/-- The number of events of a value. -/
theorem groupSum_counts {R : Type} (rows : List R) (valueOf : R → String) (spend : R → ℚ)
    (value : String) :
    (groupSum (rows.map fun row => (valueOf row, ((1, spend row) : FieldMetrics))) value).1 =
      rows.countP fun row => valueOf row = value := by
  induction rows with
  | nil => rfl
  | cons row rest ih =>
    rw [List.map_cons, groupSum_cons, Prod.fst_add, ih, List.countP_cons]
    by_cases same : valueOf row = value
    · simp [same, add_comm]
    · simp [same]

/-- **The burndown of a promoted field is that of the scan.** -/
theorem Tracks.usageByField (tracks : Tracks fns s) {field : String}
    (promoted : field ∈ promotedFields) (org : OrgId) :
    (usageByField fns org field s).Perm (usageByScan fns org field s) := by
  rw [Clickhouse.usageByField, if_pos promoted, usageByPromotedField, usageByScan, orderBySpend,
    orderBySpend]
  refine ((List.mergeSort_perm _ _).trans (List.Perm.map _ ?_)).trans (List.mergeSort_perm _ _).symm
  refine (List.perm_ext_iff_of_nodup (groupBy_nodup.filter _) (groupBy_nodup.filter _)).mpr ?_
  rintro ⟨value, total⟩
  have same := tracks.value promoted org value
  have count := groupSum_counts (s.liveOfOrg org)
    (fun row => fns.jsonExtractString row.properties field) (credits fns) value
  rw [List.mem_filter, List.mem_filter, mem_groupBy, mem_groupBy, decide_eq_true_eq,
    decide_eq_true_eq]
  constructor
  · rintro ⟨⟨_, rfl⟩, positive⟩
    by_cases empty : value = ""
    · rw [same, if_pos empty] at positive
      exact absurd positive (lt_irrefl 0)
    rw [same, if_neg empty] at positive ⊢
    refine ⟨⟨?_, rfl⟩, empty⟩
    by_contra absent
    rw [groupSum_eq_zero absent] at positive
    exact absurd positive (lt_irrefl 0)
  · rintro ⟨⟨present, rfl⟩, nonempty⟩
    rw [if_neg nonempty] at same
    have positive : 0 < (groupSum ((s.liveOfOrg org).map fun row =>
        (fns.jsonExtractString row.properties field, ((1, credits fns row) : FieldMetrics)))
          value).1 := by
      rw [count]
      obtain ⟨_, inside, isValue⟩ := List.mem_map.mp present
      obtain ⟨row, member, rfl⟩ := List.mem_map.mp inside
      exact_mod_cast List.countP_pos_iff.mpr ⟨row, member, decide_eq_true isValue⟩
    refine ⟨⟨?_, same.symm⟩, positive⟩
    by_contra absent
    rw [← same, groupSum_eq_zero absent] at positive
    exact absurd positive (lt_irrefl 0)

end Scan

section Compute

variable (fns : Functions)

/-- One answer of the server: rows in the order in which they are stored. -/
def ChStmt.exec {β : Type} (statement : ChStmt β) (s : Tables) : β × Tables :=
  match statement with
  | .selectById id => ((s.final.find? fun row => row.id = id).map EventRow.toEvent, s)
  | .selectExisting org ids =>
    (ids.filter fun id => decide (∃ row ∈ s.events, key row = (org, id)), s)
  | .selectForRun run => (s.liveOfRun run, s)
  | .insertEvents events => ((), s.insertEvents fns events)
  | .deleteUsageRollup org => ((), { s with
      usageRollup := s.usageRollup.filter fun row => row.1.orgId ≠ org })
  | .deleteFieldUsageRollup org => ((), { s with
      fieldUsageRollup := s.fieldUsageRollup.filter fun row => row.1.orgId ≠ org })
  | .insertUsageRollup org => ((), { s with
      usageRollup := s.usageRollup ++ Lib.groupBy ((s.liveOfOrg org).map (usageOf fns)) })
  | .insertFieldUsageRollup org => ((), { s with
      fieldUsageRollup :=
        s.fieldUsageRollup ++ Lib.groupBy ((s.liveOfOrg org).flatMap (fieldUsageOf fns)) })

/-- **A computed answer is an answer.** -/
theorem ChStmt.performs_exec {β : Type} (statement : ChStmt β) (s : Tables) :
    statement.Performs fns s (statement.exec fns s).1 (statement.exec fns s).2 := by
  cases statement with
  | selectById id =>
    refine ⟨rfl, ?_⟩
    cases isRow : s.final.find? fun row => row.id = id with
    | none =>
      simp only [exec, isRow, Option.map_none]
      intro row inside same
      exact absurd (List.find?_eq_none.mp isRow row inside) (by simpa using same)
    | some row =>
      simp only [exec, isRow, Option.map_some]
      exact ⟨row, List.mem_of_find?_eq_some isRow, by simpa using List.find?_some isRow, rfl⟩
  | selectExisting org ids =>
    refine ⟨rfl, fun id => ?_⟩
    simp [exec]
  | selectForRun run => exact ⟨rfl, List.Perm.refl _⟩
  | _ => rfl

/-- Run a program alone. -/
def runAlone {α : Type} : Prog ChStmt α → Tables → α × Tables :=
  Server.runWith fun statement => statement.exec fns

theorem serves_runAlone {α : Type} (program : Prog ChStmt α) (s : Tables) :
    (server fns).Serves program s (runAlone fns program s).1 (runAlone fns program s).2 :=
  Server.serves_runWith (fun statement => statement.performs_exec fns) program s

/-- Run a call alone. -/
def ChCall.run (client : Client) : ChCall → Tables → Tables
  | .record now req, s => (runAlone fns (Clickhouse.record client now req) s).2
  | .recordBatch reqs, s => (runAlone fns (Clickhouse.recordBatch client reqs) s).2
  | .amend draw req, s => (runAlone fns (Clickhouse.amend client draw req) s).2
  | .voidRun run, s => (runAlone fns (Clickhouse.voidRun run) s).2
  | .rebuildRollups org, s => (runAlone fns (Clickhouse.rebuildRollups org) s).2

theorem ChCall.served_run (client : Client) (call : ChCall) (s : Tables) :
    call.Served fns client s (call.run fns client s) := by
  cases call with
  | _ => exact ⟨_, serves_runAlone fns _ s⟩

end Compute

instance (client : Client) (s : Tables) (draw : Draw) (req : AmendEvent) :
    Decidable (Follows client s draw req) :=
  inferInstanceAs (Decidable (∀ original ∈ s.final, original.id = req.eventId →
    original.status = .amended → ∃ row ∈ s.events, key row = (original.orgId,
      (req.intoAmendedEvent client.idempotentEventId original.toEvent draw).id)))

instance (client : Client) (s : Tables) : (call : ChCall) → Decidable (call.Follows client s)
  | .amend draw req => inferInstanceAs (Decidable (Clickhouse.Follows client s draw req))
  | .record _ _ | .recordBatch _ | .voidRun _ | .rebuildRollups _ => .isTrue trivial

/-- A number written in digits. -/
def readDigits (text : String) : ℚ :=
  text.toList.foldl (fun number digit => 10 * number + (digit.toNat - 48 : Nat)) 0

/-- What the server makes of plain JSON fields and numbers, and days of nanoseconds. -/
def sampleFunctions : Functions where
  jsonExtractString properties field := ((properties.get? field).bind Json.asStr?).getD ""
  jsonExtractUInt properties field := match properties.get? field with
    | some (.number value) => BitVec.ofNat 64 value.num.toNat
    | _ => 0
  toFloat64OrZero := readDigits
  toDate time := time / 86400000000000

/-- Event ids by the length of their key. -/
def sampleClient : Client where
  idempotentEventId := fun _ key => OfNat.ofNat key.length
  iterate := id
  iterate_perm := List.Perm.refl
  ingestMode := .exactlyOnce

def teamUsage (team spent : String) : Json :=
  .object [("team", .string team), ("model", .string "small"), ("credits", .string spent)]

def sampleRequest (key : String) (run : Option RunId) (properties : Json) : RecordEvent where
  orgId := 1
  idempotencyKey := key
  eventTime := 0
  meter := "tokens"
  accountId := 1
  runId := run
  properties := properties

/-- A batch with a duplicate, an amendment that moves an event to another team, a rebuild, the void
of a run, and the amendment again. -/
def sampleCalls : List ChCall := [
  .recordBatch [(0, sampleRequest "k" none (teamUsage "alpha" "5")),
    (1, sampleRequest "k" none (teamUsage "alpha" "5")),
    (2, sampleRequest "kk" (some 7) (teamUsage "beta" "7"))],
  .amend ⟨3, 0⟩ ⟨1, teamUsage "beta" "3", some "a"⟩,
  .rebuildRollups 1,
  .voidRun 7,
  .amend ⟨4, 0⟩ ⟨1, teamUsage "beta" "3", some "a"⟩]

/-- The calls with the tables they found, and the tables after them. -/
def sampleRun : List (ChCall × Tables) × Tables :=
  sampleCalls.foldl (fun run call =>
    (run.1 ++ [(call, run.2)], call.run sampleFunctions sampleClient run.2)) ([], Tables.new 0)

theorem sample_runs :
    Runs (ChCall.Served sampleFunctions sampleClient) (Tables.new 0) sampleRun.1 sampleRun.2 :=
  runs_of_foldl (fun call s => (call, call.run sampleFunctions sampleClient s))
    (fun call s => call.served_run sampleFunctions sampleClient s) sampleCalls .nil

end Meter.Clickhouse
