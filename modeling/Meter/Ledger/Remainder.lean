/-
**The unreversed remainder of an entry.**

`unreversed_remainder` looks an entry up by its id and subtracts every entry that references it.
While ids are distinct the lookup is the entry itself (`charged_of_mem`), and a new posting changes
the remainder of the entries already there by exactly its own delta, at the one entry it references
(`unreversedRemainder_append`). Everything about refunds rests on that equation.
-/

import Meter.Ledger.Action

namespace Meter.Ledger

open Meter.Lib

/-- The deltas of the entries that reference an entry. -/
def linkedSum (entries : List LedgerEntry) (entryId : EntryId) : Credit :=
  ((entries.filter fun entry => entry.reversesEntryId = some entryId).map
    LedgerEntry.deltaCredits).sum

theorem linkedSum_append (first second : List LedgerEntry) (id : EntryId) :
    linkedSum (first ++ second) id = linkedSum first id + linkedSum second id := by
  rw [linkedSum, linkedSum, linkedSum, List.filter_append, List.map_append, List.sum_append]

theorem linkedSum_singleton (entry : LedgerEntry) (id : EntryId) : linkedSum [entry] id =
    if entry.reversesEntryId = some id then entry.deltaCredits else 0 := by
  by_cases links : entry.reversesEntryId = some id
  · simp [linkedSum, links]
  · simp [linkedSum, links]

namespace State

variable {s : State}

theorem reversed_eq (s : State) (id : EntryId) : s.reversed id = linkedSum s.entries id := rfl

/-- Looking an entry up by its id finds it. -/
theorem find?_id {entries : List LedgerEntry} (distinct : (entries.map LedgerEntry.id).Nodup)
    {entry : LedgerEntry} (member : entry ∈ entries) :
    entries.find? (fun other => other.id = entry.id) = some entry := by
  rw [List.find?_eq_some_iff_append]
  obtain ⟨before, after, rfl⟩ := List.append_of_mem member
  refine ⟨by simp, before, after, rfl, fun other earlier => ?_⟩
  rw [List.map_append, List.nodup_append] at distinct
  have different := distinct.2.2 _ (List.mem_map_of_mem earlier) entry.id (by simp)
  simpa using different

theorem charged_of_mem (distinct : s.entryIds.Nodup) {entry : LedgerEntry}
    (member : entry ∈ s.entries) : s.charged entry.id = entry.deltaCredits := by
  rw [charged, find?_id distinct member]
  rfl

/-- Entries appended later do not change what was charged. -/
theorem charged_append {s' : State} {posted : List LedgerEntry}
    (same : s'.entries = s.entries ++ posted) {id : EntryId} (known : id ∈ s.entryIds) :
    s'.charged id = s.charged id := by
  obtain ⟨old, member, isOld⟩ := List.mem_map.mp known
  have found : (s.entries.find? fun other => other.id = id).isSome := by
    rw [List.find?_isSome]
    exact ⟨old, member, by simpa using isOld⟩
  rw [charged, charged, same, List.find?_append, Option.or_of_isSome found]

theorem reversed_append {s' : State} {posted : List LedgerEntry}
    (same : s'.entries = s.entries ++ posted) (id : EntryId) :
    s'.reversed id = s.reversed id + linkedSum posted id := by
  rw [reversed_eq, reversed_eq, same, linkedSum_append]

/-- **New postings move a remainder by the deltas that reference it.** -/
theorem unreversedRemainder_append {s' : State} {posted : List LedgerEntry}
    (same : s'.entries = s.entries ++ posted) {id : EntryId} (known : id ∈ s.entryIds) :
    s'.unreversedRemainder id = s.unreversedRemainder id - linkedSum posted id := by
  rw [unreversedRemainder, unreversedRemainder, charged_append same known, reversed_append same]
  ring

/-- **A new posting moves one remainder, by its own delta.** -/
theorem unreversedRemainder_record {id : EntryId} (known : id ∈ s.entryIds) (entry : LedgerEntry) :
    (s.record entry).unreversedRemainder id = s.unreversedRemainder id -
      if entry.reversesEntryId = some id then entry.deltaCredits else 0 := by
  rw [unreversedRemainder_append (record_entries s entry) known, linkedSum_singleton]

theorem unreversedRemainder_congr {s' : State} (same : s'.entries = s.entries) (id : EntryId) :
    s'.unreversedRemainder id = s.unreversedRemainder id := by
  simp only [unreversedRemainder, charged, reversed, linked, same]

/-- The first entry under a key stays the first. -/
theorem findKeyed_append {s' : State} {posted : List LedgerEntry}
    (same : s'.entries = s.entries ++ posted) {account : AccountId} {key : String}
    {entry : LedgerEntry} (found : s.findKeyed account key = some entry) :
    s'.findKeyed account key = some entry := by
  rw [findKeyed] at found ⊢
  rw [same, List.find?_append, found, Option.some_or]

theorem mem_entryIds_record {id : EntryId} {entry : LedgerEntry} :
    id ∈ (s.record entry).entryIds ↔ id ∈ s.entryIds ∨ id = entry.id := by
  simp [entryIds]

end State

end Meter.Ledger
