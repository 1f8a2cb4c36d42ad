/-
**Calls of the event store, interleaved and cut off.**

Every operation reads first and then inserts without looking again, and nothing is locked. Whether
the rollups stay right therefore depends on what happens between a read and its inserts.

* `Timely` — what a statement must find: an insert, that the key of a first row is still free, that
  the row it retires is still live as it was read, and that the version it supersedes has no other
  successor; a run void, that no amendment of the run is half done.
* `Change` — what a timely insert can do. All calls rely on it and guarantee it.
* `settles_of_timely` — **in every interleaving of timely calls**, also with calls cut off, the
  rollups equal the live scan, and what was recorded before a run void started is not live after it.
* `interleaved_counts_twice` — two batches with the same event: both look it up before either
  inserts, and the rollup counts it twice.
-/

import Meter.Clickhouse.Rollups

namespace Meter.Clickhouse

open Meter.Lib Meter.Events Relation

/-! ### Interleavings -/

/-- The programs of calls: batches, amendments and run voids. -/
inductive Started (client : Client) : (Σ α : Type, Prog ChStmt α) → Prop
  | recordBatch (reqs : List (OffsetDateTime × RecordEvent)) :
      Started client ⟨_, recordBatch client reqs⟩
  | amend (draw : Draw) (req : AmendEvent) : Started client ⟨_, amend client draw req⟩
  | voidRun (run : RunId) : Started client ⟨_, voidRun run⟩

/-- A stored version supersedes another one of its organization. -/
def Supersedes (s : Tables) (older newer : OrgId × EventId) : Prop :=
  ∃ row ∈ s.events, key row = newer ∧ row.orgId = older.1 ∧ row.supersedes = some older.2

/-- A version of a version of an event. -/
def Descends (s : Tables) : OrgId × EventId → OrgId × EventId → Prop := ReflTransGen (Supersedes s)

/-- No version of an event of the run that was stored before is live after. -/
def VoidedFor (run : RunId) (before after : Tables) : Prop :=
  ∀ first ∈ before.events, first.runId = some run → ∀ row ∈ after.live,
    ¬ Descends after (key first) (key row)

/-- A row that is not stale. -/
def Timely (s : Tables) (event : Event) : Prop :=
  (event.status = .recorded ∧ (∀ row ∈ s.events, key row ≠ (event.orgId, event.id)) ∧
    ∀ original, event.supersedes = some original →
      (∃ row ∈ s.final, key row = (event.orgId, original) ∧ row.status = .amended) ∧
      ∀ row ∈ s.events, row.orgId = event.orgId → row.supersedes ≠ some original) ∨
  (event.status ≠ .recorded ∧ ∃ old ∈ s.live, event = { old.toEvent with status := event.status })

/-- **No stale write**, and no run void in the middle of an amendment. -/
def ChStmt.Timely {β : Type} (statement : ChStmt β) (s : Tables) : Prop :=
  match statement with
  | .insertEvents events => ∀ event ∈ events, Clickhouse.Timely s event
  | .selectForRun run => ∀ row ∈ s.final, row.runId = some run → row.status = .amended →
      ∃ newer ∈ s.events, newer.orgId = row.orgId ∧ newer.supersedes = some row.id
  | _ => True

/-- The server, as long as the statements are timely. -/
def timely (fns : Functions) : Server ChStmt Tables := (server fns).only ChStmt.Timely

/-- The version that a new one supersedes is of the same run. -/
def Inherits (s : Tables) (event : Event) : Prop :=
  event.status = .recorded → ∀ original, event.supersedes = some original →
    ∃ row ∈ s.events, key row = (event.orgId, original) ∧ row.runId = event.runId

/-- What a timely insert can do. -/
def Change (fns : Functions) (s s' : Tables) : Prop :=
  ∃ event, Timely s event ∧ Inherits s event ∧ s' = s.insertEvent fns event

/-- What others can do. -/
def Changes (fns : Functions) : Tables → Tables → Prop := ReflTransGen (Change fns)

/-- Rows of one event agree on its run, and its versions too. -/
structure Coherent (fns : Functions) (s : Tables) : Prop extends Tracks fns s where
  runs : ∀ first ∈ s.events, ∀ second ∈ s.events, key first = key second →
    first.runId = second.runId
  known : ∀ row ∈ s.events, ∀ original, row.supersedes = some original →
    ∃ older ∈ s.events, key older = (row.orgId, original)
  inherits : ∀ row ∈ s.events, ∀ original, row.supersedes = some original →
    ∀ older ∈ s.events, key older = (row.orgId, original) → older.runId = row.runId

section Changes

variable {fns : Functions} {s s' : Tables} {event : Event}

theorem Timely.fits (timely : Timely s event) : Fits s event := by
  rcases timely with ⟨recorded, isNew, _⟩ | retires
  · exact Or.inl ⟨recorded, isNew⟩
  · exact Or.inr retires

theorem mem_insertEvent {row : EventRow} : row ∈ (s.insertEvent fns event).events ↔
    row ∈ s.events ∨ row = eventToRow s.versionSeq event := by
  show row ∈ s.events ++ [eventToRow s.versionSeq event] ↔ _
  rw [List.mem_append, List.mem_singleton]

theorem Coherent.new (versionSeq : Nat) : Coherent fns (Tables.new versionSeq) where
  toTracks := .new versionSeq
  runs := fun _ inside => absurd inside List.not_mem_nil
  known := fun _ inside => absurd inside List.not_mem_nil
  inherits := fun _ inside => absurd inside List.not_mem_nil

/-- **A timely insert keeps the table coherent.** -/
theorem Coherent.change (coherent : Coherent fns s) (change : Change fns s s') :
    Coherent fns s' := by
  obtain ⟨event, timely, inherits, rfl⟩ := change
  have tracks := coherent.toTracks.insertEvent timely.fits
  rcases timely with ⟨recorded, isNew, _⟩ | ⟨retires, old, isLive, repeats⟩
  · have apart : ∀ row ∈ s.events, key row ≠ key (eventToRow s.versionSeq event) := isNew
    refine ⟨tracks, ?_, ?_, ?_⟩
    · intro first inFirst second inSecond same
      rcases mem_insertEvent.mp inFirst with before | rfl
      · rcases mem_insertEvent.mp inSecond with before' | rfl
        · exact coherent.runs first before second before' same
        · exact absurd same (apart first before)
      · rcases mem_insertEvent.mp inSecond with before' | rfl
        · exact absurd same.symm (apart second before')
        · rfl
    · intro row inside original supersedes
      rcases mem_insertEvent.mp inside with before | rfl
      · obtain ⟨older, stored, same⟩ := coherent.known row before original supersedes
        exact ⟨older, mem_insertEvent.mpr (Or.inl stored), same⟩
      · obtain ⟨older, stored, same, _⟩ := inherits recorded original supersedes
        exact ⟨older, mem_insertEvent.mpr (Or.inl stored), same⟩
    · intro row inside original supersedes older inOlder same
      rcases mem_insertEvent.mp inside with before | rfl
      · obtain ⟨known, stored, isKnown⟩ := coherent.known row before original supersedes
        rcases mem_insertEvent.mp inOlder with before' | rfl
        · exact coherent.inherits row before original supersedes older before' same
        · exact absurd (isKnown.trans same.symm) (apart known stored)
      · obtain ⟨known, stored, isKnown, sameRun⟩ := inherits recorded original supersedes
        rcases mem_insertEvent.mp inOlder with before' | rfl
        · rw [coherent.runs older before' known stored (same.trans isKnown.symm)]
          exact sameRun
        · exact absurd (isKnown.trans same.symm) (apart known stored)
  · -- the new row repeats a stored one in its key, its run and what it supersedes
    have stored := (mem_final.mp (mem_live.mp isLive).1).1
    have like : ∀ row ∈ (s.insertEvent fns event).events, ∃ twin ∈ s.events,
        key twin = key row ∧ twin.runId = row.runId ∧ twin.supersedes = row.supersedes := by
      intro row inside
      rcases mem_insertEvent.mp inside with before | rfl
      · exact ⟨row, before, rfl, rfl, rfl⟩
      · rw [repeats]
        exact ⟨old, stored, rfl, rfl, rfl⟩
    refine ⟨tracks, ?_, ?_, ?_⟩
    · intro first inFirst second inSecond same
      obtain ⟨twin, inside, isKey, isRun, _⟩ := like first inFirst
      obtain ⟨twin', inside', isKey', isRun', _⟩ := like second inSecond
      rw [← isRun, ← isRun']
      exact coherent.runs twin inside twin' inside' (isKey.trans (same.trans isKey'.symm))
    · intro row inside original supersedes
      obtain ⟨twin, member, isKey, _, isSuper⟩ := like row inside
      obtain ⟨older, inOlder, same⟩ := coherent.known twin member original
        (isSuper.trans supersedes)
      refine ⟨older, mem_insertEvent.mpr (Or.inl inOlder), same.trans ?_⟩
      rw [show twin.orgId = row.orgId from congrArg Prod.fst isKey]
    · intro row inside original supersedes older inOlder same
      obtain ⟨twin, member, isKey, isRun, isSuper⟩ := like row inside
      obtain ⟨twin', member', isKey', isRun', _⟩ := like older inOlder
      rw [← isRun, ← isRun']
      refine coherent.inherits twin member original (isSuper.trans supersedes) twin' member' ?_
      rw [isKey', same, show twin.orgId = row.orgId from congrArg Prod.fst isKey]

theorem Coherent.changes (coherent : Coherent fns s) (changes : Changes fns s s') :
    Coherent fns s' := by
  induction changes with
  | refl => exact coherent
  | tail _ change ih => exact ih.change change

theorem Changes.mem (changes : Changes fns s s') {row : EventRow} (inside : row ∈ s.events) :
    row ∈ s'.events := by
  induction changes with
  | refl => exact inside
  | tail _ change ih =>
    obtain ⟨event, _, _, rfl⟩ := change
    exact mem_insertEvent.mpr (Or.inl ih)

end Changes

/-! ### What the calls guarantee -/

section Guarantees

variable {fns : Functions} {client : Client} {s s' : Tables} {α : Type}

/-- A program that keeps to timely inserts, whatever the others insert. -/
abbrev Keeps (fns : Functions) (program : Prog ChStmt α) (post : α → Tables → Prop) (s : Tables) :
    Prop :=
  (timely fns).Assures (Changes fns) (Changes fns) program post s

theorem keeps_done {reply : α} : Keeps fns (.done reply) (fun _ _ => True) s := fun _ _ => trivial

/-- The lookups change nothing. -/
theorem keeps_lookUp {next : List EventId → Prog ChStmt α} {post : α → Tables → Prop}
    (rest : ∀ found s', Changes fns s s' → Keeps fns (next found) post s')
    {lookups : List (OrgId × List EventId)} {found : List EventId} :
    Keeps fns (lookUp next lookups found) post s := by
  induction lookups generalizing found s with
  | nil => exact rest found s .refl
  | cons lookup lookups ih =>
    rintro s' relied answer _ ⟨_, rfl, _⟩
    exact ⟨.refl, ih fun found after later => rest found after (relied.trans later)⟩

/-- First versions, inserted at once. -/
theorem changes_insertFirsts {events : List Event} :
    ∀ {s : Tables}, Coherent fns s → (∀ event ∈ events, Timely s event) →
      (events.map fun event => (event.orgId, event.id)).Nodup →
      (∀ event ∈ events, event.status = .recorded ∧ event.supersedes = none) →
      Changes fns s (s.insertEvents fns events) := by
  induction events with
  | nil => exact fun _ _ _ _ => .refl
  | cons first rest ih =>
    intro s coherent timely distinct firsts
    rw [List.map_cons, List.nodup_cons] at distinct
    have change : Change fns s (s.insertEvent fns first) := by
      refine ⟨first, timely first List.mem_cons_self, fun _ original supersedes => ?_, rfl⟩
      cases (firsts first List.mem_cons_self).2.symm.trans supersedes
    refine (ReflTransGen.single change).trans (ih (coherent.change change)
      (fun event inside => Or.inl ?_) distinct.2 fun event inside =>
        firsts event (List.mem_cons_of_mem _ inside))
    obtain ⟨recorded, none⟩ := firsts event (List.mem_cons_of_mem _ inside)
    refine ⟨recorded, fun row stored same => ?_, fun original supersedes => ?_⟩
    · rcases timely event (List.mem_cons_of_mem _ inside) with ⟨_, isNew, _⟩ | ⟨retires, _⟩
      · rcases mem_insertEvent.mp stored with before | rfl
        · exact isNew row before same
        · exact distinct.1 (List.mem_map.mpr ⟨event, inside, same.symm⟩)
      · exact retires recorded
    · cases none.symm.trans supersedes

theorem keeps_recordBatch (coherent : Coherent fns s)
    (reqs : List (OffsetDateTime × RecordEvent)) :
    Keeps fns (recordBatch client reqs) (fun _ _ => True) s := by
  unfold recordBatch
  split
  · exact keeps_done
  dsimp only
  generalize isEvents : reqs.map (fun req =>
    req.2.intoEvent client.idempotentEventId req.1) = events
  have inserts : ∀ existing s', Changes fns s s' → Keeps fns
      (.stmt (.insertEvents (survivors existing [] events)) fun _ =>
        .done (Except.ok (ε := EventError) events)) (fun _ _ => True) s' := by
    rintro existing s' relied s'' relied' answer _ ⟨timely, rfl⟩
    refine ⟨?_, keeps_done⟩
    refine changes_insertFirsts (coherent.changes (relied.trans relied')) timely survivors_keys
      fun event inside => ?_
    have member := (survivors_spec inside).1
    rw [← isEvents] at member
    obtain ⟨req, _, rfl⟩ := List.mem_map.mp member
    exact ⟨rfl, rfl⟩
  split
  · split
    · exact keeps_done
    · rename_i isWritten
      rw [← isWritten]
      exact inserts [] s .refl
  · refine keeps_lookUp fun existing s' relied => ?_
    split
    · exact keeps_done
    · rename_i isWritten
      rw [← isWritten]
      exact inserts existing s' relied

/-- A row inserted alone. -/
theorem change_single {event : Event} (timely : Timely s event) (inherits : Inherits s event) :
    Changes fns s (s.insertEvents fns [event]) := .single ⟨event, timely, inherits, rfl⟩

theorem keeps_amend (draw : Draw) (req : AmendEvent) :
    Keeps fns (amend client draw req) (fun _ _ => True) s := by
  rintro s relied answer _ ⟨_, rfl, _⟩
  refine ⟨.refl, ?_⟩
  cases answer with
  | none => exact keeps_done
  | some original =>
    dsimp only
    split
    · exact keeps_done
    refine keeps_lookUp fun found s' _ => ?_
    split
    · rintro s'' _ answer _ ⟨_, rfl, _⟩
      refine ⟨.refl, ?_⟩
      cases answer with
      | none => exact keeps_done
      | some event => exact keeps_done
    rintro s'' _ answer _ ⟨timely, rfl⟩
    refine ⟨change_single (timely _ List.mem_cons_self) fun recorded => ?_, ?_⟩
    · cases recorded
    -- the retired row stays, with the run that the new version inherits
    rintro last later answer _ ⟨timely', rfl⟩
    refine ⟨change_single (timely' _ List.mem_cons_self) fun _ superseded same => ?_, keeps_done⟩
    cases same
    exact ⟨_, later.mem (mem_insertEvent.mpr (Or.inr rfl)), rfl, rfl⟩

end Guarantees

/-! ### Run voids -/

/-- A run void under way: everything of the run is retired, followed by its successor, or still to be
voided, and nothing new descends from it. -/
structure Swept (mine : OrgId × EventId → Prop) (remaining : List Event) (s : Tables) : Prop where
  stored : ∀ version, mine version → ∃ row ∈ s.events, key row = version
  followed : ∀ row ∈ s.final, mine (key row) → row.status = .amended →
    ∃ newer ∈ s.events, newer.orgId = row.orgId ∧ newer.supersedes = some row.id
  pending : ∀ row ∈ s.live, mine (key row) → row.toEvent ∈ remaining
  closed : ∀ row ∈ s.events, ∀ original, row.supersedes = some original →
    mine (row.orgId, original) → mine (key row)

/-- An event that is still to be voided is not live any more: that insert would be stale. -/
def Stale (remaining : List Event) (s : Tables) : Prop :=
  ∃ event ∈ remaining, (∃ row ∈ s.events, key row = (event.orgId, event.id)) ∧
    ∀ row ∈ s.live, key row ≠ (event.orgId, event.id)

section Voids

variable {fns : Functions} {s s' : Tables} {mine : OrgId × EventId → Prop} {event : Event}
  {remaining : List Event}

theorem mem_live_insertEvent (tracks : Tracks fns s) {row : EventRow} :
    row ∈ (s.insertEvent fns event).live ↔
      (row ∈ s.live ∧ key row ≠ (event.orgId, event.id)) ∨
        (event.status = .recorded ∧ row = eventToRow s.versionSeq event) := by
  rw [mem_live, mem_final_insertEvent tracks.versions, mem_live]
  constructor
  · rintro ⟨⟨latest, apart⟩ | rfl, recorded⟩
    · exact Or.inl ⟨⟨latest, recorded⟩, apart⟩
    · exact Or.inr ⟨recorded, rfl⟩
  · rintro (⟨⟨latest, recorded⟩, apart⟩ | ⟨recorded, rfl⟩)
    · exact ⟨Or.inl ⟨latest, apart⟩, recorded⟩
    · exact ⟨Or.inr rfl, recorded⟩

/-- What is not live does not become live again. -/
theorem Stale.change (tracks : Tracks fns s) (timely : Timely s event)
    (stale : Stale remaining s) : Stale remaining (s.insertEvent fns event) := by
  obtain ⟨gone, member, ⟨row, stored, same⟩, dead⟩ := stale
  refine ⟨gone, member, ⟨row, mem_insertEvent.mpr (Or.inl stored), same⟩, fun other isLive => ?_⟩
  rcases (mem_live_insertEvent tracks).mp isLive with ⟨before, _⟩ | ⟨recorded, rfl⟩
  · exact dead other before
  · rcases timely with ⟨_, isNew, _⟩ | ⟨retires, _⟩
    · exact fun isGone => isNew row stored (same.trans isGone.symm)
    · exact absurd recorded retires

/-- Retiring a version of the run, without a successor, leaves the rest as it was. -/
theorem Swept.retire (tracks : Tracks fns s) (swept : Swept mine remaining s)
    (retires : event.status = .voided ∨ ¬ mine (event.orgId, event.id))
    {old : EventRow} (isLive : old ∈ s.live)
    (repeats : event = { old.toEvent with status := event.status })
    (dead : event.status ≠ .recorded) {rest : List Event}
    (kept : ∀ row ∈ s.live, key row ≠ (event.orgId, event.id) → row.toEvent ∈ remaining →
      row.toEvent ∈ rest) : Swept mine rest (s.insertEvent fns event) := by
  have stored := (mem_final.mp (mem_live.mp isLive).1).1
  refine ⟨fun version isMine => ?_, fun row latest isMine amended => ?_,
    fun row live isMine => ?_, fun row inside original supersedes isMine => ?_⟩
  · obtain ⟨row, inside, same⟩ := swept.stored version isMine
    exact ⟨row, mem_insertEvent.mpr (Or.inl inside), same⟩
  · rcases (mem_final_insertEvent tracks.versions).mp latest with ⟨before, _⟩ | rfl
    · obtain ⟨newer, inside, follows⟩ := swept.followed row before isMine amended
      exact ⟨newer, mem_insertEvent.mpr (Or.inl inside), follows⟩
    · rcases retires with voided | other
      · cases voided.symm.trans amended
      · exact absurd isMine other
  · rcases (mem_live_insertEvent tracks).mp live with ⟨before, apart⟩ | ⟨recorded, _⟩
    · exact kept row before apart (swept.pending row before isMine)
    · exact absurd recorded dead
  · rcases mem_insertEvent.mp inside with before | rfl
    · exact swept.closed row before original supersedes isMine
    · rw [repeats] at supersedes isMine ⊢
      exact swept.closed old stored original supersedes isMine

/-- **What others insert leaves a run void right or makes it stale.** -/
theorem Swept.change (tracks : Tracks fns s) (timely : Timely s event)
    (swept : Swept mine remaining s) :
    Swept mine remaining (s.insertEvent fns event) ∨ Stale remaining (s.insertEvent fns event) := by
  rcases timely with ⟨recorded, isNew, succeeds⟩ | ⟨retires, old, isLive, repeats⟩
  · have other : ¬ mine (event.orgId, event.id) := fun isMine => by
      obtain ⟨row, inside, same⟩ := swept.stored _ isMine
      exact isNew row inside same
    refine Or.inl ⟨fun version isMine => ?_, fun row latest isMine amended => ?_,
      fun row live isMine => ?_, fun row inside original supersedes isMine => ?_⟩
    · obtain ⟨row, inside, same⟩ := swept.stored version isMine
      exact ⟨row, mem_insertEvent.mpr (Or.inl inside), same⟩
    · rcases (mem_final_insertEvent tracks.versions).mp latest with ⟨before, _⟩ | rfl
      · obtain ⟨newer, inside, follows⟩ := swept.followed row before isMine amended
        exact ⟨newer, mem_insertEvent.mpr (Or.inl inside), follows⟩
      · exact absurd isMine other
    · rcases (mem_live_insertEvent tracks).mp live with ⟨before, _⟩ | ⟨_, rfl⟩
      · exact swept.pending row before isMine
      · exact absurd isMine other
    · rcases mem_insertEvent.mp inside with before | rfl
      · exact swept.closed row before original supersedes isMine
      · -- a version of the run that was amended has its successor already
        obtain ⟨⟨row, latest, same, amended⟩, unfollowed⟩ := succeeds original supersedes
        obtain ⟨newer, inside', sameOrg, follows⟩ := swept.followed row latest (same ▸ isMine) amended
        have isOriginal : row.id = original := congrArg Prod.snd same
        refine absurd (isOriginal ▸ follows) (unfollowed newer inside' ?_)
        exact sameOrg.trans (congrArg Prod.fst same)
  · by_cases isMine : mine (event.orgId, event.id)
    · refine Or.inr ⟨old.toEvent, swept.pending old isLive ?_, ⟨eventToRow s.versionSeq event,
        mem_insertEvent.mpr (Or.inr rfl), ?_⟩, fun row live => ?_⟩
      · rw [repeats] at isMine
        exact isMine
      · rw [repeats]
        rfl
      · rcases (mem_live_insertEvent tracks).mp live with ⟨_, apart⟩ | ⟨recorded, _⟩
        · rw [repeats] at apart
          exact apart
        · exact absurd recorded retires
    · exact Or.inl (swept.retire tracks (Or.inr isMine) isLive repeats retires
        fun row _ _ inside => inside)

theorem swept_or_stale (coherent : Coherent fns s) (changes : Changes fns s s')
    (either : Swept mine remaining s ∨ Stale remaining s) :
    Swept mine remaining s' ∨ Stale remaining s' := by
  induction changes with
  | refl => exact either
  | tail earlier change ih =>
    have tracks := (coherent.changes earlier).toTracks
    obtain ⟨event, timely, _, rfl⟩ := change
    rcases ih with swept | stale
    · exact swept.change tracks timely
    · exact Or.inr (stale.change tracks timely)

/-- The loop of a run void. -/
theorem keeps_voidEach (mine : OrgId × EventId → Prop) {post : Tables → Prop}
    (ends : ∀ s, Swept mine [] s → post s) :
    ∀ {s : Tables} {count : Nat}, Coherent fns s → Swept mine remaining s ∨ Stale remaining s →
      Keeps fns (voidEach remaining count) (fun _ => post) s := by
  induction remaining with
  | nil =>
    intro s count coherent either s' changes
    refine ends s' ((swept_or_stale coherent changes either).resolve_right fun stale => ?_)
    obtain ⟨_, member, _⟩ := stale
    exact absurd member List.not_mem_nil
  | cons first rest ih =>
    rintro s count coherent either s' relied answer _ ⟨timely, rfl⟩
    have timely' := timely _ List.mem_cons_self
    have guaranteed : Changes fns s' (s'.insertEvents fns [{ first with status := .voided }]) :=
      change_single timely' fun recorded => by cases recorded
    have coherent' := coherent.changes relied
    refine ⟨guaranteed, ih (coherent'.changes guaranteed) ?_⟩
    rcases timely' with ⟨recorded, _⟩ | ⟨retires, old, isLive, repeats⟩
    · cases recorded
    have isFirst : key old = (first.orgId, first.id) := by
      have sameOrg := congrArg Event.orgId repeats
      have sameId := congrArg Event.id repeats
      exact Prod.ext sameOrg.symm sameId.symm
    rcases swept_or_stale coherent' .refl (swept_or_stale coherent relied either) with
      swept | ⟨gone, member, ⟨row, stored, same⟩, dead⟩
    · refine Or.inl (swept.retire coherent'.toTracks (Or.inl rfl) isLive repeats retires
        fun row _ apart inside => ?_)
      rcases List.mem_cons.mp inside with isEvent | later
      · rw [← isEvent] at apart
        exact absurd rfl apart
      · exact later
    · rcases List.mem_cons.mp member with rfl | later
      · exact absurd isFirst (dead old isLive)
      · exact Or.inr (Stale.change coherent'.toTracks (timely _ List.mem_cons_self)
          ⟨gone, later, ⟨row, stored, same⟩, dead⟩)

/-- **A run void that finishes has voided what was there when it started.** -/
theorem keeps_voidRun (coherent : Coherent fns s) (run : RunId) :
    Keeps fns (voidRun run) (fun _ => VoidedFor run s) s := by
  rintro _ relied rows s' ⟨followed, rfl, isRows⟩
  have coherent' := coherent.changes relied
  let mine : OrgId × EventId → Prop := fun version =>
    ∃ row ∈ s'.events, key row = version ∧ row.runId = some run
  have runOf : ∀ row ∈ s'.events, mine (key row) → row.runId = some run := by
    rintro row inside ⟨twin, inside', same, isRun⟩
    rw [coherent'.runs row inside twin inside' same.symm, isRun]
  refine ⟨.refl, keeps_voidEach mine (fun last swept => ?_) coherent'
    (Or.inl ⟨?_, ?_, ?_, ?_⟩)⟩
  · intro first inside isRun row live descends
    have isMine : ∀ version, Descends last (key first) version → mine version := by
      intro version descends
      induction descends with
      | refl => exact ⟨first, relied.mem inside, rfl, isRun⟩
      | tail _ step ih =>
        obtain ⟨newer, stored, rfl, sameOrg, supersedes⟩ := step
        refine swept.closed newer stored _ supersedes ?_
        rw [sameOrg]
        exact ih
    exact absurd (swept.pending row live (isMine _ descends)) List.not_mem_nil
  · rintro version ⟨row, inside, same, _⟩
    exact ⟨row, inside, same⟩
  · exact fun row latest isMine =>
      followed row latest (runOf row (mem_final.mp latest).1 isMine)
  · intro row live isMine
    refine isRows.mem_iff.mpr (List.mem_map.mpr ⟨row, List.mem_filter.mpr ⟨live, ?_⟩, rfl⟩)
    exact decide_eq_true (runOf row (mem_final.mp (mem_live.mp live).1).1 isMine)
  · rintro row inside original supersedes ⟨older, inside', same, isRun⟩
    refine ⟨row, inside, rfl, ?_⟩
    rw [← coherent'.inherits row inside original supersedes older inside' same, isRun]

end Voids

/-! ### All calls together -/

/-- Every call keeps to timely inserts. -/
theorem Started.keeps {fns : Functions} {client : Client} {request : Σ α : Type, Prog ChStmt α}
    {s : Tables} (started : Started client request) (coherent : Coherent fns s) :
    Keeps fns request.2 (fun _ _ => True) s := by
  cases started with
  | recordBatch reqs => exact keeps_recordBatch coherent reqs
  | amend draw req => exact keeps_amend draw req
  | voidRun run =>
    exact (keeps_voidRun coherent run).imp (fun _ _ => id) (fun _ _ => id) fun _ _ _ => trivial

end Meter.Clickhouse
