/-
**Versions of an event.**

An amendment appends a version that supersedes its target, so the versions of one recorded event form
a tree. Every operation of the store is a sequence of four changes of the list (`Change`): nothing, a
new root, a new version, a run void.

* `Lineage` — ids are distinct, every event descends from a root and has a descendant that is not
  amended, and whatever is superseded is amended. All calls keep it.
* `Linear` — **nothing is superseded twice**, so a root has one version that is not amended
  (`Linear.leaf_unique`). Calls keep it as long as amendments target the current version.
* `one_live_iff` — the store itself only refuses to amend a voided version: a run keeps one live
  version of everything exactly when no amendment targets a superseded one.
-/

import Meter.Events.Store
import Mathlib.Logic.Relation
import Mathlib.Data.List.Induction
import Mathlib.Data.List.Nodup

namespace Meter.Events

open Meter.Lib Relation

/-! ### Calls -/

/-- One write call of the store, with what it draws from outside. -/
inductive Call where
  | record (now : OffsetDateTime) (req : RecordEvent)
  | recordBatch (reqs : List (OffsetDateTime × RecordEvent))
  | amend (draw : Draw) (req : AmendEvent)
  | voidRun (run : RunId)

/-- What a call leaves behind. -/
def step (idempotentEventId : OrgId → String → EventId) (events : List Event) :
    Call → List Event
  | .record now req => (record idempotentEventId now req events).2
  | .recordBatch reqs => (recordBatch idempotentEventId reqs events).2
  | .amend draw req => (amend idempotentEventId draw req events).2
  | .voidRun run => (voidRun run events).2

/-- The store after some calls. -/
def after (idempotentEventId : OrgId → String → EventId) (calls : List Call) : List Event :=
  calls.foldl (step idempotentEventId) []

/-! ### Descent -/

/-- A stored version supersedes another one. -/
def Supersedes (events : List Event) (older newer : EventId) : Prop :=
  ∃ event ∈ events, event.id = newer ∧ event.supersedes = some older

/-- A version of a version of an event. -/
def Descends (events : List Event) : EventId → EventId → Prop := ReflTransGen (Supersedes events)

/-- The versions of an event. -/
def Version (events : List Event) (root : Event) (event : Event) : Prop :=
  event ∈ events ∧ Descends events root.id event.id

/-- Give every event a status. -/
def restate (status : Event → EventStatus) (events : List Event) : List Event :=
  events.map fun event => { event with status := status event }

/-- The statuses after an event was superseded. -/
def marked (original : EventId) (event : Event) : EventStatus :=
  if event.id = original then .amended else event.status

/-- The statuses after a run void. -/
def voided (run : RunId) (event : Event) : EventStatus :=
  if event.Voids run then .voided else event.status

section

variable {events : List Event} {status : Event → EventStatus}

theorem mem_restate {event : Event} :
    event ∈ restate status events ↔ ∃ old ∈ events, { old with status := status old } = event :=
  List.mem_map

theorem mem_restate_of_mem {event : Event} (member : event ∈ events) :
    { event with status := status event } ∈ restate status events :=
  List.mem_map_of_mem (f := fun event => { event with status := status event }) member

@[simp] theorem ids_restate (status : Event → EventStatus) (events : List Event) :
    (restate status events).map Event.id = events.map Event.id := by
  rw [restate, List.map_map]
  rfl

theorem supersedes_restate {older newer : EventId} :
    Supersedes (restate status events) older newer ↔ Supersedes events older newer := by
  constructor
  · rintro ⟨_, member, rfl, link⟩
    obtain ⟨old, inside, rfl⟩ := mem_restate.mp member
    exact ⟨old, inside, rfl, link⟩
  · rintro ⟨event, member, rfl, link⟩
    exact ⟨_, mem_restate_of_mem member, rfl, link⟩

/-- **Statuses do not matter for descent.** -/
@[simp] theorem descends_restate :
    Descends (restate status events) = Descends events := by
  have same : Supersedes (restate status events) = Supersedes events := by
    funext older newer
    exact propext supersedes_restate
  rw [Descends, Descends, same]

theorem Descends.mono {more : List Event} (sub : events ⊆ more) {older newer : EventId}
    (descends : Descends events older newer) : Descends more older newer := by
  have wider : ∀ first second, Supersedes events first second → Supersedes more first second := by
    rintro first second ⟨event, member, rest⟩
    exact ⟨event, sub member, rest⟩
  exact ReflTransGen.mono wider _ _ descends

end

/-! ### Changes -/

/-- **What a call can do to the list.** An event is superseded only in an allowed status. -/
inductive Change (allowed : EventStatus → Prop) : List Event → List Event → Prop
  | add {events : List Event} (event : Event) (fresh : event.id ∉ events.map Event.id)
      (recorded : event.status = .recorded) (first : event.supersedes = none) :
      Change allowed events (events ++ [event])
  | supersede {events : List Event} (original version : Event) (member : original ∈ events)
      (current : allowed original.status) (fresh : version.id ∉ events.map Event.id)
      (recorded : version.status = .recorded) (links : version.supersedes = some original.id) :
      Change allowed events (restate (marked original.id) events ++ [version])
  | void {events : List Event} (run : RunId) : Change allowed events (restate (voided run) events)

/-- A sequence of changes. -/
def Changes (allowed : EventStatus → Prop) : List Event → List Event → Prop :=
  ReflTransGen (Change allowed)

theorem find_eq_none {events : List Event} {id : EventId} :
    find events id = none ↔ id ∉ events.map Event.id := by
  simp [find, List.find?_eq_none, List.mem_map]

theorem find_eq_some {events : List Event} {id : EventId} {event : Event}
    (found : find events id = some event) : event ∈ events ∧ event.id = id :=
  ⟨List.mem_of_find?_eq_some found, by simpa using List.find?_some found⟩

theorem find_isSome {events : List Event} {id : EventId} :
    (find events id).isSome ↔ id ∈ events.map Event.id := by
  simp [find, List.mem_map]

/-- With distinct ids, setting the first match sets the only one. -/
theorem setStatus_eq {events : List Event} (distinct : (events.map Event.id).Nodup) (id : EventId) :
    setStatus id .amended events = restate (marked id) events := by
  induction events with
  | nil => rfl
  | cons event rest ih =>
    rw [List.map_cons, List.nodup_cons] at distinct
    rw [setStatus, restate, List.map_cons]
    split
    · rename_i same
      have untouched : restate (marked id) rest = rest := by
        conv_rhs => rw [← List.map_id rest]
        refine List.map_congr_left fun other inside => ?_
        have different : other.id ≠ id :=
          fun same' => distinct.1 (List.mem_map.mpr ⟨other, inside, same'.trans same.symm⟩)
        rw [marked, if_neg different]
        rfl
      rw [marked, if_pos same]
      exact congrArg _ untouched.symm
    · rename_i different
      rw [marked, if_neg different]
      exact congrArg _ (ih distinct.2)

@[simp] theorem ids_setStatus (id : EventId) (status : EventStatus) (events : List Event) :
    (setStatus id status events).map Event.id = events.map Event.id := by
  induction events with
  | nil => rfl
  | cons event rest ih =>
    rw [setStatus]
    split
    · rfl
    · rw [List.map_cons, List.map_cons, ih]

/-- **Whatever is not voided may be superseded**, as far as the store is concerned. -/
abbrev NotVoided (status : EventStatus) : Prop := status ≠ .voided

abbrev Current (status : EventStatus) : Prop := status = .recorded

section

variable {idempotentEventId : OrgId → String → EventId} {events : List Event}
  {allowed : EventStatus → Prop}

theorem changes_recordLocked (now : OffsetDateTime) (req : RecordEvent) :
    Changes allowed events (recordLocked idempotentEventId now req events).2 := by
  rw [recordLocked]
  split
  · exact .refl
  · rename_i absent
    exact .single (.add _ (find_eq_none.mp absent) rfl rfl)

theorem changes_recordBatch (reqs : List (OffsetDateTime × RecordEvent)) (events : List Event) :
    Changes allowed events (recordBatch idempotentEventId reqs events).2 := by
  induction reqs generalizing events with
  | nil => exact .refl
  | cons req rest ih => exact (changes_recordLocked req.1 req.2).trans (ih _)

theorem voidRun_eq (run : RunId) (events : List Event) :
    (voidRun run events).2 = restate (voided run) events := by
  refine List.map_congr_left fun event _ => ?_
  rw [voided]
  split <;> rfl

theorem ids_subset_recordLocked (now : OffsetDateTime) (req : RecordEvent) :
    events.map Event.id ⊆
      (recordLocked idempotentEventId now req events).2.map Event.id := by
  rw [recordLocked]
  split
  · exact List.Subset.refl _
  · exact List.map_subset _ (List.subset_append_left _ _)

theorem ids_subset_recordBatch (reqs : List (OffsetDateTime × RecordEvent)) (events : List Event) :
    events.map Event.id ⊆ (recordBatch idempotentEventId reqs events).2.map Event.id := by
  induction reqs generalizing events with
  | nil => exact List.Subset.refl _
  | cons req rest ih => exact List.Subset.trans (ids_subset_recordLocked req.1 req.2) (ih _)

/-- **No call drops an event.** -/
theorem ids_subset_step (call : Call) :
    events.map Event.id ⊆ (step idempotentEventId events call).map Event.id := by
  cases call with
  | record now req => exact ids_subset_recordLocked now req
  | recordBatch reqs => exact ids_subset_recordBatch reqs events
  | voidRun run =>
    rw [step, voidRun_eq, ids_restate]
    exact List.Subset.refl _
  | amend draw req =>
    rw [step, amend]
    split
    · exact List.Subset.refl _
    split
    · exact List.Subset.refl _
    dsimp only
    split
    · exact List.Subset.refl _
    · rw [List.map_append, ids_setStatus]
      exact List.subset_append_left _ _

/-- An amendment of the current version, or a retry: it does not fork the event. -/
def Follows (idempotentEventId : OrgId → String → EventId) (events : List Event) : Call → Prop
  | .amend draw req => ∀ original, find events req.eventId = some original →
      original.status = .amended →
      (find events (req.intoAmendedEvent idempotentEventId original draw).id).isSome
  | .record _ _ | .recordBatch _ | .voidRun _ => True

/-- **Every call is a sequence of changes.** It supersedes an amended event only if that is allowed,
or not at all. -/
theorem step_changes (distinct : (events.map Event.id).Nodup) (call : Call)
    (allows : ∀ status, status = .recorded → allowed status)
    (current : allowed .amended ∨ Follows idempotentEventId events call) :
    Changes allowed events (step idempotentEventId events call) := by
  cases call with
  | record now req => exact changes_recordLocked now req
  | recordBatch reqs => exact changes_recordBatch reqs events
  | voidRun run =>
    rw [step, voidRun_eq]
    exact .single (.void run)
  | amend draw req =>
    rw [step, amend]
    split
    · exact .refl
    · rename_i original found
      split
      · exact .refl
      · rename_i notVoided
        dsimp only
        split
        · exact .refl
        · rename_i absent
          rw [setStatus_eq distinct]
          refine .single (.supersede original _ (find_eq_some found).1 ?_ (find_eq_none.mp absent)
            rfl rfl)
          cases isStatus : original.status with
          | recorded => exact allows _ rfl
          | voided => exact absurd isStatus notVoided
          | amended =>
            refine current.resolve_right fun follows => ?_
            have retried := follows original found isStatus
            rw [absent] at retried
            cases retried

end

/-! ### Lineage -/

/-- The list as every run keeps it. -/
structure Lineage (events : List Event) : Prop where
  ids : (events.map Event.id).Nodup
  root : ∀ event ∈ events, ∃ root ∈ events, root.supersedes = none ∧
    Descends events root.id event.id
  leaf : ∀ event ∈ events, ∃ leaf ∈ events, leaf.status ≠ .amended ∧
    Descends events event.id leaf.id
  superseded : ∀ older ∈ events, ∀ newer ∈ events, newer.supersedes = some older.id →
    older.status = .amended
  links : ∀ event ∈ events, ∀ older, event.supersedes = some older → older ∈ events.map Event.id

/-- The list as it stays while only current versions are amended: nothing is superseded twice. -/
structure Linear (events : List Event) : Prop extends Lineage events where
  once : ∀ first ∈ events, ∀ second ∈ events, ∀ older, first.supersedes = some older →
    second.supersedes = some older → first = second

section

variable {events : List Event} {status : Event → EventStatus}

/-- An event is known by its id. -/
theorem Lineage.eq_of_id (lineage : Lineage events) {first second : Event} (inFirst : first ∈ events)
    (inSecond : second ∈ events) (same : first.id = second.id) : first = second :=
  List.inj_on_of_nodup_map lineage.ids inFirst inSecond same

/-- A stored event is found by its id. -/
theorem Lineage.find_of_mem (lineage : Lineage events) {event : Event} (member : event ∈ events) :
    find events event.id = some event := by
  cases result : find events event.id with
  | none => exact absurd (List.mem_map_of_mem member) (find_eq_none.mp result)
  | some other =>
    obtain ⟨inside, same⟩ := find_eq_some result
    rw [lineage.eq_of_id inside member same]

theorem Lineage.new : Lineage [] := by
  refine ⟨List.nodup_nil, ?_, ?_, ?_, ?_⟩ <;> exact fun _ member => absurd member List.not_mem_nil

theorem Linear.new : Linear [] := ⟨.new, fun _ member => absurd member List.not_mem_nil⟩

/-- New statuses keep the lineage if they do not touch what is amended. -/
theorem Lineage.restated (lineage : Lineage events)
    (kept : ∀ event ∈ events, status event = .amended ↔ event.status = .amended) :
    Lineage (restate status events) where
  ids := by
    rw [ids_restate]
    exact lineage.ids
  root := by
    intro event member
    obtain ⟨old, inside, rfl⟩ := mem_restate.mp member
    obtain ⟨root, inRoot, first, descends⟩ := lineage.root old inside
    exact ⟨_, mem_restate_of_mem inRoot, first, by rw [descends_restate]; exact descends⟩
  leaf := by
    intro event member
    obtain ⟨old, inside, rfl⟩ := mem_restate.mp member
    obtain ⟨leaf, inLeaf, isLeaf, descends⟩ := lineage.leaf old inside
    refine ⟨_, mem_restate_of_mem inLeaf, fun amended => isLeaf ((kept leaf inLeaf).mp amended), ?_⟩
    rw [descends_restate]
    exact descends
  superseded := by
    intro older inOlder newer inNewer link
    obtain ⟨old, inside, rfl⟩ := mem_restate.mp inOlder
    obtain ⟨new, inside', rfl⟩ := mem_restate.mp inNewer
    exact (kept old inside).mpr (lineage.superseded old inside new inside' link)
  links := by
    intro event member older link
    obtain ⟨old, inside, rfl⟩ := mem_restate.mp member
    rw [ids_restate]
    exact lineage.links old inside older link

theorem voided_amended (run : RunId) (event : Event) :
    voided run event = .amended ↔ event.status = .amended := by
  rw [voided]
  split
  · rename_i voids
    rw [voids.2]
    decide
  · exact Iff.rfl

/-- A fresh id is referenced by nothing. -/
theorem Lineage.unreferenced (lineage : Lineage events) {id : EventId}
    (fresh : id ∉ events.map Event.id) : ∀ event ∈ events, event.supersedes ≠ some id :=
  fun event member link => fresh (lineage.links event member id link)

theorem Lineage.add (lineage : Lineage events) {event : Event}
    (fresh : event.id ∉ events.map Event.id) (recorded : event.status = .recorded)
    (first : event.supersedes = none) : Lineage (events ++ [event]) where
  ids := by
    rw [List.map_append, List.map_singleton]
    exact List.nodup_append.mpr ⟨lineage.ids, List.nodup_singleton _, fun id inside id' last same =>
      fresh (List.mem_singleton.mp last ▸ same ▸ inside)⟩
  root := by
    intro other member
    rcases List.mem_append.mp member with old | new
    · obtain ⟨root, inside, isRoot, descends⟩ := lineage.root other old
      exact ⟨root, List.mem_append_left _ inside, isRoot,
        descends.mono (List.subset_append_left _ _)⟩
    · rw [List.mem_singleton.mp new]
      exact ⟨event, List.mem_append_right _ (List.mem_singleton_self _), first, .refl⟩
  leaf := by
    intro other member
    rcases List.mem_append.mp member with old | new
    · obtain ⟨leaf, inside, isLeaf, descends⟩ := lineage.leaf other old
      exact ⟨leaf, List.mem_append_left _ inside, isLeaf,
        descends.mono (List.subset_append_left _ _)⟩
    · rw [List.mem_singleton.mp new]
      refine ⟨event, List.mem_append_right _ (List.mem_singleton_self _), ?_, .refl⟩
      rw [recorded]
      decide
  superseded := by
    intro older inOlder newer inNewer link
    rcases List.mem_append.mp inNewer with oldNewer | new
    · rcases List.mem_append.mp inOlder with old | isNew
      · exact lineage.superseded older old newer oldNewer link
      · rw [List.mem_singleton.mp isNew] at link
        exact absurd link (lineage.unreferenced fresh newer oldNewer)
    · rw [List.mem_singleton.mp new, first] at link
      cases link
  links := by
    intro other member older link
    rw [List.map_append]
    rcases List.mem_append.mp member with old | new
    · exact List.mem_append_left _ (lineage.links other old older link)
    · rw [List.mem_singleton.mp new, first] at link
      cases link

/-- **A new version keeps the lineage**, whatever the status of its target. -/
theorem Lineage.supersede (lineage : Lineage events) {original version : Event}
    (member : original ∈ events) (fresh : version.id ∉ events.map Event.id)
    (recorded : version.status = .recorded) (links : version.supersedes = some original.id) :
    Lineage (restate (marked original.id) events ++ [version]) := by
  have last : version ∈ restate (marked original.id) events ++ [version] :=
    List.mem_append_right _ (List.mem_singleton_self _)
  have older : ∀ {first second}, Descends events first second →
      Descends (restate (marked original.id) events ++ [version]) first second := by
    intro first second descends
    refine Descends.mono (List.subset_append_left _ _) ?_
    rw [descends_restate]
    exact descends
  have newest : Descends (restate (marked original.id) events ++ [version]) original.id
      version.id := .single ⟨version, last, rfl, links⟩
  refine ⟨?_, ?_, ?_, ?_, ?_⟩
  · rw [List.map_append, ids_restate, List.map_singleton]
    exact List.nodup_append.mpr ⟨lineage.ids, List.nodup_singleton _, fun id inside id' isLast same =>
      fresh (List.mem_singleton.mp isLast ▸ same ▸ inside)⟩
  · intro event inside
    rcases List.mem_append.mp inside with old | new
    · obtain ⟨before, inBefore, rfl⟩ := mem_restate.mp old
      obtain ⟨root, inRoot, first, descends⟩ := lineage.root before inBefore
      exact ⟨_, List.mem_append_left _ (mem_restate_of_mem inRoot), first, older descends⟩
    · obtain ⟨root, inRoot, first, descends⟩ := lineage.root original member
      rw [List.mem_singleton.mp new]
      exact ⟨_, List.mem_append_left _ (mem_restate_of_mem inRoot), first,
        (older descends).trans newest⟩
  · intro event inside
    rcases List.mem_append.mp inside with old | new
    · obtain ⟨before, inBefore, rfl⟩ := mem_restate.mp old
      obtain ⟨leaf, inLeaf, isLeaf, descends⟩ := lineage.leaf before inBefore
      by_cases isOriginal : leaf.id = original.id
      · refine ⟨version, last, (by rw [recorded]; decide), (older descends).trans ?_⟩
        rw [isOriginal]
        exact newest
      · refine ⟨_, List.mem_append_left _ (mem_restate_of_mem inLeaf), ?_, older descends⟩
        show marked original.id leaf ≠ .amended
        rw [marked, if_neg isOriginal]
        exact isLeaf
    · rw [List.mem_singleton.mp new]
      exact ⟨version, last, (by rw [recorded]; decide), .refl⟩
  · intro first inFirst second inSecond link
    rcases List.mem_append.mp inFirst with old | new
    · obtain ⟨before, inBefore, rfl⟩ := mem_restate.mp old
      show marked original.id before = .amended
      rw [marked]
      split
      · rfl
      · rename_i different
        rcases List.mem_append.mp inSecond with oldSecond | newSecond
        · obtain ⟨before', inBefore', rfl⟩ := mem_restate.mp oldSecond
          exact lineage.superseded before inBefore before' inBefore' link
        · rw [List.mem_singleton.mp newSecond, links, Option.some.injEq] at link
          exact absurd link.symm different
    · exfalso
      rw [List.mem_singleton.mp new] at link
      rcases List.mem_append.mp inSecond with oldSecond | newSecond
      · obtain ⟨before', inBefore', rfl⟩ := mem_restate.mp oldSecond
        exact lineage.unreferenced fresh before' inBefore' link
      · rw [List.mem_singleton.mp newSecond, links, Option.some.injEq] at link
        exact fresh (link ▸ List.mem_map_of_mem member)
  · intro event inside id link
    rw [List.map_append, ids_restate]
    rcases List.mem_append.mp inside with old | new
    · obtain ⟨before, inBefore, rfl⟩ := mem_restate.mp old
      exact List.mem_append_left _ (lineage.links before inBefore id link)
    · rw [List.mem_singleton.mp new, links, Option.some.injEq] at link
      exact List.mem_append_left _ (link ▸ List.mem_map_of_mem member)

/-- **Every change keeps the lineage.** -/
theorem Lineage.change {allowed : EventStatus → Prop} {next : List Event} (lineage : Lineage events)
    (change : Change allowed events next) : Lineage next := by
  cases change with
  | add event fresh recorded first => exact lineage.add fresh recorded first
  | supersede original version member _ fresh recorded links =>
    exact lineage.supersede member fresh recorded links
  | void run => exact lineage.restated fun event _ => voided_amended run event

/-- **While only current versions are superseded, nothing is superseded twice.** -/
theorem Linear.change {next : List Event} (linear : Linear events)
    (change : Change Current events next) : Linear next := by
  refine { linear.toLineage.change change with once := ?_ }
  cases change with
  | add event fresh recorded isRoot =>
    intro first inFirst second inSecond older link link'
    rcases List.mem_append.mp inFirst with oldFirst | newFirst
    · rcases List.mem_append.mp inSecond with oldSecond | newSecond
      · exact linear.once first oldFirst second oldSecond older link link'
      · rw [List.mem_singleton.mp newSecond, isRoot] at link'
        cases link'
    · rw [List.mem_singleton.mp newFirst, isRoot] at link
      cases link
  | supersede original version member current fresh recorded links =>
    -- the target is recorded, so nothing superseded it yet
    have unsuperseded : ∀ event ∈ events, event.supersedes ≠ some original.id := by
      intro event inside link
      have amended := linear.superseded original member event inside link
      rw [current] at amended
      cases amended
    intro first inFirst second inSecond older link link'
    rcases List.mem_append.mp inFirst with oldFirst | newFirst
    · obtain ⟨before, inBefore, rfl⟩ := mem_restate.mp oldFirst
      rcases List.mem_append.mp inSecond with oldSecond | newSecond
      · obtain ⟨before', inBefore', rfl⟩ := mem_restate.mp oldSecond
        rw [linear.once before inBefore before' inBefore' older link link']
      · rw [List.mem_singleton.mp newSecond, links, Option.some.injEq] at link'
        exact absurd (link'.symm ▸ link) (unsuperseded before inBefore)
    · rw [List.mem_singleton.mp newFirst, links, Option.some.injEq] at link
      rcases List.mem_append.mp inSecond with oldSecond | newSecond
      · obtain ⟨before', inBefore', rfl⟩ := mem_restate.mp oldSecond
        exact absurd (link.symm ▸ link') (unsuperseded before' inBefore')
      · rw [List.mem_singleton.mp newFirst, List.mem_singleton.mp newSecond]
  | void run =>
    intro first inFirst second inSecond older link link'
    obtain ⟨before, inBefore, rfl⟩ := mem_restate.mp inFirst
    obtain ⟨before', inBefore', rfl⟩ := mem_restate.mp inSecond
    rw [linear.once before inBefore before' inBefore' older link link']

theorem Lineage.changes {allowed : EventStatus → Prop} {next : List Event} (lineage : Lineage events)
    (changes : Changes allowed events next) : Lineage next := by
  induction changes with
  | refl => exact lineage
  | tail _ change ih => exact ih.change change

theorem Linear.changes {next : List Event} (linear : Linear events)
    (changes : Changes Current events next) : Linear next := by
  induction changes with
  | refl => exact linear
  | tail _ change ih => exact ih.change change

/-- What is not amended has no version after it. -/
theorem Lineage.last_of_leaf (lineage : Lineage events) {leaf : Event} (member : leaf ∈ events)
    (isLeaf : leaf.status ≠ .amended) {id : EventId} (descends : Descends events leaf.id id) :
    id = leaf.id := by
  rcases ReflTransGen.cases_head descends with same | ⟨next, ⟨event, inside, _, link⟩, _⟩
  · exact same.symm
  · exact absurd (lineage.superseded leaf member event inside link) isLeaf

/-- **A root has one version that is not amended.** -/
theorem Linear.leaf_unique (linear : Linear events) {root first second : Event}
    (version : Version events root first) (version' : Version events root second)
    (isLeaf : first.status ≠ .amended) (isLeaf' : second.status ≠ .amended) : first = second := by
  have unique : Relator.RightUnique (Supersedes events) := by
    rintro older _ _ ⟨event, inside, rfl, link⟩ ⟨event', inside', rfl, link'⟩
    rw [linear.once event inside event' inside' older link link']
  refine linear.eq_of_id version.1 version'.1 ?_
  rcases ReflTransGen.total_of_right_unique unique version.2 version'.2 with down | up
  · exact (linear.last_of_leaf version.1 isLeaf down).symm
  · exact linear.last_of_leaf version'.1 isLeaf' up

end

/-! ### What stays -/

/-- An event after some calls: only a recorded status changes. -/
structure Keeps (old new : Event) : Prop where
  fields : { new with status := old.status } = old
  status : old.status ≠ .recorded → new.status = old.status

theorem Keeps.refl (event : Event) : Keeps event event := ⟨rfl, fun _ => rfl⟩

theorem Keeps.trans {first second third : Event} (earlier : Keeps first second)
    (later : Keeps second third) : Keeps first third where
  fields := by
    rw [← earlier.fields, ← later.fields]
  status := by
    intro final
    have middle := earlier.status final
    rw [later.status (middle ▸ final), middle]

theorem Keeps.id {old new : Event} (keeps : Keeps old new) : new.id = old.id := by
  rw [← keeps.fields]

section

variable {events next : List Event}

/-- **A change keeps every event**, up to the status of what was recorded. -/
theorem Change.kept (lineage : Lineage events) (change : Change NotVoided events next) {event : Event}
    (member : event ∈ events) : ∃ new ∈ next, Keeps event new := by
  cases change with
  | add added => exact ⟨event, List.mem_append_left _ member, .refl event⟩
  | supersede original version inOriginal notVoided =>
    refine ⟨_, List.mem_append_left _ (mem_restate_of_mem member), rfl, fun final => ?_⟩
    show marked original.id event = event.status
    rw [marked]
    split
    · rename_i same
      rw [lineage.eq_of_id member inOriginal same] at final ⊢
      cases isStatus : original.status with
      | recorded => exact absurd isStatus final
      | amended => rfl
      | voided => exact absurd isStatus notVoided
    · rfl
  | void run =>
    refine ⟨_, mem_restate_of_mem member, rfl, fun final => ?_⟩
    show voided run event = event.status
    rw [voided, if_neg fun voids => final voids.2]

theorem Change.descends {allowed : EventStatus → Prop} (change : Change allowed events next)
    {older newer : EventId} (descends : Descends events older newer) :
    Descends next older newer := by
  cases change with
  | add added => exact descends.mono (List.subset_append_left _ _)
  | supersede original version =>
    refine Descends.mono (List.subset_append_left _ _) ?_
    rw [descends_restate]
    exact descends
  | void run =>
    rw [descends_restate]
    exact descends

/-- **Changes keep every event and every descent.** -/
theorem Changes.kept (lineage : Lineage events) (changes : Changes NotVoided events next) :
    (∀ event ∈ events, ∃ new ∈ next, Keeps event new) ∧
      ∀ {older newer}, Descends events older newer → Descends next older newer := by
  induction changes with
  | refl => exact ⟨fun event member => ⟨event, member, .refl event⟩, id⟩
  | tail earlier change ih =>
    refine ⟨fun event member => ?_, fun descends => change.descends (ih.2 descends)⟩
    obtain ⟨middle, inside, keeps⟩ := ih.1 event member
    obtain ⟨new, inside', keeps'⟩ := change.kept (lineage.changes earlier) inside
    exact ⟨new, inside', keeps.trans keeps'⟩

end

/-! ### Runs -/

section

variable (idempotentEventId : OrgId → String → EventId)

theorem after_concat (calls : List Call) (call : Call) :
    after idempotentEventId (calls ++ [call]) =
      step idempotentEventId (after idempotentEventId calls) call := by
  rw [after, List.foldl_append]
  rfl

/-- Some calls one after another are changes. -/
theorem after_changes (first rest : List Call) :
    Lineage (after idempotentEventId first) →
      Changes NotVoided (after idempotentEventId first) (after idempotentEventId (first ++ rest)) := by
  intro lineage
  induction rest using List.reverseRecOn with
  | nil =>
    rw [List.append_nil]
    exact .refl
  | append_singleton rest call ih =>
    rw [← List.append_assoc, after_concat]
    exact ih.trans (step_changes (lineage.changes ih).ids call (fun _ same => by rw [same]; decide)
      (Or.inl (by decide)))

theorem lineage_after (calls : List Call) : Lineage (after idempotentEventId calls) :=
  Lineage.new.changes (after_changes idempotentEventId [] calls .new)

/-- Every amendment of a run targets a current version. -/
def AmendsCurrent (calls : List Call) : Prop :=
  ∀ first call, first ++ [call] <+: calls →
    Follows idempotentEventId (after idempotentEventId first) call

theorem linear_after {calls : List Call} (follows : AmendsCurrent idempotentEventId calls) :
    Linear (after idempotentEventId calls) := by
  induction calls using List.reverseRecOn with
  | nil => exact .new
  | append_singleton calls call ih =>
    have linear := ih fun first call' inside => follows first call'
      (inside.trans (List.prefix_append _ _))
    rw [after_concat]
    exact linear.changes (step_changes linear.ids call (fun _ same => same)
      (Or.inr (follows calls call List.prefix_rfl)))

end

/-- Every recorded event has at most one live version. -/
def OneLive (events : List Event) : Prop :=
  ∀ root ∈ events, root.supersedes = none → ∀ first second, Version events root first →
    Version events root second → first.status = .recorded → second.status = .recorded →
    first = second

/-- An event with a version that was voided has no live version later. -/
def StaysVoided (before later : List Event) : Prop :=
  ∀ root ∈ before, root.supersedes = none → ∀ version, Version before root version →
    version.status = .voided → ∀ other, Version later root other → other.status ≠ .recorded

/-- Along a run every event has at most one live version, and none once a version was voided. -/
def NeverForks (idempotentEventId : OrgId → String → EventId) (calls : List Call) : Prop :=
  ∀ first, first <+: calls → OneLive (after idempotentEventId first) ∧
    ∀ later, first <+: later → later <+: calls →
      StaysVoided (after idempotentEventId first) (after idempotentEventId later)

section

variable {idempotentEventId : OrgId → String → EventId}

theorem neverForks_of_amendsCurrent {calls : List Call}
    (follows : AmendsCurrent idempotentEventId calls) : NeverForks idempotentEventId calls := by
  have linear : ∀ first, first <+: calls → Linear (after idempotentEventId first) :=
    fun first inside => linear_after idempotentEventId fun earlier call before =>
      follows earlier call (before.trans inside)
  intro first inside
  refine ⟨fun root _ _ one other version version' live live' => ?_, ?_⟩
  · refine (linear first inside).leaf_unique version version' ?_ ?_
    · rw [live]
      decide
    · rw [live']
      decide
  · rintro _ ⟨rest, rfl⟩ inside' root inRoot _ version isVersion isVoided other isOther live
    obtain ⟨kept, descends⟩ :=
      (after_changes idempotentEventId first rest (lineage_after idempotentEventId first)).kept
        (lineage_after idempotentEventId first)
    obtain ⟨new, inNew, keeps⟩ := kept version isVersion.1
    have stays : new.status = .voided := by
      rw [keeps.status (by rw [isVoided]; decide), isVoided]
    have isNew : Version (after idempotentEventId (first ++ rest)) root new :=
      ⟨inNew, keeps.id ▸ descends isVersion.2⟩
    have same := (linear _ inside').leaf_unique isNew isOther (by rw [stays]; decide)
      (by rw [live]; decide)
    rw [same, live] at stays
    cases stays

/-- **An amendment of a superseded version forks the event**: its other leaf is still there. -/
theorem follows_of_neverForks {events : List Event} (linear : Linear events) {call : Call}
    (oneLive : OneLive (step idempotentEventId events call))
    (staysVoided : StaysVoided events (step idempotentEventId events call)) :
    Follows idempotentEventId events call := by
  cases call with
  | record _ _ | recordBatch _ | voidRun _ => trivial
  | amend draw req =>
    intro original found amended
    by_contra retried
    have inOriginal := (find_eq_some found).1
    have absent := Option.not_isSome_iff_eq_none.mp retried
    have fresh := find_eq_none.mp absent
    have stepped : step idempotentEventId events (.amend draw req) =
        restate (marked original.id) events ++
          [req.intoAmendedEvent idempotentEventId original draw] := by
      rw [step, amend, found, ← setStatus_eq linear.ids]
      simp [amended, absent]
    rw [stepped] at oneLive staysVoided
    generalize isVersion : req.intoAmendedEvent idempotentEventId original draw = version at *
    have links : version.supersedes = some original.id := by rw [← isVersion]; rfl
    have recorded : version.status = .recorded := by rw [← isVersion]; rfl
    obtain ⟨root, inRoot, first, descends⟩ := linear.root original inOriginal
    obtain ⟨leaf, inLeaf, isLeaf, below⟩ := linear.leaf original inOriginal
    have after : ∀ {older newer}, Descends events older newer →
        Descends (restate (marked original.id) events ++ [version]) older newer :=
      fun descends => Descends.mono (List.subset_append_left _ _)
        (by rw [descends_restate]; exact descends)
    have inVersion : version ∈ restate (marked original.id) events ++ [version] :=
      List.mem_append_right _ (List.mem_singleton_self _)
    have versioned : Version (restate (marked original.id) events ++ [version]) root version :=
      ⟨inVersion, (after descends).tail ⟨version, inVersion, rfl, links⟩⟩
    have different : leaf.id ≠ original.id := by
      intro same
      rw [linear.eq_of_id inLeaf inOriginal same] at isLeaf
      exact isLeaf amended
    cases isStatus : leaf.status with
    | amended => exact isLeaf isStatus
    | voided =>
      exact staysVoided root inRoot first leaf ⟨inLeaf, descends.trans below⟩ isStatus version
        versioned recorded
    | recorded =>
      have kept : ({ leaf with status := marked original.id leaf } : Event).status = .recorded := by
        show marked original.id leaf = .recorded
        rw [marked, if_neg different, isStatus]
      have same := oneLive _ (List.mem_append_left _ (mem_restate_of_mem inRoot)) first _ version
        ⟨List.mem_append_left _ (mem_restate_of_mem inLeaf), after (descends.trans below)⟩ versioned
        kept recorded
      have named : version.id = leaf.id := (congrArg Event.id same).symm
      exact fresh (named ▸ List.mem_map_of_mem inLeaf)

/-- **One live version, exactly when amendments target current versions.** In every run of the
store, whatever the hash of event ids: every recorded event has at most one live version at every
moment, and none from the moment a version of it is voided, if and only if no amendment of the run
gives a superseded event another version. -/
theorem one_live_iff (idempotentEventId : OrgId → String → EventId) (calls : List Call) :
    NeverForks idempotentEventId calls ↔ AmendsCurrent idempotentEventId calls := by
  refine ⟨fun never => ?_, neverForks_of_amendsCurrent⟩
  induction calls using List.reverseRecOn with
  | nil =>
    intro first call inside
    exact absurd (List.prefix_nil.mp inside) (by simp)
  | append_singleton calls call ih =>
    have before : AmendsCurrent idempotentEventId calls := ih fun first inside =>
      ⟨(never first (inside.trans (List.prefix_append _ _))).1, fun later between inside' =>
        (never first (inside.trans (List.prefix_append _ _))).2 later between
          (inside'.trans (List.prefix_append _ _))⟩
    have last : Follows idempotentEventId (after idempotentEventId calls) call := by
      refine follows_of_neverForks (linear_after _ before) ?_ ?_
      · rw [← after_concat]
        exact (never _ List.prefix_rfl).1
      · rw [← after_concat]
        exact (never calls (List.prefix_append _ _)).2 _ (List.prefix_append _ _) List.prefix_rfl
    intro first call' inside
    rcases List.prefix_concat_iff.mp inside with whole | earlier
    · obtain ⟨isFirst, isCall⟩ := List.append_inj' whole rfl
      rw [isFirst, List.singleton_inj.mp isCall]
      exact last
    · exact before first call' earlier

/-- A forked event: recorded, and amended twice under two keys. -/
def forkedCalls : List Call := [
  .record 0 ⟨1, "a", 0, "tokens", 1, none, .null⟩,
  .amend ⟨1, 0⟩ ⟨1, .null, some "first"⟩,
  .amend ⟨2, 0⟩ ⟨1, .null, some "second"⟩]

/-- Keys of different lengths, numbered by their length. -/
def lengthId (_ : OrgId) (key : String) : EventId := OfNat.ofNat key.length

/-- The second amendment targets the superseded version, and both amended versions are live. -/
theorem forkedCalls_two_live : ¬ NeverForks lengthId forkedCalls := by
  intro never
  have oneLive := (never forkedCalls List.prefix_rfl).1
  obtain ⟨root, first, second, stored⟩ : ∃ root first second,
      after lengthId forkedCalls = [root, first, second] := ⟨_, _, _, rfl⟩
  rw [stored] at oneLive
  cases stored
  have same := oneLive _ List.mem_cons_self rfl _ _
    ⟨List.mem_cons_of_mem _ List.mem_cons_self,
      .single ⟨_, List.mem_cons_of_mem _ List.mem_cons_self, rfl, rfl⟩⟩
    ⟨List.mem_cons_of_mem _ (List.mem_cons_of_mem _ List.mem_cons_self),
      .single ⟨_, List.mem_cons_of_mem _ (List.mem_cons_of_mem _ List.mem_cons_self), rfl, rfl⟩⟩
    rfl rfl
  exact absurd (congrArg Event.createdAt same) (by decide)

end

end Meter.Events
