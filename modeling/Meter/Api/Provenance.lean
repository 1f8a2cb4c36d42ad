/-
**Whose charge an amendment refunds.**

`amend_usage` refunds the entry that `charge_entry_id` names in the JSON of the event, if the event
says `priced_via`. Metering and amending write these properties themselves, but the generic event
endpoints write whatever the caller sends, under the same names.

* `ApiRequest` — every request that writes to one of the two stores.
* `OnlyEngine` — every refund of an amendment reverses a usage entry that metering or amending
  posted for a version of the same event.
* `Honest` — a generic event names no charge, a generic amendment none that an earlier version does
  not name, and metering does not find its key on the charge of another event.
* `refunds_are_own` — **in a run of honest requests only the engine moves money.**
* `forged_charge_refunded` — a caller who writes the id of somebody else's charge into an event has
  it refunded.
-/

import Meter.Api.Agreement
import Meter.Ledger.Reversal

namespace Meter.Api

open Meter.Lib Meter.Pricing Meter.Events
open Meter.Ledger (LedgerEntry LedgerError Action)

/-! ### Every request -/

/-- A request that writes. -/
inductive ApiRequest where
  | meter (now : OffsetDateTime) (body : MeterUsageBody)
  | amend (event : EventId) (body : AmendUsageBody)
  | voidRun (run : RunId)
  | record (req : RecordEvent)
  | recordBatch (reqs : List RecordEvent)
  | amendEvent (req : AmendEvent)
  | ledger (call : Ledger.Call)

/-- A route that makes one event-store call. -/
def eventRoute {α : Type} (call : StoreCall (Except EventError α)) : Handler α :=
  tryEvent call fun answer => .done (.ok answer)

/-- The ledger calls that have a route of their own: direct charges and their reversals are made by
usage metering only. -/
def Routed : Ledger.Call → Bool
  | .charge _ | .reverseCharge _ => false
  | _ => true

/-- The rate cards that are stored when a request is made. -/
def Env.storing (env : Env) (stored : Uuid → Except ApiError RateCard) : Env :=
  { env with loadStoredCard := stored }

/-- A request that ran alone, to its answer, over any stored rate cards. -/
def ApiRequest.Served (env : Env) : ApiRequest → Stores → Stores → Prop
  | .meter now body, s, s' => ∃ stored reply,
      (server (env.storing stored)).Serves (meterUsage (env.storing stored) now body) s reply s'
  | .amend event body, s, s' => ∃ stored reply,
      (server (env.storing stored)).Serves (amendUsage (env.storing stored) event body) s reply s'
  | .voidRun run, s, s' => ∃ reply, (server env).Serves (Api.voidRun run) s reply s'
  | .record req, s, s' => ∃ reply, (server env).Serves (eventRoute (.recordEvent req)) s reply s'
  | .recordBatch reqs, s, s' =>
      ∃ reply, (server env).Serves (eventRoute (.recordBatch reqs)) s reply s'
  | .amendEvent req, s, s' => ∃ reply, (server env).Serves (eventRoute (.amendEvent req)) s reply s'
  | .ledger call, s, s' => Routed call = true ∧
      ∃ reply, (server env).Serves (ledgerRoute call) s reply s'

/-! ### What is claimed and what is meant -/

/-- The charge that an amendment of an event with these properties refunds. -/
def claims (env : Env) (properties : Json) : Option EntryId :=
  if (properties.get? "priced_via").any fun value => !value.isNull then
    (((properties.get? "charge_entry_id").bind Json.asStr?).bind env.parseUuid).map Id.mk
  else none

/-- A request of usage metering posted an entry for a version of an event. -/
def PostsFor (env : Env) (version : EventId) (entry : LedgerEntry) :
    ApiRequest × Stores × Stores → Prop
  | (request, s, s') => entry ∈ s'.ledger.entries ∧ entry ∉ s.ledger.entries ∧
    entry.entryType = .usage ∧ match request with
      | .meter _ body => version = meteredId env body
      | .amend event body => ∃ original, find s.events event = some original ∧
          version = amendedId env original body.idempotencyKey
      | _ => False

/-- The engine posted an entry for a version from which an event descends. -/
def EnginePosted (env : Env) (history : List (ApiRequest × Stores × Stores)) (events : List Event)
    (event : EventId) (entry : LedgerEntry) : Prop :=
  ∃ origin, Descends events origin event ∧ ∃ past ∈ history, PostsFor env origin entry past

/-- **Only the engine moves money through an amendment**: every refund that an amendment posts
reverses a usage entry that the engine posted for the event's own chain. -/
def OnlyEngine (env : Env) (history : List (ApiRequest × Stores × Stores)) : Prop :=
  ∀ event body s s', (.amend event body, s, s') ∈ history →
    ∀ refund ∈ s'.ledger.entries, refund ∉ s.ledger.entries → refund.entryType = .refund →
      ∃ charge ∈ s.ledger.entries, refund.reversesEntryId = some charge.id ∧
        charge.entryType = .usage ∧ EnginePosted env history s.events event charge

/-- **What a request may claim**: generic events name no charge, generic amendments none but what an
earlier version names, and metering under the key of a charge that stands comes with its event. -/
def ApiRequest.Honest (env : Env) (s : Stores) : ApiRequest → Prop
  | .record req => claims env req.properties = none
  | .recordBatch reqs => ∀ req ∈ reqs, claims env req.properties = none
  | .amendEvent req => claims env req.properties = none ∨
      ∃ earlier ∈ s.events, Descends s.events earlier.id req.eventId ∧
        claims env earlier.properties = claims env req.properties
  | .meter _ body => ∀ entry,
      s.ledger.findKeyed body.account (chargeKey body.idempotencyKey) = some entry →
      0 < s.ledger.unreversedRemainder entry.id → (find s.events (meteredId env body)).isSome
  | .amend _ _ | .voidRun _ | .ledger _ => True

/-! ### The invariant -/

/-- An entry that an amendment of an event may name: nothing of it is left to refund, or the engine
posted it for the event's chain. -/
def Backed (env : Env) (history : List (ApiRequest × Stores × Stores)) (s : Stores)
    (event : EventId) (id : EntryId) : Prop :=
  ∃ charge ∈ s.ledger.entries, charge.id = id ∧ (s.ledger.unreversedRemainder id ≤ 0 ∨
    charge.entryType = .usage ∧ EnginePosted env history s.events event charge)

/-- What stands behind the charges that events name. -/
structure Sourced (env : Env) (history : List (ApiRequest × Stores × Stores)) (s : Stores) :
    Prop where
  wf : s.ledger.WellFormed
  refunds : ∀ entry ∈ s.ledger.entries, entry.reversesEntryId = none ∨ 0 < entry.deltaCredits
  distinct : (s.events.map Event.id).Nodup
  backed : ∀ event ∈ s.events, ∀ id, claims env event.properties = some id →
    Backed env history s event.id id
  versions : ∀ entry ∈ s.ledger.entries, ∀ version,
    entry.idempotencyKey = some (amendChargeKey version) →
    0 < s.ledger.unreversedRemainder entry.id → version ∈ s.events.map Event.id

section Sourced

variable {env : Env} {history more : List (ApiRequest × Stores × Stores)} {s s' : Stores}

theorem Env.Lawful.storing {stored : Uuid → Except ApiError RateCard} (lawful : env.Lawful) :
    (env.storing stored).Lawful := ⟨lawful.decimal, lawful.uuid⟩

/-- What stands behind a link does not depend on the stored cards. -/
theorem Sourced.storing {stored stored' : Uuid → Except ApiError RateCard}
    (sourced : Sourced (env.storing stored) history s) : Sourced (env.storing stored') history s :=
  ⟨sourced.wf, sourced.refunds, sourced.distinct, sourced.backed, sourced.versions⟩

theorem EnginePosted.mono {events events' : List Event} {event : EventId} {entry : LedgerEntry}
    (posted : EnginePosted env history events event entry)
    (descent : ∀ older newer, Descends events older newer → Descends events' older newer) :
    EnginePosted env (history ++ more) events' event entry := by
  obtain ⟨origin, descends, past, inside, posts⟩ := posted
  exact ⟨origin, descent _ _ descends, past, List.mem_append_left _ inside, posts⟩

theorem EnginePosted.descend {events : List Event} {older newer : EventId} {entry : LedgerEntry}
    (posted : EnginePosted env history events older entry) (descends : Descends events older newer) :
    EnginePosted env history events newer entry := by
  obtain ⟨origin, earlier, past⟩ := posted
  exact ⟨origin, earlier.trans descends, past⟩

/-- The ledger moved on: entries stay, and remainders only fall. -/
structure Advances (before after : Ledger.State) : Prop where
  wf : after.WellFormed
  entries : ∃ posted, after.entries = before.entries ++ posted ∧
    ∀ entry ∈ posted, entry.reversesEntryId = none ∨ 0 < entry.deltaCredits

theorem Advances.refl {ledger : Ledger.State} (wf : ledger.WellFormed) : Advances ledger ledger :=
  ⟨wf, [], (List.append_nil _).symm, fun _ inside => absurd inside List.not_mem_nil⟩

theorem Advances.of_path {before after : Ledger.State} (wf : before.WellFormed)
    {actions : List Action} (path : Ledger.Path before actions after) : Advances before after := by
  refine ⟨wf.path path, _, path.entries, ?_⟩
  induction path with
  | nil s => exact fun _ inside => absurd inside List.not_mem_nil
  | cons action enabled _ ih =>
    intro entry inside
    rw [List.flatMap_cons] at inside
    rcases List.mem_append.mp inside with now | later
    · exact Ledger.posted_links enabled now
    · exact ih (wf.apply enabled) entry later

theorem Advances.mem {before after : Ledger.State} (advances : Advances before after)
    {entry : LedgerEntry} (member : entry ∈ before.entries) : entry ∈ after.entries := by
  obtain ⟨posted, entries, _⟩ := advances.entries
  rw [entries]
  exact List.mem_append_left _ member

theorem Advances.remainder {before after : Ledger.State} (advances : Advances before after)
    {entry : LedgerEntry} (member : entry ∈ before.entries) :
    after.unreversedRemainder entry.id ≤ before.unreversedRemainder entry.id := by
  obtain ⟨posted, entries, links⟩ := advances.entries
  rw [Ledger.State.unreversedRemainder_append entries (List.mem_map_of_mem member)]
  exact sub_le_self _ (Ledger.linkedSum_nonneg links _)

/-- **What was backed stays backed.** -/
theorem Backed.mono {event : EventId} {id : EntryId} (backed : Backed env history s event id)
    (advances : Advances s.ledger s'.ledger)
    (descent : ∀ older newer, Descends s.events older newer → Descends s'.events older newer) :
    Backed env (history ++ more) s' event id := by
  obtain ⟨charge, member, rfl, spent | ⟨usage, posted⟩⟩ := backed
  · exact ⟨charge, advances.mem member, rfl, Or.inl ((advances.remainder member).trans spent)⟩
  · exact ⟨charge, advances.mem member, rfl, Or.inr ⟨usage, posted.mono descent⟩⟩

/-- **How the invariant is kept**: what is new has to be backed. -/
theorem Sourced.advance (sourced : Sourced env history s) (advances : Advances s.ledger s'.ledger)
    (descent : ∀ older newer, Descends s.events older newer → Descends s'.events older newer)
    (distinct : (s'.events.map Event.id).Nodup)
    (kept : s.events.map Event.id ⊆ s'.events.map Event.id)
    (backed : ∀ event ∈ s'.events, (∃ old ∈ s.events, old.id = event.id ∧
      old.properties = event.properties) ∨ ∀ id, claims env event.properties = some id →
        Backed env (history ++ more) s' event.id id)
    (versions : ∀ entry ∈ s'.ledger.entries, entry ∉ s.ledger.entries → ∀ version,
      entry.idempotencyKey = some (amendChargeKey version) → 0 ≤ entry.deltaCredits ∨
        version ∈ s'.events.map Event.id) :
    Sourced env (history ++ more) s' := by
  have refunds : ∀ entry ∈ s'.ledger.entries,
      entry.reversesEntryId = none ∨ 0 < entry.deltaCredits := by
    obtain ⟨posted, entries, links⟩ := advances.entries
    intro entry inside
    rw [entries] at inside
    rcases List.mem_append.mp inside with before | now
    · exact sourced.refunds entry before
    · exact links entry now
  refine ⟨advances.wf, refunds, distinct, fun event inside id claimed => ?_,
    fun entry inside version keyed left => ?_⟩
  · rcases backed event inside with ⟨old, member, same, properties⟩ | backed
    · rw [← same]
      exact (sourced.backed old member id (properties ▸ claimed)).mono advances descent
    · exact backed id claimed
  · by_cases before : entry ∈ s.ledger.entries
    · exact kept (sourced.versions entry before version keyed
        (left.trans_le (advances.remainder before)))
    · refine (versions entry inside before version keyed).resolve_left fun adds => ?_
      refine absurd left (not_lt.mpr ?_)
      rw [Ledger.State.unreversedRemainder, Ledger.State.charged_of_mem advances.wf.entryIds inside,
        Ledger.State.reversed_eq]
      have linked := Ledger.linkedSum_nonneg refunds entry.id
      linarith

/-! ### Ledger routes and run voids -/

/-- Everything but a direct charge posts without a key or adds credits. -/
theorem posted_key {ledger : Ledger.State} {action : Action} (enabled : action.Enabled ledger)
    (quiet : ∀ entry, action ≠ .charge entry) {entry : LedgerEntry}
    (member : entry ∈ action.posted) : entry.idempotencyKey = none ∨ 0 < entry.deltaCredits := by
  cases action with
  | charge charged => exact absurd rfl (quiet charged)
  | credit credited =>
    rw [List.mem_singleton.mp member]
    exact Or.inr enabled.2.2.1
  | settle reservation settled =>
    rw [List.mem_singleton.mp member]
    exact Or.inl enabled.2.2.2.2.1
  | reverse refund =>
    rw [List.mem_singleton.mp member]
    exact Or.inr enabled.2.2.1
  | transfer out into =>
    rcases List.mem_pair.mp member with rfl | rfl
    · exact Or.inl enabled.plain.2.2.1
    · exact Or.inl enabled.plain.2.2.2
  | openAccount _ | place _ _ | release _ | extend _ _ => exact absurd member List.not_mem_nil

theorem posted_key_of_path {ledger ledger' : Ledger.State} {actions : List Action}
    (path : Ledger.Path ledger actions ledger')
    (quiet : ∀ action ∈ actions, ∀ entry, action ≠ .charge entry) {entry : LedgerEntry}
    (member : entry ∈ actions.flatMap Action.posted) :
    entry.idempotencyKey = none ∨ 0 < entry.deltaCredits := by
  induction path with
  | nil s => exact absurd member List.not_mem_nil
  | cons action enabled _ ih =>
    rw [List.flatMap_cons] at member
    rcases List.mem_append.mp member with now | later
    · exact posted_key enabled (quiet action List.mem_cons_self) now
    · exact ih (fun other inside => quiet other (List.mem_cons_of_mem _ inside)) later

/-- **Without direct charges nothing new is claimed.** -/
theorem Sourced.quiet (sourced : Sourced env history s) {actions : List Action}
    (path : Ledger.Path s.ledger actions s'.ledger)
    (quiet : ∀ action ∈ actions, ∀ entry, action ≠ .charge entry) {status : Event → EventStatus}
    (events : s'.events = restate status s.events) : Sourced env (history ++ more) s' := by
  have ids : s'.events.map Event.id = s.events.map Event.id := by rw [events, ids_restate]
  refine sourced.advance (.of_path sourced.wf path) (fun older newer descends => ?_) ?_ ?_
    (fun event inside => Or.inl ?_) (fun entry inside new version keyed => Or.inl ?_)
  · rwa [events, descends_restate]
  · rw [ids]
    exact sourced.distinct
  · rw [ids]
    exact List.Subset.refl _
  · rw [events] at inside
    obtain ⟨old, member, rfl⟩ := mem_restate.mp inside
    exact ⟨old, member, rfl, rfl⟩
  · rw [path.entries] at inside
    have posted := (List.mem_append.mp inside).resolve_left new
    refine ((posted_key_of_path path quiet posted).resolve_left fun none => ?_).le
    cases none.symm.trans keyed

theorem restate_status (events : List Event) : restate Event.status events = events :=
  List.map_id events

theorem Sourced.ledgerRoute (sourced : Sourced env history s) {call : Ledger.Call}
    (routed : Routed call = true) {reply : Except ApiError Ledger.Reply}
    (serves : (server env).Serves (ledgerRoute call) s reply s') :
    Sourced env (history ++ more) s' := by
  obtain ⟨amb, answer, ledger, callable, stepped, rfl⟩ := serves_ledgerRoute serves
  obtain ⟨actions, path, permitted⟩ := Ledger.step_follows sourced.wf callable _ _ stepped
  refine sourced.quiet path (fun action inside entry isCharge => ?_) (restate_status s.events).symm
  have permits := permitted action inside
  subst isCharge
  cases call with
  | charge req => cases routed
  | _ => exact permits

/-- What a run void does to any ledger. -/
theorem serves_voidRun_path (wf : s.ledger.WellFormed) {run : RunId}
    {reply : Except ApiError VoidRunResult}
    (serves : (server env).Serves (Api.voidRun run) s reply s') :
    s'.events = restate (voided run) s.events ∧ ∃ actions,
      Ledger.Path s.ledger actions s'.ledger ∧
      ∀ action ∈ actions, (Ledger.Call.voidRun run).Permits action := by
  obtain ⟨answer, middle, performed, rest⟩ := serves_tryEvent serves
  obtain ⟨⟨count, rfl⟩, rfl⟩ := perform_voidEvents performed
  rcases rest with ⟨_, impossible, _⟩ | ⟨_, _, rest⟩
  · cases impossible
  obtain ⟨answer, after, ⟨out, ⟨fresh, _⟩, executed⟩, rest⟩ := serves_tryLedger rest
  obtain ⟨ledger, same, rfl⟩ := onLedger_eq executed
  obtain ⟨reply', after, actions, result, path, permitted⟩ :=
    Ledger.voidRun_refines wf fresh run
  cases same.symm.trans result
  have last : s' = ⟨ledger, restate (voided run) s.events⟩ := by
    rcases rest with ⟨_, _, same⟩ | ⟨_, _, rest⟩
    · exact same
    · exact (Server.serves_done.mp rest).2
  rw [last]
  exact ⟨rfl, actions, path, permitted⟩

theorem Sourced.voidRun (sourced : Sourced env history s) {run : RunId}
    {reply : Except ApiError VoidRunResult}
    (serves : (server env).Serves (Api.voidRun run) s reply s') :
    Sourced env (history ++ more) s' := by
  obtain ⟨events, actions, path, permitted⟩ := serves_voidRun_path sourced.wf serves
  refine sourced.quiet path (fun action inside entry isCharge => ?_) events
  have permits := permitted action inside
  subst isCharge
  exact permits

/-! ### New events -/

/-- A longer history. -/
theorem Sourced.mono (sourced : Sourced env history s) : Sourced env (history ++ more) s :=
  sourced.quiet (.nil s.ledger) (fun _ inside => absurd inside List.not_mem_nil)
    (restate_status s.events).symm

/-- **A new event whose claim is backed.** -/
theorem Sourced.append (sourced : Sourced env history s) (advances : Advances s.ledger s'.ledger)
    {status : Event → EventStatus} {new : Event}
    (events : s'.events = restate status s.events ++ [new])
    (fresh : new.id ∉ s.events.map Event.id)
    (backed : ∀ id, claims env new.properties = some id → Backed env (history ++ more) s' new.id id)
    (versions : ∀ entry ∈ s'.ledger.entries, entry ∉ s.ledger.entries → ∀ version,
      entry.idempotencyKey = some (amendChargeKey version) → 0 ≤ entry.deltaCredits ∨
        version = new.id) :
    Sourced env (history ++ more) s' := by
  have ids : s'.events.map Event.id = s.events.map Event.id ++ [new.id] := by
    rw [events, List.map_append, ids_restate]
    rfl
  refine sourced.advance advances (fun older newer descends => ?_) ?_ ?_ (fun event inside => ?_)
    (fun entry inside absent version keyed => ?_)
  · rw [events]
    refine Descends.mono (List.subset_append_left _ _) ?_
    rwa [descends_restate]
  · rw [ids, List.nodup_append]
    refine ⟨sourced.distinct, List.nodup_singleton _, ?_⟩
    rintro old member _ isNew rfl
    rw [List.mem_singleton.mp isNew] at member
    exact fresh member
  · rw [ids]
    exact List.subset_append_left _ _
  · rw [events] at inside
    rcases List.mem_append.mp inside with before | isNew
    · obtain ⟨old, member, rfl⟩ := mem_restate.mp before
      exact Or.inl ⟨old, member, rfl, rfl⟩
    · rw [List.mem_singleton.mp isNew]
      exact Or.inr backed
  · rcases versions entry inside absent version keyed with adds | rfl
    · exact Or.inl adds
    · rw [ids]
      exact Or.inr (List.mem_append_right _ (List.mem_singleton_self _))

theorem Sourced.recordLocked (sourced : Sourced env history s) (now : OffsetDateTime)
    {req : RecordEvent} (honest : claims env req.properties = none) :
    Sourced env history
      { s with events := (recordLocked env.idempotentEventId now req s.events).2 } := by
  rw [Events.recordLocked]
  split
  · exact sourced
  · rename_i absent
    rw [← List.append_nil history]
    refine sourced.append (.refl sourced.wf) (congrArg (· ++ _) (restate_status s.events).symm)
      (find_eq_none.mp absent) (fun id claimed => ?_) (fun entry inside new => absurd inside new)
    cases honest.symm.trans claimed

theorem Sourced.recordBatch {reqs : List (OffsetDateTime × RecordEvent)} :
    ∀ {s : Stores}, Sourced env history s →
      (∀ req ∈ reqs, claims env req.2.properties = none) → Sourced env history
        { s with events := (recordBatch env.idempotentEventId reqs s.events).2 } := by
  induction reqs with
  | nil => exact fun sourced _ => sourced
  | cons req rest ih =>
    intro s sourced honest
    have recorded := sourced.recordLocked req.1 (honest req List.mem_cons_self)
    exact ih recorded fun other inside => honest other (List.mem_cons_of_mem _ inside)

theorem serves_eventRoute {α : Type} {call : StoreCall (Except EventError α)}
    {reply : Except ApiError α} (serves : (server env).Serves (eventRoute call) s reply s') :
    ∃ answer, (server env).perform call s answer s' := by
  obtain ⟨answer, middle, performed, rest⟩ := serves_tryEvent serves
  refine ⟨answer, ?_⟩
  rcases rest with ⟨_, _, rfl⟩ | ⟨_, _, rest⟩
  · exact performed
  · rw [(Server.serves_done.mp rest).2]
    exact performed

/-- A generic amendment supersedes an event, or does nothing. -/
theorem Sourced.amendEvent (sourced : Sourced env history s) {req : AmendEvent}
    (honest : (ApiRequest.amendEvent req).Honest env s) (draw : Draw) :
    Sourced env history { s with events := (amend env.idempotentEventId draw req s.events).2 } := by
  rw [amend]
  split
  · exact sourced
  rename_i original found
  split
  · exact sourced
  dsimp only
  split
  · exact sourced
  rename_i absent
  rw [setStatus_eq sourced.distinct, ← List.append_nil history]
  refine sourced.append (.refl sourced.wf) rfl (find_eq_none.mp absent) (fun id claimed => ?_)
    (fun entry inside new => absurd inside new)
  rcases honest with none | ⟨earlier, member, descends, same⟩
  · cases none.symm.trans claimed
  -- the claim of an earlier version, which the new one descends from
  obtain ⟨charge, stored, isCharge, spent | ⟨usage, posted⟩⟩ :=
    sourced.backed earlier member id (same.trans claimed)
  · exact ⟨charge, stored, isCharge, Or.inl spent⟩
  · refine ⟨charge, stored, isCharge, Or.inr ⟨usage, ?_⟩⟩
    have descent : ∀ older newer, Descends s.events older newer → Descends
        (restate (marked original.id) s.events ++
          [req.intoAmendedEvent env.idempotentEventId original draw]) older newer := by
      intro older newer descends
      refine Descends.mono (List.subset_append_left _ _) ?_
      rwa [descends_restate]
    refine (posted.mono descent).descend ((descent _ _ descends).tail ⟨_,
      List.mem_append_right _ (List.mem_singleton_self _), rfl, ?_⟩)
    rw [← (find_eq_some found).2]
    rfl

/-! ### Metering and amending -/

/-- **A charge is new or was found under its key**, on any ledger. -/
theorem ChargesFor.advances {account : AccountId} {run : Option RunId} {burned : Credit}
    {key : String} {link : Option EntryId} (wf : s.ledger.WellFormed)
    (charges : ChargesFor env account run burned key s s' link) :
    Advances s.ledger s'.ledger ∧
    (∀ entry ∈ s'.ledger.entries, entry ∉ s.ledger.entries → entry.entryType = .usage ∧
      entry.idempotencyKey = some key ∧ link = some entry.id) ∧
    ∀ id, link = some id → ∃ entry ∈ s'.ledger.entries, entry.id = id ∧
      (entry ∉ s.ledger.entries ∨ s.ledger.findKeyed account key = some entry) := by
  rcases charges.cases with ⟨_, rfl, rfl⟩ | ⟨_, _, entry, rfl, ⟨found, rfl⟩ | posts⟩
  · exact ⟨.refl wf, fun _ inside new => absurd inside new, fun _ impossible => by cases impossible⟩
  · refine ⟨.refl wf, fun _ inside new => absurd inside new, ?_⟩
    rintro id ⟨⟩
    exact ⟨entry, (Ledger.findKeyed_eq_some found).1, rfl, Or.inr found⟩
  refine ⟨?_, fun other inside new => ?_, ?_⟩
  · rw [posts.after]
    exact .of_path wf (.single posts.enabled)
  · rw [posts.entries] at inside
    rw [List.mem_singleton.mp ((List.mem_append.mp inside).resolve_left new)]
    exact ⟨posts.enabled.2.2.2.1, posts.key, rfl⟩
  · rintro id ⟨⟩
    refine ⟨entry, ?_, rfl,
      Or.inl fun member => posts.enabled.1.fresh (List.mem_map_of_mem member)⟩
    rw [posts.entries]
    exact List.mem_append_right _ (List.mem_singleton_self _)

theorem claims_of_priced {event : Event} {burned : Credit} {link : Option EntryId}
    (priced : Priced env event burned link) : claims env event.properties = link := by
  show (if isEnginePriced event then recordedChargeEntry env event else none) = link
  rw [if_pos priced.engine, priced.link]

/-- **Metering claims the charge that it posted.** -/
theorem Sourced.meter (lawful : env.Lawful) (sourced : Sourced env history s) {now : OffsetDateTime}
    {body : MeterUsageBody} (honest : (ApiRequest.meter now body).Honest env s)
    (meters : MetersUsage env now body s s') :
    Sourced env (history ++ [(.meter now body, s, s')]) s' := by
  obtain ⟨card, priced, middle, link, recordedAt, _, charges, isAfter⟩ := meters
  have ledger : s'.ledger = middle.ledger := by rw [isAfter]
  obtain ⟨advances, new, linked⟩ := charges.advances sourced.wf
  rw [← ledger] at advances new linked
  have otherKey : ∀ entry ∈ s'.ledger.entries, entry ∉ s.ledger.entries → ∀ version,
      entry.idempotencyKey ≠ some (amendChargeKey version) := by
    intro entry inside absent version keyed
    have same := congrArg keyKind
      (Option.some.inj ((new entry inside absent).2.1.symm.trans keyed))
    rw [keyKind_chargeKey, keyKind_amendChargeKey] at same
    cases same
  by_cases present : (find s.events (meteredId env body)).isSome
  · have events : s'.events = s.events := by rw [isAfter, if_pos present]
    refine sourced.advance advances (fun _ _ descends => by rwa [events])
      (by rw [events]; exact sourced.distinct) (by rw [events]; exact List.Subset.refl _)
      (fun event inside => Or.inl ⟨event, events ▸ inside, rfl, rfl⟩)
      (fun entry inside absent version keyed => absurd keyed (otherKey entry inside absent version))
  have events : s'.events = s.events ++
      [meteredUsage env now recordedAt body card priced link] := by
    rw [isAfter, if_neg present]
  have absent : meteredId env body ∉ s.events.map Event.id :=
    fun member => present (find_isSome.mpr member)
  refine sourced.append advances (events.trans (congrArg (· ++ _) (restate_status s.events).symm))
    absent (fun id claimed => ?_)
    (fun entry inside absent version keyed => absurd keyed (otherKey entry inside absent version))
  rw [claims_of_priced (priced_meteredUsage lawful now recordedAt body card priced link)] at claimed
  obtain ⟨entry, stored, rfl, fresh | found⟩ := linked id claimed
  · refine ⟨entry, stored, rfl, Or.inr ⟨(new entry stored fresh).1, _, .refl, _,
      List.mem_append_right _ (List.mem_singleton_self _), stored, fresh,
      (new entry stored fresh).1, rfl⟩⟩
  · -- a charge that stands would have come with its event
    have member := (Ledger.findKeyed_eq_some found).1
    refine ⟨entry, stored, rfl, Or.inl ((advances.remainder member).trans (not_lt.mp ?_))⟩
    exact fun stands => present (honest entry found stands)

/-- **A reversal within an amendment refunds what the engine posted for the event.** -/
theorem Repriced.Reverses.own (sourced : Sourced env history s) {amendment : Repriced}
    {reversed : Stores} (member : amendment.original ∈ s.events)
    (engine : isEnginePriced amendment.original = true)
    (reverses : amendment.Reverses env s reversed) :
    reversed.events = s.events ∧ (∃ actions, Ledger.Path s.ledger actions reversed.ledger ∧
      ∀ action ∈ actions, ∀ entry, action ≠ .charge entry) ∧
    ∀ refund ∈ reversed.ledger.entries, refund ∉ s.ledger.entries →
      ∃ charge ∈ s.ledger.entries, refund.reversesEntryId = some charge.id ∧
        charge.entryType = .usage ∧
        EnginePosted env history s.events amendment.original.id charge := by
  refine ⟨reverses.events, ?_⟩
  have still : (∃ actions, Ledger.Path s.ledger actions s.ledger ∧
      ∀ action ∈ actions, ∀ entry, action ≠ Action.charge entry) ∧
      ∀ refund ∈ s.ledger.entries, refund ∉ s.ledger.entries →
        ∃ charge ∈ s.ledger.entries, refund.reversesEntryId = some charge.id ∧
          charge.entryType = .usage ∧
          EnginePosted env history s.events amendment.original.id charge :=
    ⟨⟨[], .nil _, fun _ inside => absurd inside List.not_mem_nil⟩,
      fun _ inside new => absurd inside new⟩
  rcases reverses with ⟨_, rfl⟩ | ⟨charge, reversal, claimed, performed⟩
  · exact still
  rcases perform_reverseCharge performed with
    ⟨_, _, rfl⟩ | ⟨_, _, ⟨_, _, rfl⟩ | ⟨_, rfl⟩ | ⟨refund, enabled, _, links, _, rfl⟩⟩
  · exact still
  · exact still
  · exact still
  refine ⟨⟨[.reverse refund], .single enabled, fun action inside entry isCharge => ?_⟩,
    fun other inside new => ?_⟩
  · rw [List.mem_singleton.mp inside] at isCharge
    cases isCharge
  rw [Action.apply_entries] at inside
  rw [List.mem_singleton.mp ((List.mem_append.mp inside).resolve_left new)]
  have claimed' : claims env amendment.original.properties = some charge := by
    show (if isEnginePriced amendment.original then recordedChargeEntry env amendment.original
      else none) = some charge
    rw [if_pos engine, claimed]
  obtain ⟨own, stored, isOwn, spent | ⟨usage, posted⟩⟩ :=
    sourced.backed amendment.original member charge claimed'
  · obtain ⟨_, _, positive, target, _, isTarget, _, amount, _⟩ := enabled
    have same : target.id = charge := Option.some.inj (isTarget.symm.trans links)
    rw [amount, same] at positive
    exact absurd positive (not_lt.mpr spent)
  · exact ⟨own, stored, links.trans (congrArg _ isOwn.symm), usage, posted⟩

/-- **An amendment claims the charge that it posted**, and refunds only the event's own. -/
theorem Sourced.amend (lawful : env.Lawful) (sourced : Sourced env history s) {event : EventId}
    {body : AmendUsageBody} {amendment : Repriced}
    (applicable : Applicable env s event body amendment) (applied : amendment.Applied env s s') :
    Sourced env (history ++ [(.amend event body, s, s')]) s' ∧
    ∀ refund ∈ s'.ledger.entries, refund ∉ s.ledger.entries → refund.entryType = .refund →
      ∃ charge ∈ s.ledger.entries, refund.reversesEntryId = some charge.id ∧
        charge.entryType = .usage ∧ EnginePosted env history s.events event charge := by
  obtain ⟨member, isEvent⟩ := find_eq_some applicable.found
  obtain ⟨reversed, charged, link, reverses, recharges, draw, isAfter⟩ := applied
  obtain ⟨sameEvents, ⟨actions, path, quiet⟩, own⟩ := reverses.own sourced member applicable.engine
  have sourced' : Sourced env history reversed := by
    rw [← List.append_nil history]
    exact sourced.quiet path quiet (sameEvents.trans (restate_status s.events).symm)
  have ledger : s'.ledger = charged.ledger := by rw [isAfter]
  obtain ⟨advances, new, linked⟩ := recharges.advances sourced'.wf
  rw [← ledger] at advances new linked
  have absent : amendment.version env ∉ reversed.events.map Event.id := by
    rw [sameEvents]
    exact find_eq_none.mp applicable.absent
  have events : s'.events = restate (marked amendment.original.id) reversed.events ++
      [amendment.amended env link draw] := by
    rw [isAfter, recharges.events, setStatus_eq sourced'.distinct]
  constructor
  · refine sourced'.append advances events absent (fun id claimed => ?_)
      (fun entry inside fresh version keyed => Or.inr ?_)
    · rw [claims_of_priced (amendment.priced_amended lawful link draw)] at claimed
      obtain ⟨entry, stored, rfl, fresh | found⟩ := linked id claimed
      · have usage := (new entry stored fresh).1
        refine ⟨entry, stored, rfl, Or.inr ⟨usage, _, .refl, _,
          List.mem_append_right _ (List.mem_singleton_self _), stored, fun before => ?_, usage,
          amendment.original, applicable.found, ?_⟩⟩
        · exact fresh ((Advances.of_path sourced.wf path).mem before)
        · rw [← (reprice_eq applicable.repriced).2]
          rfl
      · -- the charge of a version that is not there has nothing left
        obtain ⟨inside, _, keyed⟩ := Ledger.findKeyed_eq_some found
        refine ⟨entry, stored, rfl, Or.inl ((advances.remainder inside).trans (not_lt.mp ?_))⟩
        exact fun stands => absent (sourced'.versions entry inside _ keyed stands)
    · exact amendChargeKey_injective
        (Option.some.inj (keyed.symm.trans (new entry inside fresh).2.1))
  · intro refund inside fresh kind
    rw [← isEvent]
    by_cases before : refund ∈ reversed.ledger.entries
    · exact own refund before fresh
    · cases kind.symm.trans (new refund inside before).1

/-! ### Runs -/

/-- **Every honest request keeps the invariant.** -/
theorem Sourced.step (lawful : env.Lawful) (sourced : Sourced env history s) {request : ApiRequest}
    (honest : request.Honest env s) (served : request.Served env s s') :
    Sourced env (history ++ [(request, s, s')]) s' := by
  cases request with
  | meter now body =>
    obtain ⟨stored, reply, serves⟩ := served
    rcases serves_meterUsage serves with rfl | meters
    · exact sourced.mono
    · have own : Sourced (env.storing stored) history s := sourced.storing
      exact (own.meter lawful.storing honest meters).storing
  | amend event body =>
    obtain ⟨stored, reply, serves⟩ := served
    rcases serves_amendUsage serves with ⟨rfl, _⟩ | ⟨amendment, applicable, applied⟩
    · exact sourced.mono
    · have own : Sourced (env.storing stored) history s := sourced.storing
      exact (own.amend lawful.storing applicable applied).1.storing
  | voidRun run =>
    obtain ⟨reply, serves⟩ := served
    exact sourced.voidRun serves
  | record req =>
    obtain ⟨reply, serves⟩ := served
    obtain ⟨answer, performed⟩ := serves_eventRoute serves
    obtain ⟨_, now, rfl⟩ := perform_recordEvent performed
    exact (sourced.recordLocked now honest).mono
  | recordBatch reqs =>
    obtain ⟨reply, serves⟩ := served
    obtain ⟨answer, out, _, executed⟩ := serves_eventRoute serves
    cases executed
    refine (sourced.recordBatch fun req inside => ?_).mono
    obtain ⟨pair, member, rfl⟩ := List.mem_map.mp inside
    exact honest _ (List.fst_mem_of_mem_zipIdx member)
  | amendEvent req =>
    obtain ⟨reply, serves⟩ := served
    obtain ⟨answer, performed⟩ := serves_eventRoute serves
    obtain ⟨draw, _, rfl⟩ := perform_amendEvent performed
    exact (sourced.amendEvent honest draw).mono
  | ledger call =>
    obtain ⟨routed, reply, serves⟩ := served
    exact sourced.ledgerRoute routed serves

/-- What happened before does not depend on what comes after. -/
theorem OnlyEngine.snoc (only : OnlyEngine env history) {request : ApiRequest}
    (own : ∀ event body, request = .amend event body →
      ∀ refund ∈ s'.ledger.entries, refund ∉ s.ledger.entries → refund.entryType = .refund →
        ∃ charge ∈ s.ledger.entries, refund.reversesEntryId = some charge.id ∧
          charge.entryType = .usage ∧ EnginePosted env history s.events event charge) :
    OnlyEngine env (history ++ [(request, s, s')]) := by
  intro event body before after inside refund member new kind
  have later : ∃ charge ∈ before.ledger.entries, refund.reversesEntryId = some charge.id ∧
      charge.entryType = .usage ∧ EnginePosted env history before.events event charge := by
    rcases List.mem_append.mp inside with past | now
    · exact only event body before after past refund member new kind
    · cases List.mem_singleton.mp now
      exact own event body rfl refund member new kind
  obtain ⟨charge, stored, links, usage, posted⟩ := later
  exact ⟨charge, stored, links, usage, posted.mono fun _ _ => id⟩

theorem Sourced.new : Sourced env [] Stores.new where
  wf := .new
  refunds := fun _ inside => absurd inside List.not_mem_nil
  distinct := List.nodup_nil
  backed := fun _ inside => absurd inside List.not_mem_nil
  versions := fun _ inside => absurd inside List.not_mem_nil

theorem Sourced.of_runs (lawful : env.Lawful) {steps : List (ApiRequest × Stores)}
    (runs : Runs (ApiRequest.Served env) Stores.new steps s)
    (honest : ∀ step ∈ steps, step.1.Honest env step.2) :
    Sourced env (transitions steps s) s ∧ OnlyEngine env (transitions steps s) := by
  induction runs with
  | nil => exact ⟨.new, fun _ _ _ _ inside => absurd inside List.not_mem_nil⟩
  | @snoc steps s s' request _ served ih =>
    obtain ⟨sourced, only⟩ := ih fun step inside => honest step (List.mem_append_left _ inside)
    have own := honest _ (List.mem_append_right _ (List.mem_singleton_self _))
    rw [transitions_snoc]
    refine ⟨sourced.step lawful own served, only.snoc ?_⟩
    rintro event body rfl
    obtain ⟨stored, reply, serves⟩ := served
    rcases serves_amendUsage serves with ⟨rfl, _⟩ | ⟨amendment, applicable, applied⟩
    · exact fun _ inside new => absurd inside new
    · have own : Sourced (env.storing stored) (transitions steps s) s :=
        sourced.storing
      exact (own.amend lawful.storing applicable applied).2

end Sourced

/-- **In a run of honest requests only the engine moves money through amendments.** -/
theorem refunds_are_own {env : Env} (lawful : env.Lawful) {steps : List (ApiRequest × Stores)}
    {s : Stores} (runs : Runs (ApiRequest.Served env) Stores.new steps s)
    (honest : ∀ step ∈ steps, step.1.Honest env step.2) : OnlyEngine env (transitions steps s) :=
  (Sourced.of_runs lawful runs honest).2

/-! ### Two runs -/

/-- Run a request alone. -/
def ApiRequest.serve (env : Env) (outs : List Outside) : ApiRequest → Stores → Option Stores
  | .meter now body, s => (Api.serve env (meterUsage env now body) outs s).map Prod.snd
  | .amend event body, s => (Api.serve env (amendUsage env event body) outs s).map Prod.snd
  | .voidRun run, s => (Api.serve env (Api.voidRun run) outs s).map Prod.snd
  | .record req, s => (Api.serve env (eventRoute (.recordEvent req)) outs s).map Prod.snd
  | .recordBatch reqs, s => (Api.serve env (eventRoute (.recordBatch reqs)) outs s).map Prod.snd
  | .amendEvent req, s => (Api.serve env (eventRoute (.amendEvent req)) outs s).map Prod.snd
  | .ledger call, s => if Routed call = true then
      (Api.serve env (ledgerRoute call) outs s).map Prod.snd else none

theorem ApiRequest.served_of_serve {env : Env} {outs : List Outside} {request : ApiRequest}
    {s s' : Stores} (served : request.serve env outs s = some s') : request.Served env s s' := by
  cases request with
  | ledger call =>
    simp only [ApiRequest.serve] at served
    split at served
    · rename_i routed
      obtain ⟨⟨reply, after⟩, ran, rfl⟩ := Option.map_eq_some_iff.mp served
      exact ⟨routed, reply, serves_of_serve ran⟩
    · cases served
  | meter _ _ | amend _ _ =>
    obtain ⟨⟨reply, after⟩, ran, rfl⟩ := Option.map_eq_some_iff.mp served
    exact ⟨env.loadStoredCard, reply, serves_of_serve ran⟩
  | _ =>
    obtain ⟨⟨reply, after⟩, ran, rfl⟩ := Option.map_eq_some_iff.mp served
    exact ⟨reply, serves_of_serve ran⟩

/-- Run requests one after another. -/
def playback (env : Env) (script : List (List Outside × ApiRequest)) :
    Option (List (ApiRequest × Stores) × Stores) :=
  script.foldlM (fun run step => (step.2.serve env step.1 run.2).map fun s' =>
    (run.1 ++ [(step.2, run.2)], s')) ([], Stores.new)

theorem runs_of_playback {env : Env} {script : List (List Outside × ApiRequest)}
    {steps : List (ApiRequest × Stores)} {s : Stores}
    (played : playback env script = some (steps, s)) :
    Runs (ApiRequest.Served env) Stores.new steps s := by
  unfold playback at played
  exact (runs_of_foldlM (fun outs => ApiRequest.serve env outs)
    (fun _ _ _ _ => ApiRequest.served_of_serve) .nil played).1

/-- An event of account 1 with any properties. -/
def plainEvent (properties : Json) : RecordEvent where
  orgId := 1
  idempotencyKey := "x"
  eventTime := 0
  meter := "tokens"
  accountId := 1
  runId := none
  properties := properties

/-- Properties that name a charge. -/
def forged (charge : EntryId) : Json := .object [("priced_via", .string "catalog"),
  ("model", .string "small"), ("charge_entry_id", .string charge.toString)]

/-- An account with ten metered tokens, and a generic event. -/
def meteredScript (properties : Json) : List (List Outside × ApiRequest) := [
  ([drawn 0], .ledger (.openAccount ⟨1, .user, false, none⟩)),
  ([drawn 1], .ledger (.grant ⟨1, 100, .paid, none⟩)),
  ([drawn 2, drawn 3, drawn 4], .meter 0 sampleBody),
  ([drawn 5], .record (plainEvent properties))]

/-- No tokens at all. -/
def nothingUsed : AmendUsageBody := ⟨⟨0, 0, 0, 0, 0⟩, none, none, "a"⟩

/-- A script, and then an event amended to nothing: the requests, with the states they found. -/
def amendedSteps (script : List (List Outside × ApiRequest)) (event : EventId) :
    List (ApiRequest × Stores) :=
  let (steps, s) := (playback sampleEnv script).getD ([], Stores.new)
  steps ++ [(.amend event nothingUsed, s)]

/-- The stores before the amendment. -/
def unamendedStores (script : List (List Outside × ApiRequest)) : Stores :=
  ((playback sampleEnv script).getD ([], Stores.new)).2

/-- The stores after it. -/
def amendedStores (script : List (List Outside × ApiRequest)) (event : EventId) : Stores :=
  ((ApiRequest.amend event nothingUsed).serve sampleEnv
    [drawn 6, drawn 7, drawn 8, drawn 9, drawn 10, drawn 11] (unamendedStores script)).getD Stores.new

theorem amended_runs (script : List (List Outside × ApiRequest)) (event : EventId)
    (played : (playback sampleEnv script).isSome)
    (served : ((ApiRequest.amend event nothingUsed).serve sampleEnv
      [drawn 6, drawn 7, drawn 8, drawn 9, drawn 10, drawn 11] (unamendedStores script)).isSome) :
    Runs (ApiRequest.Served sampleEnv) Stores.new (amendedSteps script event)
        (amendedStores script event) ∧
      (.amend event nothingUsed, unamendedStores script, amendedStores script event) ∈
        transitions (amendedSteps script event) (amendedStores script event) := by
  obtain ⟨⟨steps, s⟩, isRun⟩ := Option.isSome_iff_exists.mp played
  obtain ⟨s', isLast⟩ := Option.isSome_iff_exists.mp served
  have before : unamendedStores script = s := by rw [unamendedStores, isRun, Option.getD_some]
  have last : amendedStores script event = s' := by rw [amendedStores, isLast, Option.getD_some]
  have isSteps : amendedSteps script event = steps ++ [(.amend event nothingUsed, s)] := by
    rw [amendedSteps, isRun]
    rfl
  rw [isSteps, last, transitions_snoc, before]
  rw [before] at isLast
  exact ⟨.snoc _ (runs_of_playback isRun) (ApiRequest.served_of_serve isLast),
    List.mem_append_right _ (List.mem_singleton_self _)⟩

/-- The version for which a request posts. -/
def postedVersion (env : Env) : ApiRequest × Stores → Option EventId
  | (.meter _ body, _) => some (meteredId env body)
  | (.amend event body, s) => (find s.events event).map fun original =>
      amendedId env original body.idempotencyKey
  | _ => none

theorem PostsFor.version {env : Env} {version : EventId} {entry : LedgerEntry}
    {past : ApiRequest × Stores × Stores} (posts : PostsFor env version entry past) :
    postedVersion env (past.1, past.2.1) = some version := by
  obtain ⟨request, s, s'⟩ := past
  obtain ⟨_, _, _, isVersion⟩ := posts
  cases request with
  | meter now body => exact congrArg some isVersion.symm
  | amend event body =>
    obtain ⟨original, found, rfl⟩ := isVersion
    exact congrArg (Option.map _) found
  | _ => exact isVersion.elim

/-- **A forged link.** The generic event names the charge of the metered one, and amending it to
nothing refunds that charge, which was never posted for it. -/
theorem forged_charge_refunded : ∃ steps s, Runs (ApiRequest.Served sampleEnv) Stores.new steps s ∧
    ¬ OnlyEngine sampleEnv (transitions steps s) := by
  obtain ⟨runs, inside⟩ := amended_runs (meteredScript (forged 1006)) 1 (by decide +kernel)
    (by decide +kernel)
  refine ⟨_, _, runs, fun only => ?_⟩
  have refunded : ∃ refund ∈ (amendedStores (meteredScript (forged 1006)) 1).ledger.entries,
      refund ∉ (unamendedStores (meteredScript (forged 1006))).ledger.entries ∧
      refund.entryType = .refund := by decide +kernel
  obtain ⟨refund, member, new, kind⟩ := refunded
  obtain ⟨charge, _, _, _, origin, descends, past, posted, posts⟩ :=
    only 1 nothingUsed _ _ inside refund member new kind
  have first : ∀ event ∈ (unamendedStores (meteredScript (forged 1006))).events,
      event.id = 1 → event.supersedes = none := by decide +kernel
  have other : ∀ step ∈ amendedSteps (meteredScript (forged 1006)) 1,
      postedVersion sampleEnv step ≠ some 1 := by decide +kernel
  rcases Relation.ReflTransGen.cases_tail descends with rfl | ⟨older, _, event, stored, isEvent, link⟩
  · exact other _ (mem_of_transitions posted) posts.version
  · cases (first event stored isEvent).symm.trans link

/-- A check that is enough to be honest. -/
def ApiRequest.plain (env : Env) (s : Stores) : ApiRequest → Bool
  | .record req => (claims env req.properties).isNone
  | .recordBatch reqs => reqs.all fun req => (claims env req.properties).isNone
  | .amendEvent req => (claims env req.properties).isNone
  | .meter _ body => (s.ledger.findKeyed body.account (chargeKey body.idempotencyKey)).isNone
  | .amend _ _ | .voidRun _ | .ledger _ => true

theorem ApiRequest.honest_of_plain {env : Env} {s : Stores} {request : ApiRequest}
    (plain : request.plain env s = true) : request.Honest env s := by
  cases request with
  | record req => exact Option.isNone_iff_eq_none.mp plain
  | recordBatch reqs =>
    exact fun req inside => Option.isNone_iff_eq_none.mp (List.all_eq_true.mp plain req inside)
  | amendEvent req => exact Or.inl (Option.isNone_iff_eq_none.mp plain)
  | meter now body =>
    intro entry found _
    cases (Option.isNone_iff_eq_none.mp plain).symm.trans found
  | amend _ _ | voidRun _ | ledger _ => trivial

/-- The same script with a generic event that names no charge: the metered event is amended, and the
refund is its own. -/
theorem refunds_are_own_sample : ∃ steps s, OnlyEngine sampleEnv (transitions steps s) ∧
    ∃ event body before after, (.amend event body, before, after) ∈ transitions steps s ∧
      ∃ refund ∈ after.ledger.entries, refund ∉ before.ledger.entries ∧
        refund.entryType = .refund := by
  obtain ⟨runs, inside⟩ := amended_runs (meteredScript .null) 8 (by decide +kernel)
    (by decide +kernel)
  have plain : ∀ step ∈ amendedSteps (meteredScript .null) 8,
      step.1.plain sampleEnv step.2 = true := by decide +kernel
  have honest := fun step member => ApiRequest.honest_of_plain (plain step member)
  refine ⟨_, _, refunds_are_own sampleEnv_lawful runs honest, 8, nothingUsed, _, _, inside, ?_⟩
  decide +kernel

end Meter.Api
