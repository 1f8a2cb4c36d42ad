/-
**Events and the ledger agree.**

Money and events live in two stores that are linked only through a JSON property. `Agrees` says what
the link amounts to: every charge belongs to the one event that names it, which records its
magnitude; the charge of a live event is whole and every other charge is refunded.

* `Linked` — the links alone; `Linked.refunds`: reversing the charge of a live event gives back what it
  records.
* `Agrees.extend` — a new event with its charge, the charge of the version it supersedes cleared.
* `Agrees.step` — **every request keeps the agreement**, as long as a key comes with one body and the
  derived event ids are distinct (`Keyed`).
* `event_ledger_agreement` — per account, the charges not refunded are the credits of the live
  events.
-/

import Meter.Api.Requests
import Mathlib.Data.Rat.Encodable

namespace Meter.Api

open Meter.Lib Meter.Pricing Meter.Events
open Meter.Ledger (LedgerEntry LedgerError Action CreditSource NewAccount)

/-! ### Runs of requests -/

/-- A request. Grants carry no key. -/
inductive Request where
  | meter (now : OffsetDateTime) (body : MeterUsageBody)
  | amend (event : EventId) (body : AmendUsageBody)
  | voidRun (run : RunId)
  | grant (account : AccountId) (amount : Credit) (source : CreditSource)
  | openAccount (req : NewAccount)

/-- A route that makes one ledger call. -/
def ledgerRoute (call : Ledger.Call) : Handler Ledger.Reply :=
  tryLedger (.ledger call) fun reply => .done (.ok reply)

/-- A request that ran alone, to its answer. -/
def Request.Served (env : Env) : Request → Stores → Stores → Prop
  | .meter now body, s, s' => ∃ reply, (server env).Serves (meterUsage env now body) s reply s'
  | .amend event body, s, s' => ∃ reply, (server env).Serves (amendUsage env event body) s reply s'
  | .voidRun run, s, s' => ∃ reply, (server env).Serves (Api.voidRun run) s reply s'
  | .grant account amount source, s, s' => ∃ reply, (server env).Serves
      (ledgerRoute (.grant { account, amount, source, idempotencyKey := none })) s reply s'
  | .openAccount req, s, s' =>
    ∃ reply, (server env).Serves (ledgerRoute (.openAccount req)) s reply s'

/-- What an event id is derived for. -/
inductive Source where
  | metered (key : String)
  | amended (original : EventId) (key : String)
  deriving DecidableEq

/-- A derived event key. -/
structure Derived where
  source : Source
  orgId : OrgId
  key : String
  deriving DecidableEq

/-- The event id of a derived key. -/
def Derived.id (env : Env) (derived : Derived) : EventId :=
  env.idempotentEventId derived.orgId derived.key

/-- The event keys that a request derives. -/
def Request.derived (events : List Event) : Request → List Derived
  | .meter _ body =>
    [⟨.metered body.idempotencyKey, body.orgId, eventKey body.idempotencyKey⟩]
  | .amend event body => (find events event).toList.map fun original =>
    ⟨.amended event body.idempotencyKey, original.orgId, amendKey original body.idempotencyKey⟩
  | .voidRun _ | .grant _ _ _ | .openAccount _ => []

/-- The metering body of a request. -/
def Request.body? : Request → Option MeterUsageBody
  | .meter _ body => some body
  | .amend _ _ | .voidRun _ | .grant _ _ _ | .openAccount _ => none

/-- The metering bodies of a run. -/
def bodies (steps : List (Request × Stores)) : List MeterUsageBody :=
  steps.filterMap fun step => step.1.body?

/-- The event keys derived in a run. -/
def derived (steps : List (Request × Stores)) : List Derived :=
  steps.flatMap fun step => step.1.derived step.2.events

/-- **How keys are used**: a metering key comes with one body, the derived event keys are distinct,
and their hashes do not collide. -/
structure Keyed (env : Env) (steps : List (Request × Stores)) : Prop where
  body : ∀ first ∈ bodies steps, ∀ second ∈ bodies steps,
    first.idempotencyKey = second.idempotencyKey → first = second
  distinct : ∀ first ∈ derived steps, ∀ second ∈ derived steps, first.orgId = second.orgId →
    first.key = second.key → first.source = second.source
  collisionFree : ∀ first ∈ derived steps, ∀ second ∈ derived steps,
    first.id env = second.id env → first.orgId = second.orgId ∧ first.key = second.key

section Keyed

variable {env : Env} {steps more : List (Request × Stores)}

theorem bodies_append (steps more : List (Request × Stores)) :
    bodies (steps ++ more) = bodies steps ++ bodies more := List.filterMap_append

theorem derived_append (steps more : List (Request × Stores)) :
    derived (steps ++ more) = derived steps ++ derived more := List.flatMap_append

theorem mem_bodies_append {body : MeterUsageBody} (member : body ∈ bodies steps) :
    body ∈ bodies (steps ++ more) := by
  rw [bodies_append]
  exact List.mem_append_left _ member

theorem mem_derived_append {own : Derived} (member : own ∈ derived steps) :
    own ∈ derived (steps ++ more) := by
  rw [derived_append]
  exact List.mem_append_left _ member

/-- The derived id of a metering body. -/
theorem mem_derived_of_body {body : MeterUsageBody} (member : body ∈ bodies steps) :
    ⟨.metered body.idempotencyKey, body.orgId, eventKey body.idempotencyKey⟩ ∈ derived steps := by
  obtain ⟨⟨request, s⟩, inside, isBody⟩ := List.mem_filterMap.mp member
  refine List.mem_flatMap.mpr ⟨(request, s), inside, ?_⟩
  cases request with
  | meter now body' =>
    cases isBody
    exact List.mem_singleton_self _
  | _ => cases isBody

/-- **An event id has one source.** -/
theorem Keyed.source (keyed : Keyed env steps) {first second : Derived}
    (member : first ∈ derived steps) (member' : second ∈ derived steps)
    (same : first.id env = second.id env) : first.source = second.source := by
  obtain ⟨org, key⟩ := keyed.collisionFree first member second member' same
  exact keyed.distinct first member second member' org key

theorem Keyed.init (keyed : Keyed env (steps ++ more)) : Keyed env steps where
  body := fun first member second member' =>
    keyed.body first (mem_bodies_append member) second (mem_bodies_append member')
  distinct := fun first member second member' =>
    keyed.distinct first (mem_derived_append member) second (mem_derived_append member')
  collisionFree := fun first member second member' =>
    keyed.collisionFree first (mem_derived_append member) second (mem_derived_append member')

end Keyed

/-! ### The agreement -/

/-- The burned credits of some priced usage. -/
def Burned (env : Env) (credits : Credit) : Prop :=
  ∃ model rateCardId usage card priced burnable,
    price env model rateCardId usage = .ok (card, priced) ∧
      credits = burnedCredits burnable priced.credits

/-- Where an event comes from: a metering body of the run, or an amendment. -/
inductive Origin (env : Env) (steps : List (Request × Stores)) (event : Event) : Prop
  | metered (body : MeterUsageBody) (member : body ∈ bodies steps) (first : event.supersedes = none)
      (id : event.id = meteredId env body) (account : event.accountId = body.account)
      (run : event.runId = body.runId) (card : RateCard) (priced : PricedUsage)
      (price : price env body.model body.rateCardId body.usage = .ok (card, priced))
      (credits : recordedCredits env event = burnedCredits body.burnable priced.credits)
  | amended (original : EventId) (key : String) (links : event.supersedes = some original)
      (own : Derived) (member : own ∈ derived steps) (source : own.source = .amended original key)
      (id : event.id = own.id env) (burned : Burned env (recordedCredits env event))

/-- The key of an event's charge. -/
inductive PostedFor (env : Env) (steps : List (Request × Stores)) (event : Event) : String → Prop
  | metered (body : MeterUsageBody) (member : body ∈ bodies steps)
      (id : event.id = meteredId env body) :
      PostedFor env steps event (chargeKey body.idempotencyKey)
  | amended (later : event.supersedes ≠ none) : PostedFor env steps event (amendChargeKey event.id)

/-- What the kind of a key says about the entry under it. -/
def KeyFits (events : List Event) (entry : LedgerEntry) (key : String) : Prop :=
  match keyKind key with
  | .charge | .amendCharge => entry.entryType = .usage
  | .amendReverse => ∀ scope, key = amendReverseKey scope → scope ∈ events.map Event.id
  | .amendCompensate => False
  | .voidRun => True

/-- The charge that an event names. -/
structure Charged (env : Env) (steps : List (Request × Stores)) (event : Event)
    (entry : LedgerEntry) : Prop where
  usage : entry.entryType = .usage
  account : entry.accountId = event.accountId
  run : entry.runId = event.runId
  credits : recordedCredits env event = -entry.deltaCredits
  key : ∃ key, entry.idempotencyKey = some key ∧ PostedFor env steps event key

/-- **Events and the ledger agree.** -/
structure Agrees (env : Env) (steps : List (Request × Stores)) (s : Stores) : Prop where
  metered : s.ledger.Metered
  linear : Linear s.events
  origin : ∀ event ∈ s.events, Origin env steps event
  charged : ∀ event ∈ s.events, ∀ id, recordedChargeEntry env event = some id →
    ∃ entry ∈ s.ledger.entries, entry.id = id ∧ Charged env steps event entry
  uncharged : ∀ event ∈ s.events, recordedChargeEntry env event = none →
    ¬ 0 < recordedCredits env event
  owner : ∀ entry ∈ s.ledger.entries, entry.entryType = .usage →
    ∃ event ∈ s.events, recordedChargeEntry env event = some entry.id
  remainder : ∀ event ∈ s.events, ∀ id, recordedChargeEntry env event = some id →
    s.ledger.unreversedRemainder id =
      if event.status = .recorded then recordedCredits env event else 0
  keys : ∀ entry ∈ s.ledger.entries, ∀ key, entry.idempotencyKey = some key →
    KeyFits s.events entry key

/-- The part of the agreement that is about the charges that events name. -/
structure Linked (env : Env) (steps : List (Request × Stores)) (s : Stores) : Prop where
  metered : s.ledger.Metered
  linear : Linear s.events
  charged : ∀ event ∈ s.events, ∀ id, recordedChargeEntry env event = some id →
    ∃ entry ∈ s.ledger.entries, entry.id = id ∧ Charged env steps event entry
  remainder : ∀ event ∈ s.events, ∀ id, recordedChargeEntry env event = some id →
    s.ledger.unreversedRemainder id =
      if event.status = .recorded then recordedCredits env event else 0

theorem Agrees.linked {env : Env} {steps : List (Request × Stores)} {s : Stores}
    (agrees : Agrees env steps s) : Linked env steps s :=
  ⟨agrees.metered, agrees.linear, agrees.charged, agrees.remainder⟩

section Agrees

variable {env : Env} {steps more : List (Request × Stores)} {s s' : Stores}

theorem Origin.mono {event : Event} (origin : Origin env steps event) :
    Origin env (steps ++ more) event := by
  cases origin with
  | metered body member first id account run card priced price credits =>
    exact .metered body (mem_bodies_append member) first id account run card priced price credits
  | amended original key links own member source id burned =>
    exact .amended original key links own (mem_derived_append member) source id burned

theorem Charged.mono {event : Event} {entry : LedgerEntry} (charged : Charged env steps event entry) :
    Charged env (steps ++ more) event entry := by
  obtain ⟨usage, account, run, credits, key, keyed, posted⟩ := charged
  refine ⟨usage, account, run, credits, key, keyed, ?_⟩
  cases posted with
  | metered body member id => exact .metered body (mem_bodies_append member) id
  | amended later => exact .amended later

/-- The status of an event does not matter for where it comes from. -/
theorem Origin.restated {event : Event} (origin : Origin env steps event) (status : EventStatus) :
    Origin env steps { event with status } := by
  cases origin with
  | metered body member first id account run card priced price credits =>
    exact .metered body member first id account run card priced price credits
  | amended original key links own member source id burned =>
    exact .amended original key links own member source id burned

theorem Charged.restated {event : Event} {entry : LedgerEntry}
    (charged : Charged env steps event entry) (status : EventStatus) :
    Charged env steps { event with status } entry := by
  obtain ⟨usage, account, run, credits, key, keyed, posted⟩ := charged
  refine ⟨usage, account, run, credits, key, keyed, ?_⟩
  cases posted with
  | metered body member id => exact .metered body member id
  | amended later => exact .amended later

theorem Linked.mono (linked : Linked env steps s) : Linked env (steps ++ more) s where
  metered := linked.metered
  linear := linked.linear
  charged := by
    intro event member id links
    obtain ⟨entry, stored, same, charged⟩ := linked.charged event member id links
    exact ⟨entry, stored, same, charged.mono⟩
  remainder := linked.remainder

theorem Linked.new : Linked env steps Stores.new where
  metered := .new
  linear := .new
  charged := fun _ member => absurd member List.not_mem_nil
  remainder := fun _ member => absurd member List.not_mem_nil

theorem Agrees.mono (agrees : Agrees env steps s) : Agrees env (steps ++ more) s where
  metered := agrees.metered
  linear := agrees.linear
  origin := fun event member => (agrees.origin event member).mono
  charged := agrees.linked.mono.charged
  uncharged := agrees.uncharged
  owner := agrees.owner
  remainder := agrees.remainder
  keys := agrees.keys

theorem Agrees.new : Agrees env steps Stores.new where
  metered := .new
  linear := .new
  origin := fun _ member => absurd member List.not_mem_nil
  charged := fun _ member => absurd member List.not_mem_nil
  uncharged := fun _ member => absurd member List.not_mem_nil
  owner := fun _ member => absurd member List.not_mem_nil
  remainder := fun _ member => absurd member List.not_mem_nil
  keys := fun _ member => absurd member List.not_mem_nil

/-- The event of a metering charge key. -/
theorem PostedFor.metered_id (keyed : Keyed env steps) {body : MeterUsageBody}
    (member : body ∈ bodies steps) {event : Event} {key : String}
    (posted : PostedFor env steps event key) (isKey : key = chargeKey body.idempotencyKey) :
    event.id = meteredId env body := by
  cases posted with
  | metered body' member' id =>
    rw [id, keyed.body body' member' body member (chargeKey_injective isKey)]
  | amended later =>
    have kinds := congrArg keyKind isKey
    rw [keyKind_chargeKey, keyKind_amendChargeKey] at kinds
    cases kinds

/-- The event of an amendment's charge key. -/
theorem PostedFor.amended_id {event : Event} {key : String} {scope : EventId}
    (posted : PostedFor env steps event key) (isKey : key = amendChargeKey scope) :
    event.id = scope := by
  cases posted with
  | metered body' member' id =>
    have kinds := congrArg keyKind isKey
    rw [keyKind_chargeKey, keyKind_amendChargeKey] at kinds
    cases kinds
  | amended later => exact amendChargeKey_injective isKey

/-- A charge key names one event. -/
theorem PostedFor.unique (keyed : Keyed env steps) {first second : Event} {key : String}
    (posted : PostedFor env steps first key) (posted' : PostedFor env steps second key) :
    first.id = second.id := by
  cases posted with
  | metered body member id => rw [id, posted'.metered_id keyed member rfl]
  | amended later => exact (posted'.amended_id rfl).symm

/-- **A charge belongs to one event.** -/
theorem Linked.owner_unique (linked : Linked env steps s) (keyed : Keyed env steps)
    {first second : Event} {id : EntryId} (member : first ∈ s.events) (member' : second ∈ s.events)
    (links : recordedChargeEntry env first = some id)
    (links' : recordedChargeEntry env second = some id) : first = second := by
  obtain ⟨entry, stored, rfl, charged⟩ := linked.charged first member id links
  obtain ⟨entry', stored', same, charged'⟩ := linked.charged second member' _ links'
  obtain ⟨key, isKey, posted⟩ := charged.key
  obtain ⟨key', isKey', posted'⟩ := charged'.key
  rw [linked.metered.eq_of_id stored' stored same, isKey, Option.some.injEq] at isKey'
  subst isKey'
  exact linked.linear.eq_of_id member member' (posted.unique keyed posted')

/-- A usage entry under a charge key belongs to the event of the key. -/
theorem Agrees.posted_of_key (agrees : Agrees env steps s) {entry : LedgerEntry} {key : String}
    (stored : entry ∈ s.ledger.entries) (isKey : entry.idempotencyKey = some key)
    (usage : entry.entryType = .usage) : ∃ event ∈ s.events,
      recordedChargeEntry env event = some entry.id ∧ PostedFor env steps event key := by
  obtain ⟨event, member, links⟩ := agrees.owner entry stored usage
  obtain ⟨entry', stored', same, charged⟩ := agrees.charged event member _ links
  obtain ⟨key', isKey', posted⟩ := charged.key
  rw [agrees.metered.eq_of_id stored' stored same, isKey, Option.some.injEq] at isKey'
  exact ⟨event, member, links, isKey' ▸ posted⟩

end Agrees

/-! ### A new event with its charge -/

/-- The statuses after a version was superseded, if one was. -/
def superseding (superseded : Option Event) (event : Event) : EventStatus :=
  if superseded.map Event.id = some event.id then .amended else event.status

/-- A new event with its own new charge; the charge of what it supersedes was cleared. -/
structure Adds (env : Env) (steps : List (Request × Stores)) (superseded : Option Event)
    (new : Event) (s s' : Stores) : Prop where
  events : s'.events = restate (superseding superseded) s.events ++ [new]
  recorded : new.status = .recorded
  metered : s'.ledger.Metered
  linear : Linear s'.events
  posted : ∃ posted, s'.ledger.entries = s.ledger.entries ++ posted ∧ ∀ entry ∈ posted,
    (entry.entryType = .refund ∧ entry.idempotencyKey = some (amendReverseKey new.id)) ∨
      recordedChargeEntry env new = some entry.id
  cleared : ∀ entry ∈ s.ledger.entries, entry.entryType = .usage →
    s'.ledger.unreversedRemainder entry.id =
      if superseded.bind (recordedChargeEntry env) = some entry.id then 0
      else s.ledger.unreversedRemainder entry.id
  charged : ∀ id, recordedChargeEntry env new = some id → ∃ entry ∈ s'.ledger.entries,
    entry.id = id ∧ Charged env steps new entry ∧
      s'.ledger.unreversedRemainder id = recordedCredits env new
  uncharged : recordedChargeEntry env new = none → ¬ 0 < recordedCredits env new

section Extend

variable {env : Env} {steps : List (Request × Stores)} {s s' : Stores} {superseded : Option Event}
  {new : Event}

/-- An event of the new list is an old one in its new status, or the new one. -/
theorem Adds.mem_events (adds : Adds env steps superseded new s s') {event : Event} :
    event ∈ s'.events ↔ (∃ old ∈ s.events, { old with status := superseding superseded old } = event) ∨
      event = new := by
  rw [adds.events, List.mem_append, mem_restate, List.mem_singleton]

theorem Adds.ids (adds : Adds env steps superseded new s s') :
    s'.events.map Event.id = s.events.map Event.id ++ [new.id] := by
  rw [adds.events, List.map_append, ids_restate, List.map_singleton]

theorem Adds.old (adds : Adds env steps superseded new s s') :
    ∀ entry ∈ s.ledger.entries, entry ∈ s'.ledger.entries := by
  intro entry stored
  obtain ⟨posted, entries, _⟩ := adds.posted
  rw [entries]
  exact List.mem_append_left _ stored

/-- **The links extend to a new event.** -/
theorem Linked.extend (linked : Linked env steps s) (keyed : Keyed env steps)
    (adds : Adds env steps superseded new s s')
    (known : ∀ original, superseded = some original → original ∈ s.events) :
    Linked env steps s' := by
  refine ⟨adds.metered, adds.linear, ?_, ?_⟩
  · intro event member id links
    rcases adds.mem_events.mp member with ⟨before, inside, rfl⟩ | rfl
    · obtain ⟨entry, stored, same, charged⟩ := linked.charged before inside id links
      exact ⟨entry, adds.old entry stored, same, charged.restated _⟩
    · obtain ⟨entry, stored, same, charged, _⟩ := adds.charged id links
      exact ⟨entry, stored, same, charged⟩
  · intro event member id links
    rcases adds.mem_events.mp member with ⟨before, inside, rfl⟩ | rfl
    · obtain ⟨entry, stored, rfl, charged⟩ := linked.charged before inside id links
      rw [adds.cleared entry stored charged.usage]
      show _ = if superseding superseded before = .recorded then recordedCredits env before else 0
      by_cases isOriginal : superseded.map Event.id = some before.id
      · -- the superseded version: its own charge is the one that was cleared
        obtain ⟨original, isSome, same⟩ := Option.map_eq_some_iff.mp isOriginal
        have equal := linked.linear.eq_of_id (known original isSome) inside same
        rw [isSome, Option.bind_some, equal,
          if_pos (show recordedChargeEntry env before = some entry.id from links)]
        simp [superseding]
      · rw [superseding, if_neg isOriginal, if_neg, linked.remainder before inside entry.id links]
        intro cleared
        obtain ⟨original, isSome, links'⟩ := Option.bind_eq_some_iff.mp cleared
        refine isOriginal ?_
        rw [isSome, Option.map_some,
          linked.owner_unique keyed (known original isSome) inside links' links]
    · obtain ⟨_, _, _, _, remainder⟩ := adds.charged id links
      rw [remainder, if_pos adds.recorded]

/-- **The agreement extends to a new event.** -/
theorem Agrees.extend (agrees : Agrees env steps s) (keyed : Keyed env steps)
    (adds : Adds env steps superseded new s s') (origin : Origin env steps new)
    (known : ∀ original, superseded = some original → original ∈ s.events) :
    Agrees env steps s' := by
  obtain ⟨posted, entries, kinds⟩ := adds.posted
  have linked := agrees.linked.extend keyed adds known
  refine ⟨adds.metered, adds.linear, ?_, linked.charged, ?_, ?_, linked.remainder, ?_⟩
  · intro event member
    rcases adds.mem_events.mp member with ⟨before, inside, rfl⟩ | rfl
    · exact (agrees.origin before inside).restated _
    · exact origin
  · intro event member none
    rcases adds.mem_events.mp member with ⟨before, inside, rfl⟩ | rfl
    · exact agrees.uncharged before inside none
    · exact adds.uncharged none
  · intro entry stored usage
    rw [entries, List.mem_append] at stored
    rcases stored with before | now
    · obtain ⟨event, member, links⟩ := agrees.owner entry before usage
      exact ⟨_, adds.mem_events.mpr (Or.inl ⟨event, member, rfl⟩), links⟩
    · rcases kinds entry now with ⟨refund, _⟩ | links
      · cases refund.symm.trans usage
      · exact ⟨new, adds.mem_events.mpr (Or.inr rfl), links⟩
  · intro entry stored key isKey
    rw [entries, List.mem_append] at stored
    rcases stored with before | now
    · have fits := agrees.keys entry before key isKey
      unfold KeyFits at fits ⊢
      cases kind : keyKind key with
      | charge | amendCharge | amendCompensate | voidRun =>
        rw [kind] at fits
        exact fits
      | amendReverse =>
        rw [kind] at fits
        intro scope same
        rw [adds.ids]
        exact List.mem_append_left _ (fits scope same)
    · unfold KeyFits
      rcases kinds entry now with ⟨_, isKey'⟩ | links
      · rw [isKey, Option.some.injEq] at isKey'
        rw [isKey', keyKind_amendReverseKey]
        intro scope same
        rw [adds.ids, ← amendReverseKey_injective same]
        exact List.mem_append_right _ (List.mem_singleton_self _)
      · obtain ⟨entry', stored', same, charged, _⟩ := adds.charged _ links
        have inside : entry ∈ s'.ledger.entries := by
          rw [entries]
          exact List.mem_append_right _ now
        have equal := adds.metered.eq_of_id stored' inside same
        obtain ⟨key', isKey', for'⟩ := charged.key
        rw [equal, isKey, Option.some.injEq] at isKey'
        subst isKey'
        have usage := equal ▸ charged.usage
        cases for' with
        | metered body member id =>
          rw [keyKind_chargeKey]
          exact usage
        | amended =>
          rw [keyKind_amendChargeKey]
          exact usage

end Extend

/-! ### Every request keeps the agreement -/

section Steps

variable {env : Env} {steps : List (Request × Stores)} {s s' : Stores}

/-- Postings that reverse nothing move no remainder. -/
theorem remainder_of_plain {posted : List LedgerEntry}
    (entries : s'.ledger.entries = s.ledger.entries ++ posted)
    (plain : ∀ entry ∈ posted, entry.reversesEntryId = none) {id : EntryId}
    (known : id ∈ s.ledger.entryIds) :
    s'.ledger.unreversedRemainder id = s.ledger.unreversedRemainder id := by
  have nothing : Ledger.linkedSum posted id = 0 := by
    rw [Ledger.linkedSum, List.filter_eq_nil_iff.mpr]
    · rfl
    · intro entry member links
      cases (plain entry member).symm.trans (decide_eq_true_eq.mp links)
  rw [Ledger.State.unreversedRemainder_append entries known, nothing, sub_zero]

/-- Postings that reverse nothing leave the links alone. -/
theorem Linked.plain (linked : Linked env steps s) (metered : s'.ledger.Metered)
    (events : s'.events = s.events) {posted : List LedgerEntry}
    (entries : s'.ledger.entries = s.ledger.entries ++ posted)
    (plain : ∀ entry ∈ posted, entry.reversesEntryId = none) : Linked env steps s' := by
  refine ⟨metered, events.symm ▸ linked.linear, ?_, ?_⟩
  · intro event member id links
    rw [events] at member
    obtain ⟨entry, stored, rest⟩ := linked.charged event member id links
    refine ⟨entry, ?_, rest⟩
    rw [entries]
    exact List.mem_append_left _ stored
  · intro event member id links
    rw [events] at member
    obtain ⟨entry, stored, rfl, _⟩ := linked.charged event member id links
    rw [remainder_of_plain entries plain (List.mem_map_of_mem stored),
      linked.remainder event member _ links]

/-- Postings that carry no key and reverse nothing leave the agreement alone. -/
theorem Agrees.unkeyed (agrees : Agrees env steps s) (metered : s'.ledger.Metered)
    (events : s'.events = s.events) {posted : List LedgerEntry}
    (entries : s'.ledger.entries = s.ledger.entries ++ posted)
    (plain : ∀ entry ∈ posted, entry.entryType ≠ .usage ∧ entry.idempotencyKey = none ∧
      entry.reversesEntryId = none) : Agrees env steps s' := by
  have linked := agrees.linked.plain metered events entries fun entry inside =>
    (plain entry inside).2.2
  refine ⟨metered, linked.linear, events.symm ▸ agrees.origin, linked.charged,
    events.symm ▸ agrees.uncharged, ?_, linked.remainder, ?_⟩
  · intro entry stored usage
    rw [events]
    rw [entries, List.mem_append] at stored
    rcases stored with before | now
    · exact agrees.owner entry before usage
    · exact absurd usage (plain entry now).1
  · intro entry stored key isKey
    rw [events]
    rw [entries, List.mem_append] at stored
    rcases stored with before | now
    · exact agrees.keys entry before key isKey
    · cases (plain entry now).2.1.symm.trans isKey

/-- A route that makes one ledger call takes one step of the ledger. -/
theorem serves_ledgerRoute {call : Ledger.Call} {reply : Except ApiError Ledger.Reply}
    (serves : (server env).Serves (ledgerRoute call) s reply s') : ∃ amb answer ledger,
      Ledger.Callable amb call s.ledger ∧ Ledger.step amb call s.ledger = some (answer, ledger) ∧
      s' = { s with ledger } := by
  obtain ⟨answer, middle, ⟨out, new, result⟩, rest⟩ := serves_tryLedger serves
  obtain ⟨ledger, stepped, rfl⟩ := onLedger_eq result
  refine ⟨out.ledger, answer, ledger, ⟨new.fresh, new.unnamed⟩, stepped, ?_⟩
  rcases rest with ⟨_, _, same⟩ | ⟨_, _, rest⟩
  · exact same
  · exact (Server.serves_done.mp rest).2

/-- What grants without a key and new accounts do to the ledger. -/
def Plain (action : Action) : Prop :=
  action.Meters ∧ ∀ entry ∈ action.posted, entry.entryType = .grant ∧ entry.idempotencyKey = none

theorem plain_grant {account : AccountId} {amount : Credit} {source : CreditSource}
    {action : Action} (permitted : Ledger.Call.Permits
      (.grant { account, amount, source, idempotencyKey := none }) action) : Plain action := by
  cases action with
  | credit entry =>
    obtain ⟨_, kind, noKey⟩ := permitted
    refine ⟨kind, fun other inside => ?_⟩
    rw [List.mem_singleton.mp inside]
    exact ⟨kind, noKey⟩
  | _ => exact permitted.elim

theorem plain_openAccount {req : NewAccount} {action : Action}
    (permitted : (Ledger.Call.openAccount req).Permits action) : Plain action := by
  cases action with
  | openAccount account => exact ⟨trivial, fun _ inside => absurd inside List.not_mem_nil⟩
  | _ => exact permitted.elim

/-- **Grants and new accounts post nothing that is keyed or that reverses anything.** -/
theorem serves_plainRoute (metered : s.ledger.Metered) {call : Ledger.Call}
    (plain : ∀ action, call.Permits action → Plain action)
    {reply : Except ApiError Ledger.Reply}
    (serves : (server env).Serves (ledgerRoute call) s reply s') :
    s'.ledger.Metered ∧ s'.events = s.events ∧ ∃ posted,
      s'.ledger.entries = s.ledger.entries ++ posted ∧ ∀ entry ∈ posted,
        entry.entryType ≠ .usage ∧ entry.idempotencyKey = none ∧ entry.reversesEntryId = none := by
  obtain ⟨amb, answer, ledger, callable, stepped, rfl⟩ := serves_ledgerRoute serves
  obtain ⟨actions, path, permitted⟩ := Ledger.step_follows metered.wf callable _ _ stepped
  have meters : ∀ action ∈ actions, action.Meters := fun action member =>
    (plain action (permitted action member)).1
  refine ⟨metered.path path meters, rfl, _, path.entries, fun entry member => ?_⟩
  obtain ⟨action, inside, posted⟩ := List.mem_flatMap.mp member
  obtain ⟨kind, noKey⟩ := (plain action (permitted action inside)).2 entry posted
  exact ⟨by rw [kind]; decide, noKey,
    Ledger.State.Metered.plain_of_path path meters entry member (by rw [kind]; decide)⟩

/-- **A run void takes the charges of its events with them.** -/
theorem Linked.voidRun (linked : Linked env steps s) {run : RunId}
    (events : s'.events = restate (voided run) s.events)
    (sweeps : SweepsCharges run s.ledger s'.ledger) : Linked env steps s' := by
  obtain ⟨posted, entries, _⟩ := sweeps.posted
  have before : ∀ event ∈ s'.events, ∃ old ∈ s.events,
      { old with status := voided run old } = event := fun event member => by
    rw [events] at member
    exact mem_restate.mp member
  refine ⟨sweeps.metered, ?_, ?_, ?_⟩
  · rw [events]
    exact linked.linear.change (.void run)
  · intro event member id links
    obtain ⟨event, inside, rfl⟩ := before event member
    obtain ⟨entry, stored, same, charged⟩ := linked.charged event inside id links
    refine ⟨entry, ?_, same, charged.restated _⟩
    rw [entries]
    exact List.mem_append_left _ stored
  · intro event member id links
    obtain ⟨event, inside, rfl⟩ := before event member
    obtain ⟨entry, stored, rfl, charged⟩ := linked.charged event inside id links
    rw [sweeps.remainder entry stored charged.usage, charged.run,
      linked.remainder event inside entry.id links]
    show _ = if voided run event = .recorded then recordedCredits env event else 0
    rw [voided]
    by_cases tagged : event.runId = some run
    · by_cases current : event.status = .recorded
      · simp [Event.Voids, tagged, current]
      · simp [Event.Voids, tagged, current]
    · simp [Event.Voids, tagged]

/-- **A run void keeps the agreement.** -/
theorem Agrees.voidRun (agrees : Agrees env steps s) {run : RunId}
    (events : s'.events = restate (voided run) s.events)
    (sweeps : SweepsCharges run s.ledger s'.ledger) : Agrees env steps s' := by
  obtain ⟨posted, entries, refunds⟩ := sweeps.posted
  have linked := agrees.linked.voidRun events sweeps
  have before : ∀ event ∈ s'.events, ∃ old ∈ s.events,
      { old with status := voided run old } = event := fun event member => by
    rw [events] at member
    exact mem_restate.mp member
  refine ⟨sweeps.metered, linked.linear, ?_, linked.charged, ?_, ?_, linked.remainder, ?_⟩
  · intro event member
    obtain ⟨event, inside, rfl⟩ := before event member
    exact (agrees.origin event inside).restated _
  · intro event member none
    obtain ⟨event, inside, rfl⟩ := before event member
    exact agrees.uncharged event inside none
  · intro entry stored usage
    rw [entries, List.mem_append] at stored
    rcases stored with before | now
    · obtain ⟨event, member, links⟩ := agrees.owner entry before usage
      refine ⟨{ event with status := voided run event }, ?_, links⟩
      rw [events]
      exact mem_restate_of_mem member
    · cases (refunds entry now).1.symm.trans usage
  · intro entry stored key isKey
    have ids : s'.events.map Event.id = s.events.map Event.id := by
      rw [events, ids_restate]
    rw [entries, List.mem_append] at stored
    rcases stored with before | now
    · have fits := agrees.keys entry before key isKey
      unfold KeyFits at fits ⊢
      rw [ids]
      exact fits
    · obtain ⟨id, isKey'⟩ := (refunds entry now).2
      rw [isKey, Option.some.injEq] at isKey'
      unfold KeyFits
      rw [isKey', keyKind_runVoidChargeRefundKey]
      trivial

/-- On cards without negative prices nothing negative is burned. -/
theorem Burned.nonneg (cards : ∀ model id card, resolveCard env model id = .ok card → card.Nonneg)
    {credits : Credit} (burned : Burned env credits) : 0 ≤ credits := by
  obtain ⟨model, rateCardId, usage, card, priced, burnable, isPriced, rfl⟩ := burned
  obtain ⟨card', resolved, isPriced⟩ := ok_of_bind isPriced
  obtain ⟨priced', computed, isPriced⟩ := ok_of_bind isPriced
  cases isPriced
  cases burnable with
  | false => exact le_refl 0
  | true =>
    cases result : priceUsage usage.toUsage card env.creditValue with
    | error error =>
      rw [result] at computed
      cases computed
    | ok priced' =>
      rw [result] at computed
      cases computed
      exact priceUsage_nonneg (cards _ _ _ resolved) result

theorem burned_of_reprice {original : Event} {body : AmendUsageBody} {amendment : Repriced}
    (repriced : reprice env original body = .ok amendment) : Burned env amendment.burned := by
  unfold reprice at repriced
  split at repriced
  · cases repriced
  · rename_i model _
    dsimp only at repriced
    cases isPriced : price env model (body.rateCardId <|> propStr original "rate_card_id")
        body.usage with
    | error error =>
      rw [isPriced] at repriced
      cases repriced
    | ok priced =>
      rw [isPriced] at repriced
      cases repriced
      exact ⟨_, _, _, _, _, _, isPriced, rfl⟩

/-- On cards without negative prices no event records negative credits. -/
theorem Origin.nonneg (cards : ∀ model id card, resolveCard env model id = .ok card → card.Nonneg)
    {event : Event} (origin : Origin env steps event) : 0 ≤ recordedCredits env event := by
  cases origin with
  | metered body _ _ _ _ _ card priced isPriced credits =>
    exact Burned.nonneg cards ⟨_, _, _, _, _, _, isPriced, credits⟩
  | amended _ _ _ _ _ _ _ burned => exact burned.nonneg cards

/-- The event of a metering body that is already there, and its charge. -/
theorem Agrees.metered_found (agrees : Agrees env steps s) (keyed : Keyed env steps)
    {body : MeterUsageBody} (member : body ∈ bodies steps) {event : Event}
    (inside : event ∈ s.events) (same : event.id = meteredId env body) {card : RateCard}
    {priced : PricedUsage}
    (isPriced : price env body.model body.rateCardId body.usage = .ok (card, priced)) :
    event.supersedes = none ∧ event.accountId = body.account ∧ event.runId = body.runId ∧
      recordedCredits env event = burnedCredits body.burnable priced.credits := by
  have own := mem_derived_of_body member
  cases agrees.origin event inside with
  | metered body' member' first id account run card' priced' isPriced' credits =>
    have sources := keyed.source (mem_derived_of_body member') own (id.symm.trans same)
    have equal := keyed.body body' member' body member (Source.metered.inj sources)
    subst equal
    rw [isPriced] at isPriced'
    cases isPriced'
    exact ⟨first, account, run, credits⟩
  | amended original key links own' member' source id =>
    have sources := keyed.source member' own (id.symm.trans same)
    rw [source] at sources
    cases sources

/-- The charge of a metering body's event is under the body's key. -/
theorem PostedFor.of_metered (keyed : Keyed env steps) {body : MeterUsageBody}
    (member : body ∈ bodies steps) {event : Event} (first : event.supersedes = none)
    (same : event.id = meteredId env body) {key : String} (posted : PostedFor env steps event key) :
    key = chargeKey body.idempotencyKey := by
  cases posted with
  | metered body' member' id =>
    have sources := keyed.source (mem_derived_of_body member') (mem_derived_of_body member)
      (id.symm.trans same)
    rw [Source.metered.inj sources]
  | amended later => exact absurd first later

/-- The event of a metering body that charges has its charge under the body's key. -/
theorem Agrees.charge_found (agrees : Agrees env steps s) (keyed : Keyed env steps)
    {body : MeterUsageBody} (member : body ∈ bodies steps) {event : Event}
    (inside : event ∈ s.events) (same : event.id = meteredId env body) {card : RateCard}
    {priced : PricedUsage}
    (isPriced : price env body.model body.rateCardId body.usage = .ok (card, priced))
    (positive : 0 < burnedCredits body.burnable priced.credits) : ∃ entry ∈ s.ledger.entries,
      entry.accountId = body.account ∧
      entry.idempotencyKey = some (chargeKey body.idempotencyKey) := by
  obtain ⟨first, account, _, credits⟩ := agrees.metered_found keyed member inside same isPriced
  cases links : recordedChargeEntry env event with
  | none =>
    rw [← credits] at positive
    exact absurd positive (agrees.uncharged event inside links)
  | some id =>
    obtain ⟨entry, stored, _, charged⟩ := agrees.charged event inside id links
    obtain ⟨key, isKey, for'⟩ := charged.key
    rw [for'.of_metered keyed member first same] at isKey
    exact ⟨entry, stored, charged.account.trans account, isKey⟩

/-- **Metering under a new key adds its event**, with its charge. -/
theorem Linked.meters (lawful : env.Lawful) (linked : Linked env steps s) {now : OffsetDateTime}
    {body : MeterUsageBody} (member : body ∈ bodies steps) {card : RateCard} {priced : PricedUsage}
    {middle : Stores} {link : Option EntryId} {recordedAt : OffsetDateTime}
    (charges : ChargesFor env body.account body.runId (burnedCredits body.burnable priced.credits)
      (chargeKey body.idempotencyKey) s middle link)
    (unused : s.ledger.findKeyed body.account (chargeKey body.idempotencyKey) = none)
    (absent : find s.events (meteredId env body) = none) :
    Adds env steps none (meteredUsage env now recordedAt body card priced link) s { middle with
      events := s.events ++ [meteredUsage env now recordedAt body card priced link] } := by
  obtain ⟨metered, ⟨posted, entries, links⟩, others, charged, uncharged⟩ :=
    charges.posts linked.metered unused
  have isPriced := priced_meteredUsage lawful now recordedAt body card priced link
  have restated : restate (superseding none) s.events = s.events := List.map_id _
  refine ⟨?_, rfl, metered, ?_, ⟨posted, entries, fun entry inside => Or.inr ?_⟩, ?_, ?_, ?_⟩
  · rw [restated]
  · exact linked.linear.change (.add _ (find_eq_none.mp absent) rfl rfl)
  · rw [isPriced.link]
    exact links entry inside
  · intro entry stored _
    exact others _ (List.mem_map_of_mem stored)
  · intro id isLink
    rw [isPriced.link] at isLink
    obtain ⟨entry, stored, same, usage, account, run, key, delta, remainder⟩ := charged id isLink
    refine ⟨entry, stored, same, ⟨usage, account, run, ?_, _, key, .metered body member rfl⟩, ?_⟩
    · rw [isPriced.credits, delta]
    · rw [remainder, isPriced.credits]
  · intro isNone
    rw [isPriced.link] at isNone
    rw [isPriced.credits]
    exact uncharged isNone

/-- **Metering keeps the agreement.** -/
theorem Agrees.meter (lawful : env.Lawful)
    (agrees : Agrees env steps s) (keyed : Keyed env steps) {now : OffsetDateTime}
    {body : MeterUsageBody} (member : body ∈ bodies steps) (meters : MetersUsage env now body s s') :
    Agrees env steps s' := by
  obtain ⟨card, priced, middle, link, recordedAt, isPriced, charges, rfl⟩ := meters
  cases found : find s.events (meteredId env body) with
  | some event =>
    -- a retry: the charge is there too, or there is nothing to charge
    obtain ⟨inside, same⟩ := find_eq_some found
    have unchanged : middle = s := by
      rcases charges.cases with ⟨_, rfl, _⟩ | ⟨positive, _, entry, _, ⟨_, rfl⟩ | posts⟩
      · rfl
      · rfl
      · obtain ⟨charge, stored, account, isKey⟩ :=
          agrees.charge_found keyed member inside same isPriced positive
        exact absurd isKey (Ledger.findKeyed_eq_none.mp posts.unused charge stored account)
    rw [unchanged]
    exact agrees
  | none =>
    have unused : s.ledger.findKeyed body.account (chargeKey body.idempotencyKey) = none := by
      refine Ledger.findKeyed_eq_none.mpr fun entry stored _ isKey => ?_
      have usage := agrees.keys entry stored _ isKey
      rw [KeyFits, keyKind_chargeKey] at usage
      obtain ⟨event, inside, _, for'⟩ := agrees.posted_of_key stored isKey usage
      have ids := for'.metered_id keyed member rfl
      exact find_eq_none.mp found (ids ▸ List.mem_map_of_mem inside)
    have credits := (priced_meteredUsage lawful now recordedAt body card priced link).credits
    refine agrees.extend keyed (agrees.linked.meters lawful member charges unused found) ?_ ?_
    · exact .metered body member rfl rfl rfl rfl card priced isPriced credits
    · intro original isNone
      cases isNone

/-- **The reversal of a live event's charge posts a refund** of what the event records: the charge is
on its account, with all of it left. -/
theorem Linked.refunds (linked : Linked env steps s) {amendment : Repriced} {reversed : Stores}
    (member : amendment.original ∈ s.events) (current : amendment.original.status = .recorded)
    (unused : s.ledger.findKeyed amendment.original.accountId
      (amendReverseKey (amendment.version env)) = none) {charge : EntryId}
    (isCharge : recordedChargeEntry env amendment.original = some charge)
    {reversal : Option LedgerEntry} (performed : (server env).perform
      (.reverseCharge (amendment.reversal env charge)) s (.ok reversal) reversed) :
    0 < recordedCredits env amendment.original ∧
    s.ledger.accounts.contains amendment.original.accountId = true ∧
    ∃ entry, (Action.reverse entry).Enabled s.ledger ∧
      entry.accountId = amendment.original.accountId ∧ entry.reversesEntryId = some charge ∧
      entry.idempotencyKey = some (amendReverseKey (amendment.version env)) ∧
      entry.deltaCredits = recordedCredits env amendment.original ∧
      reversed = { s with ledger := (Action.reverse entry).apply s.ledger } := by
  obtain ⟨target, stored, same, charged⟩ := linked.charged _ member charge isCharge
  have positive : 0 < recordedCredits env amendment.original := by
    rw [charged.credits]
    exact neg_pos.mpr (linked.metered.spends target stored charged.usage)
  have remainder := linked.remainder _ member charge isCharge
  rw [if_pos current] at remainder
  rcases perform_reverseCharge performed with ⟨_, ⟨_, impossible⟩, _⟩ | ⟨present, _,
    ⟨existing, found, _⟩ | ⟨nothing, _⟩ | ⟨entry, enabled, own, links, isKey, after⟩⟩
  · cases impossible
  · cases found.symm.trans unused
  · rcases nothing with foreign | spent
    · exact absurd charged.account (foreign target stored same)
    · rw [show (amendment.reversal env charge).chargeEntryId = charge from rfl, remainder] at spent
      exact absurd positive spent
  · refine ⟨positive, present, entry, enabled, own, links, isKey, ?_, after⟩
    obtain ⟨_, _, _, target', _, links', _, delta, _⟩ := enabled
    rw [links, Option.some.injEq] at links'
    rw [delta, ← links']
    exact remainder

/-- **The reversal of a live event's charge clears it**, and moves no other remainder. -/
theorem Linked.reverses (linked : Linked env steps s) {amendment : Repriced} {reversed : Stores}
    (member : amendment.original ∈ s.events) (current : amendment.original.status = .recorded)
    (unused : s.ledger.findKeyed amendment.original.accountId
      (amendReverseKey (amendment.version env)) = none)
    (reverses : amendment.Reverses env s reversed) :
    reversed.ledger.Metered ∧
    (∃ posted, reversed.ledger.entries = s.ledger.entries ++ posted ∧ ∀ entry ∈ posted,
      entry.entryType = .refund ∧
        entry.idempotencyKey = some (amendReverseKey (amendment.version env))) ∧
    ∀ entry ∈ s.ledger.entries, entry.entryType = .usage →
      reversed.ledger.unreversedRemainder entry.id =
        if recordedChargeEntry env amendment.original = some entry.id then 0
        else s.ledger.unreversedRemainder entry.id := by
  rcases reverses with ⟨noCharge, rfl⟩ | ⟨charge, reversal, isCharge, performed⟩
  · refine ⟨linked.metered, ⟨[], (List.append_nil _).symm, fun _ inside =>
      absurd inside List.not_mem_nil⟩, fun entry _ _ => ?_⟩
    rw [noCharge, if_neg (by simp)]
  obtain ⟨_, _, entry, enabled, _, links, isKey, _, rfl⟩ :=
    linked.refunds member current unused isCharge performed
  refine ⟨linked.metered.reverse enabled,
    ⟨[entry], Action.apply_entries _ _, fun other inside => ?_⟩, fun other inside _ => ?_⟩
  · rw [List.mem_singleton.mp inside]
    exact ⟨enabled.2.1, isKey⟩
  · rw [Ledger.State.Metered.remainder_reverse enabled links (List.mem_map_of_mem inside), isCharge]
    simp only [Option.some.injEq, eq_comm]

/-- The reversal key of a version that is not there is not used. -/
theorem Agrees.reverse_unused (agrees : Agrees env steps s) {scope : EventId}
    (absent : find s.events scope = none) (account : AccountId) :
    s.ledger.findKeyed account (amendReverseKey scope) = none := by
  refine Ledger.findKeyed_eq_none.mpr fun entry stored _ isKey => ?_
  have fits := agrees.keys entry stored _ isKey
  rw [KeyFits, keyKind_amendReverseKey] at fits
  exact find_eq_none.mp absent (fits scope rfl)

/-- A charge key that was not used is not used by the reversal either. -/
theorem chargeKey_unused_of_refunds {reversed : Stores} {account : AccountId} {scope : EventId}
    (posted : ∃ posted, reversed.ledger.entries = s.ledger.entries ++ posted ∧ ∀ entry ∈ posted,
      entry.entryType = .refund ∧ entry.idempotencyKey = some (amendReverseKey scope))
    (unused : s.ledger.findKeyed account (amendChargeKey scope) = none) :
    reversed.ledger.findKeyed account (amendChargeKey scope) = none := by
  obtain ⟨refunds, refunded, isRefund⟩ := posted
  refine Ledger.findKeyed_eq_none.mpr fun entry stored own isKey => ?_
  rw [refunded, List.mem_append] at stored
  rcases stored with before | now
  · exact Ledger.findKeyed_eq_none.mp unused entry before own isKey
  · rw [(isRefund entry now).2, Option.some.injEq] at isKey
    have kinds := congrArg keyKind isKey
    rw [keyKind_amendReverseKey, keyKind_amendChargeKey] at kinds
    cases kinds

/-- **An amendment adds its version**, with its charge, and clears the charge of its original. -/
theorem Linked.amends (lawful : env.Lawful) (linked : Linked env steps s) {id : EventId}
    {body : AmendUsageBody} {amendment : Repriced} (applicable : Applicable env s id body amendment)
    (reverseUnused : s.ledger.findKeyed amendment.original.accountId
      (amendReverseKey (amendment.version env)) = none)
    (chargeUnused : s.ledger.findKeyed amendment.original.accountId
      (amendChargeKey (amendment.version env)) = none)
    (applied : amendment.Applied env s s') : ∃ link draw,
      Adds env steps (some amendment.original) (amendment.amended env link draw) s s' := by
  obtain ⟨found, current, engine, absent, repriced, funded⟩ := applicable
  obtain ⟨member, isId⟩ := find_eq_some found
  obtain ⟨reversed, charged, link, reverses, recharges, draw, rfl⟩ := applied
  obtain ⟨metered, reversal, cleared⟩ := linked.reverses member current reverseUnused reverses
  have unused := chargeKey_unused_of_refunds reversal chargeUnused
  obtain ⟨refunds, refunded, isRefund⟩ := reversal
  obtain ⟨metered', ⟨posted, entries, links⟩, others, isCharged, uncharged⟩ :=
    recharges.posts metered unused
  have sameEvents : charged.events = s.events := recharges.events.trans reverses.events
  have isPriced := amendment.priced_amended lawful link draw
  have restated : setStatus amendment.original.id .amended charged.events =
      restate (superseding (some amendment.original)) s.events := by
    rw [sameEvents, setStatus_eq linked.linear.ids]
    refine List.map_congr_left fun event _ => ?_
    simp only [marked, superseding, Option.map_some, Option.some.injEq, eq_comm]
  refine ⟨link, draw, ?_, rfl, metered', ?_, ⟨refunds ++ posted, ?_, ?_⟩, ?_, ?_, ?_⟩
  · show setStatus amendment.original.id .amended charged.events ++ [_] = _
    rw [restated]
  · show Linear (setStatus amendment.original.id .amended charged.events ++ [_])
    rw [sameEvents, setStatus_eq linked.linear.ids]
    exact linked.linear.change
      (.supersede amendment.original _ member current (find_eq_none.mp absent) rfl rfl)
  · rw [entries, refunded, List.append_assoc]
  · intro entry inside
    rcases List.mem_append.mp inside with refund | charge
    · exact Or.inl (isRefund entry refund)
    · exact Or.inr (isPriced.link.trans (links entry charge))
  · intro entry stored usage
    have known : entry.id ∈ reversed.ledger.entryIds := by
      rw [Ledger.State.entryIds, refunded, List.map_append]
      exact List.mem_append_left _ (List.mem_map_of_mem stored)
    rw [others entry.id known, cleared entry stored usage]
    rfl
  · intro id' isLink
    rw [isPriced.link] at isLink
    obtain ⟨entry, stored, same, usage, account, run, key, delta, remainder⟩ := isCharged id' isLink
    refine ⟨entry, stored, same, ⟨usage, account, run, ?_, _, key, .amended ?_⟩, ?_⟩
    · rw [isPriced.credits, delta]
    · exact Option.some_ne_none _
    · rw [remainder, isPriced.credits]
  · intro isNone
    rw [isPriced.link] at isNone
    rw [isPriced.credits]
    exact uncharged isNone

/-- The charge key of a version that is not there is not used. -/
theorem Agrees.charge_unused (agrees : Agrees env steps s) {scope : EventId}
    (absent : find s.events scope = none) (account : AccountId) :
    s.ledger.findKeyed account (amendChargeKey scope) = none := by
  refine Ledger.findKeyed_eq_none.mpr fun entry stored _ isKey => ?_
  have usage := agrees.keys entry stored _ isKey
  rw [KeyFits, keyKind_amendChargeKey] at usage
  obtain ⟨event, inside, _, for'⟩ := agrees.posted_of_key stored isKey usage
  have ids := for'.amended_id rfl
  exact find_eq_none.mp absent (ids ▸ List.mem_map_of_mem inside)

/-- **An amendment keeps the agreement.** -/
theorem Agrees.applied (lawful : env.Lawful)
    (agrees : Agrees env steps s) (keyed : Keyed env steps) {id : EventId} {body : AmendUsageBody}
    {amendment : Repriced} (applicable : Applicable env s id body amendment)
    (known : ∃ own ∈ derived steps, own.source = .amended id body.idempotencyKey ∧
      own.id env = amendment.version env)
    (applied : amendment.Applied env s s') : Agrees env steps s' := by
  obtain ⟨member, isId⟩ := find_eq_some applicable.found
  obtain ⟨link, draw, adds⟩ := agrees.linked.amends lawful applicable
    (agrees.reverse_unused applicable.absent _) (agrees.charge_unused applicable.absent _) applied
  refine agrees.extend keyed adds ?_ ?_
  · obtain ⟨own, inside, source, same⟩ := known
    refine .amended id body.idempotencyKey (congrArg some isId) own inside source same.symm ?_
    rw [(amendment.priced_amended lawful link draw).credits]
    exact burned_of_reprice applicable.repriced
  · rintro original ⟨⟩
    exact member

/-- **Every request keeps the agreement.** -/
theorem Agrees.step (lawful : env.Lawful)
    (agrees : Agrees env steps s) {request : Request} (keyed : Keyed env (steps ++ [(request, s)]))
    (served : request.Served env s s') : Agrees env (steps ++ [(request, s)]) s' := by
  have agrees' : Agrees env (steps ++ [(request, s)]) s := agrees.mono
  cases request with
  | meter now body =>
    obtain ⟨reply, serves⟩ := served
    rcases serves_meterUsage serves with rfl | meters
    · exact agrees'
    refine agrees'.meter lawful keyed ?_ meters
    rw [bodies_append]
    exact List.mem_append_right _ (List.mem_singleton_self _)
  | amend event body =>
    obtain ⟨reply, serves⟩ := served
    rcases serves_amendUsage serves with ⟨rfl, _⟩ | ⟨amendment, applicable, applied⟩
    · exact agrees'
    · refine agrees'.applied lawful keyed applicable ?_ applied
      refine ⟨⟨.amended event body.idempotencyKey, amendment.original.orgId,
        amendKey amendment.original body.idempotencyKey⟩, ?_, rfl, ?_⟩
      · rw [derived_append]
        refine List.mem_append_right _ (List.mem_flatMap.mpr ⟨_, List.mem_singleton_self _, ?_⟩)
        rw [Request.derived, applicable.found]
        exact List.mem_singleton_self _
      · rw [Repriced.version, (reprice_eq applicable.repriced).2]
        rfl
  | voidRun run =>
    obtain ⟨reply, serves⟩ := served
    obtain ⟨events, sweeps⟩ := serves_voidRun agrees.metered serves
    exact agrees'.voidRun events sweeps
  | grant account amount source =>
    obtain ⟨reply, serves⟩ := served
    obtain ⟨metered, events, posted, entries, plain⟩ :=
      serves_plainRoute agrees.metered (fun _ => plain_grant) serves
    exact agrees'.unkeyed metered events entries plain
  | openAccount req =>
    obtain ⟨reply, serves⟩ := served
    obtain ⟨metered, events, posted, entries, plain⟩ :=
      serves_plainRoute agrees.metered (fun _ => plain_openAccount) serves
    exact agrees'.unkeyed metered events entries plain

/-- **Events and the ledger agree after every run.** -/
theorem Agrees.of_runs (lawful : env.Lawful)
    (runs : Runs (Request.Served env) Stores.new steps s) (keyed : Keyed env steps) :
    Agrees env steps s := by
  induction runs with
  | nil => exact .new
  | snoc request _ served ih => exact (ih keyed.init).step lawful keyed served

end Steps

/-! ### What an account pays for -/

/-- The direct charges of an account. -/
def usageEntries (account : AccountId) (s : Ledger.State) : List LedgerEntry :=
  s.entries.filter fun entry => entry.accountId = account ∧ entry.entryType = .usage

/-- What usage charged to an account, less the refunds linked to these charges. -/
def netUsage (account : AccountId) (s : Ledger.State) : Credit :=
  -((usageEntries account s).map LedgerEntry.deltaCredits).sum -
    ((usageEntries account s).map fun entry => s.reversed entry.id).sum

/-- The credits of an account's live events. -/
def liveCredits (env : Env) (account : AccountId) (events : List Event) : Credit :=
  ((listForAccount account events).map (recordedCredits env)).sum

section Sums

variable {env : Env} {steps : List (Request × Stores)} {s : Stores} {account : AccountId}

theorem mem_usageEntries {entry : LedgerEntry} {ledger : Ledger.State} :
    entry ∈ usageEntries account ledger ↔
      entry ∈ ledger.entries ∧ entry.accountId = account ∧ entry.entryType = .usage := by
  rw [usageEntries, List.mem_filter, decide_eq_true_eq]

theorem mem_listForAccount {event : Event} {events : List Event} :
    event ∈ listForAccount account events ↔
      event ∈ events ∧ event.accountId = account ∧ event.status = .recorded := by
  rw [listForAccount, List.mem_filter, decide_eq_true_eq]

/-- The net usage is the sum of what is left of every charge. -/
theorem netUsage_eq {ledger : Ledger.State} (metered : ledger.Metered) : netUsage account ledger =
    ((usageEntries account ledger).map fun entry => ledger.unreversedRemainder entry.id).sum := by
  have each : ∀ entry ∈ usageEntries account ledger, ledger.unreversedRemainder entry.id =
      -entry.deltaCredits - ledger.reversed entry.id := by
    intro entry member
    rw [Ledger.State.unreversedRemainder, Ledger.State.charged_of_mem metered.wf.entryIds
      (mem_usageEntries.mp member).1]
  rw [List.map_congr_left each, netUsage]
  generalize usageEntries account ledger = entries
  induction entries with
  | nil => simp
  | cons entry rest ih =>
    rw [List.map_cons, List.map_cons, List.map_cons, List.sum_cons, List.sum_cons, List.sum_cons,
      ← ih]
    ring

/-- The charges of an account with anything left are those that its live events name. -/
theorem Agrees.perm (agrees : Agrees env steps s) (keyed : Keyed env steps) (account : AccountId) :
    (((usageEntries account s.ledger).map LedgerEntry.id).filter fun id =>
      0 < s.ledger.unreversedRemainder id).Perm
      ((listForAccount account s.events).filterMap (recordedChargeEntry env)) := by
  have left : (((usageEntries account s.ledger).map LedgerEntry.id).filter fun id =>
      0 < s.ledger.unreversedRemainder id).Nodup :=
    (agrees.metered.wf.entryIds.sublist (List.filter_sublist.map LedgerEntry.id)).filter _
  have right : ((listForAccount account s.events).filterMap (recordedChargeEntry env)).Nodup := by
    have events : (listForAccount account s.events).Nodup :=
      (List.Nodup.of_map Event.id agrees.linear.ids).filter _
    rw [List.Nodup, List.pairwise_filterMap]
    refine events.imp_of_mem fun {first second} member member' different id links id' links' => ?_
    rintro rfl
    exact different (agrees.linked.owner_unique keyed (mem_listForAccount.mp member).1
      (mem_listForAccount.mp member').1 links links')
  refine (List.perm_ext_iff_of_nodup left right).mpr fun id => ?_
  rw [List.mem_filter, List.mem_map, List.mem_filterMap, decide_eq_true_eq]
  constructor
  · rintro ⟨⟨entry, member, rfl⟩, positive⟩
    obtain ⟨stored, own, usage⟩ := mem_usageEntries.mp member
    obtain ⟨event, inside, links⟩ := agrees.owner entry stored usage
    obtain ⟨entry', stored', same, charged⟩ := agrees.charged event inside _ links
    rw [agrees.remainder event inside _ links] at positive
    refine ⟨event, mem_listForAccount.mpr ⟨inside, ?_, ?_⟩, links⟩
    · rw [← charged.account, agrees.metered.eq_of_id stored' stored same, own]
    · by_contra notLive
      rw [if_neg notLive] at positive
      exact absurd positive (lt_irrefl _)
  · rintro ⟨event, member, links⟩
    obtain ⟨inside, own, live⟩ := mem_listForAccount.mp member
    obtain ⟨entry, stored, rfl, charged⟩ := agrees.charged event inside id links
    refine ⟨⟨entry, mem_usageEntries.mpr ⟨stored, charged.account.trans own, charged.usage⟩, rfl⟩, ?_⟩
    rw [agrees.remainder event inside _ links, if_pos live, charged.credits]
    exact neg_pos.mpr (agrees.metered.spends entry stored charged.usage)

/-- **Per account, what is charged and not refunded is what the live events say.** -/
theorem Agrees.net (agrees : Agrees env steps s) (keyed : Keyed env steps)
    (nonneg : ∀ event ∈ s.events, 0 ≤ recordedCredits env event) (account : AccountId) :
    netUsage account s.ledger = liveCredits env account s.events := by
  have charges : ((usageEntries account s.ledger).map fun entry =>
      s.ledger.unreversedRemainder entry.id).sum =
      ((((usageEntries account s.ledger).map LedgerEntry.id).filter fun id =>
        0 < s.ledger.unreversedRemainder id).map s.ledger.unreversedRemainder).sum := by
    rw [Table.sum_filter_map, List.map_map]
    refine congrArg List.sum (List.map_congr_left fun entry member => ?_)
    obtain ⟨stored, _, usage⟩ := mem_usageEntries.mp member
    have nonneg := agrees.metered.remainder_nonneg stored usage
    by_cases positive : 0 < s.ledger.unreversedRemainder entry.id
    · simp [positive]
    · simp [le_antisymm (not_lt.mp positive) nonneg]
  have events : ((listForAccount account s.events).map (recordedCredits env)).sum =
      (((listForAccount account s.events).filterMap (recordedChargeEntry env)).map
        s.ledger.unreversedRemainder).sum := by
    have each : ∀ event ∈ listForAccount account s.events, recordedCredits env event =
        ((recordedChargeEntry env event).map s.ledger.unreversedRemainder).getD 0 := by
      intro event member
      obtain ⟨inside, _, live⟩ := mem_listForAccount.mp member
      cases links : recordedChargeEntry env event with
      | none =>
        exact le_antisymm (not_lt.mp (agrees.uncharged event inside links)) (nonneg event inside)
      | some id =>
        rw [Option.map_some, Option.getD_some, agrees.remainder event inside id links, if_pos live]
    rw [List.map_congr_left each]
    generalize listForAccount account s.events = events
    induction events with
    | nil => rfl
    | cons event rest ih =>
      cases links : recordedChargeEntry env event with
      | none => simp [links, ih]
      | some id => simp [links, ih]
  rw [netUsage_eq agrees.metered, charges, liveCredits, events]
  exact ((agrees.perm keyed account).map _).sum_eq

end Sums

/-- **Event and ledger agreement.** Take any sequential run of metering, amendment, run-void, grant
and account requests in which a metering key comes with one body, the derived event keys are
distinct (and so are their hashes) and the resolved cards have no negative price or margin. After
it, for every account: the charges less the refunds linked to them are the credits of the live
events; every charge with anything left is named by exactly one live event, whose credits are its
whole magnitude; and every metered usage has at most one live version. -/
theorem event_ledger_agreement {env : Env} (lawful : env.Lawful)
    (cards : ∀ model id card, resolveCard env model id = .ok card → card.Nonneg)
    {steps : List (Request × Stores)} {s : Stores}
    (runs : Runs (Request.Served env) Stores.new steps s) (keyed : Keyed env steps)
    (account : AccountId) :
    netUsage account s.ledger = liveCredits env account s.events ∧
    (∀ entry ∈ usageEntries account s.ledger, 0 < s.ledger.unreversedRemainder entry.id →
      ∃ event ∈ s.events, event.status = .recorded ∧
        recordedChargeEntry env event = some entry.id ∧
        recordedCredits env event = -entry.deltaCredits ∧
        ∀ other ∈ s.events, other.status = .recorded →
          recordedChargeEntry env other = some entry.id → other = event) ∧
    OneLive s.events := by
  have agrees := Agrees.of_runs lawful runs keyed
  have nonneg : ∀ event ∈ s.events, 0 ≤ recordedCredits env event := fun event inside =>
    (agrees.origin event inside).nonneg cards
  refine ⟨agrees.net keyed nonneg account, fun entry member positive => ?_, ?_⟩
  · obtain ⟨stored, _, usage⟩ := mem_usageEntries.mp member
    obtain ⟨event, inside, links⟩ := agrees.owner entry stored usage
    obtain ⟨entry', stored', same, charged⟩ := agrees.charged event inside _ links
    rw [agrees.remainder event inside _ links] at positive
    refine ⟨event, inside, ?_, links, ?_, fun other inside' _ links' =>
      agrees.linked.owner_unique keyed inside' inside links' links⟩
    · by_contra notLive
      rw [if_neg notLive] at positive
      exact absurd positive (lt_irrefl _)
    · rw [charged.credits, agrees.metered.eq_of_id stored' stored same]
  · intro root _ _ first second version version' live live'
    exact agrees.linear.leaf_unique version version' (by rw [live]; decide) (by rw [live']; decide)

/-! ### A sample run -/

/-- Naturals in decimal notation, all other rationals by their number. -/
def printNumber (value : ℚ) : String :=
  if (value.num.toNat : ℚ) = value then Nat.repr value.num.toNat
  else "?" ++ Nat.repr (Encodable.encode value)

def parseNumber (text : String) : Option ℚ :=
  match text.toList with
  | '?' :: rest => Encodable.decode (Nat.ofDigitChars 10 rest 0)
  | digits => some (Nat.ofDigitChars 10 digits 0 : ℚ)

theorem parseNumber_printNumber (value : ℚ) : parseNumber (printNumber value) = some value := by
  unfold printNumber
  split
  · rename_i natural
    have noMark : ∀ rest, (Nat.repr value.num.toNat).toList ≠ '?' :: rest := by
      intro rest same
      have digit := Nat.isDigit_of_mem_toDigits (b := 10) (c := '?') (n := value.num.toNat)
        (by decide) (by decide)
        (by rw [← Nat.toList_repr, same]; exact List.mem_cons_self)
      exact absurd digit (by decide)
    unfold parseNumber
    split
    · rename_i rest same
      exact absurd same (noMark rest)
    · rw [Nat.toList_repr, Nat.ofDigitChars_toDigits (by decide) (by decide), natural]
  · unfold parseNumber
    simp [String.toList_append]

/-- One credit a token. -/
def sampleCard : RateCard where
  id := 1
  kind := .customer
  currency := ⟨"USD"⟩
  version := 1
  margin := 1
  components := [⟨.inputUncached, .text, .standard, .token, .standard, ⟨1, ⟨"USD"⟩⟩⟩]

/-- Event ids by the length of their key, one model, credits at par. -/
def sampleEnv : Env where
  idempotentEventId := lengthId
  rateCardFor model := if model = "small" then some sampleCard else none
  loadStoredCard _ := .error (.notFound "rate card not found")
  creditValue := ⟨1, ⟨"USD"⟩⟩
  showDecimal := printNumber
  parseDecimal := parseNumber
  parseUuid := Uuid.parseHyphenated

theorem sampleEnv_lawful : sampleEnv.Lawful := ⟨parseNumber_printNumber, Uuid.parseHyphenated_toString⟩

theorem sampleEnv_cards (model : String) (id : Option String) (card : RateCard)
    (resolved : resolveCard sampleEnv model id = .ok card) : card.Nonneg := by
  have only : card = sampleCard := by
    cases id with
    | some id => cases resolved
    | none =>
      by_cases small : model = "small"
      · subst small
        cases resolved
        rfl
      · simp [resolveCard, sampleEnv, small] at resolved
  rw [only]
  refine ⟨by decide, fun component member => ?_, fun component member => ?_⟩
  · rw [List.mem_singleton.mp member]
    decide
  · rw [List.mem_singleton.mp member]
    trivial

/-- What the `n`-th call draws. -/
def drawn (n : Nat) : Outside := ⟨Ledger.numbered n, fun _ => n, OfNat.ofNat n⟩

/-- Run a request alone. -/
def Request.serve (env : Env) (outs : List Outside) : Request → Stores → Option Stores
  | .meter now body, s => (Api.serve env (meterUsage env now body) outs s).map Prod.snd
  | .amend event body, s => (Api.serve env (amendUsage env event body) outs s).map Prod.snd
  | .voidRun run, s => (Api.serve env (Api.voidRun run) outs s).map Prod.snd
  | .grant account amount source, s => (Api.serve env (ledgerRoute
      (.grant { account, amount, source, idempotencyKey := none })) outs s).map Prod.snd
  | .openAccount req, s => (Api.serve env (ledgerRoute (.openAccount req)) outs s).map Prod.snd

theorem Request.served_of_serve {env : Env} {outs : List Outside} {request : Request}
    {s s' : Stores} (served : request.serve env outs s = some s') : request.Served env s s' := by
  cases request with
  | _ =>
    obtain ⟨⟨reply, after⟩, ran, rfl⟩ := Option.map_eq_some_iff.mp served
    exact ⟨reply, serves_of_serve ran⟩

/-- Run requests one after another. -/
def replay (env : Env) (script : List (List Outside × Request)) :
    Option (List (Request × Stores) × Stores) :=
  script.foldlM (fun run step => (step.2.serve env step.1 run.2).map fun s' =>
    (run.1 ++ [(step.2, run.2)], s')) ([], Stores.new)

theorem runs_of_replay {env : Env} {script : List (List Outside × Request)}
    {steps : List (Request × Stores)} {s : Stores} (replayed : replay env script = some (steps, s)) :
    Runs (Request.Served env) Stores.new steps s := by
  unfold replay at replayed
  exact (runs_of_foldlM (fun outs => Request.serve env outs)
    (fun _ _ _ _ => Request.served_of_serve) .nil replayed).1

/-- Ten tokens of run 7, on account 1. -/
def sampleBody : MeterUsageBody where
  orgId := 1
  account := 1
  model := "small"
  idempotencyKey := "k"
  runId := some 7
  usage := ⟨10, 0, 0, 0, 0⟩
  rateCardId := none
  tags := .null
  burnable := true

/-- A grant, ten tokens metered, and an amendment to four. -/
def sampleScript : List (List Outside × Request) := [
  ([drawn 0], .openAccount ⟨1, .user, false, none⟩),
  ([drawn 1], .grant 1 100 .paid),
  ([drawn 2, drawn 3, drawn 4], .meter 0 sampleBody),
  ([drawn 5, drawn 6, drawn 7, drawn 8, drawn 9, drawn 10],
    .amend 8 ⟨⟨4, 0, 0, 0, 0⟩, none, none, "a"⟩)]

/-- The requests of the script, with the states they found. -/
def sampleSteps : List (Request × Stores) := (replay sampleEnv sampleScript).elim [] Prod.fst

/-- The stores at the end of the script. -/
def sampleStores : Stores := (replay sampleEnv sampleScript).elim Stores.new Prod.snd

theorem sample_runs : Runs (Request.Served sampleEnv) Stores.new sampleSteps sampleStores := by
  have done : (replay sampleEnv sampleScript).isSome := by decide +kernel
  obtain ⟨⟨steps, s⟩, replayed⟩ := Option.isSome_iff_exists.mp done
  rw [sampleSteps, sampleStores, replayed]
  exact runs_of_replay replayed

theorem sample_keyed : Keyed sampleEnv sampleSteps := by
  have oneBody : (bodies sampleSteps).length = 1 := by decide +kernel
  obtain ⟨body, isBody⟩ := List.length_eq_one_iff.mp oneBody
  have isDerived : derived sampleSteps = [⟨.metered "k", 1, "k::event"⟩,
      ⟨.amended 8 "a", 1, "k::event::amend::a"⟩] := by decide +kernel
  refine ⟨?_, ?_, ?_⟩
  · rw [isBody]
    simp
  · rw [isDerived]
    decide
  · rw [isDerived]
    decide

/-- After the script the account owes four credits, and its live event says so. -/
theorem event_ledger_agreement_sample : netUsage 1 sampleStores.ledger = 4 ∧
    liveCredits sampleEnv 1 sampleStores.events = 4 := by
  have net : netUsage 1 sampleStores.ledger = 4 := by decide +kernel
  have agreement := event_ledger_agreement sampleEnv_lawful sampleEnv_cards sample_runs sample_keyed 1
  exact ⟨net, agreement.1.symm.trans net⟩

end Meter.Api
