/-
**A correction that corrects nothing, while cards change.**

An event remembers the version of the card that priced it; an amendment prices against the card that
is live when it is made. `Op.Served` lets the control plane put cards between any two requests:

* `Stands` — what holds all along: the charge of every live event is whole, and what an event says
  was priced by the cards of its own time;
* `Stands.of_runs` — **every request and every put keeps it**, whatever the cards cost;
* `Linked.settled_applied` — what an amendment does to the balance;
* `amendment_unchanged_iff` — **the same counts leave balance and credits alone exactly if the card
  live now prices them as the card of the event did.**
-/

import Meter.Api.Agreement
import Meter.Api.Cards

namespace Meter.Api

open Meter.Lib Meter.Pricing Meter.Events
open Meter.Ledger (LedgerEntry Action systemAccount flow flow_zero flow_add)

/-! ### Requests and cards -/

/-- The two stores, and the stored cards. -/
structure Engine where
  stores : Stores
  cards : RateCards

def Engine.new : Engine := ⟨Stores.new, []⟩

/-- A request, or a card that the control plane puts. -/
inductive Op where
  | request (request : Request)
  | putRateCard (minted : Uuid) (card : Option ProtoRateCard)

/-- A request is served over the cards that are stored when it is made. -/
def Op.Served (env : Env) (serde : Serde) : Op → Engine → Engine → Prop
  | .request req, found, after => after.cards = found.cards ∧
      req.Served (env.withCards serde found.cards) found.stores after.stores
  | .putRateCard minted card, found, after => after =
      { found with cards := (putRateCardGrpc env serde minted card found.cards).2 }

/-- The request of a step, with the stores it found. -/
def requestOf? (step : Op × Engine) : Option (Request × Stores) :=
  match step.1 with
  | .request request => some (request, step.2.stores)
  | .putRateCard _ _ => none

/-- The requests of a run. -/
def requestsOf (ops : List (Op × Engine)) : List (Request × Stores) := ops.filterMap requestOf?

theorem requestsOf_append (ops more : List (Op × Engine)) :
    requestsOf (ops ++ more) = requestsOf ops ++ requestsOf more := List.filterMap_append

/-! ### What does not depend on the cards -/

section WithCards

variable {env : Env} {serde : Serde} {cards cards' : RateCards} {steps : List (Request × Stores)}

theorem Env.Lawful.withCards (lawful : env.Lawful) : (env.withCards serde cards).Lawful :=
  ⟨lawful.decimal, lawful.uuid⟩

theorem Keyed.withCards (keyed : Keyed env steps) : Keyed (env.withCards serde cards) steps :=
  ⟨keyed.body, keyed.distinct, keyed.collisionFree⟩

/-- **The links do not depend on the stored cards.** -/
theorem Linked.withCards {s : Stores} (linked : Linked (env.withCards serde cards) steps s) :
    Linked (env.withCards serde cards') steps s := by
  refine ⟨linked.metered, linked.linear, fun event member id links => ?_, linked.remainder⟩
  obtain ⟨entry, stored, same, usage, account, run, credits, key, isKey, posted⟩ :=
    linked.charged event member id links
  refine ⟨entry, stored, same, usage, account, run, credits, key, isKey, ?_⟩
  cases posted with
  | metered body member id => exact .metered body member id
  | amended later => exact .amended later

end WithCards

/-! ### The invariant -/

/-- How an event came to be: priced by the cards of its time, or as a version of another. -/
inductive Written (env : Env) (serde : Serde) (ops : List (Op × Engine)) (event : Event) : Prop
  | metered (now : OffsetDateTime) (body : MeterUsageBody) (found : Engine)
      (member : (.request (.meter now body), found) ∈ ops) (card : RateCard) (priced : PricedUsage)
      (price : price (env.withCards serde found.cards) body.model body.rateCardId body.usage =
        .ok (card, priced)) (recordedAt : OffsetDateTime) (link : Option EntryId)
      (status : EventStatus)
      (same : event = { meteredUsage env now recordedAt body card priced link with status })
  | amended (original : EventId) (key : String) (links : event.supersedes = some original)
      (own : Derived) (member : own ∈ derived (requestsOf ops))
      (source : own.source = .amended original key) (id : event.id = own.id env)

/-- **What events and charges have to do with each other while cards change.** -/
structure Stands (env : Env) (serde : Serde) (ops : List (Op × Engine)) (found : Engine) : Prop where
  linked : Linked (env.withCards serde found.cards) (requestsOf ops) found.stores
  written : ∀ event ∈ found.stores.events, Written env serde ops event
  uncharged : ∀ event ∈ found.stores.events, recordedChargeEntry env event = none →
    ¬ 0 < recordedCredits env event
  chargeKeys : ∀ entry ∈ found.stores.ledger.entries, ∀ key,
    entry.idempotencyKey = some (chargeKey key) → ∃ body ∈ bodies (requestsOf ops),
      body.idempotencyKey = key ∧ meteredId env body ∈ found.stores.events.map Event.id
  amendKeys : ∀ entry ∈ found.stores.ledger.entries, ∀ scope,
    entry.idempotencyKey = some (amendReverseKey scope) ∨
      entry.idempotencyKey = some (amendChargeKey scope) →
    scope ∈ found.stores.events.map Event.id

section Invariant

variable {env : Env} {serde : Serde} {ops more : List (Op × Engine)} {found : Engine}

theorem Written.mono {event : Event} (written : Written env serde ops event) :
    Written env serde (ops ++ more) event := by
  cases written with
  | metered now body found member card priced price recordedAt link status same =>
    exact .metered now body found (List.mem_append_left _ member) card priced price recordedAt link
      status same
  | amended original key links own member source id =>
    refine .amended original key links own ?_ source id
    rw [requestsOf_append]
    exact mem_derived_append member

theorem Written.restated {event : Event} (written : Written env serde ops event)
    (status : EventStatus) : Written env serde ops { event with status } := by
  cases written with
  | metered now body found member card priced price recordedAt link before same =>
    refine .metered now body found member card priced price recordedAt link status ?_
    rw [same]
  | amended original key links own member source id =>
    exact .amended original key links own member source id

theorem Stands.mono (stands : Stands env serde ops found) : Stands env serde (ops ++ more) found where
  linked := by
    rw [requestsOf_append]
    exact stands.linked.mono
  written := fun event member => (stands.written event member).mono
  uncharged := stands.uncharged
  chargeKeys := by
    intro entry stored key isKey
    obtain ⟨body, member, same, known⟩ := stands.chargeKeys entry stored key isKey
    refine ⟨body, ?_, same, known⟩
    rw [requestsOf_append]
    exact mem_bodies_append member
  amendKeys := stands.amendKeys

theorem Stands.new : Stands env serde ops Engine.new where
  linked := .new
  written := fun _ member => absurd member List.not_mem_nil
  uncharged := fun _ member => absurd member List.not_mem_nil
  chargeKeys := fun _ member => absurd member List.not_mem_nil
  amendKeys := fun _ member => absurd member List.not_mem_nil

/-- Stored cards do not matter for what was written before. -/
theorem Stands.put (stands : Stands env serde ops found) (cards : RateCards) :
    Stands env serde ops { found with cards } :=
  ⟨stands.linked.withCards, stands.written, stands.uncharged, stands.chargeKeys, stands.amendKeys⟩

/-- An amendment's keys are not used before its version is there. -/
theorem Stands.amend_unused (stands : Stands env serde ops found) {scope : EventId}
    (absent : find found.stores.events scope = none) (account : AccountId) :
    found.stores.ledger.findKeyed account (amendReverseKey scope) = none ∧
      found.stores.ledger.findKeyed account (amendChargeKey scope) = none := by
  constructor
  · refine Ledger.findKeyed_eq_none.mpr fun entry stored _ isKey => ?_
    exact find_eq_none.mp absent (stands.amendKeys entry stored scope (Or.inl isKey))
  · refine Ledger.findKeyed_eq_none.mpr fun entry stored _ isKey => ?_
    exact find_eq_none.mp absent (stands.amendKeys entry stored scope (Or.inr isKey))

/-- A metering's key is not used before its event is there. -/
theorem Stands.charge_unused (stands : Stands env serde ops found)
    (keyed : Keyed env (requestsOf ops)) {body : MeterUsageBody}
    (member : body ∈ bodies (requestsOf ops))
    (absent : find found.stores.events (meteredId env body) = none) :
    found.stores.ledger.findKeyed body.account (chargeKey body.idempotencyKey) = none := by
  refine Ledger.findKeyed_eq_none.mpr fun entry stored _ isKey => ?_
  obtain ⟨body', member', same, known⟩ := stands.chargeKeys entry stored _ isKey
  rw [keyed.body body' member' body member same] at known
  exact find_eq_none.mp absent known

/-- **A new event with its charge keeps the invariant.** -/
theorem Stands.extend (stands : Stands env serde ops found) (keyed : Keyed env (requestsOf ops))
    {superseded : Option Event} {new : Event} {after : Stores}
    (adds : Adds (env.withCards serde found.cards) (requestsOf ops) superseded new found.stores after)
    (written : Written env serde ops new)
    (known : ∀ original, superseded = some original → original ∈ found.stores.events) :
    Stands env serde ops { found with stores := after } := by
  obtain ⟨posted, entries, kinds⟩ := adds.posted
  -- the new charge is under the key of the new event
  have charge : ∀ entry ∈ posted, recordedChargeEntry env new = some entry.id →
      ∀ key, entry.idempotencyKey = some key →
        PostedFor (env.withCards serde found.cards) (requestsOf ops) new key := by
    intro entry now links key isKey
    obtain ⟨entry', stored', same, charged, _⟩ := adds.charged entry.id links
    have stored : entry ∈ after.ledger.entries := by
      rw [entries]
      exact List.mem_append_right _ now
    obtain ⟨key', isKey', posted⟩ := charged.key
    rw [adds.metered.eq_of_id stored' stored same, isKey, Option.some.injEq] at isKey'
    exact isKey' ▸ posted
  have inside : ∀ id ∈ found.stores.events.map Event.id, id ∈ after.events.map Event.id := by
    intro id member
    rw [adds.ids]
    exact List.mem_append_left _ member
  have own : new.id ∈ after.events.map Event.id := by
    rw [adds.ids]
    exact List.mem_append_right _ (List.mem_singleton_self _)
  refine ⟨stands.linked.extend keyed.withCards adds known, ?_, ?_, ?_, ?_⟩
  · intro event member
    rcases adds.mem_events.mp member with ⟨before, inside, rfl⟩ | rfl
    · exact (stands.written before inside).restated _
    · exact written
  · intro event member none
    rcases adds.mem_events.mp member with ⟨before, inside, rfl⟩ | rfl
    · exact stands.uncharged before inside none
    · exact adds.uncharged none
  · intro entry stored key isKey
    rw [entries, List.mem_append] at stored
    rcases stored with before | now
    · obtain ⟨body, member, same, known⟩ := stands.chargeKeys entry before key isKey
      exact ⟨body, member, same, inside _ known⟩
    rcases kinds entry now with ⟨_, isKey'⟩ | links
    · have kinds := congrArg keyKind (Option.some.inj (isKey.symm.trans isKey'))
      simp at kinds
    generalize isCharge : chargeKey key = full at isKey
    cases charge entry now links full isKey with
    | metered body member id => exact ⟨body, member, (chargeKey_injective isCharge).symm, id ▸ own⟩
    | amended later =>
      have kinds := congrArg keyKind isCharge
      simp at kinds
  · intro entry stored scope isKey
    rw [entries, List.mem_append] at stored
    rcases stored with before | now
    · exact inside _ (stands.amendKeys entry before scope isKey)
    rcases kinds entry now with ⟨_, isKey'⟩ | links
    · rcases isKey with isKey | isKey
      · rw [amendReverseKey_injective (Option.some.inj (isKey.symm.trans isKey'))]
        exact own
      · have kinds := congrArg keyKind (Option.some.inj (isKey.symm.trans isKey'))
        simp at kinds
    rcases isKey with isKey | isKey
    · generalize isReverse : amendReverseKey scope = full at isKey
      have posted := charge entry now links full isKey
      have kinds := congrArg keyKind isReverse
      cases posted with
      | metered body member id => simp at kinds
      | amended later => simp at kinds
    · generalize isCharge : amendChargeKey scope = full at isKey
      cases charge entry now links full isKey with
      | metered body member id =>
        have kinds := congrArg keyKind isCharge
        simp at kinds
      | amended later =>
        rw [amendChargeKey_injective isCharge]
        exact own

/-- **Postings that reverse nothing keep the invariant**, as long as a metering key on them belongs
to an event that is there. -/
theorem Stands.plain (stands : Stands env serde ops found) {after : Stores}
    (metered : after.ledger.Metered) (events : after.events = found.stores.events)
    {posted : List LedgerEntry}
    (entries : after.ledger.entries = found.stores.ledger.entries ++ posted)
    (plain : ∀ entry ∈ posted, entry.reversesEntryId = none)
    (keys : ∀ entry ∈ posted, ∀ key, entry.idempotencyKey = some key →
      ∃ body ∈ bodies (requestsOf ops), key = chargeKey body.idempotencyKey ∧
        meteredId env body ∈ found.stores.events.map Event.id) :
    Stands env serde ops { found with stores := after } := by
  refine ⟨stands.linked.plain metered events entries plain, ?_, ?_, ?_, ?_⟩
  · show ∀ event ∈ after.events, _
    rw [events]
    exact stands.written
  · show ∀ event ∈ after.events, _
    rw [events]
    exact stands.uncharged
  · show ∀ entry ∈ after.ledger.entries, _
    intro entry stored key isKey
    show ∃ body ∈ _, _ ∧ _ ∈ after.events.map Event.id
    rw [events]
    rw [entries, List.mem_append] at stored
    rcases stored with before | now
    · exact stands.chargeKeys entry before key isKey
    · obtain ⟨body, member, same, known⟩ := keys entry now _ isKey
      exact ⟨body, member, (chargeKey_injective same).symm, known⟩
  · show ∀ entry ∈ after.ledger.entries, _
    intro entry stored scope isKey
    show scope ∈ after.events.map Event.id
    rw [events]
    rw [entries, List.mem_append] at stored
    rcases stored with before | now
    · exact stands.amendKeys entry before scope isKey
    rcases isKey with isKey | isKey
    · obtain ⟨body, _, same, _⟩ := keys entry now _ isKey
      have kinds := congrArg keyKind same
      simp at kinds
    · obtain ⟨body, _, same, _⟩ := keys entry now _ isKey
      have kinds := congrArg keyKind same
      simp at kinds

/-- **A run void keeps the invariant.** -/
theorem Stands.voidRun (stands : Stands env serde ops found) {run : RunId} {after : Stores}
    (events : after.events = restate (voided run) found.stores.events)
    (sweeps : SweepsCharges run found.stores.ledger after.ledger) :
    Stands env serde ops { found with stores := after } := by
  obtain ⟨posted, entries, refunds⟩ := sweeps.posted
  have ids : after.events.map Event.id = found.stores.events.map Event.id := by
    rw [events, ids_restate]
  have before : ∀ event ∈ after.events, ∃ old ∈ found.stores.events,
      { old with status := voided run old } = event := fun event member => by
    rw [events] at member
    exact mem_restate.mp member
  -- the keys of the refunds are of another kind
  have old : ∀ entry ∈ after.ledger.entries, ∀ key, entry.idempotencyKey = some key →
      keyKind key ≠ .voidRun → entry ∈ found.stores.ledger.entries := by
    intro entry stored key isKey kind
    rw [entries, List.mem_append] at stored
    rcases stored with before | now
    · exact before
    · obtain ⟨id, isKey'⟩ := (refunds entry now).2
      rw [isKey, Option.some.injEq] at isKey'
      rw [isKey', keyKind_runVoidChargeRefundKey] at kind
      exact absurd rfl kind
  refine ⟨stands.linked.voidRun events sweeps, ?_, ?_, ?_, ?_⟩
  · intro event member
    obtain ⟨event, inside, rfl⟩ := before event member
    exact (stands.written event inside).restated _
  · intro event member none
    obtain ⟨event, inside, rfl⟩ := before event member
    exact stands.uncharged event inside none
  · intro entry stored key isKey
    show ∃ body ∈ _, _ ∧ _ ∈ after.events.map Event.id
    rw [ids]
    exact stands.chargeKeys entry (old entry stored _ isKey (by simp)) key isKey
  · intro entry stored scope isKey
    show scope ∈ after.events.map Event.id
    rw [ids]
    refine stands.amendKeys entry ?_ scope isKey
    rcases isKey with isKey | isKey
    · exact old entry stored _ isKey (by simp)
    · exact old entry stored _ isKey (by simp)

end Invariant

/-! ### Every step keeps it -/

section Steps

variable {env : Env} {serde : Serde} {ops : List (Op × Engine)} {found after : Engine}

/-- **Metering keeps the invariant**, retries included: a retry may charge what was free before. -/
theorem Stands.meter (lawful : env.Lawful) (stands : Stands env serde ops found)
    (keyed : Keyed env (requestsOf ops)) {now : OffsetDateTime} {body : MeterUsageBody}
    (member : (.request (.meter now body), found) ∈ ops) {s' : Stores}
    (meters : MetersUsage (env.withCards serde found.cards) now body found.stores s') :
    Stands env serde ops { found with stores := s' } := by
  have inside : body ∈ bodies (requestsOf ops) :=
    List.mem_filterMap.mpr ⟨_, List.mem_filterMap.mpr ⟨_, member, rfl⟩, rfl⟩
  obtain ⟨card, priced, middle, link, recordedAt, isPriced, charges, rfl⟩ := meters
  cases present : find found.stores.events (meteredId env body) with
  | some event =>
    have sameEvents := charges.events
    have unchanged : { middle with events :=
        if (find found.stores.events (meteredId (env.withCards serde found.cards) body)).isSome
        then found.stores.events else found.stores.events ++ [meteredUsage
          (env.withCards serde found.cards) now recordedAt body card priced link] } = middle := by
      rw [show find found.stores.events (meteredId (env.withCards serde found.cards) body) =
        some event from present, Option.isSome_some, if_pos rfl, ← sameEvents]
    rw [unchanged]
    rcases charges.cases with ⟨_, rfl, _⟩ | ⟨_, _, entry, _, ⟨_, rfl⟩ | posts⟩
    · exact stands
    · exact stands
    rw [posts.after]
    have known : meteredId env body ∈ found.stores.events.map Event.id := by
      obtain ⟨stored, same⟩ := find_eq_some present
      exact same ▸ List.mem_map_of_mem stored
    refine stands.plain (stands.linked.metered.charge posts.enabled) rfl
      (Action.apply_entries _ (.charge entry)) ?_ ?_
    · intro other posted
      rw [List.mem_singleton.mp posted]
      exact posts.enabled.2.2.2.2
    · intro other posted key isKey'
      rw [List.mem_singleton.mp posted, posts.key, Option.some.injEq] at isKey'
      exact ⟨body, inside, isKey'.symm, known⟩
  | none =>
    have adds : Adds (env.withCards serde found.cards) (requestsOf ops) none (meteredUsage
        (env.withCards serde found.cards) now recordedAt body card priced link) found.stores _ :=
      stands.linked.meters lawful.withCards inside charges
        (stands.charge_unused keyed inside present) present
    have events : (if (find found.stores.events
        (meteredId (env.withCards serde found.cards) body)).isSome
        then found.stores.events else found.stores.events ++ [meteredUsage
          (env.withCards serde found.cards) now recordedAt body card priced link]) =
        found.stores.events ++ [meteredUsage (env.withCards serde found.cards) now recordedAt body
          card priced link] := by
      rw [show find found.stores.events (meteredId (env.withCards serde found.cards) body) =
        none from present]
      rfl
    rw [events]
    refine stands.extend keyed adds ?_ ?_
    · exact .metered now body found member card priced isPriced recordedAt link .recorded rfl
    · intro original isNone
      cases isNone

/-- **An amendment keeps the invariant.** -/
theorem Stands.applied (lawful : env.Lawful) (stands : Stands env serde ops found)
    (keyed : Keyed env (requestsOf ops)) {id : EventId} {body : AmendUsageBody}
    {amendment : Repriced}
    (applicable : Applicable (env.withCards serde found.cards) found.stores id body amendment)
    (known : ∃ own ∈ derived (requestsOf ops), own.source = .amended id body.idempotencyKey ∧
      own.id env = amendment.version env) {s' : Stores}
    (applied : amendment.Applied (env.withCards serde found.cards) found.stores s') :
    Stands env serde ops { found with stores := s' } := by
  obtain ⟨member, isId⟩ := find_eq_some applicable.found
  obtain ⟨reverseUnused, chargeUnused⟩ :=
    stands.amend_unused applicable.absent amendment.original.accountId
  obtain ⟨link, draw, adds⟩ :=
    stands.linked.amends lawful.withCards applicable reverseUnused chargeUnused applied
  refine stands.extend keyed adds ?_ ?_
  · obtain ⟨own, inside, source, same⟩ := known
    exact .amended id body.idempotencyKey (congrArg some isId) own inside source same.symm
  · rintro original ⟨⟩
    exact member

/-- **Every request and every put keeps the invariant.** -/
theorem Stands.step (lawful : env.Lawful) (stands : Stands env serde ops found) {op : Op}
    (keyed : Keyed env (requestsOf (ops ++ [(op, found)]))) (served : op.Served env serde found after) :
    Stands env serde (ops ++ [(op, found)]) after := by
  have stands' : Stands env serde (ops ++ [(op, found)]) found := stands.mono
  cases op with
  | putRateCard minted card =>
    rw [served]
    exact stands'.put _
  | request req =>
    obtain ⟨stores, cards⟩ := after
    obtain ⟨rfl, served⟩ := served
    cases req with
    | meter now body =>
      obtain ⟨reply, serves⟩ := served
      rcases serves_meterUsage serves with rfl | meters
      · exact stands'
      · exact stands'.meter lawful keyed
          (List.mem_append_right _ (List.mem_singleton_self _)) meters
    | amend event body =>
      obtain ⟨reply, serves⟩ := served
      rcases serves_amendUsage serves with ⟨rfl, _⟩ | ⟨amendment, applicable, applied⟩
      · exact stands'
      refine stands'.applied lawful keyed applicable ?_ applied
      refine ⟨⟨.amended event body.idempotencyKey, amendment.original.orgId,
        amendKey amendment.original body.idempotencyKey⟩, ?_, rfl, ?_⟩
      · rw [requestsOf_append, derived_append]
        refine List.mem_append_right _ (List.mem_flatMap.mpr ⟨_, List.mem_singleton_self _, ?_⟩)
        rw [Request.derived, applicable.found]
        exact List.mem_singleton_self _
      · rw [Repriced.version, (reprice_eq applicable.repriced).2]
        rfl
    | voidRun run =>
      obtain ⟨reply, serves⟩ := served
      obtain ⟨events, sweeps⟩ := serves_voidRun stands.linked.metered serves
      exact stands'.voidRun events sweeps
    | grant account amount source =>
      obtain ⟨reply, serves⟩ := served
      obtain ⟨metered, events, posted, entries, plain⟩ :=
        serves_plainRoute stands.linked.metered (fun _ => plain_grant) serves
      refine stands'.plain metered events entries (fun entry inside => (plain entry inside).2.2) ?_
      intro entry inside key isKey
      cases (plain entry inside).2.1.symm.trans isKey
    | openAccount req =>
      obtain ⟨reply, serves⟩ := served
      obtain ⟨metered, events, posted, entries, plain⟩ :=
        serves_plainRoute stands.linked.metered (fun _ => plain_openAccount) serves
      refine stands'.plain metered events entries (fun entry inside => (plain entry inside).2.2) ?_
      intro entry inside key isKey
      cases (plain entry inside).2.1.symm.trans isKey

/-- **The invariant holds after every run.** -/
theorem Stands.of_runs (lawful : env.Lawful) (runs : Runs (Op.Served env serde) Engine.new ops found)
    (keyed : Keyed env (requestsOf ops)) : Stands env serde ops found := by
  induction runs with
  | nil => exact .new
  | snoc op _ served ih =>
    have init := keyed
    rw [requestsOf_append] at init
    exact (ih init.init).step lawful keyed served

end Steps

/-! ### What an amendment does to the balance -/

section Balance

variable {env : Env} {steps : List (Request × Stores)} {s s' : Stores}

/-- A new charge takes what it burns. -/
theorem ChargesFor.settled {account : AccountId} {run : Option RunId} {burned : Credit}
    {key : String} {link : Option EntryId}
    (charges : ChargesFor env account run burned key s s' link)
    (unused : s.ledger.findKeyed account key = none) : s'.ledger.settled account =
      s.ledger.settled account + flow systemAccount account (-max burned 0) account := by
  rcases charges.cases with ⟨nothing, rfl, _⟩ | ⟨positive, present, entry, _, ⟨found, _⟩ | posts⟩
  · rw [max_eq_right (not_lt.mp nothing), neg_zero, flow_zero, add_zero]
  · cases found.symm.trans unused
  · rw [posts.after]
    show (s.ledger.pay _ _ _).settled _ = _
    rw [posts.account, Ledger.State.settled_pay present, posts.delta, max_eq_left positive.le]

/-- The reversal of a live event's charge gives back what the event records. -/
theorem Linked.settled_reverses (linked : Linked env steps s) {amendment : Repriced}
    {reversed : Stores} (member : amendment.original ∈ s.events)
    (current : amendment.original.status = .recorded)
    (uncharged : recordedChargeEntry env amendment.original = none →
      ¬ 0 < recordedCredits env amendment.original)
    (unused : s.ledger.findKeyed amendment.original.accountId
      (amendReverseKey (amendment.version env)) = none)
    (reverses : amendment.Reverses env s reversed) :
    reversed.ledger.settled amendment.original.accountId =
      s.ledger.settled amendment.original.accountId + flow systemAccount
        amendment.original.accountId (max (recordedCredits env amendment.original) 0)
        amendment.original.accountId := by
  rcases reverses with ⟨noCharge, rfl⟩ | ⟨charge, reversal, isCharge, performed⟩
  · rw [max_eq_right (not_lt.mp (uncharged noCharge)), flow_zero, add_zero]
  obtain ⟨positive, present, entry, _, own, _, _, delta, rfl⟩ :=
    linked.refunds member current unused isCharge performed
  show (s.ledger.pay _ _ _).settled _ = _
  rw [own, Ledger.State.settled_pay present, delta, max_eq_left positive.le]

/-- **An amendment moves the balance by what it gives back and what it takes.** -/
theorem Linked.settled_applied (linked : Linked env steps s) {amendment : Repriced}
    (member : amendment.original ∈ s.events) (current : amendment.original.status = .recorded)
    (uncharged : recordedChargeEntry env amendment.original = none →
      ¬ 0 < recordedCredits env amendment.original)
    (reverseUnused : s.ledger.findKeyed amendment.original.accountId
      (amendReverseKey (amendment.version env)) = none)
    (chargeUnused : s.ledger.findKeyed amendment.original.accountId
      (amendChargeKey (amendment.version env)) = none)
    (applied : amendment.Applied env s s') :
    s'.ledger.settled amendment.original.accountId =
      s.ledger.settled amendment.original.accountId + flow systemAccount
        amendment.original.accountId
        (max (recordedCredits env amendment.original) 0 - max amendment.burned 0)
        amendment.original.accountId := by
  obtain ⟨reversed, charged, link, reverses, recharges, draw, rfl⟩ := applied
  obtain ⟨_, posted, _⟩ := linked.reverses member current reverseUnused reverses
  have unused := chargeKey_unused_of_refunds posted chargeUnused
  show charged.ledger.settled _ = _
  rw [recharges.settled unused,
    linked.settled_reverses member current uncharged reverseUnused reverses, add_assoc, flow_add,
    sub_eq_add_neg]

end Balance

/-! ### A correction that corrects nothing -/

/-- The balance is as it was, and the new version records what its original did. -/
structure Unchanged (env : Env) (event : Event) (s s' : Stores) : Prop where
  settled : s'.ledger.settled event.accountId = s.ledger.settled event.accountId
  credits : ∃ version ∈ s'.events, version.supersedes = some event.id ∧
    version.status = .recorded ∧ recordedCredits env version = recordedCredits env event

/-- A correction of a usage to its own counts, with neither model nor card. -/
def correction (body : MeterUsageBody) (key : String) : AmendUsageBody where
  usage := body.usage
  model := none
  rateCardId := none
  idempotencyKey := key

section Correction

variable {env : Env} {serde : Serde} {ops : List (Op × Engine)} {found : Engine}

theorem asStr?_ofOption (text : Option String) : (Json.ofOption text).asStr? = text := by
  cases text with
  | none => rfl
  | some text => rfl

/-- The reserved properties of a metered event. -/
theorem get?_metered {event : Event} {now recordedAt : OffsetDateTime} {body : MeterUsageBody}
    {card : RateCard} {priced : PricedUsage} {link : Option EntryId} {status : EventStatus}
    (same : event = { meteredUsage env now recordedAt body card priced link with status })
    {name : String} {value : Json} (reserved : (pricedProperties env body.model body.usage
      (burnedCredits body.burnable priced.credits) body.burnable (linkText link) body.rateCardId card
      priced).lookup name = some value) : event.properties.get? name = some value := by
  rw [same]
  exact get?_mergeTags reserved

/-- A metered event is re-priced by its own model and card id. -/
theorem reprice_metered {event : Event} {now recordedAt : OffsetDateTime} {body : MeterUsageBody}
    {card : RateCard} {priced : PricedUsage} {link : Option EntryId} {status : EventStatus}
    (same : event = { meteredUsage env now recordedAt body card priced link with status })
    (env' : Env) (key : String) : reprice env' event (correction body key) =
      (price env' body.model body.rateCardId body.usage).map fun result =>
        ⟨event, correction body key, body.model, body.rateCardId, result.1, result.2⟩ := by
  have model : propStr event "model" = some body.model := by
    rw [propStr, get?_metered same rfl]
    rfl
  have cardId : propStr event "rate_card_id" = body.rateCardId := by
    rw [propStr, get?_metered same rfl]
    exact asStr?_ofOption _
  have noModel : ((correction body key).model <|> propStr event "model") = some body.model := model
  have noCard : ((correction body key).rateCardId <|> propStr event "rate_card_id") =
    body.rateCardId := cardId
  unfold reprice
  rw [noModel, noCard]
  rfl

/-- The flag of a metered event. -/
theorem burnable_metered {amendment : Repriced} {now recordedAt : OffsetDateTime}
    {body : MeterUsageBody} {card : RateCard} {priced : PricedUsage} {link : Option EntryId}
    {status : EventStatus} (same : amendment.original =
      { meteredUsage env now recordedAt body card priced link with status }) :
    amendment.burnable = body.burnable := by
  rw [Repriced.burnable, get?_metered same rfl]
  rfl

/-- **The event of a metering body was priced by the cards of its time.** -/
theorem Stands.metered (stands : Stands env serde ops found) (keyed : Keyed env (requestsOf ops))
    {body : MeterUsageBody} (metering : body ∈ bodies (requestsOf ops)) {event : Event}
    (member : event ∈ found.stores.events) (own : event.id = meteredId env body) :
    ∃ now before card priced recordedAt link status, (.request (.meter now body), before) ∈ ops ∧
      price (env.withCards serde before.cards) body.model body.rateCardId body.usage =
        .ok (card, priced) ∧
      event = { meteredUsage env now recordedAt body card priced link with status } := by
  cases stands.written event member with
  | metered now body' before inside card priced isPriced recordedAt link status same =>
    have metering' : body' ∈ bodies (requestsOf ops) :=
      List.mem_filterMap.mpr ⟨_, List.mem_filterMap.mpr ⟨_, inside, rfl⟩, rfl⟩
    have ids : meteredId env body' = meteredId env body := by
      rw [← own, same]
      rfl
    have sources := keyed.source (mem_derived_of_body metering') (mem_derived_of_body metering) ids
    have equal := keyed.body body' metering' body metering (Source.metered.inj sources)
    subst equal
    exact ⟨now, before, card, priced, recordedAt, link, status, inside, isPriced, same⟩
  | amended original key links own' member' source id =>
    have sources := keyed.source member' (mem_derived_of_body metering) (id.symm.trans own)
    rw [source] at sources
    cases sources

/-- A live event has no version yet. -/
theorem Stands.version_absent (stands : Stands env serde ops found) {event : Event}
    (member : event ∈ found.stores.events) (live : event.status = .recorded) {key : String}
    {body : AmendUsageBody} (isKey : body.idempotencyKey = key)
    (keyed : Keyed env (requestsOf ops ++ [(.amend event.id body, found.stores)])) :
    find found.stores.events (amendedId env event key) = none := by
  refine find_eq_none.mpr fun inside => ?_
  obtain ⟨version, stored, same⟩ := List.mem_map.mp inside
  have derives : (⟨.amended event.id key, event.orgId, amendKey event key⟩ : Derived) ∈
      derived (requestsOf ops ++ [(.amend event.id body, found.stores)]) := by
    rw [derived_append]
    refine List.mem_append_right _ (List.mem_flatMap.mpr ⟨_, List.mem_singleton_self _, ?_⟩)
    rw [Request.derived, stands.linked.linear.find_of_mem member, isKey]
    exact List.mem_singleton_self _
  cases stands.written version stored with
  | metered now body' before inside' card priced isPriced recordedAt link status isVersion =>
    have metering : body' ∈ bodies (requestsOf ops) :=
      List.mem_filterMap.mpr ⟨_, List.mem_filterMap.mpr ⟨_, inside', rfl⟩, rfl⟩
    have ids : meteredId env body' = amendedId env event key := by
      rw [← same, isVersion]
      rfl
    cases keyed.source (mem_derived_append (mem_derived_of_body metering)) derives ids
  | amended original key' links own member' source id =>
    have sources := keyed.source (mem_derived_append member') derives (id.symm.trans same)
    rw [source] at sources
    cases sources
    have superseded := stands.linked.linear.superseded event member version stored links
    rw [live] at superseded
    cases superseded

/-- **What an amendment leaves behind**: its version, and a balance moved by the difference. -/
theorem Stands.amended (lawful : env.Lawful) (stands : Stands env serde ops found) {id : EventId}
    {body : AmendUsageBody} {amendment : Repriced} {after : Stores}
    (applicable : Applicable (env.withCards serde found.cards) found.stores id body amendment)
    (applied : amendment.Applied (env.withCards serde found.cards) found.stores after) :
    (∃ link draw, Adds (env.withCards serde found.cards) (requestsOf ops) (some amendment.original)
      (amendment.amended (env.withCards serde found.cards) link draw) found.stores after) ∧
    after.ledger.settled amendment.original.accountId =
      found.stores.ledger.settled amendment.original.accountId + flow systemAccount
        amendment.original.accountId
        (max (recordedCredits env amendment.original) 0 - max amendment.burned 0)
        amendment.original.accountId := by
  obtain ⟨member, _⟩ := find_eq_some applicable.found
  obtain ⟨reverseUnused, chargeUnused⟩ :=
    stands.amend_unused applicable.absent amendment.original.accountId
  exact ⟨stands.linked.amends lawful.withCards applicable reverseUnused chargeUnused applied,
    stands.linked.settled_applied member applicable.current (stands.uncharged _ member)
      reverseUnused chargeUnused applied⟩

/-- **A correction goes through if the card live now prices the counts as recorded.** -/
theorem Stands.correction_applicable (lawful : env.Lawful) (stands : Stands env serde ops found)
    {event : Event} (member : event ∈ found.stores.events) (live : event.status = .recorded)
    {key : String} (absent : find found.stores.events (amendedId env event key) = none)
    {now recordedAt : OffsetDateTime} {body : MeterUsageBody} {card card' : RateCard}
    {priced priced' : PricedUsage} {link : Option EntryId} {status : EventStatus}
    (same : event = { meteredUsage env now recordedAt body card priced link with status })
    (isPriced : price (env.withCards serde found.cards) body.model body.rateCardId body.usage =
      .ok (card', priced'))
    (credits : burnedCredits body.burnable priced'.credits = recordedCredits env event) :
    Applicable (env.withCards serde found.cards) found.stores event.id (correction body key)
      ⟨event, correction body key, body.model, body.rateCardId, card', priced'⟩ := by
  have engine := (priced_meteredUsage lawful now recordedAt body card priced link).engine
  refine ⟨stands.linked.linear.find_of_mem member, live, ?_, absent, ?_, fun either => ?_⟩
  · rw [same]
    exact engine
  · rw [reprice_metered same, isPriced]
    rfl
  -- what is to be charged was charged before, so the account is there
  have linked : ∃ id, recordedChargeEntry env event = some id := by
    rcases either with charged | positive
    · exact Option.isSome_iff_exists.mp charged
    · rw [Repriced.burned, burnable_metered (by exact same)] at positive
      rw [credits] at positive
      cases links : recordedChargeEntry env event with
      | none => exact absurd positive (stands.uncharged event member links)
      | some id => exact ⟨id, rfl⟩
  obtain ⟨id, links⟩ := linked
  obtain ⟨entry, stored, _, charged⟩ := stands.linked.charged event member id links
  rw [← charged.account]
  exact stands.linked.metered.wf.entryAccounts entry stored

/-- **A correction to the same counts, while cards change.** Take any run of metering, amendment,
run-void, grant and account requests with cards put at any time in between, in which a metering key
comes with one body and the derived event keys are distinct (and so are their hashes), and any live
event of a metering request. It was priced by the card that was live at its time, whose version it
stores. An amendment under a new key with the same counts and neither model nor card leaves the
settled balance alone and records the same credits **if and only if the card live now prices the
counts, and to the same burned credits**. -/
theorem amendment_unchanged_iff (lawful : env.Lawful)
    (runs : Runs (Op.Served env serde) Engine.new ops found) {body : MeterUsageBody}
    (metering : body ∈ bodies (requestsOf ops)) {event : Event}
    (member : event ∈ found.stores.events) (own : event.id = meteredId env body)
    (live : event.status = .recorded) {key : String}
    (keyed : Keyed env (requestsOf ops ++ [(.amend event.id (correction body key), found.stores)]))
    {reply : Except ApiError AmendUsageResult} {after : Stores}
    (serves : (server (env.withCards serde found.cards)).Serves
      (amendUsage (env.withCards serde found.cards) event.id (correction body key)) found.stores
      reply after) :
    ∃ now before card priced, (.request (.meter now body), before) ∈ ops ∧
      price (env.withCards serde before.cards) body.model body.rateCardId body.usage =
        .ok (card, priced) ∧
      event.properties.get? "rate_card_version" = some (.number card.version) ∧
      recordedCredits env event = burnedCredits body.burnable priced.credits ∧
      (Unchanged env event found.stores after ↔ ∃ card' priced',
        price (env.withCards serde found.cards) body.model body.rateCardId body.usage =
          .ok (card', priced') ∧
        burnedCredits body.burnable priced'.credits =
          burnedCredits body.burnable priced.credits) := by
  have stands := Stands.of_runs lawful runs keyed.init
  obtain ⟨now, before, card, priced, recordedAt, link, status, inside, isPriced, same⟩ :=
    stands.metered keyed.init metering member own
  have credits : recordedCredits env event = burnedCredits body.burnable priced.credits := by
    rw [same]
    exact (priced_meteredUsage lawful now recordedAt body card priced link).credits
  refine ⟨now, before, card, priced, inside, isPriced, get?_metered same rfl, credits, ?_⟩
  have isFound := stands.linked.linear.find_of_mem member
  have notYet : ∀ version ∈ found.stores.events, version.supersedes ≠ some event.id := by
    intro version stored links
    have superseded := stands.linked.linear.superseded event member version stored links
    rw [live] at superseded
    cases superseded
  constructor
  · rintro ⟨_, version, stored, links, _, sameCredits⟩
    rcases serves_amendUsage serves with ⟨rfl, _⟩ | ⟨amendment, applicable, applied⟩
    · exact absurd links (notYet version stored)
    have original : amendment.original = event :=
      Option.some.inj (applicable.found.symm.trans isFound)
    obtain ⟨⟨link', draw, adds⟩, _⟩ := stands.amended lawful applicable applied
    have repriced := applicable.repriced
    rw [original, reprice_metered same] at repriced
    cases isPriced' : price (env.withCards serde found.cards) body.model body.rateCardId
        body.usage with
    | error error =>
      rw [isPriced'] at repriced
      cases repriced
    | ok result =>
      rw [isPriced'] at repriced
      refine ⟨result.1, result.2, rfl, ?_⟩
      have burned : amendment.burned = burnedCredits body.burnable result.2.credits := by
        rw [Repriced.burned, burnable_metered (original.trans same), ← Except.ok.inj repriced]
      rcases adds.mem_events.mp stored with ⟨old, stored', rfl⟩ | rfl
      · exact absurd links (notYet old stored')
      · rw [← burned, ← credits, ← sameCredits]
        exact (amendment.priced_amended lawful link' draw).credits.symm
  · rintro ⟨card', priced', isPriced', equal⟩
    have applicable := stands.correction_applicable lawful member live
      (stands.version_absent member live rfl keyed) same isPriced' (equal.trans credits.symm)
    rcases serves_amendUsage serves with ⟨_, none⟩ | ⟨amendment, applicable', applied⟩
    · exact absurd applicable (none _)
    have original : amendment.original = event :=
      Option.some.inj (applicable'.found.symm.trans isFound)
    obtain rfl : amendment = _ :=
      Except.ok.inj ((original ▸ applicable'.repriced).symm.trans applicable.repriced)
    have burned := (congrArg (burnedCredits · priced'.credits) (burnable_metered
      (original.trans same))).trans (equal.trans credits.symm)
    obtain ⟨⟨link', draw, adds⟩, settled⟩ := stands.amended lawful applicable applied
    refine ⟨?_, _, adds.mem_events.mpr (Or.inr rfl), rfl, adds.recorded, ?_⟩
    · rw [settled, Repriced.burned, burned, sub_self, flow_zero, add_zero]
    · exact (Repriced.priced_amended lawful _ link' draw).credits.trans burned

end Correction

/-! ### A card that costs more -/

/-- Reads flat prices of uncached text tokens. -/
def readComponent (json : Json) : Except String PriceComponent :=
  let text := fun key => (json.get? key).bind Json.asStr?
  let price := json.get? "unit_price"
  if text "dimension" = some "input_uncached" ∧ text "modality" = some "text" ∧
      text "context_tier" = some "standard" ∧ text "unit" = some "token" ∧
      text "charge_model" = some "standard" then
    match (price.bind (Json.get? "amount")).bind Json.asStr? with
    | none => .error "missing field amount"
    | some amount => .ok ⟨.inputUncached, .text, .standard, .token, .standard,
        ⟨(parseNumber amount).getD 0, ⟨"USD"⟩⟩⟩
  else .error "unknown variant"

def sampleSerde : Serde where
  components json := match json with
    | .array items => items.mapM readComponent
    | _ => .error "invalid type"
  debug code := code.quote

/-- A version of card 5, at a price for each uncached token. -/
def cardAt (version : UInt32) (price : String) : ProtoRateCard where
  id := Uuid.toString ⟨5⟩
  kind := 2
  currency := "USD"
  version := version
  margin := "1"
  components := [⟨"input_uncached", "text", "standard", "token", "standard", some ⟨price, "USD"⟩⟩]

/-- Run a step. -/
def Op.serve (env : Env) (serde : Serde) (outs : List Outside) : Op → Engine → Option Engine
  | .request req, found => (req.serve (env.withCards serde found.cards) outs found.stores).map
      fun stores => { found with stores }
  | .putRateCard minted card, found =>
    some { found with cards := (putRateCardGrpc env serde minted card found.cards).2 }

theorem Op.served_of_serve {env : Env} {serde : Serde} {outs : List Outside} {op : Op}
    {found after : Engine} (served : op.serve env serde outs found = some after) :
    op.Served env serde found after := by
  cases op with
  | request req =>
    obtain ⟨stores, ran, rfl⟩ := Option.map_eq_some_iff.mp served
    exact ⟨rfl, Request.served_of_serve ran⟩
  | putRateCard minted card => exact (Option.some.inj served).symm

/-- Ten tokens of the sample usage, priced by card 5. -/
def cardBody : MeterUsageBody := { sampleBody with rateCardId := some (Uuid.toString ⟨5⟩) }

/-- A grant, card 5 at one credit a token, ten tokens metered, and a second version of the card. -/
def cardScript (price : String) : List (List Outside × Op) := [
  ([drawn 0], .request (.openAccount ⟨1, .user, false, none⟩)),
  ([drawn 1], .request (.grant 1 100 .paid)),
  ([], .putRateCard ⟨5⟩ (some (cardAt 1 "1"))),
  ([drawn 2, drawn 3, drawn 4], .request (.meter 0 cardBody)),
  ([], .putRateCard ⟨5⟩ (some (cardAt 2 price)))]

/-- The steps of the script, with the states they found, and the state at the end. -/
def cardRun (price : String) : Option (List (Op × Engine) × Engine) :=
  (cardScript price).foldlM (fun run step => (step.2.serve sampleEnv sampleSerde step.1 run.2).map
    fun after => (run.1 ++ [(step.2, run.2)], after)) ([], Engine.new)

def cardOps (price : String) : List (Op × Engine) := (cardRun price).elim [] Prod.fst

def cardEngine (price : String) : Engine := (cardRun price).elim Engine.new Prod.snd

theorem card_runs {price : String} (done : (cardRun price).isSome) :
    Runs (Op.Served sampleEnv sampleSerde) Engine.new (cardOps price) (cardEngine price) ∧
      cardBody ∈ bodies (requestsOf (cardOps price)) := by
  obtain ⟨⟨ops, found⟩, replayed⟩ := Option.isSome_iff_exists.mp done
  rw [cardOps, cardEngine, replayed]
  obtain ⟨runs, script⟩ := runs_of_foldlM (fun outs => Op.serve sampleEnv sampleSerde outs)
    (fun _ _ _ _ => Op.served_of_serve) .nil replayed
  refine ⟨runs, ?_⟩
  have metering : Op.request (.meter 0 cardBody) ∈ ops.map Prod.fst := by
    rw [script]
    simp [cardScript]
  obtain ⟨⟨op, before⟩, member, rfl⟩ := List.mem_map.mp metering
  exact List.mem_filterMap.mpr ⟨_, List.mem_filterMap.mpr ⟨_, member, rfl⟩, rfl⟩

/-- The requests of the script and the amendment. -/
def cardSteps (price : String) : List (Request × Stores) :=
  requestsOf (cardOps price) ++ [(.amend 8 (correction cardBody "a"), (cardEngine price).stores)]

theorem card_keyed {price : String} (oneBody : (bodies (cardSteps price)).length = 1)
    (isDerived : derived (cardSteps price) = [⟨.metered "k", 1, "k::event"⟩,
      ⟨.amended 8 "a", 1, "k::event::amend::a"⟩]) : Keyed sampleEnv (cardSteps price) := by
  obtain ⟨body, isBody⟩ := List.length_eq_one_iff.mp oneBody
  refine ⟨?_, ?_, ?_⟩
  · rw [isBody]
    simp
  · rw [isDerived]
    decide
  · rw [isDerived]
    decide

/-- The amendment of the metered event to its own counts. -/
def cardAmended (price : String) : Option (Except ApiError AmendUsageResult × Stores) :=
  let env := sampleEnv.withCards sampleSerde (cardEngine price).cards
  serve env (amendUsage env 8 (correction cardBody "a"))
    [drawn 5, drawn 6, drawn 7, drawn 8, drawn 9, drawn 10] (cardEngine price).stores

/-- **A second version at twice the price**: the amendment charges the ten tokens again, at twice
the credits. -/
theorem next_version_charges_more : sampleEnv.Lawful ∧
    Runs (Op.Served sampleEnv sampleSerde) Engine.new (cardOps "2") (cardEngine "2") ∧
    cardBody ∈ bodies (requestsOf (cardOps "2")) ∧ Keyed sampleEnv (cardSteps "2") ∧
    ∃ event ∈ (cardEngine "2").stores.events, event.id = meteredId sampleEnv cardBody ∧
      event.id = 8 ∧ event.status = .recorded ∧ ∃ reply after,
        (server (sampleEnv.withCards sampleSerde (cardEngine "2").cards)).Serves
          (amendUsage (sampleEnv.withCards sampleSerde (cardEngine "2").cards) 8
            (correction cardBody "a")) (cardEngine "2").stores reply after ∧
        (cardEngine "2").stores.ledger.settled event.accountId = 90 ∧
        after.ledger.settled event.accountId = 80 ∧
        ¬ Unchanged sampleEnv event (cardEngine "2").stores after := by
  -- one evaluation of the script for all that is read off it
  have computed : (cardRun "2").isSome ∧ (bodies (cardSteps "2")).length = 1 ∧
      derived (cardSteps "2") = [⟨.metered "k", 1, "k::event"⟩,
        ⟨.amended 8 "a", 1, "k::event::amend::a"⟩] ∧
      (find (cardEngine "2").stores.events 8).map (fun event => (event.status, event.accountId)) =
        some (.recorded, 1) ∧
      (cardAmended "2").map (fun result => result.2.ledger.settled 1) = some 80 ∧
      (cardEngine "2").stores.ledger.settled 1 = 90 := by decide +kernel
  obtain ⟨done, oneBody, isDerived, event, amended, before⟩ := computed
  obtain ⟨runs, metering⟩ := card_runs done
  have keyed := card_keyed oneBody isDerived
  obtain ⟨event, found, facts⟩ := Option.map_eq_some_iff.mp event
  obtain ⟨live, account⟩ := Prod.mk.inj facts
  obtain ⟨member, isId⟩ := find_eq_some found
  obtain ⟨⟨reply, after⟩, served, settled⟩ := Option.map_eq_some_iff.mp amended
  have isMetered : meteredId sampleEnv cardBody = 8 := by decide
  refine ⟨sampleEnv_lawful, runs, metering, keyed, event, member, isId.trans isMetered.symm, isId,
    live, reply, after, serves_of_serve served, account ▸ before, account ▸ settled, fun same => ?_⟩
  have equal := same.settled
  rw [account, before, settled] at equal
  exact absurd equal (by decide)

/-- A second version at the same price changes nothing. -/
theorem amendment_unchanged_iff_same_price :
    ∃ event ∈ (cardEngine "1").stores.events, ∃ reply after,
      (server (sampleEnv.withCards sampleSerde (cardEngine "1").cards)).Serves
        (amendUsage (sampleEnv.withCards sampleSerde (cardEngine "1").cards) event.id
          (correction cardBody "a")) (cardEngine "1").stores reply after ∧
      Unchanged sampleEnv event (cardEngine "1").stores after := by
  have computed : (cardRun "1").isSome ∧ (bodies (cardSteps "1")).length = 1 ∧
      derived (cardSteps "1") = [⟨.metered "k", 1, "k::event"⟩,
        ⟨.amended 8 "a", 1, "k::event::amend::a"⟩] ∧
      (find (cardEngine "1").stores.events 8).map (fun event =>
        (event.status, recordedCredits sampleEnv event)) = some (.recorded, 10) ∧
      (cardAmended "1").isSome ∧
      (price (sampleEnv.withCards sampleSerde (cardEngine "1").cards) cardBody.model
        cardBody.rateCardId cardBody.usage).toOption.map (fun result =>
          burnedCredits cardBody.burnable result.2.credits) = some 10 := by decide +kernel
  obtain ⟨done, oneBody, isDerived, event, amended, prices⟩ := computed
  obtain ⟨runs, metering⟩ := card_runs done
  have keyed := card_keyed oneBody isDerived
  obtain ⟨event, found, facts⟩ := Option.map_eq_some_iff.mp event
  obtain ⟨live, recorded⟩ := Prod.mk.inj facts
  obtain ⟨member, isId⟩ := find_eq_some found
  obtain ⟨⟨reply, after⟩, served⟩ := Option.isSome_iff_exists.mp amended
  have isMetered : meteredId sampleEnv cardBody = 8 := by decide
  have serves := serves_of_serve served
  rw [← isId] at serves
  obtain ⟨now, before, card, priced, _, _, _, credits, unchanged⟩ :=
    amendment_unchanged_iff sampleEnv_lawful runs metering member (isId.trans isMetered.symm) live
      (isId ▸ keyed) serves
  refine ⟨event, member, reply, after, serves, unchanged.mpr ?_⟩
  cases result : price (sampleEnv.withCards sampleSerde (cardEngine "1").cards) cardBody.model
      cardBody.rateCardId cardBody.usage with
  | error error =>
    rw [result] at prices
    cases prices
  | ok result' =>
    rw [result] at prices
    exact ⟨result'.1, result'.2, rfl, (Option.some.inj prices).trans (recorded.symm.trans credits)⟩

end Meter.Api
