/-
**What a request leaves in the two stores.**

`server` performs the store calls of a handler one at a time, each with ids that are new to the
ledger. A request that runs alone, to its answer or only up to some call, has one of few effects:

* `answers_meterUsage` — metering is refused, or charges (if there is anything to charge), records
  its event unless the event is there, and answers what it priced.
* `cut_amendUsage` — an amendment leaves the stores alone, or reverses the charge of its original, or
  also posts the new charge, or also records the new version: in this order.
* `serves_amendUsage` — **run to its answer, it is applied as a whole or not at all**, and it is
  applied exactly if it is `Applicable`.
* `serves_voidRun` — the events first, then the charges.
-/

import Meter.Api.Keys
import Meter.Events.Versions
import Meter.Ledger.Charges
import Meter.Lib.Race

namespace Meter.Api

open Meter.Lib Meter.Pricing Meter.Events
open Meter.Ledger (LedgerEntry LedgerError Action ChargeRequest ReverseChargeRequest RunVoidSummary)

/-! ### The server -/

/-- A call does not name an account id that is yet to be minted. -/
def StoreCall.Unnamed {α : Type} (account : AccountId) : StoreCall α → Prop
  | .ledger call => call.Unnamed account
  | _ => True

/-- What a call draws is new: to the ledger, and to the caller. -/
structure Outside.NewTo {α : Type} (out : Outside) (call : StoreCall α) (s : Stores) : Prop where
  fresh : out.ledger.Fresh s.ledger
  unnamed : call.Unnamed out.ledger.accountId

instance {α : Type} (account : AccountId) (call : StoreCall α) : Decidable (call.Unnamed account) :=
  match call with
  | .ledger (.openAccount req) => inferInstanceAs (Decidable (req.parentId ≠ some account))
  | .ledger (.balance _) | .ledger (.grant _) | .ledger (.refund _) | .ledger (.reserve _)
  | .ledger (.settle _) | .ledger (.charge _) | .ledger (.reverseCharge _) | .ledger (.void _)
  | .ledger (.voidExpiredHolds _) | .ledger (.extendHold _ _) | .ledger (.voidRun _)
  | .ledger (.openLease _) | .ledger (.closeLease _) | .ledger (.entries _) | .getEvent _
  | .recordEvent _ | .recordBatch _ | .amendEvent _ | .voidEvents _ | .charge _ | .reverseCharge _
  | .balance _ | .voidCharges _ => isTrue trivial

instance {α : Type} (out : Outside) (call : StoreCall α) (s : Stores) :
    Decidable (out.NewTo call s) :=
  decidable_of_iff (out.ledger.Fresh s.ledger ∧ call.Unnamed out.ledger.accountId)
    ⟨fun both => ⟨both.1, both.2⟩, fun new => ⟨new.fresh, new.unnamed⟩⟩

/-- Store calls, each with ids that are new. -/
def server (env : Env) : Server StoreCall Stores where
  perform call stores answer stores' := ∃ out : Outside, out.NewTo call stores ∧
    call.exec env out stores = some (answer, stores')

/-- Run a request alone, with what each call draws from outside. -/
def serve {α : Type} (env : Env) : Handler α → List Outside → Stores →
    Option (Except ApiError α × Stores)
  | .done reply, _, s => some (reply, s)
  | .stmt _ _, [], _ => none
  | .stmt call next, out :: rest, s =>
    if out.NewTo call s then
      (call.exec env out s).bind fun result => serve env (next result.1) rest result.2
    else none

/-- **A computed run is a run.** -/
theorem serves_of_serve {α : Type} {env : Env} {program : Handler α} :
    ∀ {outs : List Outside} {s s' : Stores} {reply : Except ApiError α},
      serve env program outs s = some (reply, s') → (server env).Serves program s reply s' := by
  induction program with
  | done result =>
    rintro outs s s' reply ⟨⟩
    exact Server.serves_done.mpr ⟨rfl, rfl⟩
  | stmt call next ih =>
    intro outs s s' reply served
    cases outs with
    | nil => cases served
    | cons out rest =>
      rw [serve] at served
      split at served
      · rename_i new
        obtain ⟨⟨answer, middle⟩, executed, served⟩ := Option.bind_eq_some_iff.mp served
        exact Server.serves_stmt.mpr ⟨answer, middle, ⟨out, new, executed⟩, ih answer served⟩
      · cases served

/-- Run two requests in turns, with what each call draws from outside. -/
def follow {α β : Type} (env : Env) : List (Server.Side × Outside) → Handler α → Handler β → Stores →
    Option (Except ApiError α × Except ApiError β × Stores)
  | [], .done reply, .done reply', s => some (reply, reply', s)
  | (.first, out) :: rest, .stmt call next, right, s =>
    if out.NewTo call s then
      (call.exec env out s).bind fun result => follow env rest (next result.1) right result.2
    else none
  | (.second, out) :: rest, left, .stmt call next, s =>
    if out.NewTo call s then
      (call.exec env out s).bind fun result => follow env rest left (next result.1) result.2
    else none
  | _, _, _, _ => none

/-- **A computed race is a race.** -/
theorem finishes_of_follow {α β : Type} {env : Env} {turns : List (Server.Side × Outside)} :
    ∀ {left : Handler α} {right : Handler β} {s s' : Stores} {reply : Except ApiError α}
      {reply' : Except ApiError β}, follow env turns left right s = some (reply, reply', s') →
      (server env).Finishes (turns.map Prod.fst) left right s reply reply' s' := by
  induction turns with
  | nil =>
    intro left right s s' reply reply' followed
    cases left with
    | done result =>
      cases right with
      | done result' =>
        cases followed
        exact .none _ _ _
      | stmt call next => cases followed
    | stmt call next => cases followed
  | cons turn rest ih =>
    intro left right s s' reply reply' followed
    obtain ⟨side, out⟩ := turn
    cases side with
    | first =>
      cases left with
      | done result => cases right <;> cases followed
      | stmt call next =>
        simp only [follow] at followed
        split at followed
        · rename_i new
          obtain ⟨⟨answer, middle⟩, executed, followed⟩ := Option.bind_eq_some_iff.mp followed
          exact .first ⟨out, new, executed⟩ (ih followed)
        · cases followed
    | second =>
      cases right with
      | done result => cases left <;> cases followed
      | stmt call next =>
        simp only [follow] at followed
        split at followed
        · rename_i new
          obtain ⟨⟨answer, middle⟩, executed, followed⟩ := Option.bind_eq_some_iff.mp followed
          exact .second ⟨out, new, executed⟩ (ih followed)
        · cases followed

section Calls

variable {env : Env} {s s' : Stores}

theorem onLedger_eq {α : Type} {outcome : Ledger.Outcome α} {answer : Except LedgerError α}
    (result : s.onLedger outcome = some (answer, s')) :
    ∃ ledger, outcome = some (answer, ledger) ∧ s' = { s with ledger } := by
  obtain ⟨⟨reply, ledger⟩, same, equal⟩ := Option.map_eq_some_iff.mp result
  cases equal
  exact ⟨ledger, same, rfl⟩

/-- Reading an event changes nothing. -/
theorem perform_getEvent {id : EventId} {answer : Except EventError Event}
    (performed : (server env).perform (.getEvent id) s answer s') :
    answer = get id s.events ∧ s' = s := by
  obtain ⟨out, _, result⟩ := performed
  cases result
  exact ⟨rfl, rfl⟩

/-- Reading a balance changes nothing. -/
theorem perform_balance {account : AccountId} {answer : Except LedgerError Ledger.Balance}
    (performed : (server env).perform (.balance account) s answer s') : s' = s := by
  obtain ⟨out, _, result⟩ := performed
  obtain ⟨ledger, same, rfl⟩ := onLedger_eq result
  unfold Ledger.balance at same
  split at same <;> cases same <;> rfl

theorem perform_charge {req : ChargeRequest} {answer : Except LedgerError LedgerEntry}
    (performed : (server env).perform (.charge req) s answer s') :
    ((¬ 0 < req.amount ∨ s.ledger.accounts.contains req.account = false) ∧
      (∃ error, answer = .error error) ∧ s' = s) ∨
    (0 < req.amount ∧ s.ledger.accounts.contains req.account = true ∧ ∃ entry, answer = .ok entry ∧
      ((∃ key, req.idempotencyKey = some key ∧
        s.ledger.findKeyed req.account key = some entry ∧ s' = s) ∨
      ((Action.charge entry).Enabled s.ledger ∧ entry.accountId = req.account ∧
        entry.runId = req.runId ∧ entry.idempotencyKey = req.idempotencyKey ∧
        entry.deltaCredits = -req.amount ∧
        s' = { s with ledger := (Action.charge entry).apply s.ledger }))) := by
  obtain ⟨out, ⟨fresh, _⟩, result⟩ := performed
  obtain ⟨ledger, same, rfl⟩ := onLedger_eq result
  rcases Ledger.charge_cases fresh req with ⟨refused, error, equal⟩ | ⟨positive, present,
    ⟨key, existing, keyed, found, equal⟩ | ⟨entry, enabled, account, run, key, delta, equal⟩⟩
  · cases same.symm.trans equal
    exact Or.inl ⟨refused, ⟨error, rfl⟩, rfl⟩
  · cases same.symm.trans equal
    exact Or.inr ⟨positive, present, existing, rfl, Or.inl ⟨key, keyed, found, rfl⟩⟩
  · cases same.symm.trans equal
    exact Or.inr ⟨positive, present, entry, rfl, Or.inr ⟨enabled, account, run, key, delta, rfl⟩⟩

theorem perform_reverseCharge {req : ReverseChargeRequest}
    {answer : Except LedgerError (Option LedgerEntry)}
    (performed : (server env).perform (.reverseCharge req) s answer s') :
    (s.ledger.accounts.contains req.account = false ∧ (∃ error, answer = .error error) ∧ s' = s) ∨
    (s.ledger.accounts.contains req.account = true ∧ (∃ reversal, answer = .ok reversal) ∧
      ((∃ existing, s.ledger.findKeyed req.account req.idempotencyKey = some existing ∧ s' = s) ∨
      (((∀ entry ∈ s.ledger.entries, entry.id = req.chargeEntryId →
          entry.accountId ≠ req.account) ∨
        ¬ 0 < s.ledger.unreversedRemainder req.chargeEntryId) ∧ s' = s) ∨
      ∃ entry, (Action.reverse entry).Enabled s.ledger ∧ entry.accountId = req.account ∧
        entry.reversesEntryId = some req.chargeEntryId ∧
        entry.idempotencyKey = some req.idempotencyKey ∧
        s' = { s with ledger := (Action.reverse entry).apply s.ledger })) := by
  obtain ⟨out, ⟨fresh, _⟩, result⟩ := performed
  obtain ⟨ledger, same, rfl⟩ := onLedger_eq result
  rcases Ledger.reverseCharge_cases fresh req with ⟨absent, error, equal⟩ | ⟨present,
    ⟨existing, found, equal⟩ | ⟨nothing, equal⟩ | ⟨entry, enabled, account, links, key, equal⟩⟩
  · cases same.symm.trans equal
    exact Or.inl ⟨absent, ⟨error, rfl⟩, rfl⟩
  · cases same.symm.trans equal
    exact Or.inr ⟨present, ⟨_, rfl⟩, Or.inl ⟨existing, found, rfl⟩⟩
  · cases same.symm.trans equal
    exact Or.inr ⟨present, ⟨_, rfl⟩, Or.inr (Or.inl ⟨nothing, rfl⟩)⟩
  · cases same.symm.trans equal
    exact Or.inr ⟨present, ⟨_, rfl⟩, Or.inr (Or.inr ⟨entry, enabled, account, links, key, rfl⟩)⟩

theorem perform_recordEvent {req : RecordEvent} {answer : Except EventError Event}
    (performed : (server env).perform (.recordEvent req) s answer s') :
    (∃ event, answer = .ok event) ∧ ∃ now, s' = { s with
      events := (recordLocked env.idempotentEventId now req s.events).2 } := by
  obtain ⟨out, _, result⟩ := performed
  cases result
  exact ⟨⟨_, rfl⟩, out.now 0, rfl⟩

theorem perform_amendEvent {req : AmendEvent} {answer : Except EventError Event}
    (performed : (server env).perform (.amendEvent req) s answer s') :
    ∃ draw, answer = (amend env.idempotentEventId draw req s.events).1 ∧
      s' = { s with events := (amend env.idempotentEventId draw req s.events).2 } := by
  obtain ⟨out, _, result⟩ := performed
  cases result
  exact ⟨⟨out.now 0, out.version⟩, rfl, rfl⟩

theorem perform_voidEvents {run : RunId} {answer : Except EventError Nat}
    (performed : (server env).perform (.voidEvents run) s answer s') :
    (∃ count, answer = .ok count) ∧ s' = { s with events := restate (voided run) s.events } := by
  obtain ⟨out, _, result⟩ := performed
  cases result
  refine ⟨⟨_, rfl⟩, ?_⟩
  rw [voidRun_eq]

/-- What a run void does to a metered ledger. -/
structure SweepsCharges (run : RunId) (before after : Ledger.State) : Prop where
  metered : after.Metered
  accounts : ∀ account, after.accounts.contains account = before.accounts.contains account
  posted : ∃ posted, after.entries = before.entries ++ posted ∧
    ∀ refund ∈ posted, refund.entryType = .refund ∧
      ∃ id, refund.idempotencyKey = some (Ledger.runVoidChargeRefundKey run id)
  remainder : ∀ entry ∈ before.entries, entry.entryType = .usage →
    after.unreversedRemainder entry.id =
      if entry.runId = some run then 0 else before.unreversedRemainder entry.id

theorem perform_voidCharges (metered : s.ledger.Metered) {run : RunId}
    {answer : Except LedgerError RunVoidSummary}
    (performed : (server env).perform (.voidCharges run) s answer s') :
    (∃ summary, answer = .ok summary) ∧ s'.events = s.events ∧
      SweepsCharges run s.ledger s'.ledger := by
  obtain ⟨out, ⟨fresh, _⟩, result⟩ := performed
  obtain ⟨ledger, same, rfl⟩ := onLedger_eq result
  obtain ⟨summary, s', posted, equal, after, accounts, entries, refunds, remainder⟩ :=
    Ledger.voidRun_charges metered fresh run
  cases same.symm.trans equal
  exact ⟨⟨summary, rfl⟩, rfl, after, accounts, ⟨posted, entries, refunds⟩, remainder⟩

end Calls

/-! ### Handlers -/

section Handlers

variable {env : Env} {s s' : Stores} {α β : Type}

theorem serves_tryLedger {S : Type} {V : Server StoreCall S} {s s' : S}
    {call : StoreCall (Except LedgerError α)} {next : α → Handler β} {reply : Except ApiError β}
    (serves : V.Serves (tryLedger call next) s reply s') :
    ∃ answer middle, V.perform call s answer middle ∧
      ((∃ error, answer = .error error ∧ s' = middle) ∨
        ∃ value, answer = .ok value ∧ V.Serves (next value) middle reply s') := by
  obtain ⟨answer, middle, performed, rest⟩ := Server.serves_stmt.mp serves
  refine ⟨answer, middle, performed, ?_⟩
  cases answer with
  | error error => exact Or.inl ⟨error, rfl, (Server.serves_done.mp rest).2⟩
  | ok value => exact Or.inr ⟨value, rfl, rest⟩

theorem serves_tryEvent {S : Type} {V : Server StoreCall S} {s s' : S}
    {call : StoreCall (Except EventError α)} {next : α → Handler β} {reply : Except ApiError β}
    (serves : V.Serves (tryEvent call next) s reply s') :
    ∃ answer middle, V.perform call s answer middle ∧
      ((∃ error, answer = .error error ∧ s' = middle) ∨
        ∃ value, answer = .ok value ∧ V.Serves (next value) middle reply s') := by
  obtain ⟨answer, middle, performed, rest⟩ := Server.serves_stmt.mp serves
  refine ⟨answer, middle, performed, ?_⟩
  cases answer with
  | error error => exact Or.inl ⟨error, rfl, (Server.serves_done.mp rest).2⟩
  | ok value => exact Or.inr ⟨value, rfl, rest⟩

theorem cut_tryLedger {call : StoreCall (Except LedgerError α)} {next : α → Handler β}
    (cut : (server env).Cut (tryLedger call next) s s') : s' = s ∨
      ∃ answer middle, (server env).perform call s answer middle ∧
        ((∃ error, answer = .error error ∧ s' = middle) ∨
          ∃ value, answer = .ok value ∧ (server env).Cut (next value) middle s') := by
  rcases Server.cut_stmt.mp cut with same | ⟨answer, middle, performed, rest⟩
  · exact Or.inl same
  refine Or.inr ⟨answer, middle, performed, ?_⟩
  cases answer with
  | error error => exact Or.inl ⟨error, rfl, Server.cut_done.mp rest⟩
  | ok value => exact Or.inr ⟨value, rfl, rest⟩

/-- The balance at the end of a request changes nothing. -/
theorem cut_balance {account : AccountId} {next : Ledger.Balance → β}
    (cut : (server env).Cut (tryLedger (.balance account) fun balance => .done (.ok (next balance)))
      s s') : s' = s := by
  rcases cut_tryLedger cut with same | ⟨answer, middle, performed, rest⟩
  · exact same
  · have unchanged := perform_balance performed
    rcases rest with ⟨_, _, same⟩ | ⟨value, _, done⟩
    · exact same.trans unchanged
    · exact (Server.cut_done.mp done).trans unchanged

/-- A refusal changes nothing. -/
theorem cut_fail {error : ApiError} (cut : (server env).Cut (fail error : Handler β) s s') :
    s' = s := Server.cut_done.mp cut

end Handlers

/-! ### What an event says about its charge -/

section Properties

variable {env : Env}

theorem get?_mergeTags {base : List (String × Json)} {tags value : Json} {key : String}
    (found : base.lookup key = some value) : (mergeTags base tags).get? key = some value := by
  cases tags with
  | object fields => exact Json.lookup_orInsert fields found
  | _ => exact found

/-- The text under which a charge is linked. -/
def linkText (link : Option EntryId) : Option String := link.map Id.toString

theorem parse_linkText (lawful : env.Lawful) (link : Option EntryId) :
    (((Json.ofOption (linkText link)).asStr?).bind env.parseUuid).map Id.mk = link := by
  cases link with
  | none => rfl
  | some entry =>
    show (env.parseUuid entry.value.toString).map Id.mk = some entry
    rw [lawful.uuid]
    rfl

/-- An event whose reserved properties were written by a pricing. -/
structure Priced (env : Env) (event : Event) (burned : Credit) (link : Option EntryId) : Prop where
  credits : recordedCredits env event = burned
  link : recordedChargeEntry env event = link
  engine : isEnginePriced event = true

/-- Reserved properties are read back as they were written. -/
theorem priced_of_lookup (lawful : env.Lawful) {event : Event} {burned : Credit}
    {link : Option EntryId} {source : String}
    (credits : event.properties.get? "credits" = some (.string (env.showDecimal burned)))
    (links : event.properties.get? "charge_entry_id" = some (.ofOption (linkText link)))
    (via : event.properties.get? "priced_via" = some (.string source)) :
    Priced env event burned link where
  credits := by
    rw [recordedCredits, propStr, credits]
    show (env.parseDecimal (env.showDecimal burned)).getD 0 = burned
    rw [lawful.decimal]
    rfl
  link := by
    rw [recordedChargeEntry, propStr, links]
    exact parse_linkText lawful link
  engine := by
    rw [isEnginePriced, via]
    rfl

end Properties

/-! ### Metering -/

/-- A charge is posted if there is anything to charge, and linked. -/
def ChargesFor (env : Env) (account : AccountId) (run : Option RunId) (burned : Credit)
    (key : String) (s s' : Stores) (link : Option EntryId) : Prop :=
  (0 < burned ∧ ∃ entry, (server env).perform (.charge {
      account := account
      amount := burned
      runId := run
      idempotencyKey := some key }) s (.ok entry) s' ∧ link = some entry.id) ∨
    (¬ 0 < burned ∧ s' = s ∧ link = none)

/-- A charge that is posted now, under a key that is new to its account. -/
structure PostsNow (account : AccountId) (run : Option RunId) (burned : Credit) (key : String)
    (s s' : Stores) (entry : LedgerEntry) : Prop where
  enabled : (Action.charge entry).Enabled s.ledger
  account : entry.accountId = account
  run : entry.runId = run
  key : entry.idempotencyKey = some key
  delta : entry.deltaCredits = -burned
  after : s' = { s with ledger := (Action.charge entry).apply s.ledger }

section Charging

variable {env : Env} {account : AccountId} {run : Option RunId} {burned : Credit} {key : String}
  {s s' : Stores} {link : Option EntryId} {entry : LedgerEntry}

theorem PostsNow.unused (posts : PostsNow account run burned key s s' entry) :
    s.ledger.findKeyed account key = none := by
  have unused := posts.enabled.2.1 key posts.key
  rwa [posts.account] at unused

theorem PostsNow.entries (posts : PostsNow account run burned key s s' entry) :
    s'.ledger.entries = s.ledger.entries ++ [entry] := by
  rw [posts.after]
  exact Action.apply_entries s.ledger (.charge entry)

/-- **A charge** is not due, is found under its key, or is posted now. -/
theorem ChargesFor.cases (charges : ChargesFor env account run burned key s s' link) :
    (¬ 0 < burned ∧ s' = s ∧ link = none) ∨
    (0 < burned ∧ s.ledger.accounts.contains account = true ∧ ∃ entry, link = some entry.id ∧
      ((s.ledger.findKeyed account key = some entry ∧ s' = s) ∨
        PostsNow account run burned key s s' entry)) := by
  rcases charges with ⟨positive, entry, performed, isLink⟩ | nothing
  swap
  · exact Or.inl nothing
  rcases perform_charge performed with ⟨_, ⟨_, impossible⟩, _⟩ | ⟨_, present, entry', isEntry,
    ⟨key', isKey, found, same⟩ | ⟨enabled, own, tagged, isKey, delta, same⟩⟩
  · cases impossible
  · cases isEntry
    cases isKey
    exact Or.inr ⟨positive, present, entry, isLink, Or.inl ⟨found, same⟩⟩
  · cases isEntry
    exact Or.inr ⟨positive, present, entry, isLink,
      Or.inr ⟨enabled, own, tagged, isKey, delta, same⟩⟩

theorem ChargesFor.events (charges : ChargesFor env account run burned key s s' link) :
    s'.events = s.events := by
  rcases charges.cases with ⟨_, rfl, _⟩ | ⟨_, _, entry, _, ⟨_, rfl⟩ | posts⟩
  · rfl
  · rfl
  · rw [posts.after]

/-- **A charge under a new key** appends the linked entry, and moves no other remainder. -/
theorem ChargesFor.posts (charges : ChargesFor env account run burned key s s' link)
    (metered : s.ledger.Metered) (unused : s.ledger.findKeyed account key = none) :
    s'.ledger.Metered ∧
    (∃ posted, s'.ledger.entries = s.ledger.entries ++ posted ∧
      ∀ entry ∈ posted, link = some entry.id) ∧
    (∀ id ∈ s.ledger.entryIds,
      s'.ledger.unreversedRemainder id = s.ledger.unreversedRemainder id) ∧
    (∀ id, link = some id → ∃ entry ∈ s'.ledger.entries, entry.id = id ∧
      entry.entryType = .usage ∧ entry.accountId = account ∧ entry.runId = run ∧
      entry.idempotencyKey = some key ∧ burned = -entry.deltaCredits ∧
      s'.ledger.unreversedRemainder id = burned) ∧
    (link = none → ¬ 0 < burned) := by
  rcases charges.cases with ⟨nothing, rfl, rfl⟩ | ⟨_, _, entry, rfl, ⟨found, _⟩ | posts⟩
  · refine ⟨metered, ⟨[], (List.append_nil _).symm, fun _ member => absurd member List.not_mem_nil⟩,
      fun _ _ => rfl, fun _ impossible => ?_, fun _ => nothing⟩
    cases impossible
  · cases found.symm.trans unused
  have enabled := posts.enabled
  have entries := posts.entries
  have ledger : s'.ledger = (Action.charge entry).apply s.ledger := by rw [posts.after]
  refine ⟨?_, ⟨[entry], entries, fun other member => by rw [List.mem_singleton.mp member]⟩, ?_, ?_,
    ?_⟩
  · rw [ledger]
    exact metered.charge enabled
  · intro id known
    rw [ledger, metered.remainder_charge enabled (Or.inl known), if_neg]
    rintro rfl
    exact enabled.1.fresh known
  · rintro id ⟨⟩
    have stored : entry ∈ s'.ledger.entries := by
      rw [entries]
      exact List.mem_append_right _ (List.mem_singleton_self _)
    refine ⟨entry, stored, rfl, enabled.2.2.2.1, posts.account, posts.run, posts.key, ?_, ?_⟩
    · rw [posts.delta, neg_neg]
    · rw [ledger, metered.remainder_charge enabled (Or.inr rfl), if_pos rfl, posts.delta, neg_neg]
  · intro impossible
    cases impossible

end Charging

/-- The event of a metered usage. -/
def meteredUsage (env : Env) (now recordedAt : OffsetDateTime) (body : MeterUsageBody)
    (card : RateCard) (priced : PricedUsage) (link : Option EntryId) : Event :=
  (meteredEvent env now body card priced (linkText link)).intoEvent env.idempotentEventId recordedAt

/-- The id of a metered usage's event. -/
def meteredId (env : Env) (body : MeterUsageBody) : EventId :=
  env.idempotentEventId body.orgId (eventKey body.idempotencyKey)

theorem priced_meteredUsage {env : Env} (lawful : env.Lawful) (now recordedAt : OffsetDateTime)
    (body : MeterUsageBody) (card : RateCard) (priced : PricedUsage) (link : Option EntryId) :
    Priced env (meteredUsage env now recordedAt body card priced link)
      (burnedCredits body.burnable priced.credits) link :=
  priced_of_lookup lawful (get?_mergeTags rfl) (get?_mergeTags rfl) (get?_mergeTags rfl)

theorem recordLocked_metered (env : Env) (now recordedAt : OffsetDateTime) (body : MeterUsageBody)
    (card : RateCard) (priced : PricedUsage) (link : Option EntryId) (events : List Event) :
    (recordLocked env.idempotentEventId recordedAt
      (meteredEvent env now body card priced (linkText link)) events).2 =
      if (find events (meteredId env body)).isSome then events
      else events ++ [meteredUsage env now recordedAt body card priced link] := by
  have isId : ((meteredEvent env now body card priced (linkText link)).intoEvent
    env.idempotentEventId recordedAt).id = meteredId env body := rfl
  unfold recordLocked
  dsimp only
  rw [isId]
  cases find events (meteredId env body) with
  | none => rfl
  | some existing => rfl

/-- A usage was charged, if there was anything to charge, and its event recorded unless it was
there. -/
def MetersUsage (env : Env) (now : OffsetDateTime) (body : MeterUsageBody) (s s' : Stores) : Prop :=
  ∃ card priced middle link recordedAt,
    price env body.model body.rateCardId body.usage = .ok (card, priced) ∧
    ChargesFor env body.account body.runId (burnedCredits body.burnable priced.credits)
      (chargeKey body.idempotencyKey) s middle link ∧
    s' = { middle with events := if (find s.events (meteredId env body)).isSome then s.events
      else s.events ++ [meteredUsage env now recordedAt body card priced link] }

section Metering

variable {env : Env} {s s' : Stores}

/-- The end of metering records the event unless it is there, and answers the credits that were
priced. -/
theorem answers_recordMetered {now : OffsetDateTime} {body : MeterUsageBody} {card : RateCard}
    {priced : PricedUsage} (link : Option EntryId) {reply : Except ApiError MeterUsageResult}
    (serves : (server env).Serves (recordMetered env now body card priced (linkText link)) s reply
      s') :
    ∃ recordedAt, s' = { s with events := if (find s.events (meteredId env body)).isSome
        then s.events else s.events ++ [meteredUsage env now recordedAt body card priced link] } ∧
      ∀ result, reply = .ok result →
        result.credits = env.showDecimal (burnedCredits body.burnable priced.credits) := by
  obtain ⟨answer, after, performed, rest⟩ := serves_tryEvent serves
  obtain ⟨⟨event, rfl⟩, recordedAt, rfl⟩ := perform_recordEvent performed
  rcases rest with ⟨_, impossible, _⟩ | ⟨_, _, rest⟩
  · cases impossible
  rw [recordLocked_metered] at rest
  refine ⟨recordedAt, cut_balance rest.cut, fun result isResult => ?_⟩
  obtain ⟨balance, after, _, last⟩ := Server.serves_stmt.mp rest
  cases balance with
  | error error =>
    obtain ⟨rfl, _⟩ := Server.serves_done.mp last
    cases isResult
  | ok balance =>
    obtain ⟨rfl, _⟩ := Server.serves_done.mp last
    cases isResult
    rfl

/-- **What metering does and answers**: it is refused, or charges, records its event unless it is
there, and answers the credits that it priced. -/
theorem answers_meterUsage {now : OffsetDateTime} {body : MeterUsageBody}
    {reply : Except ApiError MeterUsageResult}
    (serves : (server env).Serves (meterUsage env now body) s reply s') :
    (s' = s ∧ (∃ error, reply = .error error) ∧
      ∀ card priced, price env body.model body.rateCardId body.usage = .ok (card, priced) →
        0 < burnedCredits body.burnable priced.credits →
        s.ledger.accounts.contains body.account = false) ∨
    ∃ card priced middle link recordedAt,
      price env body.model body.rateCardId body.usage = .ok (card, priced) ∧
      ChargesFor env body.account body.runId (burnedCredits body.burnable priced.credits)
        (chargeKey body.idempotencyKey) s middle link ∧
      s' = { middle with events := if (find s.events (meteredId env body)).isSome then s.events
        else s.events ++ [meteredUsage env now recordedAt body card priced link] } ∧
      ∀ result, reply = .ok result →
        result.credits = env.showDecimal (burnedCredits body.burnable priced.credits) := by
  unfold meterUsage at serves
  split at serves
  · rename_i error isError
    obtain ⟨rfl, rfl⟩ := Server.serves_done.mp serves
    refine Or.inl ⟨rfl, ⟨error, rfl⟩, fun card priced isPriced => ?_⟩
    cases isError.symm.trans isPriced
  rename_i card priced isPriced
  dsimp only at serves
  split at serves
  · rename_i positive
    obtain ⟨answer, middle, performed, rest⟩ := Server.serves_stmt.mp serves
    cases answer with
    | error error =>
      obtain ⟨rfl, rfl⟩ := Server.serves_done.mp rest
      rcases perform_charge performed with ⟨refused, _, same⟩ | ⟨_, _, _, impossible, _⟩
      · refine Or.inl ⟨same, ⟨_, rfl⟩, fun card' priced' isPriced' _ => ?_⟩
        exact refused.resolve_left (not_not.mpr positive)
      · cases impossible
    | ok entry =>
      have charges : ChargesFor env body.account body.runId
          (burnedCredits body.burnable priced.credits) (chargeKey body.idempotencyKey) s middle
          (some entry.id) := Or.inl ⟨positive, entry, performed, rfl⟩
      obtain ⟨recordedAt, same, credits⟩ := answers_recordMetered (some entry.id) rest
      rw [charges.events] at same
      exact Or.inr ⟨card, priced, middle, _, recordedAt, isPriced, charges, same, credits⟩
  · rename_i nothing
    obtain ⟨recordedAt, same, credits⟩ := answers_recordMetered none serves
    exact Or.inr ⟨card, priced, s, none, recordedAt, isPriced, Or.inr ⟨nothing, rfl, rfl⟩, same,
      credits⟩

/-- **Metering is refused, or charges and records.** -/
theorem serves_meterUsage {now : OffsetDateTime} {body : MeterUsageBody}
    {reply : Except ApiError MeterUsageResult}
    (serves : (server env).Serves (meterUsage env now body) s reply s') :
    s' = s ∨ MetersUsage env now body s s' := by
  rcases answers_meterUsage serves with ⟨same, _⟩ |
    ⟨card, priced, middle, link, recordedAt, isPriced, charges, same, _⟩
  · exact Or.inl same
  · exact Or.inr ⟨card, priced, middle, link, recordedAt, isPriced, charges, same⟩

end Metering

/-! ### Amending -/

theorem reprice_eq {env : Env} {original : Event} {body : AmendUsageBody} {amendment : Repriced}
    (repriced : reprice env original body = .ok amendment) :
    amendment.original = original ∧ amendment.body = body := by
  unfold reprice at repriced
  split at repriced
  · cases repriced
  · dsimp only at repriced
    cases isPriced : price env _ (body.rateCardId <|> propStr original "rate_card_id") body.usage with
    | error error =>
      rw [isPriced] at repriced
      cases repriced
    | ok priced =>
      rw [isPriced] at repriced
      cases repriced
      exact ⟨rfl, rfl⟩

namespace Repriced

/-- The reversal of the original's charge. -/
def reversal (env : Env) (amendment : Repriced) (charge : EntryId) : ReverseChargeRequest where
  account := amendment.original.accountId
  chargeEntryId := charge
  runId := amendment.original.runId
  idempotencyKey := amendReverseKey (amendment.version env)

/-- The charge of the original was reversed, if it had one. -/
def Reverses (env : Env) (amendment : Repriced) (s s' : Stores) : Prop :=
  (recordedChargeEntry env amendment.original = none ∧ s' = s) ∨
    ∃ charge reversed, recordedChargeEntry env amendment.original = some charge ∧
      (server env).perform (.reverseCharge (amendment.reversal env charge)) s (.ok reversed) s'

/-- The new charge was posted, if there is anything to charge. -/
def Recharges (env : Env) (amendment : Repriced) (s s' : Stores) (link : Option EntryId) : Prop :=
  ChargesFor env amendment.original.accountId amendment.original.runId amendment.burned
    (amendChargeKey (amendment.version env)) s s' link

/-- The new version. -/
def amended (env : Env) (amendment : Repriced) (link : Option EntryId) (draw : Draw) : Event :=
  (amendedEvent env amendment.original amendment.body amendment.model amendment.rateCardId
    amendment.card amendment.priced amendment.burnable (linkText link)).intoAmendedEvent
      env.idempotentEventId amendment.original draw

/-- The new version was recorded. -/
def Records (env : Env) (amendment : Repriced) (link : Option EntryId) (s s' : Stores) : Prop :=
  ∃ draw, s' = { s with events := setStatus amendment.original.id .amended s.events ++
    [amendment.amended env link draw] }

/-- The whole amendment was applied. -/
def Applied (env : Env) (amendment : Repriced) (s s' : Stores) : Prop :=
  ∃ reversed charged link, amendment.Reverses env s reversed ∧
    amendment.Recharges env reversed charged link ∧ amendment.Records env link charged s'

theorem priced_amended {env : Env} (lawful : env.Lawful) (amendment : Repriced)
    (link : Option EntryId) (draw : Draw) :
    Priced env (amendment.amended env link draw) amendment.burned link :=
  priced_of_lookup lawful rfl rfl rfl

theorem Reverses.events {env : Env} {amendment : Repriced} {s s' : Stores}
    (reverses : amendment.Reverses env s s') : s'.events = s.events := by
  rcases reverses with ⟨_, rfl⟩ | ⟨charge, reversed, _, performed⟩
  · rfl
  · rcases perform_reverseCharge performed with
      ⟨_, _, rfl⟩ | ⟨_, _, ⟨_, _, rfl⟩ | ⟨_, rfl⟩ | ⟨_, _, _, _, _, rfl⟩⟩
    · rfl
    · rfl
    · rfl
    · rfl

end Repriced

/-- What makes an amendment request one that goes through. -/
structure Applicable (env : Env) (s : Stores) (id : EventId) (body : AmendUsageBody)
    (amendment : Repriced) : Prop where
  found : find s.events id = some amendment.original
  current : amendment.original.status = .recorded
  engine : isEnginePriced amendment.original = true
  absent : find s.events (amendment.version env) = none
  repriced : reprice env amendment.original body = .ok amendment
  funded : (recordedChargeEntry env amendment.original).isSome ∨ 0 < amendment.burned →
    s.ledger.accounts.contains amendment.original.accountId = true

/-- At most one amendment goes through. -/
theorem Applicable.unique {env : Env} {s : Stores} {id : EventId} {body : AmendUsageBody}
    {first second : Repriced} (applicable : Applicable env s id body first)
    (applicable' : Applicable env s id body second) : first = second := by
  have original := Option.some.inj (applicable.found.symm.trans applicable'.found)
  have repriced := applicable'.repriced
  rw [← original, applicable.repriced] at repriced
  exact Except.ok.inj repriced

section Amending

variable {env : Env} {s s' : Stores} {id : EventId} {body : AmendUsageBody}

theorem get_eq {events : List Event} {answer : Except EventError Event}
    (isAnswer : answer = get id events) :
    (∃ event, find events id = some event ∧ answer = .ok event) ∨
      (find events id = none ∧ answer = .error (.notFound id)) := by
  unfold Events.get at isAnswer
  cases found : find events id with
  | none =>
    rw [found] at isAnswer
    exact Or.inr ⟨rfl, isAnswer⟩
  | some event =>
    rw [found] at isAnswer
    exact Or.inl ⟨event, rfl, isAnswer⟩

/-- The checks at the start of an amendment. -/
theorem cut_checks (cut : (server env).Cut (amendUsage env id body) s s') : s' = s ∨
    ∃ amendment, find s.events id = some amendment.original ∧
      amendment.original.status = .recorded ∧ isEnginePriced amendment.original = true ∧
      find s.events (amendment.version env) = none ∧
      reprice env amendment.original body = .ok amendment ∧
      (server env).Cut (applyAmendment env amendment) s s' := by
  unfold amendUsage recheck at cut
  rcases Server.cut_stmt.mp cut with same | ⟨answer, middle, performed, rest⟩
  · exact Or.inl same
  obtain ⟨isAnswer, rfl⟩ := perform_getEvent performed
  rcases get_eq isAnswer with ⟨original, found, rfl⟩ | ⟨_, rfl⟩
  swap
  · exact Or.inl (Server.cut_done.mp rest)
  simp only at rest
  split at rest
  · exact Or.inl (cut_fail rest)
  split at rest
  · exact Or.inl (cut_fail rest)
  rename_i engine
  rcases Server.cut_stmt.mp rest with same | ⟨answer, middle, performed, later⟩
  · exact Or.inl same
  obtain ⟨isAnswer, rfl⟩ := perform_getEvent performed
  rcases get_eq isAnswer with ⟨existing, _, rfl⟩ | ⟨absent, rfl⟩
  · exact Or.inl (cut_balance later)
  simp only at later
  split at later
  · exact Or.inl (cut_fail later)
  rename_i current
  split at later
  · exact Or.inl (cut_fail later)
  rename_i amendment repriced
  obtain ⟨rfl, rfl⟩ := reprice_eq repriced
  exact Or.inr ⟨amendment, found, not_not.mp current, not_not.mp engine, absent, repriced, later⟩

/-- What the event store answers to the new version of a current event. -/
theorem amend_current {amendment : Repriced} {events : List Event}
    (found : find events amendment.original.id = some amendment.original)
    (current : amendment.original.status = .recorded)
    (absent : find events (amendment.version env) = none) (link : Option EntryId) (draw : Draw) :
    amend env.idempotentEventId draw (amendedEvent env amendment.original amendment.body
      amendment.model amendment.rateCardId amendment.card amendment.priced amendment.burnable
      (linkText link)) events = (.ok (amendment.amended env link draw),
        setStatus amendment.original.id .amended events ++ [amendment.amended env link draw]) := by
  have absent' : find events (amendment.amended env link draw).id = none := absent
  unfold amend
  rw [show (amendedEvent env amendment.original amendment.body amendment.model
    amendment.rateCardId amendment.card amendment.priced amendment.burnable
    (linkText link)).eventId = amendment.original.id from rfl, found]
  dsimp only
  rw [current, if_neg (by decide)]
  have isId : (amendedEvent env amendment.original amendment.body amendment.model
      amendment.rateCardId amendment.card amendment.priced amendment.burnable (linkText link)
      |>.intoAmendedEvent env.idempotentEventId amendment.original draw).id =
      (amendment.amended env link draw).id := rfl
  rw [isId, absent']
  rfl

/-- The end of an amendment: the version is recorded. -/
theorem cut_recordAmended {amendment : Repriced} (link : Option EntryId)
    (found : find s.events amendment.original.id = some amendment.original)
    (current : amendment.original.status = .recorded)
    (absent : find s.events (amendment.version env) = none)
    (cut : (server env).Cut (recordAmended env amendment (linkText link)) s s') :
    s' = s ∨ amendment.Records env link s s' := by
  rcases Server.cut_stmt.mp cut with same | ⟨answer, middle, performed, rest⟩
  · exact Or.inl same
  obtain ⟨draw, rfl, rfl⟩ := perform_amendEvent performed
  rw [amend_current found current absent] at rest
  exact Or.inr ⟨draw, cut_balance rest⟩

theorem serves_recordAmended {amendment : Repriced} (link : Option EntryId)
    {reply : Except ApiError AmendUsageResult}
    (found : find s.events amendment.original.id = some amendment.original)
    (current : amendment.original.status = .recorded)
    (absent : find s.events (amendment.version env) = none)
    (serves : (server env).Serves (recordAmended env amendment (linkText link)) s reply s') :
    amendment.Records env link s s' := by
  obtain ⟨answer, middle, performed, rest⟩ := Server.serves_stmt.mp serves
  obtain ⟨draw, rfl, rfl⟩ := perform_amendEvent performed
  rw [amend_current found current absent] at rest
  exact ⟨draw, cut_balance rest.cut⟩

theorem cut_chargeAmended {amendment : Repriced}
    (found : find s.events amendment.original.id = some amendment.original)
    (current : amendment.original.status = .recorded)
    (absent : find s.events (amendment.version env) = none)
    (cut : (server env).Cut (chargeAmended env amendment) s s') : s' = s ∨
      ∃ charged link, amendment.Recharges env s charged link ∧
        (s' = charged ∨ amendment.Records env link charged s') := by
  unfold chargeAmended at cut
  split at cut
  · rename_i positive
    rcases cut_tryLedger cut with same | ⟨answer, charged, performed, rest⟩
    · exact Or.inl same
    rcases rest with ⟨error, rfl, rfl⟩ | ⟨entry, rfl, rest⟩
    · rcases perform_charge performed with ⟨_, _, same⟩ | ⟨_, _, _, impossible, _⟩
      · exact Or.inl same
      · cases impossible
    · have charges : amendment.Recharges env s charged (some entry.id) :=
        Or.inl ⟨positive, entry, performed, rfl⟩
      refine Or.inr ⟨charged, _, charges, ?_⟩
      exact cut_recordAmended (some entry.id) (charges.events.symm ▸ found) current
        (charges.events.symm ▸ absent) rest
  · rename_i nothing
    have charges : amendment.Recharges env s s none := Or.inr ⟨nothing, rfl, rfl⟩
    rcases cut_recordAmended none found current absent cut with same | records
    · exact Or.inl same
    · exact Or.inr ⟨s, none, charges, Or.inr records⟩

theorem serves_chargeAmended {amendment : Repriced} {reply : Except ApiError AmendUsageResult}
    (found : find s.events amendment.original.id = some amendment.original)
    (current : amendment.original.status = .recorded)
    (absent : find s.events (amendment.version env) = none)
    (funded : 0 < amendment.burned →
      s.ledger.accounts.contains amendment.original.accountId = true)
    (serves : (server env).Serves (chargeAmended env amendment) s reply s') :
    ∃ charged link, amendment.Recharges env s charged link ∧
      amendment.Records env link charged s' := by
  unfold chargeAmended at serves
  split at serves
  · rename_i positive
    obtain ⟨answer, charged, performed, rest⟩ := serves_tryLedger serves
    rcases rest with ⟨error, rfl, rfl⟩ | ⟨entry, rfl, rest⟩
    · rcases perform_charge performed with ⟨refused | absent, _, _⟩ | ⟨_, _, _, impossible, _⟩
      · exact absurd positive refused
      · cases absent.symm.trans (funded positive)
      · cases impossible
    · have charges : amendment.Recharges env s charged (some entry.id) :=
        Or.inl ⟨positive, entry, performed, rfl⟩
      exact ⟨charged, _, charges, serves_recordAmended (some entry.id)
        (charges.events.symm ▸ found) current (charges.events.symm ▸ absent) rest⟩
  · rename_i nothing
    exact ⟨s, none, Or.inr ⟨nothing, rfl, rfl⟩,
      serves_recordAmended none found current absent serves⟩

theorem cut_applyAmendment {amendment : Repriced}
    (found : find s.events amendment.original.id = some amendment.original)
    (current : amendment.original.status = .recorded)
    (absent : find s.events (amendment.version env) = none)
    (cut : (server env).Cut (applyAmendment env amendment) s s') : s' = s ∨
      ∃ reversed, amendment.Reverses env s reversed ∧ (s' = reversed ∨
        ∃ charged link, amendment.Recharges env reversed charged link ∧
          (s' = charged ∨ amendment.Records env link charged s')) := by
  unfold applyAmendment at cut
  split at cut
  · rename_i charge isCharge
    rcases cut_tryLedger cut with same | ⟨answer, reversed, performed, rest⟩
    · exact Or.inl same
    rcases rest with ⟨error, rfl, rfl⟩ | ⟨reversal, rfl, rest⟩
    · rcases perform_reverseCharge performed with ⟨_, _, same⟩ | ⟨_, ⟨_, impossible⟩, _⟩
      · exact Or.inl same
      · cases impossible
    · have reverses : amendment.Reverses env s reversed :=
        Or.inr ⟨charge, reversal, isCharge, performed⟩
      exact Or.inr ⟨reversed, reverses, cut_chargeAmended (reverses.events.symm ▸ found) current
        (reverses.events.symm ▸ absent) rest⟩
  · rename_i noCharge
    exact Or.inr ⟨s, Or.inl ⟨noCharge, rfl⟩, cut_chargeAmended found current absent cut⟩

/-- **An amendment that stops somewhere** has left the stores alone, or reversed, or also charged,
or also recorded. -/
theorem cut_amendUsage (cut : (server env).Cut (amendUsage env id body) s s') : s' = s ∨
    ∃ amendment, find s.events id = some amendment.original ∧
      amendment.original.status = .recorded ∧ isEnginePriced amendment.original = true ∧
      find s.events (amendment.version env) = none ∧
      reprice env amendment.original body = .ok amendment ∧
      ∃ reversed, amendment.Reverses env s reversed ∧ (s' = reversed ∨
        ∃ charged link, amendment.Recharges env reversed charged link ∧
          (s' = charged ∨ amendment.Records env link charged s')) := by
  rcases cut_checks cut with same | ⟨amendment, found, current, engine, absent, repriced, rest⟩
  · exact Or.inl same
  have own : find s.events amendment.original.id = some amendment.original := by
    rw [(find_eq_some found).2]
    exact found
  rcases cut_applyAmendment own current absent rest with same | applied
  · exact Or.inl same
  · exact Or.inr ⟨amendment, found, current, engine, absent, repriced, applied⟩

/-- An account that received a reversal exists. -/
theorem Repriced.Reverses.present {amendment : Repriced} {reversed : Stores}
    (reverses : amendment.Reverses env s reversed)
    (linked : (recordedChargeEntry env amendment.original).isSome) :
    s.ledger.accounts.contains amendment.original.accountId = true := by
  rcases reverses with ⟨none, _⟩ | ⟨charge, reversal, _, performed⟩
  · rw [none] at linked
    cases linked
  · rcases perform_reverseCharge performed with ⟨_, ⟨_, impossible⟩, _⟩ | ⟨present, _⟩
    · cases impossible
    · exact present

theorem Repriced.Reverses.accounts {amendment : Repriced} {reversed : Stores}
    (reverses : amendment.Reverses env s reversed) {account : AccountId}
    (present : s.ledger.accounts.contains account = true) :
    reversed.ledger.accounts.contains account = true := by
  rcases reverses with ⟨_, rfl⟩ | ⟨charge, reversal, _, performed⟩
  · exact present
  · rcases perform_reverseCharge performed with
      ⟨_, _, rfl⟩ | ⟨_, _, ⟨_, _, rfl⟩ | ⟨_, rfl⟩ | ⟨_, _, _, _, _, rfl⟩⟩
    · exact present
    · exact present
    · exact present
    · exact Action.contains_apply present _

/-- An applicable request reaches its postings. -/
theorem serves_checks {amendment : Repriced} (applicable : Applicable env s id body amendment)
    {reply : Except ApiError AmendUsageResult}
    (serves : (server env).Serves (amendUsage env id body) s reply s') :
    (server env).Serves (applyAmendment env amendment) s reply s' := by
  obtain ⟨found, current, engine, absent, repriced, _⟩ := applicable
  have isBody := (reprice_eq repriced).2
  unfold amendUsage recheck at serves
  obtain ⟨answer, middle, performed, rest⟩ := Server.serves_stmt.mp serves
  obtain ⟨isAnswer, rfl⟩ := perform_getEvent performed
  rcases get_eq isAnswer with ⟨original, found', rfl⟩ | ⟨missing, _⟩
  swap
  · cases missing.symm.trans found
  cases found'.symm.trans found
  simp only [current, engine] at rest
  obtain ⟨answer, middle, performed, later⟩ := Server.serves_stmt.mp rest
  obtain ⟨isAnswer, rfl⟩ := perform_getEvent performed
  rw [← isBody] at isAnswer repriced later
  rcases get_eq isAnswer with ⟨existing, found'', _⟩ | ⟨_, rfl⟩
  · cases found''.symm.trans absent
  simpa [repriced] using later

/-- **An amendment that answers was applied as a whole or not at all**, and it was applied exactly
if it is applicable. -/
theorem serves_amendUsage {reply : Except ApiError AmendUsageResult}
    (serves : (server env).Serves (amendUsage env id body) s reply s') :
    (s' = s ∧ ∀ amendment, ¬ Applicable env s id body amendment) ∨
      ∃ amendment, Applicable env s id body amendment ∧ amendment.Applied env s s' := by
  by_cases some : ∃ amendment, Applicable env s id body amendment
  · obtain ⟨amendment, applicable⟩ := some
    refine Or.inr ⟨amendment, applicable, ?_⟩
    have rest := serves_checks applicable serves
    have own : find s.events amendment.original.id = Option.some amendment.original := by
      rw [(find_eq_some applicable.found).2]
      exact applicable.found
    unfold applyAmendment at rest
    split at rest
    · rename_i charge isCharge
      obtain ⟨answer, reversed, performed, rest⟩ := serves_tryLedger rest
      have present := applicable.funded (Or.inl (by rw [isCharge]; rfl))
      rcases rest with ⟨error, rfl, _⟩ | ⟨reversal, rfl, rest⟩
      · rcases perform_reverseCharge performed with ⟨absent, _⟩ | ⟨_, ⟨_, impossible⟩, _⟩
        · cases absent.symm.trans present
        · cases impossible
      · have reverses : amendment.Reverses env s reversed :=
          Or.inr ⟨charge, reversal, isCharge, performed⟩
        obtain ⟨charged, link, charges, records⟩ := serves_chargeAmended
          (reverses.events.symm ▸ own) applicable.current (reverses.events.symm ▸ applicable.absent)
          (fun _ => reverses.accounts present) rest
        exact ⟨reversed, charged, link, reverses, charges, records⟩
    · rename_i noCharge
      obtain ⟨charged, link, charges, records⟩ := serves_chargeAmended own applicable.current
        applicable.absent (fun positive => applicable.funded (Or.inr positive)) rest
      exact ⟨s, charged, link, Or.inl ⟨noCharge, rfl⟩, charges, records⟩
  · refine Or.inl ⟨?_, fun amendment applicable => some ⟨amendment, applicable⟩⟩
    rcases cut_amendUsage serves.cut with same | ⟨amendment, found, current, engine, absent,
      repriced, reversed, reverses, rest⟩
    · exact same
    -- everything but the account is there, so the first posting is refused
    by_cases present : s.ledger.accounts.contains amendment.original.accountId = true
    · exact absurd ⟨amendment, found, current, engine, absent, repriced, fun _ => present⟩ some
    · have noCharge : recordedChargeEntry env amendment.original = none := by
        by_contra linked
        exact present (reverses.present (Option.isSome_iff_ne_none.mpr linked))
      have unchanged : reversed = s := by
        rcases reverses with ⟨_, same⟩ | ⟨charge, _, isCharge, _⟩
        · exact same
        · cases isCharge.symm.trans noCharge
      subst unchanged
      have nothing : 0 < amendment.burned := by
        by_contra nothing
        refine some ⟨amendment, found, current, engine, absent, repriced, fun either => ?_⟩
        rcases either with linked | positive
        · rw [noCharge] at linked
          cases linked
        · exact absurd positive nothing
      rcases rest with same | ⟨charged, link, charges, _⟩
      · exact same
      · rcases charges with ⟨_, entry, performed, _⟩ | ⟨zero, _⟩
        · rcases perform_charge performed with ⟨_, ⟨_, impossible⟩, _⟩ | ⟨_, present', _⟩
          · cases impossible
          · exact absurd present' present
        · exact absurd nothing zero

end Amending

/-! ### Voiding a run -/

/-- **A run void sweeps the events, then the charges.** -/
theorem serves_voidRun {env : Env} {s s' : Stores} {run : RunId} (metered : s.ledger.Metered)
    {reply : Except ApiError VoidRunResult}
    (serves : (server env).Serves (voidRun run) s reply s') :
    s'.events = restate (voided run) s.events ∧ SweepsCharges run s.ledger s'.ledger := by
  obtain ⟨answer, middle, performed, rest⟩ := serves_tryEvent serves
  obtain ⟨⟨count, rfl⟩, rfl⟩ := perform_voidEvents performed
  rcases rest with ⟨_, impossible, _⟩ | ⟨_, _, rest⟩
  · cases impossible
  obtain ⟨answer, after, performed, rest⟩ := serves_tryLedger rest
  obtain ⟨⟨summary, rfl⟩, events, sweeps⟩ :=
    perform_voidCharges (s := { s with events := restate (voided run) s.events }) metered performed
  rcases rest with ⟨_, impossible, _⟩ | ⟨_, _, rest⟩
  · cases impossible
  · rw [(Server.serves_done.mp rest).2]
    exact ⟨events, sweeps⟩

end Meter.Api
