/-
**Two amendments of one event.**

Only the current version of an event may be amended, and an amendment checks this when it reads the
event, two to four calls before the event store records its version. The store itself refuses only
voided events. Two amendments that both read the event as current are therefore both recorded, and
both versions are live.

* `AmendsOnly` — what an amendment does, as another one sees it.
* `assures_recheck` — an amendment that has read its event as current ends with its version live.
* `amend_race` — **exactly one of the two stands if and only if one can be applied and, when both can,
  one of them makes all its calls up to the recording before the other one starts**.
-/

import Meter.Api.MeterRace
import Mathlib.Algebra.BigOperators.Group.Finset.Basic

namespace Meter.Api

open Meter.Lib Meter.Pricing Meter.Events
open Meter.Ledger (LedgerEntry LedgerError Action)

/-! ### What should come out -/

/-- Versions of one event. -/
def Chain (events : List Event) (first second : EventId) : Prop :=
  ∃ root, Descends events root first ∧ Descends events root second

/-- A charge posted for a version of an event, or for an amendment of it. -/
def ChargedFor (env : Env) (event : EventId) (versions : List EventId) (s : Stores)
    (entry : LedgerEntry) : Prop :=
  entry.entryType = .usage ∧
    ((∃ version ∈ s.events, Chain s.events event version.id ∧
      recordedChargeEntry env version = some entry.id) ∨
    ∃ version ∈ versions, entry.idempotencyKey = some (amendChargeKey version))

open Classical in
/-- What was charged for an event and its amendments, less the refunds linked to these charges. -/
noncomputable def netCharge (env : Env) (event : EventId) (versions : List EventId)
    (s : Stores) : Credit :=
  ((s.ledger.entries.filter fun entry => ChargedFor env event versions s entry).map fun entry =>
    s.ledger.unreversedRemainder entry.id).sum

/-- Exactly one of the amendments stands: its version is the only live one of the event, and the net
charge is its credits. -/
def OneStands (env : Env) (event : EventId) (versions : List EventId) (s : Stores) : Prop :=
  ∃ version ∈ s.events, version.id ∈ versions ∧ version.status = .recorded ∧
    Chain s.events event version.id ∧
    (∀ other ∈ s.events, other.status = .recorded → Chain s.events event other.id →
      other = version) ∧
    netCharge env event versions s = recordedCredits env version

/-- The amendment can be applied in the state. -/
def Applies (env : Env) (s : Stores) (event : Event) (body : AmendUsageBody) : Prop :=
  ∃ amendment, Applicable env s event.id body amendment

/-- How many calls an amendment makes up to the recording of its version: two reads, the reversal and
the charge if there are any, and the recording. -/
def Repriced.calls (env : Env) (amendment : Repriced) : Nat :=
  (if 0 < amendment.burned then 2 else 1) +
    (if (recordedChargeEntry env amendment.original).isSome then 1 else 0) + 2

/-- The same, from the request. -/
def callsToAmend (env : Env) (event : Event) (body : AmendUsageBody) : Nat :=
  match reprice env event body with
  | .ok amendment => amendment.calls env
  | .error _ => 0

/-- The amendment is the one that stands: it can be applied, its usage prices at nothing negative, and
it makes all its calls up to the recording before the other one makes its first, if that can be applied
too. -/
def Prevails (env : Env) (s : Stores) (event : Event) (body body' : AmendUsageBody)
    (side : Server.Side) (turns : List Server.Side) : Prop :=
  ∃ amendment, Applicable env s event.id body amendment ∧ 0 ≤ amendment.burned ∧
    (Applies env s event body' → List.replicate (callsToAmend env event body) side <+: turns)

/-! ### What an amendment does, as another one sees it -/

/-- An event that was not voided, in whatever status. -/
structure Standing (event : Event) (s : Stores) : Prop where
  distinct : (s.events.map Event.id).Nodup
  found : ∃ status, status ≠ .voided ∧ find s.events event.id = some { event with status }

/-- What the calls of an amendment of an event may do, given the version it produces. -/
structure AmendsOnly (event : Event) (version : EventId) (s s' : Stores) : Prop where
  accounts : ∀ account, s'.ledger.accounts.contains account = s.ledger.accounts.contains account
  standing : Standing event s → Standing event s'
  ids : ∀ id ∈ s'.events.map Event.id, id ∈ s.events.map Event.id ∨ id = version
  kept : ∀ other ∈ s.events, other.id ≠ event.id → other ∈ s'.events

namespace AmendsOnly

variable {event : Event} {version : EventId} {s s' s'' : Stores}

theorem refl (s : Stores) : AmendsOnly event version s s where
  accounts := fun _ => rfl
  standing := id
  ids := fun _ => Or.inl
  kept := fun _ inside _ => inside

theorem trans (first : AmendsOnly event version s s') (second : AmendsOnly event version s' s'') :
    AmendsOnly event version s s'' where
  accounts := fun account => (second.accounts account).trans (first.accounts account)
  standing := fun standing => second.standing (first.standing standing)
  ids := by
    intro id known
    rcases second.ids id known with before | same
    · exact first.ids id before
    · exact Or.inr same
  kept := fun other inside different => second.kept other (first.kept other inside different) different

/-- A call that leaves the events and the accounts alone. -/
theorem of_events (events : s'.events = s.events)
    (accounts : ∀ account, s'.ledger.accounts.contains account = s.ledger.accounts.contains account) :
    AmendsOnly event version s s' where
  accounts := accounts
  standing := by
    rintro ⟨distinct, found⟩
    rw [← events] at distinct found
    exact ⟨distinct, found⟩
  ids := by
    rw [events]
    exact fun _ => Or.inl
  kept := by
    rw [events]
    exact fun _ inside _ => inside

end AmendsOnly

section

variable {env : Env} {event : Event} {version version' : EventId} {s s' : Stores}

/-- The charges and reversals of an amendment open no account. -/
theorem AmendsOnly.charge (entry : LedgerEntry) :
    AmendsOnly event version s { s with ledger := (Action.charge entry).apply s.ledger } :=
  .of_events rfl fun account => Ledger.State.contains_pay _ _ _ _ account

theorem AmendsOnly.reverse (entry : LedgerEntry) :
    AmendsOnly event version s { s with ledger := (Action.reverse entry).apply s.ledger } :=
  .of_events rfl fun account => Ledger.State.contains_pay _ _ _ _ account

/-- A superseded event is found as amended. -/
theorem find_superseded {new : Event} {status : EventStatus}
    (found : find s.events event.id = some { event with status }) :
    find (restate (marked event.id) s.events ++ [new]) event.id =
      some { event with status := .amended } := by
  have marks : find (restate (marked event.id) s.events) event.id =
      some { event with status := .amended } := by
    rw [find_restate, found, Option.map_some]
    simp [marked]
  rw [find] at marks ⊢
  rw [List.find?_append, marks, Option.some_or]

/-- Recording the version marks the event and appends. -/
theorem AmendsOnly.record {new : Event} (isNew : new.id = version)
    (distinct : (s.events.map Event.id).Nodup) (absent : version ∉ s.events.map Event.id) :
    AmendsOnly event version s { s with
      events := restate (marked event.id) s.events ++ [new] } where
  accounts := fun _ => rfl
  standing := by
    rintro ⟨_, status, _, found⟩
    refine ⟨?_, .amended, by decide, ?_⟩
    · rw [List.map_append, ids_restate, List.map_singleton, isNew]
      exact List.nodup_append.mpr ⟨distinct, List.nodup_singleton _, by
        intro id known _ last same
        rw [List.mem_singleton.mp last] at same
        exact absent (same ▸ known)⟩
    · exact find_superseded found
  ids := by
    intro id known
    rw [List.map_append, ids_restate, List.map_singleton, isNew, List.mem_append,
      List.mem_singleton] at known
    exact known
  kept := by
    intro other inside notEvent
    refine List.mem_append_left _ (mem_restate.mpr ⟨other, inside, ?_⟩)
    rw [marked, if_neg notEvent]

/-- The version of an amendment is live. -/
def LiveVersion (event : Event) (version : EventId) (s : Stores) : Prop :=
  ∃ new ∈ s.events, new.id = version ∧ new.status = .recorded ∧ new.supersedes = some event.id

theorem LiveVersion.stable (live : LiveVersion event version s) (different : version ≠ event.id)
    (moves : AmendsOnly event version' s s') : LiveVersion event version s' := by
  obtain ⟨new, inside, isNew, rest⟩ := live
  exact ⟨new, moves.kept new inside (isNew ▸ different), isNew, rest⟩

/-! ### An amendment that has read its event as current -/

/-- Where an amendment stands before its version is there. -/
structure Pending (env : Env) (event : Event) (amendment : Repriced) (s : Stores) : Prop where
  original : amendment.original = event
  standing : Standing event s
  absent : amendment.version env ∉ s.events.map Event.id
  funded : (recordedChargeEntry env event).isSome ∨ 0 < amendment.burned →
    s.ledger.accounts.contains event.accountId = true

/-- Another amendment with another version does not get in the way. -/
theorem Pending.stable {amendment : Repriced} (pending : Pending env event amendment s)
    (different : amendment.version env ≠ version') (moves : AmendsOnly event version' s s') :
    Pending env event amendment s' where
  original := pending.original
  standing := moves.standing pending.standing
  absent := by
    intro known
    rcases moves.ids _ known with before | same
    · exact pending.absent before
    · exact different same
  funded := fun either => (moves.accounts _).trans (pending.funded either)

/-- What the event store answers to the version of an event that was not voided. -/
theorem amend_standing {amendment : Repriced} (pending : Pending env event amendment s)
    (link : Option EntryId) (draw : Draw) : ∃ new : Event, new.id = amendment.version env ∧
      new.status = .recorded ∧ new.supersedes = some event.id ∧
      amend env.idempotentEventId draw (amendedEvent env amendment.original amendment.body
        amendment.model amendment.rateCardId amendment.card amendment.priced amendment.burnable
        (linkText link)) s.events = (.ok new, restate (marked event.id) s.events ++ [new]) := by
  obtain ⟨rfl, ⟨distinct, status, notVoided, found⟩, absent, _⟩ := pending
  refine ⟨(amendedEvent env amendment.original amendment.body amendment.model amendment.rateCardId
    amendment.card amendment.priced amendment.burnable (linkText link)).intoAmendedEvent
      env.idempotentEventId { amendment.original with status } draw, rfl, rfl, rfl, ?_⟩
  have absent' := find_eq_none.mpr absent
  unfold amend
  rw [show (amendedEvent env amendment.original amendment.body amendment.model
    amendment.rateCardId amendment.card amendment.priced amendment.burnable
    (linkText link)).eventId = amendment.original.id from rfl, found]
  simp only [notVoided, if_false]
  rw [show ((amendedEvent env amendment.original amendment.body amendment.model
    amendment.rateCardId amendment.card amendment.priced amendment.burnable
    (linkText link)).intoAmendedEvent env.idempotentEventId { amendment.original with status }
      draw).id = amendment.version env from rfl, absent', ← setStatus_eq distinct]

section Racing

variable {amendment : Repriced} (different : amendment.version env ≠ version')

/-- A request that is over keeps its version live. -/
theorem assures_live {α : Type} {result : α} (apart : version ≠ event.id)
    (live : LiveVersion event version s) :
    (server env).Assures (AmendsOnly event version') (AmendsOnly event version) (.done result)
      (fun _ s' => LiveVersion event version s') s :=
  fun _ moves => live.stable apart moves

include different

/-- **Recording the version succeeds whatever the other amendment did.** -/
theorem assures_record (pending : Pending env event amendment s)
    (apart : amendment.version env ≠ event.id) (link : Option EntryId) :
    (server env).Assures (AmendsOnly event version') (AmendsOnly event (amendment.version env))
      (recordAmended env amendment (linkText link))
      (fun _ s' => LiveVersion event (amendment.version env) s') s := by
  intro s₁ moves answer s₂ performed
  have pending := pending.stable different moves
  obtain ⟨draw, rfl, rfl⟩ := perform_amendEvent performed
  obtain ⟨new, isNew, recorded, links, result⟩ := amend_standing pending link draw
  rw [result]
  refine ⟨.record isNew pending.standing.distinct pending.absent, ?_⟩
  have live : LiveVersion event (amendment.version env) { s₁ with
      events := restate (marked event.id) s₁.events ++ [new] } :=
    ⟨new, List.mem_append_right _ (List.mem_singleton_self _), isNew, recorded, links⟩
  intro s₃ moves answer s₄ performed
  have same := perform_balance performed
  subst same
  refine ⟨.refl _, ?_⟩
  cases answer with
  | error error => exact assures_live apart (live.stable apart moves)
  | ok balance => exact assures_live apart (live.stable apart moves)

theorem assures_charge (pending : Pending env event amendment s)
    (apart : amendment.version env ≠ event.id) :
    (server env).Assures (AmendsOnly event version') (AmendsOnly event (amendment.version env))
      (chargeAmended env amendment)
      (fun _ s' => LiveVersion event (amendment.version env) s') s := by
  unfold chargeAmended
  split
  swap
  · exact assures_record different pending apart none
  rename_i positive
  intro s₁ moves answer s₂ performed
  have pending := pending.stable different moves
  rcases perform_charge performed with ⟨refused | missing, _⟩ | ⟨_, _, entry, rfl,
    ⟨_, _, _, rfl⟩ | ⟨_, _, _, _, _, rfl⟩⟩
  · exact absurd positive refused
  · rw [pending.original] at missing
    cases missing.symm.trans (pending.funded (Or.inr positive))
  · exact ⟨.refl _, assures_record different pending apart (some entry.id)⟩
  · have posts : AmendsOnly event version' s₁
        { s₁ with ledger := (Action.charge entry).apply s₁.ledger } := .charge entry
    exact ⟨.charge entry,
      assures_record different (pending.stable different posts) apart (some entry.id)⟩

theorem assures_apply (pending : Pending env event amendment s)
    (apart : amendment.version env ≠ event.id) :
    (server env).Assures (AmendsOnly event version') (AmendsOnly event (amendment.version env))
      (applyAmendment env amendment)
      (fun _ s' => LiveVersion event (amendment.version env) s') s := by
  unfold applyAmendment
  split
  swap
  · exact assures_charge different pending apart
  rename_i charge isCharge
  intro s₁ moves answer s₂ performed
  have pending := pending.stable different moves
  rcases perform_reverseCharge performed with ⟨missing, _⟩ | ⟨_, ⟨reversal, rfl⟩,
    ⟨_, _, rfl⟩ | ⟨_, rfl⟩ | ⟨refund, _, _, _, _, rfl⟩⟩
  · rw [pending.original] at missing isCharge
    have linked : (recordedChargeEntry env event).isSome := by
      rw [isCharge]
      rfl
    cases missing.symm.trans (pending.funded (Or.inl linked))
  · exact ⟨.refl _, assures_charge different pending apart⟩
  · exact ⟨.refl _, assures_charge different pending apart⟩
  · have posts : AmendsOnly event version' s₁
        { s₁ with ledger := (Action.reverse refund).apply s₁.ledger } := .reverse refund
    exact ⟨.reverse refund, assures_charge different (pending.stable different posts) apart⟩

end Racing

/-- **An amendment that has read its event as current ends with its version live**, whatever
another amendment does. -/
theorem assures_recheck {amendment : Repriced} {body : AmendUsageBody}
    (different : amendment.version env ≠ version') (pending : Pending env event amendment s)
    (apart : amendment.version env ≠ event.id) (current : event.status = .recorded)
    (engine : isEnginePriced event = true) (repriced : reprice env event body = .ok amendment) :
    (server env).Assures (AmendsOnly event version') (AmendsOnly event (amendment.version env))
      (recheck env event body) (fun _ s' => LiveVersion event (amendment.version env) s') s := by
  obtain ⟨rfl, rfl⟩ := reprice_eq repriced
  unfold recheck
  simp only [current, engine]
  intro s₁ moves answer s₂ performed
  have pending := pending.stable different moves
  obtain ⟨isAnswer, rfl⟩ := perform_getEvent performed
  refine ⟨.refl _, ?_⟩
  rcases get_eq isAnswer with ⟨existing, found, _⟩ | ⟨_, rfl⟩
  · exact absurd (find_eq_none.mpr pending.absent) (by
      rw [show find s₂.events (amendment.version env) = some existing from found]
      exact Option.some_ne_none _)
  · simpa [repriced] using assures_apply different pending apart

/-! ### Counting calls -/

/-- A program that only reads a balance. -/
def OnlyBalance (program : Handler AmendUsageResult) : Prop :=
  ∃ (account : AccountId) (next : Ledger.Balance → AmendUsageResult),
    program = tryLedger (.balance account) fun balance => .done (.ok (next balance))

section Counting

variable {amendment : Repriced} {rest : Handler AmendUsageResult} {count : Nat}

theorem calls_recordAmended (link : Option EntryId)
    (found : find s.events amendment.original.id = some amendment.original)
    (current : amendment.original.status = .recorded)
    (absent : find s.events (amendment.version env) = none)
    (calls : (server env).Calls 1 (recordAmended env amendment (linkText link)) s rest s') :
    amendment.Records env link s s' ∧ OnlyBalance rest := by
  obtain ⟨answer, middle, performed, later⟩ := calls.succ_inv
  obtain ⟨draw, rfl, rfl⟩ := perform_amendEvent performed
  rw [amend_current found current absent] at later
  obtain ⟨rfl, rfl⟩ := later.zero_inv
  exact ⟨⟨draw, rfl⟩, _, _, rfl⟩

theorem calls_chargeAmended
    (found : find s.events amendment.original.id = some amendment.original)
    (current : amendment.original.status = .recorded)
    (absent : find s.events (amendment.version env) = none)
    (funded : 0 < amendment.burned →
      s.ledger.accounts.contains amendment.original.accountId = true)
    (calls : (server env).Calls (if 0 < amendment.burned then 2 else 1)
      (chargeAmended env amendment) s rest s') :
    (∃ charged link, amendment.Recharges env s charged link ∧
      amendment.Records env link charged s') ∧ OnlyBalance rest := by
  unfold chargeAmended at calls
  by_cases positive : 0 < amendment.burned
  · rw [if_pos positive, if_pos positive] at calls
    obtain ⟨answer, charged, performed, later⟩ := calls.succ_inv
    rcases perform_charge performed with ⟨refused | missing, _⟩ | ⟨_, _, entry, rfl, _⟩
    · exact absurd positive refused
    · cases missing.symm.trans (funded positive)
    · have charges : amendment.Recharges env s charged (some entry.id) :=
        Or.inl ⟨positive, entry, performed, rfl⟩
      obtain ⟨records, only⟩ := calls_recordAmended (some entry.id)
        (charges.events.symm ▸ found) current (charges.events.symm ▸ absent) later
      exact ⟨⟨charged, _, charges, records⟩, only⟩
  · rw [if_neg positive, if_neg positive] at calls
    obtain ⟨records, only⟩ := calls_recordAmended none found current absent calls
    exact ⟨⟨s, none, Or.inr ⟨positive, rfl, rfl⟩, records⟩, only⟩

/-- The first two calls of an applicable amendment change nothing. -/
theorem calls_checks {id : EventId} {body : AmendUsageBody}
    (applicable : Applicable env s id body amendment)
    (calls : (server env).Calls (count + 2) (amendUsage env id body) s rest s') :
    (server env).Calls count (applyAmendment env amendment) s rest s' := by
  obtain ⟨found, current, engine, absent, repriced, _⟩ := applicable
  obtain ⟨_, rfl⟩ := reprice_eq repriced
  obtain ⟨answer, middle, performed, later⟩ := calls.succ_inv
  obtain ⟨isAnswer, rfl⟩ := perform_getEvent performed
  rcases get_eq isAnswer with ⟨original, found', rfl⟩ | ⟨missing, _⟩
  swap
  · cases missing.symm.trans found
  cases found'.symm.trans found
  simp only [recheck, current, engine] at later
  obtain ⟨answer, middle, performed, later⟩ := later.succ_inv
  obtain ⟨isAnswer, rfl⟩ := perform_getEvent performed
  rcases get_eq isAnswer with ⟨existing, found'', _⟩ | ⟨_, rfl⟩
  · cases found''.symm.trans absent
  simpa [repriced] using later

/-- **After its calls up to the recording, an amendment is applied.** -/
theorem calls_amendUsage {id : EventId} {body : AmendUsageBody}
    (applicable : Applicable env s id body amendment)
    (calls : (server env).Calls (amendment.calls env) (amendUsage env id body) s rest s') :
    amendment.Applied env s s' ∧ OnlyBalance rest := by
  have later := calls_checks applicable calls
  have own : find s.events amendment.original.id = some amendment.original := by
    rw [(find_eq_some applicable.found).2]
    exact applicable.found
  unfold applyAmendment at later
  cases isCharge : recordedChargeEntry env amendment.original with
  | none =>
    rw [isCharge] at later
    obtain ⟨⟨charged, link, charges, records⟩, only⟩ := calls_chargeAmended own applicable.current
      applicable.absent (fun positive => applicable.funded (Or.inr positive)) later
    exact ⟨⟨s, charged, link, Or.inl ⟨isCharge, rfl⟩, charges, records⟩, only⟩
  | some charge =>
    rw [isCharge] at later
    have present := applicable.funded (Or.inl (by rw [isCharge]; rfl))
    obtain ⟨answer, reversed, performed, later⟩ := later.succ_inv
    rcases perform_reverseCharge performed with ⟨missing, _⟩ | ⟨_, ⟨reversal, rfl⟩, _⟩
    · cases missing.symm.trans present
    · have reverses : amendment.Reverses env s reversed :=
        Or.inr ⟨charge, reversal, isCharge, performed⟩
      obtain ⟨⟨charged, link, charges, records⟩, only⟩ := calls_chargeAmended
        (reverses.events.symm ▸ own) applicable.current (reverses.events.symm ▸ applicable.absent)
        (fun _ => reverses.accounts present) later
      exact ⟨⟨reversed, charged, link, reverses, charges, records⟩, only⟩

/-- Before the recording the events stay as they are. -/
theorem calls_before_recording {link : Option String} (early : count < 1)
    (calls : (server env).Calls count (recordAmended env amendment link) s rest s') :
    s'.events = s.events := by
  obtain rfl := Nat.lt_one_iff.mp early
  rw [calls.zero_inv.2]

theorem calls_before_charge (early : count < if 0 < amendment.burned then 2 else 1)
    (calls : (server env).Calls count (chargeAmended env amendment) s rest s') :
    s'.events = s.events := by
  unfold chargeAmended at calls
  split at early
  · rename_i positive
    rw [if_pos positive] at calls
    cases count with
    | zero => rw [calls.zero_inv.2]
    | succ count =>
      obtain ⟨answer, middle, performed, later⟩ := calls.succ_inv
      obtain rfl : count = 0 := by omega
      rw [later.zero_inv.2]
      rcases perform_charge performed with
        ⟨_, _, rfl⟩ | ⟨_, _, _, _, ⟨_, _, _, rfl⟩ | ⟨_, _, _, _, _, rfl⟩⟩
      · rfl
      · rfl
      · rfl
  · rename_i nothing
    rw [if_neg nothing] at calls
    exact calls_before_recording early calls

/-- **Up to its recording an amendment leaves the events alone.** -/
theorem calls_before_amend {id : EventId} {body : AmendUsageBody}
    (applicable : Applicable env s id body amendment) (early : count < amendment.calls env)
    (calls : (server env).Calls count (amendUsage env id body) s rest s') :
    s'.events = s.events := by
  match count with
  | 0 => rw [calls.zero_inv.2]
  | 1 =>
    obtain ⟨answer, middle, performed, later⟩ := calls.succ_inv
    obtain ⟨_, rfl⟩ := perform_getEvent performed
    rw [later.zero_inv.2]
  | count + 2 =>
    have later := calls_checks applicable calls
    have early : count < (if 0 < amendment.burned then 2 else 1) +
        if (recordedChargeEntry env amendment.original).isSome then 1 else 0 :=
      Nat.lt_of_add_lt_add_right early
    unfold applyAmendment at later
    cases isCharge : recordedChargeEntry env amendment.original with
    | none =>
      rw [isCharge] at later early
      exact calls_before_charge early later
    | some charge =>
      rw [isCharge] at later early
      cases count with
      | zero => rw [later.zero_inv.2]
      | succ count =>
        obtain ⟨answer, middle, performed, after⟩ := later.succ_inv
        have early : count < if 0 < amendment.burned then 2 else 1 :=
          Nat.lt_of_add_lt_add_right early
        rcases perform_reverseCharge performed with ⟨_, ⟨error, rfl⟩, rfl⟩ | ⟨_, ⟨_, rfl⟩,
          ⟨_, _, rfl⟩ | ⟨_, rfl⟩ | ⟨_, _, _, _, _, rfl⟩⟩
        · rw [Server.cut_done.mp ⟨_, _, after⟩]
        · exact calls_before_charge early after
        · exact calls_before_charge early after
        · rw [calls_before_charge early after]

end Counting

/-! ### Amendments that are refused -/

/-- **An amendment that cannot be applied changes nothing**, whatever another one does. -/
theorem assures_inapplicable {steps : List (Request × Stores)} {body : AmendUsageBody}
    (agrees : Agrees env steps s) (member : event ∈ s.events) (current : event.status = .recorded)
    (engine : isEnginePriced event = true)
    (absent : amendedId env event body.idempotencyKey ∉ s.events.map Event.id)
    (not : ¬ Applies env s event body) :
    (server env).Assures (AmendsOnly event version') Eq (amendUsage env event.id body)
      (fun _ _ => True) s := by
  have found := agrees.linear.find_of_mem member
  have standing : Standing event s :=
    ⟨agrees.linear.ids, event.status, by rw [current]; decide, found⟩
  intro s₁ moves answer s₂ performed
  obtain ⟨_, status, _, found₁⟩ := moves.standing standing
  have accounts := moves.accounts
  obtain ⟨isAnswer, rfl⟩ := perform_getEvent performed
  refine ⟨rfl, ?_⟩
  rcases get_eq isAnswer with ⟨original, found₂, rfl⟩ | ⟨_, rfl⟩
  swap
  · exact fun _ _ => trivial
  obtain rfl := Option.some.inj (found₂.symm.trans found₁)
  simp only [recheck]
  split
  · exact fun _ _ => trivial
  split
  · exact fun _ _ => trivial
  intro s₃ moves answer s₄ performed
  have accounts := fun account => (moves.accounts account).trans (accounts account)
  obtain ⟨isAnswer, rfl⟩ := perform_getEvent performed
  refine ⟨rfl, ?_⟩
  rcases get_eq isAnswer with ⟨existing, _, rfl⟩ | ⟨_, rfl⟩
  · exact quiet_balance
  simp only
  split
  · exact fun _ _ => trivial
  rename_i isCurrent
  have same : ({ event with status } : Event) = event := by
    rw [not_not.mp isCurrent, ← current]
  rw [same]
  split
  · exact fun _ _ => trivial
  rename_i amendment repriced
  obtain ⟨rfl, rfl⟩ := reprice_eq repriced
  -- what is missing is the account, so there is nothing to reverse and the charge is refused
  have unfunded : ¬ ((recordedChargeEntry env amendment.original).isSome ∨ 0 < amendment.burned →
      s.ledger.accounts.contains amendment.original.accountId = true) := fun funded =>
    not ⟨amendment, found, current, engine, find_eq_none.mpr absent, repriced, funded⟩
  obtain ⟨either, missing⟩ := Classical.not_imp.mp unfunded
  have noCharge : recordedChargeEntry env amendment.original = none := by
    by_contra linked
    obtain ⟨charge, isCharge⟩ := Option.ne_none_iff_exists'.mp linked
    obtain ⟨entry, stored, _, charged⟩ := agrees.charged _ member charge isCharge
    exact missing (charged.account ▸ agrees.metered.wf.entryAccounts entry stored)
  have positive : 0 < amendment.burned := either.resolve_left (by rw [noCharge]; decide)
  unfold applyAmendment
  rw [noCharge]
  simp only
  unfold chargeAmended
  rw [if_pos positive]
  intro s₅ moves answer s₆ performed
  rcases perform_charge performed with ⟨_, ⟨error, rfl⟩, rfl⟩ | ⟨_, present, _⟩
  · exact ⟨rfl, fun _ _ => trivial⟩
  · rw [moves.accounts, accounts] at present
    exact absurd present missing

/-- An amendment of a superseded event changes nothing. -/
theorem assures_superseded {body : AmendUsageBody}
    (found : find s.events event.id = some { event with status := .amended }) :
    (server env).Assures Eq Eq (amendUsage env event.id body) (fun _ _ => True) s := by
  rintro _ rfl answer s₂ performed
  obtain ⟨isAnswer, rfl⟩ := perform_getEvent performed
  refine ⟨rfl, ?_⟩
  rcases get_eq isAnswer with ⟨original, found', rfl⟩ | ⟨_, rfl⟩
  swap
  · exact fun _ _ => trivial
  obtain rfl := Option.some.inj (found'.symm.trans found)
  simp only [recheck]
  split
  · exact fun _ _ => trivial
  split
  · exact fun _ _ => trivial
  intro s₃ _ answer s₄ performed
  obtain ⟨isAnswer, rfl⟩ := perform_getEvent performed
  refine ⟨rfl, ?_⟩
  rcases get_eq isAnswer with ⟨existing, _, rfl⟩ | ⟨_, rfl⟩
  · exact quiet_balance
  · rw [if_pos (by decide)]
    exact fun _ _ => trivial

end

/-! ### One amendment stands -/

section Outcome

variable {env : Env} {steps : List (Request × Stores)} {event : Event} {versions : List EventId}
  {s s' : Stores}

open Classical in
/-- A sum with one summand that is not zero. -/
theorem sum_map_single {α : Type} {items : List α} (distinct : items.Nodup) {item : α}
    (member : item ∈ items) {value : α → ℚ} (zero : ∀ other ∈ items, other ≠ item → value other = 0) :
    (items.map value).sum = value item := by
  rw [List.sum_map_eq_nsmul_single item value fun other different inside =>
    zero other inside different, List.count_eq_one_of_mem distinct member, one_nsmul]

/-- The version of an amendment that was recorded is the only live one of its event. -/
theorem Agrees.live_unique (agrees : Agrees env steps s) {version : Event}
    (member : version ∈ s.events) (live : version.status = .recorded)
    (child : Descends s.events event.id version.id) {other : Event} (inside : other ∈ s.events)
    (live' : other.status = .recorded) (chain : Chain s.events event.id other.id) :
    other = version := by
  obtain ⟨root, down, down'⟩ := chain
  have ours : Version s.events { version with id := root } version := ⟨member, down.trans child⟩
  have theirs : Version s.events { version with id := root } other := ⟨inside, down'⟩
  exact agrees.linear.leaf_unique theirs ours (by rw [live']; decide) (by rw [live]; decide)

/-- Every charge of the chain but the version's own is refunded. -/
theorem Agrees.spent (agrees : Agrees env steps s) {version : Event} (member : version ∈ s.events)
    (live : version.status = .recorded) (child : Descends s.events event.id version.id)
    (only : ∀ id ∈ versions, id ∈ s.events.map Event.id → id = version.id) {entry : LedgerEntry}
    (stored : entry ∈ s.ledger.entries) (charged : ChargedFor env event.id versions s entry)
    (notOwn : recordedChargeEntry env version ≠ some entry.id) :
    s.ledger.unreversedRemainder entry.id = 0 := by
  obtain ⟨usage, posted⟩ := charged
  have owned : ∃ owner ∈ s.events, recordedChargeEntry env owner = some entry.id ∧
      Chain s.events event.id owner.id := by
    rcases posted with ⟨owner, inside, chain, links⟩ | ⟨id, listed, isKey⟩
    · exact ⟨owner, inside, links, chain⟩
    · obtain ⟨owner, inside, links, for'⟩ := agrees.posted_of_key stored isKey usage
      have isId := for'.amended_id rfl
      have same := only id listed (isId ▸ List.mem_map_of_mem inside)
      refine ⟨owner, inside, links, event.id, .refl, ?_⟩
      rw [isId, same]
      exact child
  obtain ⟨owner, inside, links, chain⟩ := owned
  rw [agrees.remainder owner inside _ links, if_neg]
  intro live'
  exact notOwn (agrees.live_unique member live child inside live' chain ▸ links)

open Classical in
/-- **The net charge is what the version records**, unless that is negative. -/
theorem Agrees.netCharge_eq (agrees : Agrees env steps s) {version : Event}
    (member : version ∈ s.events) (live : version.status = .recorded)
    (child : Descends s.events event.id version.id)
    (only : ∀ id ∈ versions, id ∈ s.events.map Event.id → id = version.id) :
    netCharge env event.id versions s = max (recordedCredits env version) 0 := by
  have distinct : (s.ledger.entries.filter fun entry =>
      decide (ChargedFor env event.id versions s entry)).Nodup :=
    (List.Nodup.of_map LedgerEntry.id agrees.metered.wf.entryIds).filter _
  rw [netCharge]
  cases isLink : recordedChargeEntry env version with
  | none =>
    rw [max_eq_right (not_lt.mp (agrees.uncharged version member isLink))]
    refine List.sum_eq_zero fun value inside => ?_
    obtain ⟨entry, charged, rfl⟩ := List.mem_map.mp inside
    obtain ⟨stored, isFor⟩ := List.mem_filter.mp charged
    exact agrees.spent member live child only stored (of_decide_eq_true isFor) (by simp [isLink])
  | some id =>
    obtain ⟨entry, stored, rfl, charged⟩ := agrees.charged version member id isLink
    have isFor : ChargedFor env event.id versions s entry :=
      ⟨charged.usage, Or.inl ⟨version, member, ⟨event.id, .refl, child⟩, isLink⟩⟩
    have nonneg : 0 ≤ recordedCredits env version := by
      rw [charged.credits]
      exact neg_nonneg.mpr (agrees.metered.spends entry stored charged.usage).le
    rw [max_eq_left nonneg,
      sum_map_single distinct (List.mem_filter.mpr ⟨stored, decide_eq_true isFor⟩),
      agrees.remainder version member _ isLink, if_pos live]
    intro other inside different
    obtain ⟨stored', isFor'⟩ := List.mem_filter.mp inside
    refine agrees.spent member live child only stored' (of_decide_eq_true isFor') fun same =>
      different ?_
    exact agrees.metered.eq_of_id stored' stored (Option.some.inj (same.symm.trans isLink))

/-- **The amendment whose version was recorded stands exactly if its credits are not negative**:
negative credits are recorded, but not posted. -/
theorem Agrees.oneStands_iff (agrees : Agrees env steps s) {version : Event}
    (member : version ∈ s.events) (live : version.status = .recorded)
    (links : version.supersedes = some event.id) (listed : version.id ∈ versions)
    (only : ∀ id ∈ versions, id ∈ s.events.map Event.id → id = version.id) :
    OneStands env event.id versions s ↔ 0 ≤ recordedCredits env version := by
  have child : Descends s.events event.id version.id :=
    Relation.ReflTransGen.single ⟨version, member, rfl, links⟩
  have net := agrees.netCharge_eq member live child only
  constructor
  · rintro ⟨other, inside, _, live', chain, _, same⟩
    rw [agrees.live_unique member live child inside live' chain, net] at same
    exact max_eq_left_iff.mp same
  · intro nonneg
    exact ⟨version, member, listed, live, ⟨event.id, .refl, child⟩, fun other inside live' chain =>
      agrees.live_unique member live child inside live' chain, net.trans (max_eq_left nonneg)⟩

end Outcome

/-! ### The race -/

/-- Two amendments of a live event, with versions of their own. -/
structure Rivals (env : Env) (steps : List (Request × Stores)) (s : Stores) (event : Event)
    (body body' : AmendUsageBody) : Prop where
  agrees : Agrees env steps s
  keyed : Keyed env steps
  member : event ∈ s.events
  current : event.status = .recorded
  engine : isEnginePriced event = true
  known : ∃ own ∈ derived steps, own.source = .amended event.id body.idempotencyKey ∧
    own.id env = amendedId env event body.idempotencyKey
  known' : ∃ own ∈ derived steps, own.source = .amended event.id body'.idempotencyKey ∧
    own.id env = amendedId env event body'.idempotencyKey
  different : amendedId env event body.idempotencyKey ≠ amendedId env event body'.idempotencyKey

namespace Rivals

variable {env : Env} {steps : List (Request × Stores)} {s s' : Stores} {event : Event}
  {body body' : AmendUsageBody}

theorem swap (rivals : Rivals env steps s event body body') :
    Rivals env steps s event body' body where
  agrees := rivals.agrees
  keyed := rivals.keyed
  member := rivals.member
  current := rivals.current
  engine := rivals.engine
  known := rivals.known'
  known' := rivals.known
  different := rivals.different.symm

/-- The version of an amendment of a live event is not there. -/
theorem absent (rivals : Rivals env steps s event body body') :
    amendedId env event body.idempotencyKey ∉ s.events.map Event.id := by
  intro present
  obtain ⟨version, inside, same⟩ := List.mem_map.mp present
  obtain ⟨own, member, source, isId⟩ := rivals.known
  cases rivals.agrees.origin version inside with
  | metered other member' _ id =>
    have sources := rivals.keyed.source (mem_derived_of_body member') member
      (id.symm.trans (same.trans isId.symm))
    rw [source] at sources
    cases sources
  | amended original key links own' member' source' id =>
    have sources := rivals.keyed.source member' member (id.symm.trans (same.trans isId.symm))
    rw [source, source'] at sources
    cases sources
    have amended := rivals.agrees.linear.superseded event rivals.member version inside links
    cases amended.symm.trans rivals.current

theorem apart (rivals : Rivals env steps s event body body') :
    amendedId env event body.idempotencyKey ≠ event.id := by
  intro same
  exact rivals.absent (same ▸ List.mem_map_of_mem rivals.member)

/-- An amendment that applies is about to record its version. -/
theorem pending (rivals : Rivals env steps s event body body') {amendment : Repriced}
    (applicable : Applicable env s event.id body amendment) :
    amendment.original = event ∧ reprice env event body = .ok amendment ∧
      amendment.version env = amendedId env event body.idempotencyKey ∧
      Pending env event amendment s := by
  have found := rivals.agrees.linear.find_of_mem rivals.member
  have original : amendment.original = event :=
    Option.some.inj (applicable.found.symm.trans found)
  obtain ⟨_, isBody⟩ := reprice_eq applicable.repriced
  have version : amendment.version env = amendedId env event body.idempotencyKey := by
    rw [Repriced.version, original, isBody]
  refine ⟨original, original ▸ applicable.repriced, version, original, ?_, ?_, ?_⟩
  · exact ⟨rivals.agrees.linear.ids, event.status, by rw [rivals.current]; decide, found⟩
  · rw [version]
    exact rivals.absent
  · intro either
    have funded := applicable.funded
    rw [original] at funded
    exact funded either

/-- **Once one amendment is applied and the other is not, that one stands**, if its credits are not
negative. -/
theorem oneStands_iff (rivals : Rivals env steps s event body body') (lawful : env.Lawful)
    {amendment : Repriced} (applicable : Applicable env s event.id body amendment)
    (applied : amendment.Applied env s s') {versions : List EventId}
    (listed : amendedId env event body.idempotencyKey ∈ versions)
    (only : ∀ id ∈ versions, id = amendedId env event body.idempotencyKey ∨
      id = amendedId env event body'.idempotencyKey) :
    OneStands env event.id versions s' ↔ 0 ≤ amendment.burned := by
  obtain ⟨original, _, version, _⟩ := rivals.pending applicable
  obtain ⟨own, inside, source, isId⟩ := rivals.known
  have agrees := rivals.agrees.applied lawful rivals.keyed applicable
    ⟨own, inside, source, isId.trans version.symm⟩ applied
  obtain ⟨reversed, charged, link, reverses, recharges, draw, rfl⟩ := applied
  have sameEvents : charged.events = s.events := recharges.events.trans reverses.events
  have isVersion : (amendment.amended env link draw).id =
      amendedId env event body.idempotencyKey := version
  rw [← (amendment.priced_amended lawful link draw).credits]
  refine agrees.oneStands_iff (List.mem_append_right _ (List.mem_singleton_self _)) rfl
    (congrArg (fun original : Event => some original.id) original) (isVersion.symm ▸ listed)
    fun id listed' present => ?_
  rw [isVersion]
  rcases only id listed' with same | rfl
  · exact same
  · rw [List.map_append, sameEvents, setStatus_eq rivals.agrees.linear.ids, ids_restate,
      List.mem_append, List.map_singleton, List.mem_singleton] at present
    rcases present with before | same
    · exact absurd before rivals.swap.absent
    · exact same.trans isVersion

/-- An amendment that applies makes at least one call up to the recording. -/
theorem calls_pos (rivals : Rivals env steps s event body body') {amendment : Repriced}
    (applicable : Applicable env s event.id body amendment) :
    callsToAmend env event body = (callsToAmend env event body - 1) + 1 := by
  obtain ⟨_, repriced, _, _⟩ := rivals.pending applicable
  rw [callsToAmend, repriced]
  rfl

section Race

variable {turns : List Server.Side} {reply reply' : Except ApiError AmendUsageResult}
  {amendment : Repriced} {versions : List EventId}

/-- The first call of either reads the event. -/
theorem read (rivals : Rivals env steps s event body body') {middle : Stores}
    {answer : Except EventError Event}
    (performed : (server env).perform (.getEvent event.id) s answer middle) :
    answer = .ok event ∧ middle = s := by
  obtain ⟨isAnswer, same⟩ := perform_getEvent performed
  rw [isAnswer, Events.get, rivals.agrees.linear.find_of_mem rivals.member]
  exact ⟨rfl, same⟩

/-- An amendment that applies, while nobody else does anything. -/
theorem assures_alone (rivals : Rivals env steps s event body body')
    (applicable : Applicable env s event.id body amendment) :
    (server env).Assures Eq (AmendsOnly event (amendedId env event body.idempotencyKey))
      (amendUsage env event.id body) (fun _ _ => True) s := by
  obtain ⟨_, repriced, version, pending⟩ := rivals.pending applicable
  rintro _ rfl answer middle performed
  obtain ⟨rfl, rfl⟩ := rivals.read performed
  refine ⟨.refl _, ?_⟩
  have rest := assures_recheck (version ▸ rivals.different) pending (version ▸ rivals.apart)
    rivals.current rivals.engine repriced
  rw [version] at rest
  exact rest.imp (fun s _ same => same ▸ .refl s) (fun _ _ => id) fun _ _ _ => trivial

/-- **One applies and the other does not.** -/
theorem stands_alone (rivals : Rivals env steps s event body body') (lawful : env.Lawful)
    (applicable : Applicable env s event.id body amendment) (not : ¬ Applies env s event body')
    (finishes : (server env).Finishes turns (amendUsage env event.id body)
      (amendUsage env event.id body') s reply reply' s')
    (listed : amendedId env event body.idempotencyKey ∈ versions)
    (only : ∀ id ∈ versions, id = amendedId env event body.idempotencyKey ∨
      id = amendedId env event body'.idempotencyKey) :
    OneStands env event.id versions s' ↔ 0 ≤ amendment.burned := by
  have serves := (Server.finishes_assures (fun _ => rfl) AmendsOnly.refl (fun _ _ _ => Eq.trans)
    (fun _ _ _ => AmendsOnly.trans) finishes (rivals.assures_alone applicable).serves
    (assures_inapplicable rivals.agrees rivals.member rivals.current rivals.engine
      rivals.swap.absent not)).1
  rcases serves_amendUsage serves with ⟨_, none⟩ | ⟨amendment', applicable', applied⟩
  · exact absurd applicable (none amendment)
  · rw [applicable.unique applicable']
    exact rivals.oneStands_iff lawful applicable' applied listed only

/-- **One records its version before the other starts.** -/
theorem stands_first (rivals : Rivals env steps s event body body') (lawful : env.Lawful)
    (applicable : Applicable env s event.id body amendment)
    (early : List.replicate (callsToAmend env event body) .first <+: turns)
    (finishes : (server env).Finishes turns (amendUsage env event.id body)
      (amendUsage env event.id body') s reply reply' s')
    (listed : amendedId env event body.idempotencyKey ∈ versions)
    (only : ∀ id ∈ versions, id = amendedId env event body.idempotencyKey ∨
      id = amendedId env event body'.idempotencyKey) :
    OneStands env event.id versions s' ↔ 0 ≤ amendment.burned := by
  obtain ⟨original, repriced, _, pending⟩ := rivals.pending applicable
  rw [callsToAmend, repriced] at early
  obtain ⟨later, rfl⟩ := early
  obtain ⟨left, right, middle, first, rest⟩ := finishes.split
  obtain ⟨calls, rfl⟩ := first.alone
  obtain ⟨applied, account, next, rfl⟩ := calls_amendUsage applicable calls
  have superseded : find middle.events event.id = some { event with status := .amended } := by
    obtain ⟨reversed, charged, link, reverses, recharges, draw, rfl⟩ := id applied
    have sameEvents : charged.events = s.events := recharges.events.trans reverses.events
    obtain ⟨_, status, _, found⟩ := pending.standing
    show find (setStatus amendment.original.id .amended charged.events ++ [_]) event.id = _
    rw [sameEvents, setStatus_eq rivals.agrees.linear.ids, original]
    exact find_superseded found
  have unchanged := Server.finishes_unchanged rest quiet_balance (assures_superseded superseded)
  rw [unchanged]
  exact rivals.oneStands_iff lawful applicable applied listed only

/-- **One starts before the other has recorded its version**: both are recorded. -/
theorem both_live (rivals : Rivals env steps s event body body') {amendment' : Repriced}
    (applicable : Applicable env s event.id body amendment)
    (applicable' : Applicable env s event.id body' amendment')
    (late : ¬ List.replicate (callsToAmend env event body) .first <+: .first :: turns)
    (finishes : (server env).Finishes (.first :: turns) (amendUsage env event.id body)
      (amendUsage env event.id body') s reply reply' s') :
    LiveVersion event (amendedId env event body.idempotencyKey) s' ∧
      LiveVersion event (amendedId env event body'.idempotencyKey) s' := by
  obtain ⟨_, repriced, version, pending⟩ := rivals.pending applicable
  obtain ⟨_, repriced', version', pending'⟩ := rivals.swap.pending applicable'
  rcases Server.turns_split (.first :: turns) with ⟨count, same⟩ | ⟨count, later, same⟩
  · rw [same] at finishes
    cases finishes.alone.2
  rw [same] at finishes late
  have early : count < amendment.calls env := by
    by_contra enough
    refine late ?_
    rw [callsToAmend, repriced]
    refine ⟨List.replicate (count - amendment.calls env) .first ++ .second :: later, ?_⟩
    rw [← List.append_assoc, List.replicate_append_replicate,
      Nat.add_sub_cancel' (not_lt.mp enough)]
  obtain ⟨left, right, middle, first, rest⟩ := finishes.split
  obtain ⟨calls, rfl⟩ := first.alone
  have events := calls_before_amend applicable early calls
  cases count with
  | zero => cases same
  | succ count =>
    obtain ⟨answer, start, performed, checks⟩ := calls.succ_inv
    obtain ⟨rfl, rfl⟩ := rivals.read performed
    have assures := assures_recheck (version ▸ rivals.different) pending (version ▸ rivals.apart)
      rivals.current rivals.engine repriced
    have moves := checks.guarantees AmendsOnly.refl AmendsOnly.refl
      (fun _ _ _ => AmendsOnly.trans) assures
    have assures := checks.assures AmendsOnly.refl assures
    obtain ⟨answer, after, performed, remaining⟩ := rest.second_inv
    have isRead : answer = .ok event ∧ after = middle := by
      obtain ⟨isAnswer, same⟩ := perform_getEvent performed
      rw [isAnswer, events, Events.get, rivals.agrees.linear.find_of_mem rivals.member]
      exact ⟨rfl, same⟩
    obtain ⟨rfl, rfl⟩ := isRead
    have assures' := assures_recheck (version' ▸ rivals.swap.different)
      (pending'.stable (version' ▸ version ▸ rivals.swap.different) moves)
      (version' ▸ rivals.swap.apart) rivals.current rivals.engine repriced'
    rw [version] at assures
    rw [version'] at assures'
    have ends := Server.finishes_assures AmendsOnly.refl AmendsOnly.refl
      (fun _ _ _ => AmendsOnly.trans) (fun _ _ _ => AmendsOnly.trans) remaining assures assures'
    exact ends

/-- **Two live versions are one too many.** -/
theorem not_oneStands (rivals : Rivals env steps s event body body')
    (live : LiveVersion event (amendedId env event body.idempotencyKey) s')
    (live' : LiveVersion event (amendedId env event body'.idempotencyKey) s') :
    ¬ OneStands env event.id versions s' := by
  obtain ⟨first, inside, isFirst, recorded, links⟩ := live
  obtain ⟨second, inside', isSecond, recorded', links'⟩ := live'
  rintro ⟨version, _, _, _, _, unique, _⟩
  have one := unique first inside recorded
    ⟨event.id, .refl, Relation.ReflTransGen.single ⟨first, inside, rfl, links⟩⟩
  have two := unique second inside' recorded'
    ⟨event.id, .refl, Relation.ReflTransGen.single ⟨second, inside', rfl, links'⟩⟩
  rw [one] at isFirst
  rw [two] at isSecond
  exact rivals.different (isFirst.symm.trans isSecond)

/-- With nothing to apply, no amendment stands. -/
theorem none_stands (rivals : Rivals env steps s event body body')
    (not : ¬ Applies env s event body) (not' : ¬ Applies env s event body')
    (finishes : (server env).Finishes turns (amendUsage env event.id body)
      (amendUsage env event.id body') s reply reply' s')
    (only : ∀ id ∈ versions, id = amendedId env event body.idempotencyKey ∨
      id = amendedId env event body'.idempotencyKey) :
    ¬ OneStands env event.id versions s' := by
  have quiet : ∀ {body body' : AmendUsageBody}, Rivals env steps s event body body' →
      ¬ Applies env s event body →
      (server env).Assures Eq Eq (amendUsage env event.id body) (fun _ _ => True) s := by
    intro body body' rivals not
    have quiet : (server env).Assures (AmendsOnly event event.id) Eq (amendUsage env event.id body)
        (fun _ _ => True) s := assures_inapplicable rivals.agrees rivals.member rivals.current
      rivals.engine rivals.absent not
    exact quiet.imp (fun s _ same => same ▸ .refl s) (fun _ _ => id) fun _ _ => id
  have unchanged := Server.finishes_unchanged finishes (quiet rivals not) (quiet rivals.swap not')
  rintro ⟨version, inside, listed, _⟩
  rw [unchanged] at inside
  have present := List.mem_map_of_mem (f := Event.id) inside
  rcases only version.id listed with same | same
  · exact rivals.absent (same ▸ present)
  · exact rivals.swap.absent (same ▸ present)

end Race

end Rivals

section

variable {env : Env} {s : Stores} {event : Event} {body body' : AmendUsageBody}
  {amendment : Repriced} {side : Server.Side} {turns : List Server.Side}

/-- For an amendment that can be applied it is about its credits and the order of turns. -/
theorem prevails_iff (applicable : Applicable env s event.id body amendment) :
    Prevails env s event body body' side turns ↔ 0 ≤ amendment.burned ∧
      (Applies env s event body' →
        List.replicate (callsToAmend env event body) side <+: turns) := by
  constructor
  · rintro ⟨other, applicable', condition⟩
    exact applicable.unique applicable' ▸ condition
  · exact fun condition => ⟨amendment, applicable, condition⟩

theorem not_prevails (not : ¬ Applies env s event body) (body' : AmendUsageBody)
    (side : Server.Side) (turns : List Server.Side) :
    ¬ Prevails env s event body body' side turns := by
  rintro ⟨amendment, applicable, _⟩
  exact not ⟨amendment, applicable⟩

end

/-- Both requests derive versions of their own. -/
theorem rivals_of_runs {env : Env} (lawful : env.Lawful)
    {steps : List (Request × Stores)} {s : Stores}
    (runs : Runs (Request.Served env) Stores.new steps s) {event : Event}
    {body body' : AmendUsageBody} (keyed : Keyed env (steps ++ [(.amend event.id body, s),
      (.amend event.id body', s)])) (member : event ∈ s.events)
    (live : event.status = .recorded) (engine : isEnginePriced event = true)
    (different : body.idempotencyKey ≠ body'.idempotencyKey) :
    Rivals env (steps ++ [(.amend event.id body, s), (.amend event.id body', s)]) s event body
      body' := by
  have agrees : Agrees env (steps ++ [(.amend event.id body, s), (.amend event.id body', s)]) s :=
    (Agrees.of_runs lawful runs keyed.init).mono
  have found := agrees.linear.find_of_mem member
  have inside : ∀ {own : AmendUsageBody}, own = body ∨ own = body' →
      (⟨.amended event.id own.idempotencyKey, event.orgId, amendKey event own.idempotencyKey⟩ :
        Derived) ∈ derived (steps ++ [(.amend event.id body, s), (.amend event.id body', s)]) := by
    intro own either
    rw [derived_append]
    refine List.mem_append_right _ (List.mem_flatMap.mpr ⟨(.amend event.id own, s), ?_, ?_⟩)
    · rcases either with rfl | rfl
      · exact List.mem_cons_self
      · exact List.mem_cons_of_mem _ (List.mem_singleton_self _)
    · rw [Request.derived, found]
      exact List.mem_singleton_self _
  have first := inside (Or.inl rfl)
  have second := inside (Or.inr rfl)
  refine ⟨agrees, keyed, member, live, engine, ⟨_, first, rfl, rfl⟩, ⟨_, second, rfl, rfl⟩, ?_⟩
  intro same
  have sources := keyed.source first second same
  exact different (Source.amended.inj sources).2

/-- Only one of the two can make all its calls first. -/
theorem not_both_first {first second : Nat} {turns : List Server.Side}
    (early : List.replicate (first + 1) .first <+: turns) :
    ¬ List.replicate (second + 1) .second <+: turns := by
  intro early'
  obtain ⟨rest, rfl⟩ := early
  obtain ⟨rest', same⟩ := early'
  cases same

/-- **Two amendments of one event.** From every state that sequential requests reach (with keys as
for the agreement), for every live engine-priced event and every interleaving of two amendments of
it with different keys: when both have answered, exactly one of them stands if and only if one of them
can be applied (it can be priced, and the account is there if anything is posted), prices at nothing
negative and, if the other can be applied too, makes all its calls up to the recording before the other
makes its first. -/
theorem amend_race {env : Env} (lawful : env.Lawful) {steps : List (Request × Stores)} {s : Stores}
    (runs : Runs (Request.Served env) Stores.new steps s) {event : Event}
    {body body' : AmendUsageBody} (keyed : Keyed env (steps ++ [(.amend event.id body, s),
      (.amend event.id body', s)])) (member : event ∈ s.events)
    (live : event.status = .recorded) (engine : isEnginePriced event = true)
    (different : body.idempotencyKey ≠ body'.idempotencyKey) {turns : List Server.Side}
    {reply reply' : Except ApiError AmendUsageResult} {s' : Stores}
    (finishes : (server env).Finishes turns (amendUsage env event.id body)
      (amendUsage env event.id body') s reply reply' s') :
    OneStands env event.id [amendedId env event body.idempotencyKey,
      amendedId env event body'.idempotencyKey] s' ↔
    Prevails env s event body body' .first turns ∨ Prevails env s event body' body .second turns := by
  have rivals := rivals_of_runs lawful runs keyed member live engine different
  have listed : ∀ id ∈ [amendedId env event body.idempotencyKey,
      amendedId env event body'.idempotencyKey], id = amendedId env event body.idempotencyKey ∨
      id = amendedId env event body'.idempotencyKey := by
    intro id inside
    simpa using inside
  have listed' := fun id inside => (listed id inside).symm
  have swapped := finishes.swap
  by_cases left : Applies env s event body
  · obtain ⟨amendment, applicable⟩ := id left
    by_cases right : Applies env s event body'
    · obtain ⟨amendment', applicable'⟩ := id right
      rw [prevails_iff applicable, prevails_iff applicable']
      by_cases early : List.replicate (callsToAmend env event body) .first <+: turns
      · have late : ¬ List.replicate (callsToAmend env event body') .second <+: turns := by
          rw [rivals.calls_pos applicable] at early
          rw [rivals.swap.calls_pos applicable']
          exact not_both_first early
        rw [rivals.stands_first lawful applicable early finishes (by simp) listed]
        simp only [early, late, left, right, implies_true, and_true, true_implies, and_false, or_false]
      by_cases early' : List.replicate (callsToAmend env event body') .second <+: turns
      · rw [rivals.swap.stands_first lawful applicable'
          (Server.replicate_other_prefix.mpr early') swapped (by simp) listed']
        simp only [early, early', left, right, implies_true, and_true, true_implies, and_false,
          false_or]
      refine iff_of_false ?_ fun condition => condition.elim (fun first => early (first.2 right))
        fun second => early' (second.2 left)
      match turns with
      | [] => cases finishes.nil_inv.1
      | .first :: turns =>
        obtain ⟨one, two⟩ := rivals.both_live applicable applicable' early finishes
        exact rivals.not_oneStands one two
      | .second :: turns =>
        have late := fun start => early' (Server.replicate_other_prefix.mp start)
        obtain ⟨two, one⟩ := rivals.swap.both_live applicable' applicable late swapped
        exact rivals.not_oneStands one two
    · rw [prevails_iff applicable, rivals.stands_alone lawful applicable right finishes (by simp) listed]
      have never := not_prevails right body .second turns
      simp only [right, never, false_implies, and_true, or_false]
  · have never := not_prevails left body' .first turns
    by_cases right : Applies env s event body'
    · obtain ⟨amendment', applicable'⟩ := id right
      rw [prevails_iff applicable',
        rivals.swap.stands_alone lawful applicable' left swapped (by simp) listed']
      simp only [left, never, false_implies, and_true, false_or]
    · have never' := not_prevails right body .second turns
      exact iff_of_false (rivals.none_stands left right finishes listed)
        fun condition => condition.elim never never'

/-- Six tokens. -/
def firstRival : AmendUsageBody := ⟨⟨6, 0, 0, 0, 0⟩, none, none, "b"⟩

/-- Two tokens. -/
def secondRival : AmendUsageBody := ⟨⟨2, 0, 0, 0, 0⟩, none, none, "cc"⟩

/-- The live event of the sample, which either amendment can be applied to. -/
theorem sample_live : ∃ event ∈ sampleStores.events, event.id = 18 ∧ event.status = .recorded ∧
    isEnginePriced event = true ∧ callsToAmend sampleEnv event firstRival = 5 ∧
    ∃ amendment, Applicable sampleEnv sampleStores event.id firstRival amendment ∧
      0 ≤ amendment.burned := by
  have read : (find sampleStores.events 18).map (fun event => (event.status, isEnginePriced event,
      callsToAmend sampleEnv event firstRival,
      (reprice sampleEnv event firstRival).toOption.map Repriced.burned,
      (find sampleStores.events (amendedId sampleEnv event firstRival.idempotencyKey)).isNone,
      sampleStores.ledger.accounts.contains event.accountId)) =
      some (.recorded, true, 5, some 6, true, true) := by
    decide +kernel
  obtain ⟨event, found, fields⟩ := Option.map_eq_some_iff.mp read
  obtain ⟨member, isId⟩ := find_eq_some found
  simp only [Prod.mk.injEq] at fields
  obtain ⟨live, engine, count, burned, absent, present⟩ := fields
  refine ⟨event, member, isId, live, engine, count, ?_⟩
  rw [callsToAmend] at count
  split at count
  · rename_i amendment repriced
    obtain ⟨rfl, isBody⟩ := reprice_eq repriced
    rw [← isBody] at absent
    rw [repriced] at burned
    have six : amendment.burned = 6 := Option.some.inj burned
    exact ⟨amendment, ⟨isId ▸ found, live, engine, Option.isNone_iff_eq_none.mp absent, repriced,
      fun _ => present⟩, six ▸ by decide⟩
  · cases count

theorem rivals_keyed : Keyed sampleEnv (sampleSteps ++ [(.amend 18 firstRival, sampleStores),
    (.amend 18 secondRival, sampleStores)]) := by
  have keys : ((bodies (sampleSteps ++ [(.amend 18 firstRival, sampleStores),
      (.amend 18 secondRival, sampleStores)])).map MeterUsageBody.idempotencyKey).Nodup := by
    decide +kernel
  have isDerived : derived (sampleSteps ++ [(.amend 18 firstRival, sampleStores),
      (.amend 18 secondRival, sampleStores)]) = [⟨.metered "k", 1, "k::event"⟩,
        ⟨.amended 8 "a", 1, "k::event::amend::a"⟩,
        ⟨.amended 18 "b", 1, "k::event::amend::a::amend::b"⟩,
        ⟨.amended 18 "cc", 1, "k::event::amend::a::amend::cc"⟩] := by decide +kernel
  refine ⟨fun first member second member' => List.inj_on_of_nodup_map keys member member', ?_, ?_⟩
  · rw [isDerived]
    decide
  · rw [isDerived]
    decide

/-- The two requests in turns. -/
def alternating : List (Server.Side × Outside) :=
  drawTurns [.first, .second, .first, .second, .first, .second, .first, .second, .first, .second,
    .first, .second]

/-- In turns, both amendments are recorded: two live versions. -/
theorem amend_race_overlapping : ∃ event ∈ sampleStores.events, ∃ reply reply' s',
    Runs (Request.Served sampleEnv) Stores.new sampleSteps sampleStores ∧
    Keyed sampleEnv (sampleSteps ++ [(.amend event.id firstRival, sampleStores),
      (.amend event.id secondRival, sampleStores)]) ∧
    event.status = .recorded ∧ isEnginePriced event = true ∧
    firstRival.idempotencyKey ≠ secondRival.idempotencyKey ∧
    (server sampleEnv).Finishes (alternating.map Prod.fst)
      (amendUsage sampleEnv event.id firstRival) (amendUsage sampleEnv event.id secondRival)
      sampleStores reply reply' s' ∧
    ¬ OneStands sampleEnv event.id [amendedId sampleEnv event firstRival.idempotencyKey,
      amendedId sampleEnv event secondRival.idempotencyKey] s' := by
  obtain ⟨event, member, isId, live, engine, _⟩ := sample_live
  have done : ((follow sampleEnv alternating (amendUsage sampleEnv 18 firstRival)
      (amendUsage sampleEnv 18 secondRival) sampleStores).map fun result =>
        (result.2.2.events.filter fun event => event.status = .recorded ∧
          event.supersedes = some 18).map Event.id) = some [28, 29] := by decide +kernel
  obtain ⟨⟨reply, reply', s'⟩, followed, versions⟩ := Option.map_eq_some_iff.mp done
  have inside : ∀ id ∈ ([28, 29] : List EventId), ∃ version ∈ s'.events,
      version.id = id ∧ version.status = .recorded ∧ version.supersedes = some event.id := by
    intro id listed
    rw [← versions] at listed
    obtain ⟨version, stored, same⟩ := List.mem_map.mp listed
    obtain ⟨stored, recorded⟩ := List.mem_filter.mp stored
    obtain ⟨recorded, links⟩ := of_decide_eq_true recorded
    exact ⟨version, stored, same, recorded, isId ▸ links⟩
  have finishes := finishes_of_follow followed
  have keyed := rivals_keyed
  rw [← isId] at finishes keyed
  refine ⟨event, member, reply, reply', s', sample_runs, keyed, live, engine, by decide, finishes, ?_⟩
  rintro ⟨only, _, _, _, _, unique, _⟩
  obtain ⟨first, stored, isFirst, recorded, links⟩ := inside 28 (by decide)
  obtain ⟨second, stored', isSecond, recorded', links'⟩ := inside 29 (by decide)
  have one := unique first stored recorded
    ⟨event.id, .refl, Relation.ReflTransGen.single ⟨first, stored, rfl, links⟩⟩
  have two := unique second stored' recorded'
    ⟨event.id, .refl, Relation.ReflTransGen.single ⟨second, stored', rfl, links'⟩⟩
  rw [one.trans two.symm, isSecond] at isFirst
  exact absurd isFirst (by decide)

/-- The first amendment runs as a whole before the second one starts. -/
def oneByOne : List (Server.Side × Outside) :=
  drawTurns [.first, .first, .first, .first, .first, .first, .second, .second]

/-- One after the other: the second is refused, and the first stands. -/
theorem amend_race_sample : ∃ event ∈ sampleStores.events, ∃ reply reply' s',
    (server sampleEnv).Finishes (oneByOne.map Prod.fst) (amendUsage sampleEnv event.id firstRival)
      (amendUsage sampleEnv event.id secondRival) sampleStores reply reply' s' ∧
    OneStands sampleEnv event.id [amendedId sampleEnv event firstRival.idempotencyKey,
      amendedId sampleEnv event secondRival.idempotencyKey] s' := by
  obtain ⟨event, member, isId, live, engine, count, amendment, applicable, nonneg⟩ := sample_live
  have done : (follow sampleEnv oneByOne (amendUsage sampleEnv 18 firstRival)
      (amendUsage sampleEnv 18 secondRival) sampleStores).isSome := by decide +kernel
  obtain ⟨⟨reply, reply', s'⟩, followed⟩ := Option.isSome_iff_exists.mp done
  have finishes := finishes_of_follow followed
  have keyed := rivals_keyed
  rw [← isId] at finishes keyed
  refine ⟨event, member, reply, reply', s', finishes, ?_⟩
  refine (amend_race sampleEnv_lawful sample_runs keyed member live engine (by decide)
    finishes).mpr (Or.inl ⟨amendment, applicable, nonneg, fun _ => ?_⟩)
  rw [count]
  decide

end Meter.Api
