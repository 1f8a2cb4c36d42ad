/-
**Amendments that are cut off.**

An amendment posts its new charge before the version that owns it exists. If it is cut off in
between, the charge waits: a retry under the same key finds the charge and records the version that
names it. Another amendment of the same event does not look for waiting charges; once it has recorded
its own version, the retry is refused and the charge is stranded.

* `Attempt` — requests that ran to their answer and amendments that were cut off after some calls.
* `Kept` — every charge of an amendment with anything left is named by its live version, or waits for
  a cut-off amendment of a live event to be retried.
* `retried_strands_nothing` — **no charge is stranded, as long as no amendment records its version over
  a waiting charge that it does not adopt** (`Attempt.Adopts`).
-/

import Meter.Api.AmendRace

namespace Meter.Api

open Meter.Lib Meter.Pricing Meter.Events
open Meter.Ledger (LedgerEntry LedgerError Action)

/-! ### Runs with cut-offs -/

/-- A request that ran to its answer, or an amendment that was cut off after some of its calls. -/
inductive Attempt where
  | served (request : Request)
  | cut (event : EventId) (body : AmendUsageBody) (count : Nat)

/-- What was asked for. -/
def Attempt.request : Attempt → Request
  | .served request => request
  | .cut event body _ => .amend event body

def Attempt.Made (env : Env) : Attempt → Stores → Stores → Prop
  | .served request, s, s' => request.Served env s s'
  | .cut event body count, s, s' =>
    ∃ rest, (server env).Calls count (amendUsage env event body) s rest s'

/-- The requests of a run, with the states they found. -/
def requests (steps : List (Attempt × Stores)) : List (Request × Stores) :=
  steps.map fun step => (step.1.request, step.2)

/-- An amendment was cut off and not answered since. -/
def Outstanding : List Attempt → EventId → AmendUsageBody → Prop
  | [], _, _ => False
  | attempt :: later, event, body =>
    ((∃ count, attempt = .cut event body count) ∧ .served (.amend event body) ∉ later) ∨
      Outstanding later event body

/-- A charge that an amendment of the event has posted, while its version is not there. -/
def Unadopted (env : Env) (s : Stores) (original : Event) (entry : LedgerEntry) : Prop :=
  entry ∈ s.ledger.entries ∧ entry.entryType = .usage ∧
    0 < s.ledger.unreversedRemainder entry.id ∧
    ∃ key, entry.idempotencyKey = some (amendChargeKey (amendedId env original key)) ∧
      amendedId env original key ∉ s.events.map Event.id

/-- The attempt gets as far as the recording of the version. -/
def Attempt.Records (env : Env) (amendment : Repriced) : Attempt → Prop
  | .served _ => True
  | .cut _ _ count => amendment.calls env ≤ count

/-- An amendment that records its version adopts every charge that waits for a version of the event:
it has the same key, and something to charge. -/
def Attempt.Adopts (env : Env) (s : Stores) (attempt : Attempt) : Prop :=
  ∀ event body amendment, attempt.request = .amend event body →
    Applicable env s event body amendment → attempt.Records env amendment →
    ∀ entry, Unadopted env s amendment.original entry →
      0 < amendment.burned ∧ entry.idempotencyKey = some (amendChargeKey (amendment.version env))

section Outstanding

variable {attempts : List Attempt} {attempt : Attempt} {event : EventId} {body : AmendUsageBody}

theorem Outstanding.snoc (outstanding : Outstanding attempts event body)
    (other : attempt ≠ .served (.amend event body)) :
    Outstanding (attempts ++ [attempt]) event body := by
  induction attempts with
  | nil => exact outstanding.elim
  | cons first later ih =>
    rcases outstanding with ⟨isCut, unanswered⟩ | outstanding
    · refine Or.inl ⟨isCut, fun answered => ?_⟩
      rcases List.mem_append.mp answered with before | last
      · exact unanswered before
      · exact other (List.mem_singleton.mp last).symm
    · exact Or.inr (ih outstanding)

theorem Outstanding.cut (attempts : List Attempt) (event : EventId) (body : AmendUsageBody)
    (count : Nat) : Outstanding (attempts ++ [.cut event body count]) event body := by
  induction attempts with
  | nil => exact Or.inl ⟨⟨count, rfl⟩, List.not_mem_nil⟩
  | cons first later ih => exact Or.inr ih

end Outstanding

/-! ### Charges that wait -/

/-- An id that was derived for an amendment. -/
def Known (env : Env) (known : List Derived) (original : EventId) (key : String)
    (version : EventId) : Prop :=
  ∃ own ∈ known, own.source = .amended original key ∧ own.id env = version

/-- Derived ids have one source. -/
def Distinct (env : Env) (known : List Derived) : Prop :=
  ∀ first ∈ known, ∀ second ∈ known, first.id env = second.id env → first.source = second.source

/-- The charge is named by its live version. -/
def Owned (env : Env) (events : List Event) (version : EventId) (entry : LedgerEntry) : Prop :=
  ∃ event ∈ events, event.status = .recorded ∧ event.id = version ∧
    recordedChargeEntry env event = some entry.id ∧ entry.accountId = event.accountId ∧
    entry.runId = event.runId

/-- The charge waits for a cut-off amendment to be retried. -/
def Waiting (env : Env) (known : List Derived) (pending : EventId → AmendUsageBody → Prop)
    (events : List Event) (version : EventId) (entry : LedgerEntry) : Prop :=
  ∃ original ∈ events, original.status = .recorded ∧ isEnginePriced original = true ∧
    entry.accountId = original.accountId ∧ entry.runId = original.runId ∧
    version ∉ events.map Event.id ∧
    ∃ body amendment, pending original.id body ∧ reprice env original body = .ok amendment ∧
      0 < amendment.burned ∧ amendment.version env = version ∧
      Known env known original.id body.idempotencyKey version

/-- The refund of an amendment reverses the charge of the event it amends. -/
def Reversing (env : Env) (known : List Derived) (events : List Event) (version : EventId)
    (entry : LedgerEntry) : Prop :=
  ∃ original ∈ events, ∃ key id, Known env known original.id key version ∧
    recordedChargeEntry env original = some id ∧ entry.reversesEntryId = some id

/-- **Every charge of an amendment is owned or waits.** -/
structure Kept (env : Env) (known : List Derived) (pending : EventId → AmendUsageBody → Prop)
    (s : Stores) : Prop where
  metered : s.ledger.Metered
  linear : Linear s.events
  links : ∀ event ∈ s.events, ∀ id, recordedChargeEntry env event = some id →
    id ∈ s.ledger.entryIds
  first : ∀ entry ∈ s.ledger.entries, ∀ version,
    entry.idempotencyKey = some (amendChargeKey version) →
    s.ledger.findKeyed entry.accountId (amendChargeKey version) = some entry
  reversing : ∀ entry ∈ s.ledger.entries, ∀ version,
    entry.idempotencyKey = some (amendReverseKey version) →
    Reversing env known s.events version entry
  charges : ∀ entry ∈ s.ledger.entries, entry.entryType = .usage → ∀ version,
    entry.idempotencyKey = some (amendChargeKey version) →
    0 < s.ledger.unreversedRemainder entry.id →
    Owned env s.events version entry ∨ Waiting env known pending s.events version entry

section Kept

variable {env : Env} {known : List Derived} {pending : EventId → AmendUsageBody → Prop}
  {s s' : Stores}

theorem Kept.new : Kept env known pending Stores.new where
  metered := .new
  linear := .new
  links := fun _ member => absurd member List.not_mem_nil
  first := fun _ member => absurd member List.not_mem_nil
  reversing := fun _ member => absurd member List.not_mem_nil
  charges := fun _ member => absurd member List.not_mem_nil

/-- More ids were derived, and what waits still does. -/
theorem Kept.weaken {known' : List Derived} {pending' : EventId → AmendUsageBody → Prop}
    (kept : Kept env known pending s) (more : known ⊆ known')
    (still : ∀ original ∈ s.events, ∀ body amendment, original.status = .recorded →
      isEnginePriced original = true → pending original.id body →
      reprice env original body = .ok amendment → amendment.version env ∉ s.events.map Event.id →
      s.ledger.accounts.contains original.accountId = true → pending' original.id body) :
    Kept env known' pending' s where
  metered := kept.metered
  linear := kept.linear
  links := kept.links
  first := kept.first
  reversing := by
    intro entry stored version isKey
    obtain ⟨original, inside, key, id, ⟨own, member, rest⟩, links⟩ :=
      kept.reversing entry stored version isKey
    exact ⟨original, inside, key, id, ⟨own, more member, rest⟩, links⟩
  charges := by
    intro entry stored usage version isKey positive
    refine (kept.charges entry stored usage version isKey positive).imp_right ?_
    rintro ⟨original, inside, live, engine, account, run, absent, body, amendment, waits, repriced,
      burned, isVersion, own, member, rest⟩
    have present := kept.metered.wf.entryAccounts entry stored
    rw [account] at present
    exact ⟨original, inside, live, engine, account, run, absent, body, amendment,
      still original inside body amendment live engine waits repriced (isVersion ▸ absent) present,
      repriced, burned, isVersion, own, more member, rest⟩

/-- Postings that are no charges of amendments. -/
theorem Kept.posted (kept : Kept env known pending s) (metered : s'.ledger.Metered)
    (events : s'.events = s.events) {posted : List LedgerEntry}
    (entries : s'.ledger.entries = s.ledger.entries ++ posted)
    (less : ∀ entry ∈ s.ledger.entries, entry.entryType = .usage →
      0 < s'.ledger.unreversedRemainder entry.id → 0 < s.ledger.unreversedRemainder entry.id)
    (noCharge : ∀ entry ∈ posted, ∀ version,
      entry.idempotencyKey ≠ some (amendChargeKey version))
    (reversing : ∀ entry ∈ posted, ∀ version,
      entry.idempotencyKey = some (amendReverseKey version) →
      Reversing env known s.events version entry) : Kept env known pending s' where
  metered := metered
  linear := events.symm ▸ kept.linear
  links := by
    intro event inside id links
    rw [events] at inside
    rw [Ledger.State.entryIds, entries, List.map_append]
    exact List.mem_append_left _ (kept.links event inside id links)
  first := by
    intro entry stored version isKey
    rw [entries, List.mem_append] at stored
    rcases stored with before | now
    · exact Ledger.State.findKeyed_append entries (kept.first entry before version isKey)
    · exact absurd isKey (noCharge entry now version)
  reversing := by
    intro entry stored version isKey
    rw [events]
    rw [entries, List.mem_append] at stored
    rcases stored with before | now
    · exact kept.reversing entry before version isKey
    · exact reversing entry now version isKey
  charges := by
    intro entry stored usage version isKey positive
    rw [events]
    rw [entries, List.mem_append] at stored
    rcases stored with before | now
    · exact kept.charges entry before usage version isKey (less entry before usage positive)
    · exact absurd isKey (noCharge entry now version)

/-- Postings that carry no key and reverse nothing. -/
theorem Kept.unkeyed (kept : Kept env known pending s) (metered : s'.ledger.Metered)
    (events : s'.events = s.events) {posted : List LedgerEntry}
    (entries : s'.ledger.entries = s.ledger.entries ++ posted)
    (plain : ∀ entry ∈ posted, entry.entryType ≠ .usage ∧ entry.idempotencyKey = none ∧
      entry.reversesEntryId = none) : Kept env known pending s' := by
  refine kept.posted metered events entries ?_ ?_ ?_
  · intro entry stored _ positive
    rwa [remainder_of_plain entries (fun entry inside => (plain entry inside).2.2)
      (List.mem_map_of_mem stored)] at positive
  · intro entry inside version isKey
    cases (plain entry inside).2.1.symm.trans isKey
  · intro entry inside version isKey
    cases (plain entry inside).2.1.symm.trans isKey

/-- **A new charge of an amendment waits.** -/
theorem Kept.charged (kept : Kept env known pending s) {entry : LedgerEntry} {version : EventId}
    (enabled : (Action.charge entry).Enabled s.ledger)
    (isKey : entry.idempotencyKey = some (amendChargeKey version))
    (waiting : Waiting env known pending s.events version entry) :
    Kept env known pending { s with ledger := (Action.charge entry).apply s.ledger } := by
  have entries := Action.apply_entries s.ledger (.charge entry)
  have unused := enabled.2.1 _ isKey
  refine ⟨kept.metered.charge enabled, kept.linear, ?_, ?_, ?_, ?_⟩
  · intro event inside id links
    rw [Ledger.State.entryIds, entries, List.map_append]
    exact List.mem_append_left _ (kept.links event inside id links)
  · intro other stored version' isKey'
    rw [entries, List.mem_append] at stored
    rcases stored with before | now
    · exact Ledger.State.findKeyed_append entries (kept.first other before version' isKey')
    · rw [List.mem_singleton.mp now] at isKey' ⊢
      have same := amendChargeKey_injective (Option.some.inj (isKey.symm.trans isKey'))
      rw [Ledger.State.findKeyed] at unused ⊢
      rw [entries, List.find?_append, ← same, unused]
      simp [Action.posted, isKey]
  · intro other stored version' isKey'
    rw [entries, List.mem_append] at stored
    rcases stored with before | now
    · exact kept.reversing other before version' isKey'
    · rw [List.mem_singleton.mp now, isKey, Option.some.injEq] at isKey'
      have kinds := congrArg keyKind isKey'
      rw [keyKind_amendChargeKey, keyKind_amendReverseKey] at kinds
      cases kinds
  · intro other stored usage version' isKey' positive
    rw [entries, List.mem_append] at stored
    rcases stored with before | now
    · have known' : other.id ∈ s.ledger.entryIds := List.mem_map_of_mem before
      rw [kept.metered.remainder_charge enabled (Or.inl known'), if_neg] at positive
      · exact kept.charges other before usage version' isKey' positive
      · intro same
        exact enabled.1.fresh (same ▸ known')
    · rw [List.mem_singleton.mp now] at isKey' ⊢
      have same := amendChargeKey_injective (Option.some.inj (isKey.symm.trans isKey'))
      rw [← same]
      exact Or.inr waiting

/-- Metering adds an event of its own. -/
theorem Kept.added (kept : Kept env known pending s) {new : Event} {key : String}
    (distinct : Distinct env known) (recorded : new.status = .recorded)
    (first : new.supersedes = none) (fresh : new.id ∉ s.events.map Event.id)
    (linked : ∀ id, recordedChargeEntry env new = some id → id ∈ s.ledger.entryIds)
    (own : ∃ own ∈ known, own.source = .metered key ∧ own.id env = new.id) :
    Kept env known pending { s with events := s.events ++ [new] } where
  metered := kept.metered
  linear := kept.linear.change (.add new fresh recorded first)
  links := by
    intro event inside id links
    rcases List.mem_append.mp inside with before | last
    · exact kept.links event before id links
    · exact linked id (List.mem_singleton.mp last ▸ links)
  first := kept.first
  reversing := by
    intro entry stored version isKey
    obtain ⟨original, inside, rest⟩ := kept.reversing entry stored version isKey
    exact ⟨original, List.mem_append_left _ inside, rest⟩
  charges := by
    intro entry stored usage version isKey positive
    rcases kept.charges entry stored usage version isKey positive with
      ⟨event, inside, rest⟩ | ⟨original, inside, live, engine, account, run, absent, body, amendment,
        waits, repriced, burned, isVersion, waiting, member, source, isId⟩
    · exact Or.inl ⟨event, List.mem_append_left _ inside, rest⟩
    · refine Or.inr ⟨original, List.mem_append_left _ inside, live, engine, account, run, ?_, body,
        amendment, waits, repriced, burned, isVersion, waiting, member, source, isId⟩
      intro present
      rw [List.map_append, List.mem_append, List.map_singleton, List.mem_singleton] at present
      rcases present with before | same
      · exact absent before
      · -- an amendment's id is no metered one
        obtain ⟨metered, member', source', isId'⟩ := own
        have sources := distinct waiting member metered member'
          (isId.trans (same.trans isId'.symm))
        rw [source, source'] at sources
        cases sources

/-- **A run void leaves nothing of the charges of its events.** -/
theorem Kept.voided (kept : Kept env known pending s) {run : RunId}
    (swept : ∀ entry ∈ s.ledger.entries, entry.entryType = .usage → entry.runId = some run →
      s.ledger.unreversedRemainder entry.id = 0) :
    Kept env known pending { s with events := restate (Events.voided run) s.events } where
  metered := kept.metered
  linear := kept.linear.change (.void run)
  links := by
    intro event inside id links
    obtain ⟨old, member, rfl⟩ := mem_restate.mp inside
    exact kept.links old member id links
  first := kept.first
  reversing := by
    intro entry stored version isKey
    obtain ⟨original, inside, rest⟩ := kept.reversing entry stored version isKey
    exact ⟨_, mem_restate_of_mem inside, rest⟩
  charges := by
    intro entry stored usage version isKey positive
    have untouched : ∀ event ∈ s.events, entry.runId = event.runId →
        event ∈ restate (Events.voided run) s.events := by
      intro event inside same
      refine mem_restate.mpr ⟨event, inside, ?_⟩
      rw [Events.voided, if_neg]
      rintro ⟨tagged, _⟩
      exact absurd (swept entry stored usage (same.trans tagged)) positive.ne'
    rcases kept.charges entry stored usage version isKey positive with
      ⟨event, inside, live, isId, links, account, same⟩ | ⟨original, inside, live, engine, account,
        same, absent, rest⟩
    · exact Or.inl ⟨event, untouched event inside same, live, isId, links, account, same⟩
    · refine Or.inr ⟨original, untouched original inside same, live, engine, account, same, ?_, rest⟩
      rw [ids_restate]
      exact absent

/-- **A recorded version takes over**: the charge of the event it supersedes is cleared, and the
charges that wait for the event are its own. -/
theorem Kept.recorded (kept : Kept env known pending s) (distinct : Distinct env known)
    {original new : Event} {key : String} (member : original ∈ s.events)
    (current : original.status = .recorded) (fresh : new.id ∉ s.events.map Event.id)
    (recorded : new.status = .recorded) (links : new.supersedes = some original.id)
    (account : new.accountId = original.accountId) (run : new.runId = original.runId)
    (own : Known env known original.id key new.id)
    (linked : ∀ id, recordedChargeEntry env new = some id → id ∈ s.ledger.entryIds)
    (cleared : ∀ entry ∈ s.ledger.entries, entry.entryType = .usage →
      recordedChargeEntry env original = some entry.id → entry.accountId = original.accountId →
      ¬ 0 < s.ledger.unreversedRemainder entry.id)
    (adopted : ∀ entry ∈ s.ledger.entries, entry.entryType = .usage →
      0 < s.ledger.unreversedRemainder entry.id → entry.accountId = original.accountId → ∀ key,
      entry.idempotencyKey = some (amendChargeKey (amendedId env original key)) →
      amendedId env original key ∉ s.events.map Event.id →
      amendedId env original key = new.id ∧ recordedChargeEntry env new = some entry.id) :
    Kept env known pending { s with
      events := restate (marked original.id) s.events ++ [new] } where
  metered := kept.metered
  linear := kept.linear.change (.supersede original new member current fresh recorded links)
  links := by
    intro event inside id links
    rcases List.mem_append.mp inside with before | last
    · obtain ⟨old, member, rfl⟩ := mem_restate.mp before
      exact kept.links old member id links
    · exact linked id (List.mem_singleton.mp last ▸ links)
  first := kept.first
  reversing := by
    intro entry stored version isKey
    obtain ⟨event, inside, rest⟩ := kept.reversing entry stored version isKey
    exact ⟨_, List.mem_append_left _ (mem_restate_of_mem inside), rest⟩
  charges := by
    have untouched : ∀ event ∈ s.events, event.id ≠ original.id →
        event ∈ restate (marked original.id) s.events ++ [new] := by
      intro event inside different
      refine List.mem_append_left _ (mem_restate.mpr ⟨event, inside, ?_⟩)
      rw [marked, if_neg different]
    intro entry stored usage version isKey positive
    rcases kept.charges entry stored usage version isKey positive with
      ⟨event, inside, live, isId, links', account', run'⟩ | ⟨waits, inside, live, engine, account',
        run', absent, body, amendment, rest, repriced, burned, isVersion, waiting⟩
    · refine Or.inl ⟨event, untouched event inside fun same => ?_, live, isId, links', account', run'⟩
      rw [kept.linear.eq_of_id inside member same] at links' account'
      exact cleared entry stored usage links' account' positive
    · by_cases same : waits.id = original.id
      · obtain rfl := kept.linear.eq_of_id inside member same
        have derives : amendedId env waits body.idempotencyKey = version := by
          obtain ⟨isOriginal, isBody⟩ := reprice_eq repriced
          rw [← isVersion, Repriced.version, isOriginal, isBody]
        obtain ⟨isNew, links'⟩ := adopted entry stored usage positive account' body.idempotencyKey
          (derives.symm ▸ isKey) (derives.symm ▸ absent)
        rw [derives] at isNew
        exact Or.inl ⟨new, List.mem_append_right _ (List.mem_singleton_self _), recorded, isNew.symm,
          links', account'.trans account.symm, run'.trans run.symm⟩
      · refine Or.inr ⟨waits, untouched waits inside same, live, engine, account', run', ?_, body,
          amendment, rest, repriced, burned, isVersion, waiting⟩
        intro present
        rw [List.map_append, ids_restate, List.mem_append, List.map_singleton,
          List.mem_singleton] at present
        rcases present with before | isNew
        · exact absent before
        · -- different events have amendments with different ids
          obtain ⟨first, inFirst, source, isId⟩ := waiting
          obtain ⟨second, inSecond, source', isId'⟩ := own
          have sources := distinct first inFirst second inSecond
            (isId.trans (isNew.trans isId'.symm))
          rw [source, source'] at sources
          exact same (Source.amended.inj sources).1

end Kept

/-! ### An amendment, call by call -/

section Amending

variable {env : Env} {known : List Derived} {pending : EventId → AmendUsageBody → Prop}
  {amendment : Repriced} {body : AmendUsageBody} {s reversed charged : Stores}

/-- **The reversal leaves nothing of the original's charge**, also if it was made before. -/
theorem Kept.reverses (kept : Kept env known pending s) (distinct : Distinct env known)
    (member : amendment.original ∈ s.events)
    (own : Known env known amendment.original.id body.idempotencyKey (amendment.version env))
    (reverses : amendment.Reverses env s reversed) :
    Kept env known pending reversed ∧
    (∀ entry ∈ reversed.ledger.entries, entry.entryType = .usage → entry ∈ s.ledger.entries ∧
      (0 < reversed.ledger.unreversedRemainder entry.id →
        0 < s.ledger.unreversedRemainder entry.id)) ∧
    ∀ entry ∈ reversed.ledger.entries, entry.entryType = .usage →
      recordedChargeEntry env amendment.original = some entry.id →
      entry.accountId = amendment.original.accountId →
      ¬ 0 < reversed.ledger.unreversedRemainder entry.id := by
  rcases reverses with ⟨noCharge, rfl⟩ | ⟨charge, reversal, isCharge, performed⟩
  · exact ⟨kept, fun entry stored _ => ⟨stored, id⟩, fun entry _ _ links => by
      cases noCharge.symm.trans links⟩
  rcases perform_reverseCharge performed with ⟨_, ⟨_, impossible⟩, _⟩ | ⟨_, _,
    ⟨existing, found, rfl⟩ | ⟨nothing, rfl⟩ | ⟨refund, enabled, _, links, isKey, rfl⟩⟩
  · cases impossible
  · refine ⟨kept, fun entry stored _ => ⟨stored, id⟩, fun entry stored usage links account => ?_⟩
    -- a refund under this key reverses the same charge
    obtain ⟨inside, _, isKey⟩ := Ledger.findKeyed_eq_some found
    obtain ⟨original, member', key, target, ⟨first, inFirst, source, isId⟩, links', reverses⟩ :=
      kept.reversing existing inside _ isKey
    obtain ⟨second, inSecond, source', isId'⟩ := own
    have sources := distinct first inFirst second inSecond (isId.trans isId'.symm)
    rw [source, source'] at sources
    rw [kept.linear.eq_of_id member' member (Source.amended.inj sources).1, links,
      Option.some.injEq] at links'
    rcases kept.metered.remainder_cases stored usage with ⟨none, _⟩ | ⟨_, zero⟩
    · have linked : existing ∈ reversed.ledger.linked entry.id :=
        List.mem_filter.mpr ⟨inside, decide_eq_true (by rw [reverses, links'])⟩
      rw [none] at linked
      exact absurd linked List.not_mem_nil
    · rw [zero]
      exact lt_irrefl 0
  · refine ⟨kept, fun entry stored _ => ⟨stored, id⟩, fun entry stored usage links account => ?_⟩
    have same := Option.some.inj (isCharge.symm.trans links)
    rcases nothing with foreign | spent
    · exact absurd account (foreign entry stored same.symm)
    · exact same ▸ spent
  · have entries := Action.apply_entries s.ledger (.reverse refund)
    have old : ∀ entry ∈ ((Action.reverse refund).apply s.ledger).entries,
        entry.entryType = .usage → entry ∈ s.ledger.entries := by
      intro entry stored usage
      rw [entries, List.mem_append] at stored
      rcases stored with before | now
      · exact before
      · rw [List.mem_singleton.mp now, enabled.2.1] at usage
        cases usage
    have remainder : ∀ entry ∈ s.ledger.entries,
        ((Action.reverse refund).apply s.ledger).unreversedRemainder entry.id =
          if entry.id = charge then 0 else s.ledger.unreversedRemainder entry.id :=
      fun entry stored => Ledger.State.Metered.remainder_reverse enabled links
        (List.mem_map_of_mem stored)
    have less : ∀ entry ∈ s.ledger.entries,
        0 < ((Action.reverse refund).apply s.ledger).unreversedRemainder entry.id →
        0 < s.ledger.unreversedRemainder entry.id := by
      intro entry stored positive
      rw [remainder entry stored] at positive
      split at positive
      · exact absurd positive (lt_irrefl 0)
      · exact positive
    refine ⟨kept.posted (kept.metered.reverse enabled) rfl entries (fun entry stored _ =>
      less entry stored) ?_ ?_, fun entry stored usage => ⟨old entry stored usage,
        less entry (old entry stored usage)⟩, fun entry stored usage links' _ => ?_⟩
    · intro entry now version isKey'
      rw [List.mem_singleton.mp now, isKey, Option.some.injEq] at isKey'
      have kinds := congrArg keyKind isKey'
      rw [Repriced.reversal, keyKind_amendReverseKey, keyKind_amendChargeKey] at kinds
      cases kinds
    · intro entry now version isKey'
      rw [List.mem_singleton.mp now] at isKey' ⊢
      have same := amendReverseKey_injective (Option.some.inj (isKey.symm.trans isKey'))
      exact ⟨amendment.original, member, body.idempotencyKey, charge, same ▸ own, isCharge, links⟩
    · rw [remainder entry (old entry stored usage),
        if_pos (Option.some.inj (links'.symm.trans isCharge))]
      exact lt_irrefl 0

/-- **The new charge waits for its version**, and a charge that waits under this key is the one that
is found. -/
theorem Kept.recharges (kept : Kept env known pending s) (member : amendment.original ∈ s.events)
    (current : amendment.original.status = .recorded)
    (engine : isEnginePriced amendment.original = true)
    (absent : amendment.version env ∉ s.events.map Event.id)
    (repriced : reprice env amendment.original body = .ok amendment)
    (waits : pending amendment.original.id body)
    (own : Known env known amendment.original.id body.idempotencyKey (amendment.version env))
    {link : Option EntryId} (recharges : amendment.Recharges env s charged link) :
    Kept env known pending charged ∧
    (∀ id, link = some id → id ∈ charged.ledger.entryIds) ∧
    (∀ entry ∈ charged.ledger.entries, entry ∈ s.ledger.entries ∨
      (link = some entry.id ∧ entry.id ∉ s.ledger.entryIds ∧
        entry.idempotencyKey = some (amendChargeKey (amendment.version env)))) ∧
    (∀ entry ∈ s.ledger.entries, charged.ledger.unreversedRemainder entry.id =
      s.ledger.unreversedRemainder entry.id) ∧
    ∀ entry ∈ charged.ledger.entries, 0 < amendment.burned →
      entry.accountId = amendment.original.accountId →
      entry.idempotencyKey = some (amendChargeKey (amendment.version env)) →
      link = some entry.id := by
  rcases recharges.cases with ⟨nothing, rfl, rfl⟩ | ⟨positive, _, entry, rfl, ⟨found, rfl⟩ |
    ⟨enabled, account, run, isKey, _, rfl⟩⟩
  · exact ⟨kept, fun _ impossible => (by cases impossible), fun entry stored => Or.inl stored,
      fun _ _ => rfl, fun _ _ positive => absurd positive nothing⟩
  · refine ⟨kept, ?_, fun entry stored => Or.inl stored, fun _ _ => rfl,
      fun other stored _ account isKey => ?_⟩
    · intro id isId
      rw [← Option.some.inj isId]
      exact List.mem_map_of_mem (Ledger.findKeyed_eq_some found).1
    · have first := kept.first other stored _ isKey
      rw [account] at first
      rw [Option.some.inj (first.symm.trans found)]
  · have entries := Action.apply_entries s.ledger (.charge entry)
    have waiting : Waiting env known pending s.events (amendment.version env) entry :=
      ⟨amendment.original, member, current, engine, account, run, absent, body, amendment, waits,
        repriced, positive, rfl, own⟩
    refine ⟨kept.charged enabled isKey waiting, fun id isId => ?_, fun other stored => ?_,
      fun other stored => ?_, fun other stored _ account' isKey' => ?_⟩
    · rw [← Option.some.inj isId, Ledger.State.entryIds, entries, List.map_append]
      exact List.mem_append_right _ (List.mem_singleton_self _)
    · rw [entries, List.mem_append] at stored
      rcases stored with before | now
      · exact Or.inl before
      · rw [List.mem_singleton.mp now]
        exact Or.inr ⟨rfl, enabled.1.fresh, isKey⟩
    · have known' : other.id ∈ s.ledger.entryIds := List.mem_map_of_mem stored
      rw [kept.metered.remainder_charge enabled (Or.inl known'), if_neg]
      intro same
      exact enabled.1.fresh (same ▸ known')
    · rw [entries, List.mem_append] at stored
      rcases stored with before | now
      · have unused := Ledger.findKeyed_eq_none.mp (enabled.2.1 _ isKey) other before
        exact absurd isKey' (unused (account'.trans account.symm))
      · rw [List.mem_singleton.mp now]

/-- **An amendment that stops anywhere keeps the charges**, as long as it adopts what waits for its
event before it records its version. -/
theorem Kept.amends (kept : Kept env known pending s) (lawful : env.Lawful)
    (distinct : Distinct env known) {s' : Stores} (member : amendment.original ∈ s.events)
    (current : amendment.original.status = .recorded)
    (engine : isEnginePriced amendment.original = true)
    (absent : amendment.version env ∉ s.events.map Event.id)
    (repriced : reprice env amendment.original body = .ok amendment)
    (waits : pending amendment.original.id body)
    (own : Known env known amendment.original.id body.idempotencyKey (amendment.version env))
    (reverses : amendment.Reverses env s reversed)
    (rest : s' = reversed ∨ ∃ charged link, amendment.Recharges env reversed charged link ∧
      (s' = charged ∨ amendment.Records env link charged s' ∧
        ∀ entry, Unadopted env s amendment.original entry → 0 < amendment.burned ∧
          entry.idempotencyKey = some (amendChargeKey (amendment.version env)))) :
    Kept env known pending s' := by
  obtain ⟨kept', old, cleared⟩ := kept.reverses distinct member own reverses
  have events := reverses.events
  rcases rest with rfl | ⟨charged, link, recharges, rest⟩
  · exact kept'
  rw [← events] at member absent
  obtain ⟨kept'', linked, new, remainders, finds⟩ :=
    kept'.recharges member current engine absent repriced waits own recharges
  rcases rest with rfl | ⟨⟨draw, rfl⟩, adopts⟩
  · exact kept''
  have isLinked := kept'.links _ member
  have sameEvents := recharges.events
  rw [← sameEvents] at member absent
  rw [setStatus_eq kept''.linear.ids]
  have priced := amendment.priced_amended lawful link draw
  refine kept''.recorded distinct member current absent rfl rfl rfl rfl own ?_ ?_ ?_
  · intro id isLink
    exact linked id (priced.link ▸ isLink)
  · intro entry stored usage links account positive
    rcases new entry stored with before | ⟨_, fresh, _⟩
    · rw [remainders entry before] at positive
      exact cleared entry before usage links account positive
    · exact fresh (isLinked _ links)
  · intro entry stored usage positive account key isKey absent'
    rw [priced.link]
    have isVersion : entry.idempotencyKey = some (amendChargeKey (amendment.version env)) ∧
        link = some entry.id := by
      rcases new entry stored with before | ⟨isLink, _, isKey'⟩
      · rw [remainders entry before] at positive
        obtain ⟨stored', less⟩ := old entry before usage
        rw [sameEvents, events] at absent'
        obtain ⟨burned, isKey'⟩ :=
          adopts entry ⟨stored', usage, less positive, key, isKey, absent'⟩
        exact ⟨isKey', finds entry stored burned account isKey'⟩
      · exact ⟨isKey', isLink⟩
    exact ⟨amendChargeKey_injective (Option.some.inj (isKey.symm.trans isVersion.1)), isVersion.2⟩

end Amending

/-! ### Every attempt keeps the charges -/

section Steps

variable {env : Env} {known : List Derived} {pending : EventId → AmendUsageBody → Prop}
  {s s' : Stores}

/-- The charge of a metered usage is none of an amendment. -/
theorem Kept.metersCharge (kept : Kept env known pending s) {account : AccountId}
    {run : Option RunId} {burned : Credit} {key : String} {link : Option EntryId}
    (charges : ChargesFor env account run burned (chargeKey key) s s' link) :
    Kept env known pending s' ∧ ∀ id, link = some id → id ∈ s'.ledger.entryIds := by
  rcases charges.cases with ⟨_, rfl, rfl⟩ | ⟨_, _, entry, rfl, ⟨found, rfl⟩ |
    ⟨enabled, _, _, isKey, _, rfl⟩⟩
  · refine ⟨kept, fun _ impossible => ?_⟩
    cases impossible
  · refine ⟨kept, fun id isId => ?_⟩
    rw [← Option.some.inj isId]
    exact List.mem_map_of_mem (Ledger.findKeyed_eq_some found).1
  · have entries := Action.apply_entries s.ledger (.charge entry)
    have notAmend : ∀ {key' : String}, keyKind key' ≠ .charge → ∀ other ∈ [entry],
        other.idempotencyKey ≠ some key' := by
      intro key' kind other last isKey'
      rw [List.mem_singleton.mp last] at isKey'
      refine kind ?_
      rw [← Option.some.inj (isKey.symm.trans isKey'), keyKind_chargeKey]
    refine ⟨kept.posted (kept.metered.charge enabled) rfl entries ?_ ?_ ?_, fun id isId => ?_⟩
    · intro other stored _ positive
      have known' : other.id ∈ s.ledger.entryIds := List.mem_map_of_mem stored
      rw [kept.metered.remainder_charge enabled (Or.inl known'), if_neg] at positive
      · exact positive
      · intro same
        exact enabled.1.fresh (same ▸ known')
    · exact fun other last version => notAmend (by simp) other last
    · exact fun other last version isKey' => absurd isKey' (notAmend (by simp) other last)
    · rw [← Option.some.inj isId, Ledger.State.entryIds, entries, List.map_append]
      exact List.mem_append_right _ (List.mem_singleton_self _)

/-- **Metering keeps the charges of amendments.** -/
theorem Kept.meter (kept : Kept env known pending s) (lawful : env.Lawful)
    (distinct : Distinct env known) {now : OffsetDateTime} {body : MeterUsageBody}
    (own : ⟨.metered body.idempotencyKey, body.orgId, eventKey body.idempotencyKey⟩ ∈ known)
    (meters : MetersUsage env now body s s') : Kept env known pending s' := by
  obtain ⟨card, priced, middle, link, recordedAt, isPriced, charges, rfl⟩ := meters
  obtain ⟨kept', linked⟩ := kept.metersCharge charges
  have events := charges.events
  cases found : find s.events (meteredId env body) with
  | some event =>
    rw [Option.isSome_some, if_pos rfl, ← events]
    exact kept'
  | none =>
    rw [Option.isSome_none, if_neg Bool.false_ne_true, ← events]
    have isPricedEvent := priced_meteredUsage lawful now recordedAt body card priced link
    refine kept'.added distinct rfl rfl ?_ (fun id isLink => linked id (isPricedEvent.link ▸ isLink))
      ⟨_, own, rfl, rfl⟩
    rw [events]
    exact find_eq_none.mp found

/-- **A run void keeps the charges of amendments.** -/
theorem Kept.voidRun (kept : Kept env known pending s) {run : RunId}
    (events : s'.events = restate (Events.voided run) s.events)
    (sweeps : SweepsCharges run s.ledger s'.ledger) : Kept env known pending s' := by
  obtain ⟨posted, entries, refunds⟩ := sweeps.posted
  have notAmend : ∀ {key : String}, keyKind key ≠ .voidRun → ∀ entry ∈ posted,
      entry.idempotencyKey ≠ some key := by
    intro key kind entry inside isKey
    obtain ⟨_, id, isKey'⟩ := refunds entry inside
    refine kind ?_
    rw [Option.some.inj (isKey.symm.trans isKey'), keyKind_runVoidChargeRefundKey]
  have swept : Kept env known pending { s with ledger := s'.ledger } := by
    refine kept.posted sweeps.metered rfl entries ?_ ?_ ?_
    · intro entry stored usage positive
      have remainder := sweeps.remainder entry stored usage
      rw [remainder] at positive
      split at positive
      · exact absurd positive (lt_irrefl 0)
      · exact positive
    · exact fun entry inside version => notAmend (by simp) entry inside
    · exact fun entry inside version isKey => absurd isKey (notAmend (by simp) entry inside)
  have voided : Kept env known pending
      { s' with events := restate (Events.voided run) s.events } :=
    swept.voided fun entry stored usage tagged => ?_
  · rw [← events] at voided
    exact voided
  · rw [show ({ s with ledger := s'.ledger } : Stores).ledger.entries = _ from entries,
      List.mem_append] at stored
    rcases stored with before | now
    · rw [sweeps.remainder entry before usage, if_pos tagged]
    · cases (refunds entry now).1.symm.trans usage

/-- What an amendment that recorded its version had. -/
theorem applicable_of_recharges {amendment : Repriced} {event : EventId} {body : AmendUsageBody}
    {reversed charged : Stores} {link : Option EntryId}
    (found : find s.events event = some amendment.original)
    (current : amendment.original.status = .recorded)
    (engine : isEnginePriced amendment.original = true)
    (absent : find s.events (amendment.version env) = none)
    (repriced : reprice env amendment.original body = .ok amendment)
    (reverses : amendment.Reverses env s reversed)
    (recharges : amendment.Recharges env reversed charged link) :
    Applicable env s event body amendment := by
  refine ⟨found, current, engine, absent, repriced, fun either => ?_⟩
  by_cases linked : (recordedChargeEntry env amendment.original).isSome
  · exact reverses.present linked
  · have unchanged : reversed = s := by
      rcases reverses with ⟨_, same⟩ | ⟨charge, _, isCharge, _⟩
      · exact same
      · rw [isCharge] at linked
        exact absurd rfl linked
    subst unchanged
    rcases recharges.cases with ⟨nothing, _⟩ | ⟨_, present, _⟩
    · exact absurd (either.resolve_left linked) nothing
    · exact present

variable {steps : List (Attempt × Stores)}

/-- **An amendment that was answered keeps the charges.** -/
theorem Kept.answered (kept : Kept env known pending s) (lawful : env.Lawful)
    (distinct : Distinct env known) {event : EventId} {body : AmendUsageBody}
    (own : ∀ original, find s.events event = some original →
      Known env known event body.idempotencyKey (amendedId env original body.idempotencyKey))
    (adopts : (Attempt.served (.amend event body)).Adopts env s)
    {reply : Except ApiError AmendUsageResult}
    (serves : (server env).Serves (amendUsage env event body) s reply s')
    {pending' : EventId → AmendUsageBody → Prop}
    (still : ∀ id body', pending id body' → ¬ (id = event ∧ body' = body) → pending' id body') :
    Kept env known pending' s' := by
  rcases serves_amendUsage serves with ⟨rfl, none⟩ | ⟨amendment, applicable, applied⟩
  · -- nothing waits for a request that cannot be applied
    refine kept.weaken (List.Subset.refl _) fun original inside body' amendment live engine waits
      repriced absent present => still _ _ waits ?_
    rintro ⟨rfl, rfl⟩
    have found := kept.linear.find_of_mem inside
    obtain ⟨rfl, _⟩ := reprice_eq repriced
    exact none amendment ⟨found, live, engine, find_eq_none.mpr absent, repriced, fun _ => present⟩
  · obtain ⟨found, current, engine, absent, repriced, _⟩ := id applicable
    obtain ⟨member, rfl⟩ := find_eq_some found
    obtain ⟨reversed, charged, link, reverses, recharges, records⟩ := applied
    have known' := own _ found
    have isVersion : amendment.version env =
        amendedId env amendment.original body.idempotencyKey := by
      rw [Repriced.version, (reprice_eq repriced).2]
    rw [← isVersion] at known'
    let pending₁ := fun id body' => pending id body' ∨ (id = amendment.original.id ∧ body' = body)
    have waiting : Kept env known pending₁ s := kept.weaken (List.Subset.refl _)
      fun _ _ _ _ _ _ waits _ _ _ => Or.inl waits
    have recorded := waiting.amends lawful distinct member current engine
      (find_eq_none.mp absent) repriced (Or.inr ⟨rfl, rfl⟩) known' reverses
      (Or.inr ⟨charged, link, recharges, Or.inr ⟨records, adopts _ body amendment rfl applicable
        trivial⟩⟩)
    refine recorded.weaken (List.Subset.refl _) fun original inside body' _ live _ waits _ _ _ => ?_
    -- the event itself is superseded now
    have superseded : original.id ≠ amendment.original.id := by
      intro same
      obtain ⟨draw, rfl⟩ := records
      have marked' : ({ amendment.original with status := .amended } : Event) ∈
          setStatus amendment.original.id .amended charged.events ++
            [amendment.amended env link draw] := by
        refine List.mem_append_left _ ?_
        rw [recharges.events.trans reverses.events, setStatus_eq kept.linear.ids]
        refine mem_restate.mpr ⟨amendment.original, member, ?_⟩
        rw [marked, if_pos rfl]
      have equal := recorded.linear.eq_of_id inside marked' same
      rw [equal] at live
      cases live
    rcases waits with waits | ⟨same, _⟩
    · exact still _ _ waits fun both => superseded both.1
    · exact absurd same superseded

/-- **An amendment that was cut off keeps the charges.** -/
theorem Kept.cutOff (kept : Kept env known pending s) (lawful : env.Lawful)
    (distinct : Distinct env known) {event : EventId} {body : AmendUsageBody} {count : Nat}
    (own : ∀ original, find s.events event = some original →
      Known env known event body.idempotencyKey (amendedId env original body.idempotencyKey))
    (adopts : (Attempt.cut event body count).Adopts env s) (waits : pending event body)
    {rest : Handler AmendUsageResult}
    (calls : (server env).Calls count (amendUsage env event body) s rest s') :
    Kept env known pending s' := by
  rcases cut_amendUsage ⟨count, rest, calls⟩ with rfl | ⟨amendment, found, current, engine, absent,
    repriced, reversed, reverses, later⟩
  · exact kept
  obtain ⟨member, rfl⟩ := find_eq_some found
  have known' := own _ found
  have isVersion : amendment.version env =
      amendedId env amendment.original body.idempotencyKey := by
    rw [Repriced.version, (reprice_eq repriced).2]
  rw [← isVersion] at known'
  refine kept.amends lawful distinct member current engine (find_eq_none.mp absent) repriced waits
    known' reverses (later.imp_right ?_)
  rintro ⟨charged, link, recharges, stops⟩
  refine ⟨charged, link, recharges, stops.imp_right fun records => ⟨records, ?_⟩⟩
  have applicable := applicable_of_recharges found current engine absent repriced reverses recharges
  refine adopts _ body amendment rfl applicable ?_
  -- the version is there, so the recording was among the calls
  by_contra early
  have same := calls_before_amend applicable (not_le.mp early) calls
  obtain ⟨draw, rfl⟩ := records
  have lengths := congrArg (fun events => (events.map Event.id).length) same
  simp only [recharges.events.trans reverses.events, setStatus_eq kept.linear.ids,
    List.map_append, ids_restate, List.length_append, List.map_singleton,
    List.length_singleton] at lengths
  omega

theorem requests_append (steps more : List (Attempt × Stores)) :
    requests (steps ++ more) = requests steps ++ requests more := List.map_append

/-- **Every attempt keeps the charges.** -/
theorem Kept.step (lawful : env.Lawful) {attempt : Attempt}
    (kept : Kept env (derived (requests steps)) (Outstanding (steps.map Prod.fst)) s)
    (distinct : Distinct env (derived (requests (steps ++ [(attempt, s)]))))
    (adopts : attempt.Adopts env s) (made : attempt.Made env s s') :
    Kept env (derived (requests (steps ++ [(attempt, s)])))
      (Outstanding ((steps ++ [(attempt, s)]).map Prod.fst)) s' := by
  have isKnown : ∀ own ∈ attempt.request.derived s.events,
      own ∈ derived (requests (steps ++ [(attempt, s)])) := by
    intro own member
    rw [requests_append, derived_append]
    exact List.mem_append_right _ (List.mem_flatMap.mpr ⟨_, List.mem_singleton_self _, member⟩)
  have more : derived (requests steps) ⊆ derived (requests (steps ++ [(attempt, s)])) := by
    rw [requests_append, derived_append]
    exact List.subset_append_left _ _
  have attempts : (steps ++ [(attempt, s)]).map Prod.fst = steps.map Prod.fst ++ [attempt] := by
    rw [List.map_append, List.map_singleton]
  have kept' : Kept env (derived (requests (steps ++ [(attempt, s)])))
      (Outstanding (steps.map Prod.fst)) s := kept.weaken more fun _ _ _ _ _ _ waits _ _ _ => waits
  have other : (∀ event body, attempt ≠ .served (.amend event body)) →
      Kept env (derived (requests (steps ++ [(attempt, s)])))
        (Outstanding ((steps ++ [(attempt, s)]).map Prod.fst)) s := by
    intro notAmend
    rw [attempts]
    exact kept'.weaken (List.Subset.refl _)
      fun _ _ _ _ _ _ waits _ _ _ => waits.snoc (notAmend _ _)
  have ownId : ∀ {event : EventId} {body : AmendUsageBody}, attempt.request = .amend event body →
      ∀ original, find s.events event = some original →
        Known env (derived (requests (steps ++ [(attempt, s)]))) event body.idempotencyKey
          (amendedId env original body.idempotencyKey) := by
    intro event body isAmend original found
    refine ⟨⟨.amended event body.idempotencyKey, original.orgId,
      amendKey original body.idempotencyKey⟩, isKnown _ ?_, rfl, rfl⟩
    rw [isAmend, Request.derived, found]
    exact List.mem_singleton_self _
  cases attempt with
  | cut event body count =>
    obtain ⟨rest, calls⟩ := made
    refine (other fun _ _ impossible => ?_).cutOff lawful distinct (ownId rfl) adopts ?_ calls
    · cases impossible
    · rw [attempts]
      exact Outstanding.cut _ event body count
  | served request =>
    cases request with
    | amend event body =>
      obtain ⟨reply, serves⟩ := made
      refine kept'.answered lawful distinct (ownId rfl) adopts serves fun id body' waits notSame => ?_
      rw [attempts]
      refine waits.snoc fun same => notSame ?_
      cases same
      exact ⟨rfl, rfl⟩
    | meter now body =>
      obtain ⟨reply, serves⟩ := made
      have start := other fun _ _ impossible => (by cases impossible)
      rcases serves_meterUsage serves with rfl | meters
      · exact start
      · exact start.meter lawful distinct (isKnown _ (List.mem_singleton_self _)) meters
    | voidRun run =>
      obtain ⟨reply, serves⟩ := made
      obtain ⟨events, sweeps⟩ := serves_voidRun kept.metered serves
      exact (other fun _ _ impossible => (by cases impossible)).voidRun events sweeps
    | grant account amount source =>
      obtain ⟨reply, serves⟩ := made
      obtain ⟨metered, events, posted, entries, plain⟩ :=
        serves_plainRoute kept.metered (fun _ => plain_grant) serves
      exact (other fun _ _ impossible => (by cases impossible)).unkeyed metered events entries plain
    | openAccount req =>
      obtain ⟨reply, serves⟩ := made
      obtain ⟨metered, events, posted, entries, plain⟩ :=
        serves_plainRoute kept.metered (fun _ => plain_openAccount) serves
      exact (other fun _ _ impossible => (by cases impossible)).unkeyed metered events entries plain

/-- **Every run keeps the charges.** -/
theorem Kept.of_runs (lawful : env.Lawful) (runs : Runs (Attempt.Made env) Stores.new steps s)
    (distinct : Distinct env (derived (requests steps)))
    (adopts : ∀ step ∈ steps, step.1.Adopts env step.2) :
    Kept env (derived (requests steps)) (Outstanding (steps.map Prod.fst)) s := by
  induction runs with
  | nil => exact .new
  | snoc attempt _ made ih =>
    refine (ih (fun first member second member' => ?_) fun step member => ?_).step lawful distinct ?_
      made
    · rw [requests_append, derived_append] at distinct
      exact distinct first (List.mem_append_left _ member) second (List.mem_append_left _ member')
    · exact adopts step (List.mem_append_left _ member)
    · exact adopts _ (List.mem_append_right _ (List.mem_singleton_self _))

end Steps

/-- **Cut-off amendments that are retried strand no charge.** Take any sequential run of metering,
amendment, run-void, grant and account requests in which amendments may be cut off after any number
of calls, the ids derived for different requests are distinct, and no amendment records its version
over a waiting charge that it does not adopt. If every amendment that was cut off was answered later,
every charge of an amendment with anything left is named by a live event. -/
theorem retried_strands_nothing {env : Env} (lawful : env.Lawful)
    {steps : List (Attempt × Stores)} {s : Stores}
    (runs : Runs (Attempt.Made env) Stores.new steps s)
    (distinct : Distinct env (derived (requests steps)))
    (adopts : ∀ step ∈ steps, step.1.Adopts env step.2)
    (retried : ∀ event body, ¬ Outstanding (steps.map Prod.fst) event body)
    {entry : LedgerEntry} (stored : entry ∈ s.ledger.entries) (usage : entry.entryType = .usage)
    {version : EventId} (posted : entry.idempotencyKey = some (amendChargeKey version))
    (left : 0 < s.ledger.unreversedRemainder entry.id) :
    ∃ event ∈ s.events, event.status = .recorded ∧
      recordedChargeEntry env event = some entry.id := by
  have kept := Kept.of_runs lawful runs distinct adopts
  rcases kept.charges entry stored usage version posted left with
    ⟨event, inside, live, _, links, _⟩ | ⟨original, _, _, _, _, _, _, body, _, waits, _⟩
  · exact ⟨event, inside, live, links⟩
  · exact absurd waits (retried original.id body)

/-! ### Sample runs with a cut-off -/

/-- Make as many calls of a request as there are draws. -/
def pause {α : Type} (env : Env) : Handler α → List Outside → Stores → Option Stores
  | _, [], s => some s
  | .done _, _ :: _, _ => none
  | .stmt call next, out :: rest, s =>
    if out.NewTo call s then
      (call.exec env out s).bind fun result => pause env (next result.1) rest result.2
    else none

theorem calls_of_pause {α : Type} {env : Env} {outs : List Outside} :
    ∀ {program : Handler α} {s s' : Stores}, pause env program outs s = some s' →
      ∃ rest, (server env).Calls outs.length program s rest s' := by
  induction outs with
  | nil =>
    intro program s s' paused
    have same : some s = some s' := by
      cases program with
      | done result => exact paused
      | stmt call next => exact paused
    cases same
    exact ⟨program, .none _ _⟩
  | cons out outs ih =>
    intro program s s' paused
    cases program with
    | done result => cases paused
    | stmt call next =>
      rw [pause] at paused
      split at paused
      · rename_i new
        obtain ⟨⟨answer, middle⟩, executed, paused⟩ := Option.bind_eq_some_iff.mp paused
        obtain ⟨rest, calls⟩ := ih paused
        exact ⟨rest, .call ⟨out, new, executed⟩ calls⟩
      · cases paused

/-- Make an attempt, with what each call draws from outside. -/
def Attempt.make (env : Env) (outs : List Outside) : Attempt → Stores → Option Stores
  | .served request, s => request.serve env outs s
  | .cut event body count, s =>
    if outs.length = count then pause env (amendUsage env event body) outs s else none

theorem Attempt.made_of_make {env : Env} {outs : List Outside} {attempt : Attempt} {s s' : Stores}
    (made : attempt.make env outs s = some s') : attempt.Made env s s' := by
  cases attempt with
  | served request => exact Request.served_of_serve made
  | cut event body count =>
    rw [Attempt.make] at made
    split at made
    · rename_i length
      obtain ⟨rest, calls⟩ := calls_of_pause made
      exact ⟨rest, length ▸ calls⟩
    · cases made

/-- Make attempts one after another. -/
def rehearse (env : Env) (script : List (List Outside × Attempt)) :
    Option (List (Attempt × Stores) × Stores) :=
  script.foldlM (fun run step => (step.2.make env step.1 run.2).map fun s' =>
    (run.1 ++ [(step.2, run.2)], s')) ([], Stores.new)

theorem runs_of_rehearse {env : Env} {script : List (List Outside × Attempt)}
    {steps : List (Attempt × Stores)} {s : Stores} (rehearsed : rehearse env script = some (steps, s)) :
    Runs (Attempt.Made env) Stores.new steps s ∧ steps.map Prod.fst = script.map Prod.snd := by
  unfold rehearse at rehearsed
  exact runs_of_foldlM (fun outs => Attempt.make env outs)
    (fun _ _ _ _ => Attempt.made_of_make) .nil rehearsed

/-- Whether an attempt adopts what waits for its event. -/
def Attempt.adopts (env : Env) (s : Stores) (attempt : Attempt) : Bool :=
  match attempt.request with
  | .amend event body => (find s.events event).all fun original =>
    match reprice env original body with
    | .error _ => true
    | .ok amendment => (match attempt with
        | .served _ => false
        | .cut _ _ count => decide (count < amendment.calls env)) ||
      s.ledger.entries.all fun entry => decide (0 < s.ledger.unreversedRemainder entry.id →
        entry.idempotencyKey.map keyKind = some .amendCharge →
        0 < amendment.burned ∧ entry.idempotencyKey = some (amendChargeKey (amendment.version env)))
  | _ => true

theorem Attempt.adopts_iff {env : Env} {s : Stores} {attempt : Attempt}
    (checked : attempt.adopts env s = true) : attempt.Adopts env s := by
  rintro event body amendment isAmend applicable records entry
    ⟨stored, usage, positive, key, isKey, _⟩
  rw [Attempt.adopts, isAmend] at checked
  simp only [applicable.found, Option.all_some, applicable.repriced, Bool.or_eq_true,
    List.all_eq_true, decide_eq_true_eq] at checked
  rcases checked with early | checked
  · cases attempt with
    | served request => cases early
    | cut event' body' count => exact absurd records (not_le.mpr (of_decide_eq_true early))
  · refine checked entry stored positive ?_
    rw [isKey, Option.map_some, keyKind_amendChargeKey]

/-- The sample, then an amendment that is cut off after its charge. -/
def cutOffScript : List (List Outside × Attempt) :=
  sampleScript.map (fun step => (step.1, .served step.2)) ++
    [((List.range 4).map fun n => drawn (20 + n), .cut 18 firstRival 4)]

/-- The amendment is retried. -/
def retriedScript : List (List Outside × Attempt) :=
  cutOffScript ++ [((List.range 6).map fun n => drawn (30 + n), .served (.amend 18 firstRival))]

/-- Another amendment comes first, and the retry is refused. -/
def strandedScript : List (List Outside × Attempt) :=
  cutOffScript ++ [((List.range 6).map fun n => drawn (30 + n), .served (.amend 18 secondRival)),
    ((List.range 2).map fun n => drawn (40 + n), .served (.amend 18 firstRival))]

/-- The charge that the cut-off amendment of the samples posted. -/
def waitingCharges (s : Stores) : List EntryId :=
  (s.ledger.entries.filter fun entry => entry.entryType = .usage ∧
    entry.idempotencyKey = some (amendChargeKey 28) ∧
      0 < s.ledger.unreversedRemainder entry.id).map LedgerEntry.id

/-- After the other amendment the charge is stranded: six credits that no event names. -/
theorem retried_strands_a_charge : ∃ steps s, Runs (Attempt.Made sampleEnv) Stores.new steps s ∧
    Distinct sampleEnv (derived (requests steps)) ∧
    (∀ event body, ¬ Outstanding (steps.map Prod.fst) event body) ∧
    ∃ entry ∈ s.ledger.entries, entry.entryType = .usage ∧
      entry.idempotencyKey = some (amendChargeKey 28) ∧
      0 < s.ledger.unreversedRemainder entry.id ∧
      ¬ ∃ event ∈ s.events, event.status = .recorded ∧
        recordedChargeEntry sampleEnv event = some entry.id := by
  have done : ((rehearse sampleEnv strandedScript).map fun run =>
      (derived (requests run.1), waitingCharges run.2,
        decide (∀ id ∈ waitingCharges run.2, ∀ event ∈ run.2.events, event.status = .recorded →
          recordedChargeEntry sampleEnv event ≠ some id))) =
      some ([⟨.metered "k", 1, "k::event"⟩, ⟨.amended 8 "a", 1, "k::event::amend::a"⟩,
        ⟨.amended 18 "b", 1, "k::event::amend::a::amend::b"⟩,
        ⟨.amended 18 "cc", 1, "k::event::amend::a::amend::cc"⟩,
        ⟨.amended 18 "b", 1, "k::event::amend::a::amend::b"⟩], [1069], true) := by decide +kernel
  obtain ⟨⟨steps, s⟩, rehearsed, facts⟩ := Option.map_eq_some_iff.mp done
  obtain ⟨runs, attempts⟩ := runs_of_rehearse rehearsed
  simp only [Prod.mk.injEq, decide_eq_true_eq] at facts
  obtain ⟨isDerived, charges, unnamed⟩ := facts
  refine ⟨steps, s, runs, ?_, ?_, ?_⟩
  · rw [isDerived]
    unfold Distinct
    decide
  · rw [attempts]
    intro event body
    simp +contextual [strandedScript, cutOffScript, sampleScript, Outstanding]
  · have inside : 1069 ∈ waitingCharges s := charges ▸ List.mem_singleton_self _
    obtain ⟨entry, stored, isId⟩ := List.mem_map.mp inside
    obtain ⟨stored, fields⟩ := List.mem_filter.mp stored
    obtain ⟨usage, isKey, positive⟩ := of_decide_eq_true fields
    refine ⟨entry, stored, usage, isKey, positive, ?_⟩
    rintro ⟨event, inside', live, links⟩
    exact unnamed 1069 inside event inside' live (isId ▸ links)

/-- Retried at once, the amendment records the version that names its charge. -/
theorem retried_strands_nothing_sample : ∃ steps s, rehearse sampleEnv retriedScript = some (steps, s) ∧
    ∃ entry ∈ s.ledger.entries, 0 < s.ledger.unreversedRemainder entry.id ∧
      ∃ event ∈ s.events, event.status = .recorded ∧
        recordedChargeEntry sampleEnv event = some entry.id := by
  have done : ((rehearse sampleEnv retriedScript).map fun run =>
      (derived (requests run.1), waitingCharges run.2,
        run.1.all fun step => step.1.adopts sampleEnv step.2)) =
      some ([⟨.metered "k", 1, "k::event"⟩, ⟨.amended 8 "a", 1, "k::event::amend::a"⟩,
        ⟨.amended 18 "b", 1, "k::event::amend::a::amend::b"⟩,
        ⟨.amended 18 "b", 1, "k::event::amend::a::amend::b"⟩], [1069], true) := by decide +kernel
  obtain ⟨⟨steps, s⟩, rehearsed, facts⟩ := Option.map_eq_some_iff.mp done
  obtain ⟨runs, attempts⟩ := runs_of_rehearse rehearsed
  simp only [Prod.mk.injEq] at facts
  obtain ⟨isDerived, charges, adopts⟩ := facts
  have inside : 1069 ∈ waitingCharges s := charges ▸ List.mem_singleton_self _
  obtain ⟨entry, stored, isId⟩ := List.mem_map.mp inside
  obtain ⟨stored, fields⟩ := List.mem_filter.mp stored
  obtain ⟨usage, isKey, positive⟩ := of_decide_eq_true fields
  refine ⟨steps, s, rehearsed, entry, stored, positive,
    retried_strands_nothing sampleEnv_lawful runs ?_ ?_ ?_ stored usage isKey positive⟩
  · rw [isDerived]
    unfold Distinct
    decide
  · exact fun step member => Attempt.adopts_iff (List.all_eq_true.mp adopts step member)
  · rw [attempts]
    intro event body
    simp +contextual [retriedScript, cutOffScript, sampleScript, Outstanding]

end Meter.Api
