/-
**Metering that races with a void of its run.**

Metering goes to the ledger first and to the events second, a run void the other way round, and
nothing joins the two calls of either. If the first call of each precedes the second call of the
other, the void refunds the charge but never sees the event, which stays live.

* `SerialOutcome` — what both serial orders end with: the charge is refunded and its event is not
  live, or the charge stands and its event is live with the same credits.
* `meter_void_race` — **the outcome is serial exactly if one of the two makes its first two calls
  before the other starts**, or if there is nothing to post.
-/

import Meter.Api.VoidRace

namespace Meter.Api

open Meter.Lib Meter.Pricing Meter.Events
open Meter.Ledger (LedgerEntry LedgerError Action)

/-- What the two serial orders end with, for the charge under a metering key. -/
def SerialOutcome (env : Env) (body : MeterUsageBody) (s : Stores) : Prop :=
  ∀ entry ∈ s.ledger.entries, entry.accountId = body.account →
    entry.idempotencyKey = some (chargeKey body.idempotencyKey) →
    (s.ledger.unreversedRemainder entry.id = 0 ∧
      ∀ event ∈ s.events, event.id = meteredId env body → event.status ≠ .recorded) ∨
    (s.ledger.unreversedRemainder entry.id = -entry.deltaCredits ∧
      ∃ event ∈ s.events, event.id = meteredId env body ∧ event.status = .recorded ∧
        recordedCredits env event = -entry.deltaCredits)

instance (env : Env) (body : MeterUsageBody) (s : Stores) : Decidable (SerialOutcome env body s) :=
  inferInstanceAs (Decidable (∀ entry ∈ s.ledger.entries, entry.accountId = body.account →
    entry.idempotencyKey = some (chargeKey body.idempotencyKey) →
    (s.ledger.unreversedRemainder entry.id = 0 ∧
      ∀ event ∈ s.events, event.id = meteredId env body → event.status ≠ .recorded) ∨
    (s.ledger.unreversedRemainder entry.id = -entry.deltaCredits ∧
      ∃ event ∈ s.events, event.id = meteredId env body ∧ event.status = .recorded ∧
        recordedCredits env event = -entry.deltaCredits)))

/-- Metering has something to charge, and its key is new to the account. -/
def PostsCharge (env : Env) (body : MeterUsageBody) (s : Stores) : Prop :=
  (∃ card priced, price env body.model body.rateCardId body.usage = .ok (card, priced) ∧
    0 < burnedCredits body.burnable priced.credits) ∧
  s.ledger.accounts.contains body.account = true ∧
  s.ledger.findKeyed body.account (chargeKey body.idempotencyKey) = none

section

variable {env : Env} {steps : List (Request × Stores)} {body : MeterUsageBody} {now : OffsetDateTime}
  {run : RunId} {s s' : Stores}

/-- The event of a charge under a metering key. -/
theorem Agrees.charge_event (agrees : Agrees env steps s) (keyed : Keyed env steps)
    (member : body ∈ bodies steps) {entry : LedgerEntry} (stored : entry ∈ s.ledger.entries)
    (isKey : entry.idempotencyKey = some (chargeKey body.idempotencyKey)) :
    ∃ event ∈ s.events, event.id = meteredId env body ∧
      recordedChargeEntry env event = some entry.id ∧
      recordedCredits env event = -entry.deltaCredits := by
  have usage := agrees.keys entry stored _ isKey
  rw [KeyFits, keyKind_chargeKey] at usage
  obtain ⟨event, inside, links, for'⟩ := agrees.posted_of_key stored isKey usage
  obtain ⟨entry', stored', same, charged⟩ := agrees.charged event inside _ links
  have credits := charged.credits
  rw [agrees.metered.eq_of_id stored' stored same] at credits
  exact ⟨event, inside, for'.metered_id keyed member rfl, links, credits⟩

/-- **Where events and the ledger agree, the outcome is serial.** -/
theorem Agrees.serialOutcome (agrees : Agrees env steps s) (keyed : Keyed env steps)
    (member : body ∈ bodies steps) : SerialOutcome env body s := by
  intro entry stored _ isKey
  obtain ⟨event, inside, same, links, credits⟩ := agrees.charge_event keyed member stored isKey
  have remainder := agrees.remainder event inside _ links
  by_cases live : event.status = .recorded
  · rw [if_pos live, credits] at remainder
    exact Or.inr ⟨remainder, event, inside, same, live, credits⟩
  · rw [if_neg live] at remainder
    refine Or.inl ⟨remainder, fun other inside' same' => ?_⟩
    rw [agrees.linear.eq_of_id inside' inside (same'.trans same.symm)]
    exact live

/-! ### Nothing to post -/

/-- No charge is under the key, and metering posts none. -/
structure Uncharged (env : Env) (body : MeterUsageBody) (s : Stores) : Prop where
  metered : s.ledger.Metered
  unused : s.ledger.findKeyed body.account (chargeKey body.idempotencyKey) = none
  refused : ∀ card priced, price env body.model body.rateCardId body.usage = .ok (card, priced) →
    0 < burnedCredits body.burnable priced.credits →
    s.ledger.accounts.contains body.account = false

theorem Uncharged.serialOutcome (uncharged : Uncharged env body s) : SerialOutcome env body s :=
  fun entry stored own isKey =>
    absurd isKey (Ledger.findKeyed_eq_none.mp uncharged.unused entry stored own)

/-- The events do not matter. -/
theorem Uncharged.events (uncharged : Uncharged env body s) (same : s'.ledger = s.ledger) :
    Uncharged env body s' := by
  refine ⟨?_, ?_, ?_⟩
  · rw [same]
    exact uncharged.metered
  · rw [same]
    exact uncharged.unused
  · rw [same]
    exact uncharged.refused

/-- A run void posts under keys of its own. -/
theorem Uncharged.swept (uncharged : Uncharged env body s)
    (sweeps : SweepsCharges run s.ledger s'.ledger) : Uncharged env body s' := by
  refine ⟨sweeps.metered, ?_, fun card priced isPriced positive => ?_⟩
  · obtain ⟨posted, entries, refunds⟩ := sweeps.posted
    refine Ledger.findKeyed_eq_none.mpr fun entry stored own isKey => ?_
    rw [entries, List.mem_append] at stored
    rcases stored with before | new
    · exact Ledger.findKeyed_eq_none.mp uncharged.unused entry before own isKey
    · obtain ⟨_, id, isKey'⟩ := refunds entry new
      rw [isKey, Option.some.injEq] at isKey'
      have kinds := congrArg keyKind isKey'
      rw [keyKind_chargeKey, keyKind_runVoidChargeRefundKey] at kinds
      cases kinds
  · rw [sweeps.accounts]
    exact uncharged.refused card priced isPriced positive

/-- Whatever a call does, no charge appears under the key. -/
def KeepsUncharged (env : Env) (body : MeterUsageBody) (s s' : Stores) : Prop :=
  Uncharged env body s → Uncharged env body s'

theorem KeepsUncharged.refl (s : Stores) : KeepsUncharged env body s s := id

theorem KeepsUncharged.trans {s'' : Stores} (earlier : KeepsUncharged env body s s')
    (later : KeepsUncharged env body s' s'') : KeepsUncharged env body s s'' := later ∘ earlier

theorem assures_recordMetered_uncharged {card : RateCard} {priced : PricedUsage}
    {link : Option String} (uncharged : Uncharged env body s) :
    (server env).Assures (KeepsUncharged env body) (KeepsUncharged env body)
      (recordMetered env now body card priced link) (fun _ s' => Uncharged env body s') s := by
  intro s₁ moves answer s₂ performed
  have uncharged := moves uncharged
  obtain ⟨⟨event, rfl⟩, recordedAt, rfl⟩ := perform_recordEvent performed
  refine ⟨fun uncharged => uncharged.events rfl, ?_⟩
  intro s₃ moves answer s₄ performed
  have uncharged := moves (uncharged.events rfl)
  have same := perform_balance performed
  subst same
  refine ⟨id, ?_⟩
  cases answer with
  | error error => exact fun s₅ moves => moves uncharged
  | ok balance => exact fun s₅ moves => moves uncharged

theorem assures_meterUsage_uncharged (uncharged : Uncharged env body s) :
    (server env).Assures (KeepsUncharged env body) (KeepsUncharged env body)
      (meterUsage env now body) (fun _ s' => Uncharged env body s') s := by
  unfold meterUsage
  split
  · exact fun s₁ moves => moves uncharged
  rename_i card priced isPriced
  dsimp only
  split
  swap
  · exact assures_recordMetered_uncharged uncharged
  rename_i positive
  intro s₁ moves answer s₂ performed
  have uncharged := moves uncharged
  have missing := uncharged.refused card priced isPriced positive
  rcases perform_charge performed with ⟨_, ⟨error, rfl⟩, rfl⟩ | ⟨_, present, _⟩
  · exact ⟨id, fun s₃ moves => moves uncharged⟩
  · cases missing.symm.trans present

theorem assures_voidRun_uncharged (uncharged : Uncharged env body s) :
    (server env).Assures (KeepsUncharged env body) (KeepsUncharged env body) (voidRun run)
      (fun _ s' => Uncharged env body s') s := by
  intro s₁ moves answer s₂ performed
  have uncharged := moves uncharged
  obtain ⟨⟨count, rfl⟩, rfl⟩ := perform_voidEvents performed
  refine ⟨fun uncharged => uncharged.events rfl, ?_⟩
  intro s₃ moves answer s₄ performed
  have uncharged := moves (uncharged.events rfl)
  obtain ⟨⟨summary, rfl⟩, events, sweeps⟩ := perform_voidCharges uncharged.metered performed
  exact ⟨fun uncharged => uncharged.swept sweeps,
    fun s₅ moves => moves (uncharged.swept sweeps)⟩

/-- **With nothing to post, no charge appears.** -/
theorem finishes_uncharged (uncharged : Uncharged env body s) {turns : List Server.Side}
    {reply : Except ApiError MeterUsageResult} {reply' : Except ApiError VoidRunResult}
    (finishes : (server env).Finishes turns (meterUsage env now body) (voidRun run) s reply reply'
      s') : Uncharged env body s' :=
  (Server.finishes_assures KeepsUncharged.refl KeepsUncharged.refl
    (fun _ _ _ => KeepsUncharged.trans) (fun _ _ _ => KeepsUncharged.trans) finishes
    (assures_meterUsage_uncharged uncharged) (assures_voidRun_uncharged uncharged)).1

/-! ### A request that changes nothing -/

/-- A run void that nothing interferes with. -/
theorem assures_voidRun_alone (agrees : Agrees env steps s) :
    (server env).Assures Eq VoidMoves (voidRun run) (fun _ s' => Agrees env steps s') s := by
  intro s₁ same answer s₂ performed
  subst same
  obtain ⟨⟨count, rfl⟩, rfl⟩ := perform_voidEvents performed
  refine ⟨.voidEvents run, ?_⟩
  intro s₃ same answer s₄ performed
  subst same
  have metered : ({ s with events := restate (voided run) s.events } : Stores).ledger.Metered :=
    agrees.metered
  obtain ⟨⟨summary, rfl⟩, events, sweeps⟩ := perform_voidCharges metered performed
  refine ⟨.voidCharges events sweeps, ?_⟩
  intro s₅ same
  exact same ▸ agrees.voidRun events sweeps

/-- A program that changes nothing, whatever a run void does. -/
def Harmless (env : Env) {α : Type} (program : Handler α) (s : Stores) : Prop :=
  (server env).Assures VoidMoves Eq program (fun _ _ => True) s

/-- **A run void next to a program that changes nothing keeps the agreement.** -/
theorem Agrees.race_harmless {α : Type} (agrees : Agrees env steps s) {program : Handler α}
    (harmless : Harmless env program s) {turns : List Server.Side} {reply : Except ApiError α}
    {reply' : Except ApiError VoidRunResult}
    (finishes : (server env).Finishes turns program (Api.voidRun run) s reply reply' s') :
    Agrees env steps s' :=
  (Server.finishes_assures VoidMoves.refl (fun _ => rfl) (fun _ _ _ => VoidMoves.trans)
    (fun _ _ _ => Eq.trans) finishes harmless (assures_voidRun_alone agrees)).2

/-- Reading a balance changes nothing, whatever others do. -/
theorem quiet_balance {β : Type} {Rely : Stores → Stores → Prop} {account : AccountId}
    {next : Ledger.Balance → β} : (server env).Assures Rely Eq
      (tryLedger (.balance account) fun balance => .done (.ok (next balance)))
      (fun _ _ => True) s := by
  intro s₁ _ answer s₂ performed
  refine ⟨(perform_balance performed).symm, ?_⟩
  cases answer with
  | error error => exact fun _ _ => trivial
  | ok balance => exact fun _ _ => trivial

theorem harmless_recordMetered {card : RateCard} {priced : PricedUsage} (link : Option EntryId)
    (present : meteredId env body ∈ s.events.map Event.id) :
    Harmless env (recordMetered env now body card priced (linkText link)) s := by
  intro s₁ moves answer s₂ performed
  rw [← moves.ids, ← find_isSome] at present
  obtain ⟨⟨event, rfl⟩, recordedAt, rfl⟩ := perform_recordEvent performed
  rw [recordLocked_metered, if_pos present]
  exact ⟨rfl, quiet_balance⟩

/-- **Metering a usage that was metered before** changes nothing. -/
theorem harmless_meterUsage (present : meteredId env body ∈ s.events.map Event.id)
    {charge : LedgerEntry} (stored : charge ∈ s.ledger.entries)
    (own : charge.accountId = body.account)
    (isKey : charge.idempotencyKey = some (chargeKey body.idempotencyKey)) :
    Harmless env (meterUsage env now body) s := by
  unfold meterUsage
  split
  · exact fun _ _ => trivial
  dsimp only
  split
  swap
  · exact harmless_recordMetered none present
  intro s₁ moves answer s₂ performed
  rcases perform_charge performed with ⟨_, ⟨error, rfl⟩, rfl⟩ | ⟨_, _, entry, rfl,
    ⟨_, _, _, rfl⟩ | ⟨enabled, account, _, isKey', _⟩⟩
  · exact ⟨rfl, fun _ _ => trivial⟩
  · exact ⟨rfl, harmless_recordMetered (some entry.id) (moves.ids.symm ▸ present)⟩
  · have unused := Ledger.findKeyed_eq_none.mp (enabled.2.1 _ isKey') charge
      (moves.entries charge stored)
    exact absurd isKey (unused (own.trans account.symm))

/-! ### Both have made their first call -/

def SameEvents (s s' : Stores) : Prop := s'.events = s.events

def SameLedger (s s' : Stores) : Prop := s'.ledger = s.ledger

theorem SameEvents.refl (s : Stores) : SameEvents s s := rfl

theorem SameLedger.refl (s : Stores) : SameLedger s s := rfl

theorem SameEvents.trans {s'' : Stores} (earlier : SameEvents s s') (later : SameEvents s' s'') :
    SameEvents s s'' := Eq.trans later earlier

theorem SameLedger.trans {s'' : Stores} (earlier : SameLedger s s') (later : SameLedger s' s'') :
    SameLedger s s'' := Eq.trans later earlier

/-- The rest of metering brings its event to life. -/
theorem assures_recordMetered_live {card : RateCard} {priced : PricedUsage} (link : Option EntryId)
    (absent : meteredId env body ∉ s.events.map Event.id) :
    (server env).Assures SameEvents SameLedger
      (recordMetered env now body card priced (linkText link))
      (fun _ s' => ∃ event ∈ s'.events, event.id = meteredId env body ∧ event.status = .recorded)
      s := by
  intro s₁ events answer s₂ performed
  have absent' : ¬ (find s₁.events (meteredId env body)).isSome := by
    rw [events, find_isSome]
    exact absent
  obtain ⟨⟨event, rfl⟩, recordedAt, rfl⟩ := perform_recordEvent performed
  rw [recordLocked_metered, if_neg absent']
  refine ⟨rfl, ?_⟩
  intro s₃ events answer s₄ performed
  have same := perform_balance performed
  subst same
  have live : ∀ s₅ : Stores, SameEvents s₄ s₅ →
      ∃ event ∈ s₅.events, event.id = meteredId env body ∧ event.status = .recorded := by
    intro s₅ events'
    rw [events', events]
    exact ⟨_, List.mem_append_right _ (List.mem_singleton_self _), rfl, rfl⟩
  refine ⟨rfl, ?_⟩
  cases answer with
  | error error => exact live
  | ok balance => exact live

/-- The rest of a run void refunds every charge of the run. -/
theorem assures_voidCharges_refunds {entry : LedgerEntry} {count : Nat}
    (metered : s.ledger.Metered) (stored : entry ∈ s.ledger.entries)
    (usage : entry.entryType = .usage) (tagged : entry.runId = some run) :
    (server env).Assures SameLedger SameEvents
      (tryLedger (.voidCharges run) fun ledger => .done (.ok (VoidRunResult.mk count ledger)))
      (fun _ s' => entry ∈ s'.ledger.entries ∧ s'.ledger.unreversedRemainder entry.id = 0) s := by
  intro s₁ ledger answer s₂ performed
  rw [← ledger] at metered stored
  obtain ⟨⟨summary, rfl⟩, events, sweeps⟩ := perform_voidCharges metered performed
  refine ⟨events, ?_⟩
  intro s₃ ledger
  obtain ⟨posted, entries, _⟩ := sweeps.posted
  rw [ledger, entries, sweeps.remainder entry stored usage, if_pos tagged]
  exact ⟨List.mem_append_left _ stored, rfl⟩

/-- **After the charge of one and the void of the events of the other**, the event comes to life and
the charge is refunded, in either order. -/
theorem not_serial_of_crossed {entry : LedgerEntry} (metered : s.ledger.Metered)
    (enabled : (Action.charge entry).Enabled s.ledger) (own : entry.accountId = body.account)
    (tagged : entry.runId = some run)
    (isKey : entry.idempotencyKey = some (chargeKey body.idempotencyKey))
    (absent : meteredId env body ∉ s.events.map Event.id) {card : RateCard} {priced : PricedUsage}
    {turns : List Server.Side} {reply : Except ApiError MeterUsageResult}
    {reply' : Except ApiError VoidRunResult} {count : Nat}
    (finishes : (server env).Finishes turns
      (recordMetered env now body card priced (linkText (some entry.id)))
      (tryLedger (.voidCharges run) fun ledger => .done (.ok (VoidRunResult.mk count ledger)))
      ⟨(Action.charge entry).apply s.ledger, restate (voided run) s.events⟩ reply reply' s') :
    ¬ SerialOutcome env body s' := by
  have charged : ((Action.charge entry).apply s.ledger).Metered :=
    metered.charge enabled
  have posted : entry ∈ ((Action.charge entry).apply s.ledger).entries := by
    rw [Action.apply_entries]
    exact List.mem_append_right _ (List.mem_singleton_self _)
  rw [← ids_restate (voided run)] at absent
  obtain ⟨⟨event, inside, same, live⟩, stored, zero⟩ :=
    Server.finishes_assures SameEvents.refl SameLedger.refl (fun _ _ _ => SameEvents.trans)
      (fun _ _ _ => SameLedger.trans) finishes (assures_recordMetered_live (some entry.id) absent)
      (assures_voidCharges_refunds charged posted enabled.2.2.2.1 tagged)
  intro serial
  rcases serial entry stored own isKey with ⟨_, dead⟩ | ⟨full, _⟩
  · exact dead event inside same live
  · rw [zero] at full
    exact absurd (neg_eq_zero.mp full.symm) enabled.2.2.1.ne

/-! ### The first two calls -/

section Turns

variable {α β : Type} {turns : List Server.Side}

/-- Metering's first call posts the charge. -/
theorem first_call {card : RateCard} {priced : PricedUsage}
    (isPriced : price env body.model body.rateCardId body.usage = .ok (card, priced))
    (positive : 0 < burnedCredits body.burnable priced.credits)
    (present : s.ledger.accounts.contains body.account = true)
    (unused : s.ledger.findKeyed body.account (chargeKey body.idempotencyKey) = none)
    {right right' : Handler β} {left' : Handler MeterUsageResult}
    (race : (server env).Race (.first :: turns) (meterUsage env now body) right s left' right' s') :
    ∃ entry, (Action.charge entry).Enabled s.ledger ∧ entry.accountId = body.account ∧
      entry.runId = body.runId ∧
      entry.idempotencyKey = some (chargeKey body.idempotencyKey) ∧
      ChargesFor env body.account body.runId (burnedCredits body.burnable priced.credits)
        (chargeKey body.idempotencyKey) s
        { s with ledger := (Action.charge entry).apply s.ledger } (some entry.id) ∧
      (server env).Race turns (recordMetered env now body card priced (linkText (some entry.id)))
        right { s with ledger := (Action.charge entry).apply s.ledger } left' right' s' := by
  have program : meterUsage env now body = tryLedger (.charge {
      account := body.account
      amount := burnedCredits body.burnable priced.credits
      runId := body.runId
      idempotencyKey := some (chargeKey body.idempotencyKey) }) fun entry =>
      recordMetered env now body card priced (some entry.id.toString) := by
    unfold meterUsage
    rw [isPriced]
    exact if_pos positive
  rw [program] at race
  obtain ⟨answer, middle, performed, rest⟩ := race.first_inv
  rcases perform_charge performed with ⟨refused | missing, _⟩ | ⟨_, _, entry, rfl,
    ⟨key, isKey, found, _⟩ | ⟨enabled, own, tagged, isKey, _, rfl⟩⟩
  · exact absurd positive refused
  · cases missing.symm.trans present
  · cases isKey
    cases found.symm.trans unused
  · exact ⟨entry, enabled, own, tagged, isKey, Or.inl ⟨positive, entry, performed, rfl⟩, rest⟩

/-- A run void's first call voids the events. -/
theorem second_call {left left' : Handler α} {right' : Handler VoidRunResult}
    (race : (server env).Race (.second :: turns) left (voidRun run) s left' right' s') :
    ∃ count, (server env).Race turns left
      (tryLedger (.voidCharges run) fun ledger => .done (.ok (VoidRunResult.mk count ledger)))
      { s with events := restate (voided run) s.events } left' right' s' := by
  obtain ⟨answer, middle, performed, rest⟩ := race.second_inv
  obtain ⟨⟨count, rfl⟩, rfl⟩ := perform_voidEvents performed
  exact ⟨count, rest⟩

end Turns

end

/-! ### The orders of the first two calls -/

section Orders

variable {env : Env} {steps : List (Request × Stores)} {s s' : Stores} {now : OffsetDateTime}
  {body : MeterUsageBody} {run : RunId} {later : List Server.Side}
  {reply : Except ApiError MeterUsageResult} {reply' : Except ApiError VoidRunResult}

/-- Metering that has nothing to post does no harm. -/
theorem serial_of_quiet (agrees : Agrees env steps s) (keyed : Keyed env steps)
    (member : body ∈ bodies steps) (quiet : ¬ PostsCharge env body s) {turns : List Server.Side}
    (finishes : (server env).Finishes turns (meterUsage env now body) (voidRun run) s reply reply'
      s') : SerialOutcome env body s' := by
  cases found : s.ledger.findKeyed body.account (chargeKey body.idempotencyKey) with
  | none =>
    refine (finishes_uncharged ⟨agrees.metered, found, ?_⟩ finishes).serialOutcome
    intro card priced isPriced positive
    rw [← Bool.not_eq_true]
    exact fun present => quiet ⟨⟨card, priced, isPriced, positive⟩, present, found⟩
  | some charge =>
    obtain ⟨stored, own, isKey⟩ := Ledger.findKeyed_eq_some found
    obtain ⟨event, inside, same, _⟩ := agrees.charge_event keyed member stored isKey
    have known : meteredId env body ∈ s.events.map Event.id :=
      same ▸ List.mem_map_of_mem inside
    exact (agrees.race_harmless (harmless_meterUsage known stored own isKey)
      finishes).serialOutcome keyed member

/-- Metering that posts a charge has not recorded its event before. -/
theorem absent_of_posts (agrees : Agrees env steps s) (keyed : Keyed env steps)
    (member : body ∈ bodies steps) (posts : PostsCharge env body s) :
    meteredId env body ∉ s.events.map Event.id := by
  obtain ⟨⟨card, priced, isPriced, positive⟩, present, unused⟩ := posts
  intro known
  obtain ⟨event, inside, same⟩ := List.mem_map.mp known
  obtain ⟨entry, stored, own, isKey⟩ :=
    agrees.charge_found keyed member inside same isPriced positive
  exact Ledger.findKeyed_eq_none.mp unused entry stored own isKey

/-- Metering has posted and recorded before the void begins. -/
theorem serial_of_meter_first (lawful : env.Lawful) (agrees : Agrees env steps s)
    (keyed : Keyed env steps) (member : body ∈ bodies steps) (posts : PostsCharge env body s)
    (finishes : (server env).Finishes (.first :: .first :: later) (meterUsage env now body)
      (voidRun run) s reply reply' s') : SerialOutcome env body s' := by
  obtain ⟨⟨card, priced, isPriced, positive⟩, present, unused⟩ := posts
  obtain ⟨entry, _, _, _, _, charges, rest⟩ :=
    first_call isPriced positive present unused finishes
  obtain ⟨answer, middle, performed, rest⟩ := rest.first_inv
  obtain ⟨⟨event, rfl⟩, recordedAt, rfl⟩ := perform_recordEvent performed
  rw [recordLocked_metered] at rest
  have meters : MetersUsage env now body s _ :=
    ⟨card, priced, _, _, recordedAt, isPriced, charges, rfl⟩
  exact ((agrees.meter lawful keyed member meters).race_harmless quiet_balance
    rest).serialOutcome keyed member

/-- The void has swept the events and the charges before metering begins. -/
theorem serial_of_void_first (lawful : env.Lawful) (agrees : Agrees env steps s)
    (keyed : Keyed env steps) (member : body ∈ bodies steps)
    (finishes : (server env).Finishes (.second :: .second :: later) (meterUsage env now body)
      (voidRun run) s reply reply' s') : SerialOutcome env body s' := by
  obtain ⟨count, rest⟩ := second_call finishes
  obtain ⟨answer, middle, performed, rest⟩ := rest.second_inv
  have metered : ({ s with events := restate (voided run) s.events } : Stores).ledger.Metered :=
    agrees.metered
  obtain ⟨⟨summary, rfl⟩, events, sweeps⟩ := perform_voidCharges metered performed
  have swept := agrees.voidRun events sweeps
  have serves : (server env).Serves (meterUsage env now body) middle reply s' := rest.calls
  rcases serves_meterUsage serves with rfl | meters
  · exact swept.serialOutcome keyed member
  · exact (swept.meter lawful keyed member meters).serialOutcome keyed member

/-- The charge of one and the void of the events of the other, in either order. -/
theorem not_serial_of_alternating (metered : s.ledger.Metered) (tagged : body.runId = some run)
    (absent : meteredId env body ∉ s.events.map Event.id) (posts : PostsCharge env body s)
    (side : Server.Side)
    (finishes : (server env).Finishes (side :: side.other :: later) (meterUsage env now body)
      (voidRun run) s reply reply' s') : ¬ SerialOutcome env body s' := by
  obtain ⟨⟨card, priced, isPriced, positive⟩, present, unused⟩ := posts
  cases side with
  | first =>
    obtain ⟨entry, enabled, own, isRun, isKey, _, rest⟩ :=
      first_call isPriced positive present unused finishes
    obtain ⟨count, rest⟩ := second_call rest
    exact not_serial_of_crossed metered enabled own (isRun.trans tagged) isKey absent rest
  | second =>
    obtain ⟨count, rest⟩ := second_call finishes
    obtain ⟨entry, enabled, own, isRun, isKey, _, rest⟩ :=
      first_call (s := { s with events := restate (voided run) s.events }) isPriced positive
        present unused rest
    exact not_serial_of_crossed metered enabled own (isRun.trans tagged) isKey absent rest

/-- Each of the two makes two calls at least. -/
theorem two_turns (posts : PostsCharge env body s) {turns : List Server.Side}
    (finishes : (server env).Finishes turns (meterUsage env now body) (voidRun run) s reply reply'
      s') : ∃ side next later, turns = side :: next :: later := by
  obtain ⟨⟨card, priced, isPriced, positive⟩, present, unused⟩ := posts
  match turns with
  | [] => cases finishes.nil_inv.2.1
  | [.first] =>
    obtain ⟨entry, _, _, _, _, _, rest⟩ :=
      first_call isPriced positive present unused finishes
    cases rest.nil_inv.1
  | [.second] =>
    obtain ⟨count, rest⟩ := second_call finishes
    cases rest.nil_inv.2.1
  | side :: next :: later => exact ⟨side, next, later, rfl⟩

end Orders

/-- **Metering that races with a void of its run.** From every state that sequential requests reach
(with keys as for the agreement), for every metering request of a run and every interleaving of it
with one void of the run: when both have answered, the outcome is serial if and only if metering
had nothing to post (no price, no credits, no account, or a key charged before), or one of the two
made its first two calls before the other made its first. -/
theorem meter_void_race {env : Env} (lawful : env.Lawful) {steps : List (Request × Stores)}
    {s : Stores}
    (runs : Runs (Request.Served env) Stores.new steps s) {now : OffsetDateTime}
    {body : MeterUsageBody} (keyed : Keyed env (steps ++ [(.meter now body, s)])) {run : RunId}
    (tagged : body.runId = some run) {turns : List Server.Side}
    {reply : Except ApiError MeterUsageResult} {reply' : Except ApiError VoidRunResult} {s' : Stores}
    (finishes : (server env).Finishes turns (meterUsage env now body) (voidRun run) s reply reply'
      s') :
    SerialOutcome env body s' ↔
      ¬ PostsCharge env body s ∨ ∃ side rest, turns = side :: side :: rest := by
  have agrees : Agrees env (steps ++ [(.meter now body, s)]) s :=
    (Agrees.of_runs lawful runs keyed.init).mono
  have member : body ∈ bodies (steps ++ [(.meter now body, s)]) := by
    rw [bodies_append]
    exact List.mem_append_right _ (List.mem_singleton_self _)
  by_cases posts : PostsCharge env body s
  swap
  · exact iff_of_true (serial_of_quiet agrees keyed member posts finishes) (Or.inl posts)
  obtain ⟨side, next, later, rfl⟩ := two_turns posts finishes
  by_cases same : next = side
  · subst same
    refine iff_of_true ?_ (Or.inr ⟨_, _, rfl⟩)
    cases next with
    | first => exact serial_of_meter_first lawful agrees keyed member posts finishes
    | second => exact serial_of_void_first lawful agrees keyed member finishes
  · have other : next = side.other := by
      cases side <;> cases next <;> first | rfl | exact absurd rfl same
    subst other
    refine iff_of_false ?_ (not_or.mpr ⟨not_not.mpr posts, ?_⟩)
    · exact not_serial_of_alternating agrees.metered tagged
        (absent_of_posts agrees keyed member posts) posts side finishes
    · rintro ⟨turn, rest, equal⟩
      obtain ⟨isSide, isNext⟩ := List.cons.inj equal
      exact same ((List.cons.inj isNext).1.trans isSide.symm)

/-- Ten more tokens of the sample's run. -/
def racingBody : MeterUsageBody := { sampleBody with idempotencyKey := "mm" }

theorem racing_keyed : Keyed sampleEnv (sampleSteps ++ [(.meter 0 racingBody, sampleStores)]) := by
  have keys : ((bodies (sampleSteps ++ [(.meter 0 racingBody, sampleStores)])).map
      MeterUsageBody.idempotencyKey).Nodup := by decide +kernel
  have isDerived : derived (sampleSteps ++ [(.meter 0 racingBody, sampleStores)]) =
      [⟨.metered "k", 1, "k::event"⟩, ⟨.amended 8 "a", 1, "k::event::amend::a"⟩,
        ⟨.metered "mm", 1, "mm::event"⟩] := by decide +kernel
  refine ⟨fun first member second member' => List.inj_on_of_nodup_map keys member member', ?_, ?_⟩
  · rw [isDerived]
    decide
  · rw [isDerived]
    decide

/-- Turns, each with its own draws. -/
def drawTurns (turns : List Server.Side) : List (Server.Side × Outside) :=
  turns.zipIdx.map fun turn => (turn.1, drawn (20 + turn.2))

/-- The void runs between the charge and the event: the charge is refunded, the event live. -/
theorem meter_void_race_crossed : ∃ reply reply' s',
    Runs (Request.Served sampleEnv) Stores.new sampleSteps sampleStores ∧
    Keyed sampleEnv (sampleSteps ++ [(.meter 0 racingBody, sampleStores)]) ∧
    racingBody.burnable = true ∧ racingBody.runId = some 7 ∧
    (server sampleEnv).Finishes
      ((drawTurns [.first, .second, .second, .first, .first]).map Prod.fst)
      (meterUsage sampleEnv 0 racingBody) (voidRun 7) sampleStores reply reply' s' ∧
    ¬ SerialOutcome sampleEnv racingBody s' := by
  have done : ((follow sampleEnv (drawTurns [.first, .second, .second, .first, .first])
      (meterUsage sampleEnv 0 racingBody) (voidRun 7) sampleStores).map fun result =>
        decide (SerialOutcome sampleEnv racingBody result.2.2)) = some false := by decide +kernel
  obtain ⟨⟨reply, reply', s'⟩, followed, outcome⟩ := Option.map_eq_some_iff.mp done
  exact ⟨reply, reply', s', sample_runs, racing_keyed, rfl, rfl, finishes_of_follow followed,
    of_decide_eq_false outcome⟩

/-- The void runs after both calls: everything is undone. -/
theorem meter_void_race_sample : ∃ reply reply' s',
    (server sampleEnv).Finishes
      ((drawTurns [.first, .first, .first, .second, .second]).map Prod.fst)
      (meterUsage sampleEnv 0 racingBody) (voidRun 7) sampleStores reply reply' s' ∧
    s'.ledger.entries.length = 7 ∧ SerialOutcome sampleEnv racingBody s' := by
  have done : ((follow sampleEnv (drawTurns [.first, .first, .first, .second, .second])
      (meterUsage sampleEnv 0 racingBody) (voidRun 7) sampleStores).map fun result =>
        result.2.2.ledger.entries.length) = some 7 := by decide +kernel
  obtain ⟨⟨reply, reply', s'⟩, followed, length⟩ := Option.map_eq_some_iff.mp done
  have finishes := finishes_of_follow followed
  exact ⟨reply, reply', s', finishes, length, (meter_void_race sampleEnv_lawful
    sample_runs racing_keyed rfl finishes).mpr (Or.inr ⟨.first, _, rfl⟩)⟩

end Meter.Api
