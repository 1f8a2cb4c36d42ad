/-
**An amendment that races with a void of its run.**

A run void makes two calls, one to either store: `voidEvents`, then `voidCharges`. `VoidMoves` is
what they do to the stores as the amendment sees it, and `AmendMoves` what the amendment does as the
run void sees it. Once the events are voided no new version of the run comes to life
(`AmendMoves.dead`), and what the void missed of the amendment's own charge the compensation refunds
(`assures_compensate`). `amend_void_race` puts the two together: **no event of the run stays live and
every charge of the run is refunded exactly once**, whatever the interleaving.
-/

import Meter.Api.Agreement

namespace Meter.Api

open Meter.Lib Meter.Pricing Meter.Events
open Meter.Ledger (LedgerEntry LedgerError Action runVoidChargeRefundKey)

/-! ### What a run void does, as others see it -/

/-- No event of the run is live. -/
def NoneLive (run : RunId) (events : List Event) : Prop :=
  ∀ event ∈ events, event.runId = some run → event.status ≠ .recorded

/-- A refunded charge stays refunded. -/
def KeepsSpent (before after : Ledger.State) : Prop :=
  ∀ entry ∈ before.entries, entry.entryType = .usage → before.unreversedRemainder entry.id = 0 →
    after.unreversedRemainder entry.id = 0

/-- What the two calls of a run void may do. -/
structure VoidMoves (s s' : Stores) : Prop where
  metered : s.ledger.Metered → s'.ledger.Metered
  accounts : ∀ account, s.ledger.accounts.contains account = true →
    s'.ledger.accounts.contains account = true
  entries : ∀ entry ∈ s.ledger.entries, entry ∈ s'.ledger.entries
  posted : ∀ entry ∈ s'.ledger.entries, entry ∈ s.ledger.entries ∨ (entry.entryType = .refund ∧
    ∃ key, entry.idempotencyKey = some key ∧ keyKind key = .voidRun)
  spent : KeepsSpent s.ledger s'.ledger
  ids : s'.events.map Event.id = s.events.map Event.id
  status : ∀ id event, find s.events id = some event → ∃ status,
    find s'.events id = some { event with status } ∧ (status = event.status ∨ status = .voided)

theorem find_restate (status : Event → EventStatus) (events : List Event) (id : EventId) :
    find (restate status events) id =
      (find events id).map fun event => { event with status := status event } := by
  rw [find, find, restate, List.find?_map]
  rfl

namespace VoidMoves

variable {s s' s'' : Stores}

theorem refl (s : Stores) : VoidMoves s s where
  metered := id
  accounts := fun _ => id
  entries := fun _ => id
  posted := fun _ => Or.inl
  spent := fun _ _ _ => id
  ids := rfl
  status := fun _ event found => ⟨event.status, found, Or.inl rfl⟩

theorem trans (first : VoidMoves s s') (second : VoidMoves s' s'') : VoidMoves s s'' where
  metered := fun metered => second.metered (first.metered metered)
  accounts := fun account present => second.accounts account (first.accounts account present)
  entries := fun entry stored => second.entries entry (first.entries entry stored)
  posted := by
    intro entry stored
    rcases second.posted entry stored with before | new
    · exact first.posted entry before
    · exact Or.inr new
  spent := fun entry stored usage zero =>
    second.spent entry (first.entries entry stored) usage (first.spent entry stored usage zero)
  ids := second.ids.trans first.ids
  status := by
    intro id event found
    obtain ⟨status, found', same⟩ := first.status id event found
    obtain ⟨status', found'', same'⟩ := second.status id _ found'
    refine ⟨status', found'', ?_⟩
    rcases same' with rfl | void
    · exact same
    · exact Or.inr void

theorem voidEvents (run : RunId) :
    VoidMoves s { s with events := restate (voided run) s.events } where
  metered := id
  accounts := fun _ => id
  entries := fun _ => id
  posted := fun _ => Or.inl
  spent := fun _ _ _ => id
  ids := ids_restate _ _
  status := by
    intro id event found
    refine ⟨voided run event, ?_, ?_⟩
    · rw [find_restate, found, Option.map_some]
    · rw [voided]
      split
      · exact Or.inr rfl
      · exact Or.inl rfl

theorem voidCharges {run : RunId} (events : s'.events = s.events)
    (sweeps : SweepsCharges run s.ledger s'.ledger) : VoidMoves s s' where
  metered := fun _ => sweeps.metered
  accounts := fun account present => (sweeps.accounts account).trans present
  entries := by
    obtain ⟨posted, entries, _⟩ := sweeps.posted
    intro entry stored
    rw [entries]
    exact List.mem_append_left _ stored
  posted := by
    obtain ⟨posted, entries, refunds⟩ := sweeps.posted
    intro entry stored
    rw [entries, List.mem_append] at stored
    rcases stored with before | new
    · exact Or.inl before
    · obtain ⟨refund, id, isKey⟩ := refunds entry new
      exact Or.inr ⟨refund, _, isKey, keyKind_runVoidChargeRefundKey _ _⟩
  spent := by
    intro entry stored usage zero
    rw [sweeps.remainder entry stored usage, zero, ite_self]
  ids := by rw [events]
  status := fun id event found => ⟨event.status, by rw [events]; exact found, Or.inl rfl⟩

end VoidMoves

theorem noneLive_voided (run : RunId) (events : List Event) :
    NoneLive run (restate (voided run) events) := by
  intro event member tagged live
  obtain ⟨old, _, rfl⟩ := mem_restate.mp member
  have status : voided run old = .recorded := live
  rw [voided] at status
  split at status
  · cases status
  · rename_i spared
    exact spared ⟨tagged, status⟩

section Spent

variable {ledger : Ledger.State} {entry : LedgerEntry}

theorem keepsSpent_charge (metered : ledger.Metered)
    (enabled : (Action.charge entry).Enabled ledger) :
    KeepsSpent ledger ((Action.charge entry).apply ledger) := by
  intro other stored _ zero
  have known : other.id ∈ ledger.entryIds := List.mem_map_of_mem stored
  rw [metered.remainder_charge enabled (Or.inl known), if_neg, zero]
  intro same
  exact enabled.1.fresh (same ▸ known)

theorem keepsSpent_reverse {target : EntryId} (enabled : (Action.reverse entry).Enabled ledger)
    (links : entry.reversesEntryId = some target) :
    KeepsSpent ledger ((Action.reverse entry).apply ledger) := by
  intro other stored _ zero
  rw [Ledger.State.Metered.remainder_reverse enabled links (List.mem_map_of_mem stored), zero,
    ite_self]

end Spent

/-! ### What an amendment does, as the run void sees it -/

/-- What the calls of an amendment of an event of the run may do, given the version it produces. -/
structure AmendMoves (run : RunId) (version : EventId) (s s' : Stores) : Prop where
  metered : s.ledger.Metered → s'.ledger.Metered
  entries : ∀ entry ∈ s.ledger.entries, entry ∈ s'.ledger.entries
  posted : ∀ entry ∈ s'.ledger.entries, entry.entryType = .usage → entry ∈ s.ledger.entries ∨
    (entry.idempotencyKey = some (amendChargeKey version) ∧ version ∉ s.events.map Event.id)
  spent : KeepsSpent s.ledger s'.ledger
  ids : ∀ id ∈ s.events.map Event.id, id ∈ s'.events.map Event.id
  /-- Once no event of the run is live, none comes to life. -/
  dead : NoneLive run s.events →
    NoneLive run s'.events ∧ (version ∈ s'.events.map Event.id → version ∈ s.events.map Event.id)

namespace AmendMoves

variable {run : RunId} {version : EventId} {s s' s'' : Stores}

theorem refl (s : Stores) : AmendMoves run version s s where
  metered := id
  entries := fun _ => id
  posted := fun _ stored _ => Or.inl stored
  spent := fun _ _ _ => id
  ids := fun _ => id
  dead := fun none => ⟨none, id⟩

theorem trans (first : AmendMoves run version s s') (second : AmendMoves run version s' s'') :
    AmendMoves run version s s'' where
  metered := fun metered => second.metered (first.metered metered)
  entries := fun entry stored => second.entries entry (first.entries entry stored)
  posted := by
    intro entry stored usage
    rcases second.posted entry stored usage with before | ⟨isKey, absent⟩
    · exact first.posted entry before usage
    · exact Or.inr ⟨isKey, fun known => absent (first.ids version known)⟩
  spent := fun entry stored usage zero =>
    second.spent entry (first.entries entry stored) usage (first.spent entry stored usage zero)
  ids := fun id known => second.ids id (first.ids id known)
  dead := by
    intro none
    obtain ⟨none', back⟩ := first.dead none
    obtain ⟨none'', back'⟩ := second.dead none'
    exact ⟨none'', fun known => back (back' known)⟩

/-- A posting leaves the events alone. -/
theorem post {action : Action} (metered : s.ledger.Metered) (meters : action.Meters)
    (enabled : action.Enabled s.ledger) (spent : KeepsSpent s.ledger (action.apply s.ledger))
    (posted : ∀ entry ∈ action.posted, entry.entryType = .usage →
      entry.idempotencyKey = some (amendChargeKey version) ∧ version ∉ s.events.map Event.id) :
    AmendMoves run version s { s with ledger := action.apply s.ledger } where
  metered := fun _ => metered.apply meters enabled
  entries := by
    intro entry stored
    rw [Action.apply_entries]
    exact List.mem_append_left _ stored
  posted := by
    intro entry stored usage
    rw [Action.apply_entries, List.mem_append] at stored
    rcases stored with before | new
    · exact Or.inl before
    · exact Or.inr (posted entry new usage)
  spent := spent
  ids := fun _ => id
  dead := fun none => ⟨none, id⟩

end AmendMoves

/-- What the run void has done when it answers: the amendment's own charge may be left, as long as
its version is not there. -/
structure Swept (run : RunId) (version : EventId) (s : Stores) : Prop where
  metered : s.ledger.Metered
  noneLive : NoneLive run s.events
  spent : ∀ entry ∈ s.ledger.entries, entry.entryType = .usage → entry.runId = some run →
    s.ledger.unreversedRemainder entry.id = 0 ∨
      (entry.idempotencyKey = some (amendChargeKey version) ∧ version ∉ s.events.map Event.id)

theorem Swept.stable {run : RunId} {version : EventId} {s s' : Stores} (swept : Swept run version s)
    (moves : AmendMoves run version s s') : Swept run version s' := by
  obtain ⟨noneLive, back⟩ := moves.dead swept.noneLive
  refine ⟨moves.metered swept.metered, noneLive, fun entry stored usage tagged => ?_⟩
  rcases moves.posted entry stored usage with before | ⟨isKey, absent⟩
  · rcases swept.spent entry before usage tagged with zero | ⟨isKey, absent⟩
    · exact Or.inl (moves.spent entry before usage zero)
    · exact Or.inr ⟨isKey, fun known => absent (back known)⟩
  · exact Or.inr ⟨isKey, fun known => absent (back known)⟩

/-- **A run void, while an amendment is under way.** -/
theorem assures_voidRun {env : Env} {run : RunId} {version : EventId} {s : Stores}
    (metered : s.ledger.Metered) : (server env).Assures (AmendMoves run version) VoidMoves
      (voidRun run) (fun _ s' => Swept run version s') s := by
  intro s₁ moves answer s₂ performed
  have metered₁ := moves.metered metered
  obtain ⟨⟨count, rfl⟩, rfl⟩ := perform_voidEvents performed
  refine ⟨.voidEvents run, ?_⟩
  intro s₃ moves answer s₄ performed
  obtain ⟨noneLive, _⟩ := moves.dead (noneLive_voided run s₁.events)
  obtain ⟨⟨summary, rfl⟩, events, sweeps⟩ := perform_voidCharges (moves.metered metered₁) performed
  refine ⟨.voidCharges events sweeps, ?_⟩
  have swept : Swept run version s₄ := by
    refine ⟨sweeps.metered, events.symm ▸ noneLive, fun entry stored usage tagged => Or.inl ?_⟩
    obtain ⟨posted, entries, refunds⟩ := sweeps.posted
    rw [entries, List.mem_append] at stored
    rcases stored with before | new
    · rw [sweeps.remainder entry before usage, if_pos tagged]
    · cases (refunds entry new).1.symm.trans usage
  exact fun s₅ moves => swept.stable moves

/-! ### An amendment, while the run is voided -/

/-- What an amendment has settled when it answers: its charge is refunded, or its version is there. -/
def Settled (version : EventId) (s : Stores) : Prop :=
  ∀ entry ∈ s.ledger.entries, entry.entryType = .usage →
    entry.idempotencyKey = some (amendChargeKey version) →
    s.ledger.unreversedRemainder entry.id = 0 ∨ version ∈ s.events.map Event.id

/-- Where an amendment stands: its event is current or was voided, and at most its own charge is left
as long as its version is not there. -/
structure UnderWay (original : Event) (version : EventId) (charge : Option LedgerEntry)
    (s : Stores) : Prop where
  metered : s.ledger.Metered
  found : ∃ status, find s.events original.id = some { original with status } ∧
    (status = .recorded ∨ status = .voided)
  distinct : (s.events.map Event.id).Nodup
  uncompensated : ∀ entry ∈ s.ledger.entries,
    entry.idempotencyKey ≠ some (amendCompensateKey version)
  stored : ∀ entry, charge = some entry → entry ∈ s.ledger.entries ∧
    entry.accountId = original.accountId
  spent : ∀ entry ∈ s.ledger.entries, entry.entryType = .usage →
    entry.idempotencyKey = some (amendChargeKey version) →
    s.ledger.unreversedRemainder entry.id = 0 ∨ charge = some entry ∨
      version ∈ s.events.map Event.id

section Amendment

variable {env : Env} {run : RunId} {version : EventId} {original : Event}
  {charge : Option LedgerEntry} {s s' : Stores}

theorem Settled.stable (settled : Settled version s) (moves : VoidMoves s s') :
    Settled version s' := by
  intro entry stored usage isKey
  rcases moves.posted entry stored with before | ⟨refund, _⟩
  · rcases settled entry before usage isKey with zero | known
    · exact Or.inl (moves.spent entry before usage zero)
    · rw [moves.ids]
      exact Or.inr known
  · cases refund.symm.trans usage

theorem UnderWay.stable (underWay : UnderWay original version charge s) (moves : VoidMoves s s') :
    UnderWay original version charge s' where
  metered := moves.metered underWay.metered
  found := by
    obtain ⟨status, found, current⟩ := underWay.found
    obtain ⟨status', found', same⟩ := moves.status _ _ found
    refine ⟨status', found', ?_⟩
    rcases same with rfl | void
    · exact current
    · exact Or.inr void
  distinct := by
    rw [moves.ids]
    exact underWay.distinct
  uncompensated := by
    intro entry stored isKey
    rcases moves.posted entry stored with before | ⟨_, key, isKey', kind⟩
    · exact underWay.uncompensated entry before isKey
    · rw [isKey, Option.some.injEq] at isKey'
      rw [← isKey', keyKind_amendCompensateKey] at kind
      cases kind
  stored := fun entry own =>
    ⟨moves.entries entry (underWay.stored entry own).1, (underWay.stored entry own).2⟩
  spent := by
    intro entry stored usage isKey
    rcases moves.posted entry stored with before | ⟨refund, _⟩
    · rw [moves.ids]
      exact (underWay.spent entry before usage isKey).imp_left (moves.spent entry before usage)
    · cases refund.symm.trans usage

/-- With no charge left, everything is settled. -/
theorem UnderWay.settled (underWay : UnderWay original version none s) : Settled version s := by
  intro entry stored usage isKey
  rcases underWay.spent entry stored usage isKey with zero | impossible | known
  · exact Or.inl zero
  · cases impossible
  · exact Or.inr known

/-- A request that is over keeps what it settled. -/
theorem assures_done {α : Type} {result : α} (settled : Settled version s) :
    (server env).Assures VoidMoves (AmendMoves run version) (.done result)
      (fun _ s' => Settled version s') s :=
  fun _ moves => settled.stable moves

theorem assures_balance {β : Type} {account : AccountId} {next : Ledger.Balance → β}
    (settled : Settled version s) :
    (server env).Assures VoidMoves (AmendMoves run version)
      (tryLedger (.balance account) fun balance => .done (.ok (next balance)))
      (fun _ s' => Settled version s') s := by
  intro s₁ moves answer s₂ performed
  have same := perform_balance performed
  subst same
  refine ⟨.refl _, ?_⟩
  cases answer with
  | error error => exact assures_done (settled.stable moves)
  | ok balance => exact assures_done (settled.stable moves)

/-- **The compensation** refunds what the run void missed. -/
theorem assures_compensate (lawful : env.Lawful) {amendment : Repriced}
    (isVersion : amendment.version env = version)
    (underWay : UnderWay amendment.original version charge s) :
    (server env).Assures VoidMoves (AmendMoves run version)
      (compensate env amendment (linkText (charge.map LedgerEntry.id)))
      (fun _ s' => Settled version s') s := by
  cases charge with
  | none => exact assures_done underWay.settled
  | some entry =>
    have link : (linkText ((some entry).map LedgerEntry.id)).bind env.parseUuid =
        some entry.id.value := lawful.uuid entry.id.value
    unfold compensate
    rw [link]
    intro s₁ moves answer s₂ performed
    have underWay := underWay.stable moves
    obtain ⟨stored, account⟩ := underWay.stored entry rfl
    -- whichever way the reversal ends, nothing is left of the charge
    have done : (entry.entryType = .usage → s₂.ledger.unreversedRemainder entry.id = 0) →
        KeepsSpent s₁.ledger s₂.ledger → s₂.events = s₁.events →
        (∀ other ∈ s₂.ledger.entries, other.entryType = .usage → other ∈ s₁.ledger.entries) →
        Settled version s₂ := by
      intro zero keeps events old other stored' usage isKey
      have before := old other stored' usage
      rcases underWay.spent other before usage isKey with zero' | own | known
      · exact Or.inl (keeps other before usage zero')
      · cases own
        exact Or.inl (zero usage)
      · rw [events]
        exact Or.inr known
    rcases perform_reverseCharge performed with ⟨missing, _⟩ | ⟨_, ⟨reversal, rfl⟩,
      ⟨existing, found, _⟩ | ⟨nothing, rfl⟩ | ⟨refund, enabled, _, links, isKey, rfl⟩⟩
    · have present := underWay.metered.wf.entryAccounts entry stored
      rw [account] at present
      cases missing.symm.trans present
    · obtain ⟨inside, _, isKey⟩ := Ledger.findKeyed_eq_some found
      refine absurd isKey ?_
      rw [← isVersion] at underWay
      exact underWay.uncompensated existing inside
    · refine ⟨.refl _, assures_done (done (fun usage => ?_) (fun _ _ _ zero => zero) rfl
        fun _ stored _ => stored)⟩
      rcases nothing with foreign | spent
      · exact absurd account (foreign entry stored rfl)
      · exact le_antisymm (not_lt.mp spent) (underWay.metered.remainder_nonneg stored usage)
    · have keeps := keepsSpent_reverse enabled links
      have refunds : ∀ other ∈ (Action.reverse refund).posted, other.entryType = .refund := by
        intro other new
        rw [List.mem_singleton.mp new]
        exact enabled.2.1
      refine ⟨.post underWay.metered trivial enabled keeps fun other new usage => ?_,
        assures_done (done (fun _ => ?_) keeps rfl fun other stored' usage => ?_)⟩
      · cases (refunds other new).symm.trans usage
      · rw [Ledger.State.Metered.remainder_reverse enabled links (List.mem_map_of_mem stored)]
        exact if_pos rfl
      · rw [Action.apply_entries, List.mem_append] at stored'
        rcases stored' with before | new
        · exact before
        · cases (refunds other new).symm.trans usage

/-- **Recording the version** succeeds while the event is current, and is compensated once it was
voided. -/
theorem assures_recordAmended (charge : Option LedgerEntry) (lawful : env.Lawful)
    {amendment : Repriced}
    (isVersion : amendment.version env = version)
    (current : amendment.original.status = .recorded)
    (tagged : amendment.original.runId = some run)
    (absent : version ∉ s.events.map Event.id)
    (underWay : UnderWay amendment.original version charge s) :
    (server env).Assures VoidMoves (AmendMoves run version)
      (recordAmended env amendment (linkText (charge.map LedgerEntry.id)))
      (fun _ s' => Settled version s') s := by
  intro s₁ moves answer s₂ performed
  have underWay := underWay.stable moves
  rw [← moves.ids] at absent
  obtain ⟨draw, rfl, rfl⟩ := perform_amendEvent performed
  obtain ⟨status, found, rfl | rfl⟩ := underWay.found
  · have same : ({ amendment.original with status := .recorded } : Event) = amendment.original := by
      rw [← current]
    rw [same] at found
    have recorded := amend_current found current
      (find_eq_none.mpr (isVersion.symm ▸ absent)) (charge.map LedgerEntry.id) draw
    rw [recorded, setStatus_eq underWay.distinct]
    have ids : (restate (marked amendment.original.id) s₁.events ++
        [amendment.amended env (charge.map LedgerEntry.id) draw]).map Event.id =
        s₁.events.map Event.id ++ [version] := by
      rw [List.map_append, ids_restate, List.map_singleton, ← isVersion]
      rfl
    refine ⟨⟨id, fun _ => id, fun _ stored _ => Or.inl stored, fun _ _ _ => id, ?_, ?_⟩, ?_⟩
    · intro id known
      show id ∈ (restate (marked amendment.original.id) s₁.events ++ _).map Event.id
      rw [ids]
      exact List.mem_append_left _ known
    · -- the event itself is live, so the run is not dead yet
      intro none
      exact absurd current (none _ (find_eq_some found).1 tagged)
    · refine assures_balance fun entry _ _ _ => Or.inr ?_
      show version ∈ (restate (marked amendment.original.id) s₁.events ++ _).map Event.id
      rw [ids]
      exact List.mem_append_right _ (List.mem_singleton_self _)
  · have refused : amend env.idempotentEventId draw (amendedEvent env amendment.original
        amendment.body amendment.model amendment.rateCardId amendment.card amendment.priced
        amendment.burnable (linkText (charge.map LedgerEntry.id))) s₁.events =
        (.error (.voided amendment.original.id), s₁.events) := by
      unfold amend
      rw [show (amendedEvent env amendment.original amendment.body amendment.model
        amendment.rateCardId amendment.card amendment.priced amendment.burnable
        (linkText (charge.map LedgerEntry.id))).eventId = amendment.original.id from rfl, found]
      rfl
    rw [refused]
    exact ⟨.refl _, assures_compensate lawful isVersion underWay⟩

/-- **Posting the new charge.** -/
theorem assures_chargeAmended (lawful : env.Lawful) {amendment : Repriced}
    (isVersion : amendment.version env = version)
    (current : amendment.original.status = .recorded)
    (tagged : amendment.original.runId = some run)
    (absent : version ∉ s.events.map Event.id)
    (underWay : UnderWay amendment.original version none s) :
    (server env).Assures VoidMoves (AmendMoves run version) (chargeAmended env amendment)
      (fun _ s' => Settled version s') s := by
  unfold chargeAmended
  split
  swap
  · exact assures_recordAmended none lawful isVersion current tagged absent underWay
  intro s₁ moves answer s₂ performed
  have underWay := underWay.stable moves
  rw [← moves.ids] at absent
  have settled : ∀ other ∈ s₁.ledger.entries, other.entryType = .usage →
      other.idempotencyKey = some (amendChargeKey version) →
      s₁.ledger.unreversedRemainder other.id = 0 := fun other stored usage isKey =>
    (underWay.settled other stored usage isKey).resolve_right absent
  rcases perform_charge performed with ⟨_, ⟨error, rfl⟩, rfl⟩ | ⟨_, _, entry, rfl,
    ⟨key, isKey, found, rfl⟩ | ⟨enabled, account, _, isKey, _, rfl⟩⟩
  · exact ⟨.refl _, assures_done underWay.settled⟩
  · obtain ⟨stored, account, _⟩ := Ledger.findKeyed_eq_some found
    refine ⟨.refl _, assures_recordAmended (some entry) lawful isVersion current tagged
      absent { underWay with stored := ?_, spent := ?_ }⟩
    · rintro _ ⟨⟩
      exact ⟨stored, account⟩
    · exact fun other inside usage isKey => Or.inl (settled other inside usage isKey)
  · rw [isVersion] at isKey
    have metered := underWay.metered.charge enabled
    have keeps := keepsSpent_charge underWay.metered enabled
    refine ⟨.post underWay.metered trivial enabled keeps fun other new _ => ?_, ?_⟩
    · rw [List.mem_singleton.mp new]
      exact ⟨isKey, absent⟩
    refine assures_recordAmended (some entry) lawful isVersion current tagged absent
      ⟨metered, underWay.found, underWay.distinct, ?_, ?_, ?_⟩
    · intro other inside
      rw [Action.apply_entries, List.mem_append] at inside
      rcases inside with before | new
      · exact underWay.uncompensated other before
      · rw [List.mem_singleton.mp new, isKey]
        intro same
        have kinds := congrArg keyKind (Option.some.inj same)
        rw [keyKind_amendChargeKey, keyKind_amendCompensateKey] at kinds
        cases kinds
    · rintro _ ⟨⟩
      refine ⟨?_, account⟩
      rw [Action.apply_entries]
      exact List.mem_append_right _ (List.mem_singleton_self _)
    · intro other inside usage isKey'
      rw [Action.apply_entries, List.mem_append] at inside
      rcases inside with before | new
      · exact Or.inl (keeps other before usage (settled other before usage isKey'))
      · rw [List.mem_singleton.mp new]
        exact Or.inr (Or.inl rfl)

/-- **Reversing the charge of the original, and the rest.** -/
theorem assures_applyAmendment (lawful : env.Lawful) {amendment : Repriced}
    (isVersion : amendment.version env = version)
    (current : amendment.original.status = .recorded)
    (tagged : amendment.original.runId = some run)
    (absent : version ∉ s.events.map Event.id)
    (underWay : UnderWay amendment.original version none s) :
    (server env).Assures VoidMoves (AmendMoves run version) (applyAmendment env amendment)
      (fun _ s' => Settled version s') s := by
  unfold applyAmendment
  split
  swap
  · exact assures_chargeAmended lawful isVersion current tagged absent underWay
  intro s₁ moves answer s₂ performed
  have underWay := underWay.stable moves
  rw [← moves.ids] at absent
  rcases perform_reverseCharge performed with ⟨_, ⟨error, rfl⟩, rfl⟩ | ⟨_, ⟨reversal, rfl⟩,
    ⟨existing, _, rfl⟩ | ⟨_, rfl⟩ | ⟨refund, enabled, _, links, isKey, rfl⟩⟩
  · exact ⟨.refl _, assures_done underWay.settled⟩
  · exact ⟨.refl _, assures_chargeAmended lawful isVersion current tagged absent underWay⟩
  · exact ⟨.refl _, assures_chargeAmended lawful isVersion current tagged absent underWay⟩
  · have keeps := keepsSpent_reverse enabled links
    refine ⟨.post underWay.metered trivial enabled keeps fun other new usage => ?_, ?_⟩
    · rw [List.mem_singleton.mp new, enabled.2.1] at usage
      cases usage
    refine assures_chargeAmended lawful isVersion current tagged absent
      ⟨underWay.metered.reverse enabled, underWay.found,
        underWay.distinct, ?_, ?_, ?_⟩
    · intro other inside
      rw [Action.apply_entries, List.mem_append] at inside
      rcases inside with before | new
      · exact underWay.uncompensated other before
      · rw [List.mem_singleton.mp new, isKey]
        intro same
        have kinds := congrArg keyKind (Option.some.inj same)
        rw [keyKind_amendReverseKey, keyKind_amendCompensateKey] at kinds
        cases kinds
    · intro _ impossible
      cases impossible
    · intro other inside usage isKey'
      rw [Action.apply_entries, List.mem_append] at inside
      rcases inside with before | new
      · exact (underWay.spent other before usage isKey').imp_left (keeps other before usage)
      · rw [List.mem_singleton.mp new, enabled.2.1] at usage
        cases usage

/-- **An amendment, while its run is voided.** -/
theorem assures_amendUsage (lawful : env.Lawful) {body : AmendUsageBody}
    (isVersion : amendedId env original body.idempotencyKey = version)
    (current : original.status = .recorded) (tagged : original.runId = some run)
    (underWay : UnderWay original version none s) :
    (server env).Assures VoidMoves (AmendMoves run version) (amendUsage env original.id body)
      (fun _ s' => Settled version s') s := by
  intro s₁ moves answer s₂ performed
  have underWay := underWay.stable moves
  obtain ⟨isAnswer, rfl⟩ := perform_getEvent performed
  refine ⟨.refl _, ?_⟩
  obtain ⟨status, found, isStatus⟩ := underWay.found
  rcases get_eq isAnswer with ⟨read, found', rfl⟩ | ⟨missing, _⟩
  swap
  · cases missing.symm.trans found
  have isRead := Option.some.inj (found'.symm.trans found)
  simp only [recheck]
  split
  · exact assures_done underWay.settled
  rename_i notVoided
  -- the event was not read as voided, so it was read as it was at the start
  have isCurrent : read = original := by
    rw [isRead] at notVoided ⊢
    rcases isStatus with rfl | rfl
    · rw [← current]
    · exact absurd rfl notVoided
  subst isCurrent
  split
  · exact assures_done underWay.settled
  intro s₃ moves answer s₄ performed
  have underWay := underWay.stable moves
  obtain ⟨isAnswer, rfl⟩ := perform_getEvent performed
  refine ⟨.refl _, ?_⟩
  rcases get_eq isAnswer with ⟨existing, _, rfl⟩ | ⟨absent, rfl⟩
  · exact assures_balance underWay.settled
  simp only
  split
  · exact assures_done underWay.settled
  split
  · exact assures_done underWay.settled
  rename_i amendment repriced
  obtain ⟨rfl, rfl⟩ := reprice_eq repriced
  exact assures_applyAmendment lawful isVersion current tagged
    (find_eq_none.mp (isVersion ▸ absent)) underWay

end Amendment

/-- **An amendment that races with a void of its run.** From every state that sequential requests
reach (with keys as for the agreement), for every live event of a run, engine-priced or not, and
every interleaving of one amendment of it with one void of the run, store call by store call: when
both have answered, no event of the run is live, and every charge of the run has exactly one linked
refund, of its whole magnitude, so that nothing is left of it. -/
theorem amend_void_race {env : Env} (lawful : env.Lawful) {steps : List (Request × Stores)}
    {s : Stores}
    (runs : Runs (Request.Served env) Stores.new steps s) (keyed : Keyed env steps)
    {event : Event} (member : event ∈ s.events) (live : event.status = .recorded) {run : RunId}
    (tagged : event.runId = some run) (body : AmendUsageBody) {turns : List Server.Side}
    {reply : Except ApiError AmendUsageResult} {reply' : Except ApiError VoidRunResult} {s' : Stores}
    (finishes : (server env).Finishes turns (amendUsage env event.id body) (voidRun run) s reply
      reply' s') :
    NoneLive run s'.events ∧
    ∀ entry ∈ s'.ledger.entries, entry.entryType = .usage → entry.runId = some run →
      ∃ refund, s'.ledger.linked entry.id = [refund] ∧
        refund.deltaCredits = -entry.deltaCredits ∧
        s'.ledger.unreversedRemainder entry.id = 0 := by
  have agrees := Agrees.of_runs lawful runs keyed
  have found := agrees.linear.find_of_mem member
  have underWay : UnderWay event (amendedId env event body.idempotencyKey) none s := by
    refine ⟨agrees.metered, ⟨event.status, found, Or.inl live⟩, agrees.linear.ids, ?_, ?_, ?_⟩
    · intro entry stored isKey
      have fits := agrees.keys entry stored _ isKey
      rw [KeyFits, keyKind_amendCompensateKey] at fits
      exact fits
    · intro _ impossible
      cases impossible
    · intro entry stored usage isKey
      obtain ⟨owner, inside, _, for'⟩ := agrees.posted_of_key stored isKey usage
      exact Or.inr (Or.inr (for'.amended_id rfl ▸ List.mem_map_of_mem inside))
  obtain ⟨settled, swept⟩ := Server.finishes_assures VoidMoves.refl AmendMoves.refl
    (fun _ _ _ => VoidMoves.trans) (fun _ _ _ => AmendMoves.trans) finishes
    (assures_amendUsage lawful rfl live tagged underWay)
    (assures_voidRun agrees.metered)
  refine ⟨swept.noneLive, fun entry stored usage tagged => ?_⟩
  have zero : s'.ledger.unreversedRemainder entry.id = 0 := by
    rcases swept.spent entry stored usage tagged with zero | ⟨isKey, absent⟩
    · exact zero
    · exact (settled entry stored usage isKey).resolve_right absent
  obtain ⟨refund, linked, delta⟩ := swept.metered.linked_of_remainder stored usage zero
  exact ⟨refund, linked, delta, zero⟩

/-- The void lands between the amendment's reversal and its new charge. -/
def voidBetween : List (Server.Side × Outside) :=
  [.first, .first, .first, .second, .second, .first, .first, .first].zipIdx.map fun turn =>
    (turn.1, drawn (20 + turn.2))

/-- The amended event of the sample, amended again while its run is voided: the amendment is refused
and its charge compensated. -/
theorem amend_void_race_sample : ∃ reply reply' s',
    (server sampleEnv).Finishes (voidBetween.map Prod.fst)
      (amendUsage sampleEnv 18 ⟨⟨6, 0, 0, 0, 0⟩, none, none, "b"⟩) (voidRun 7) sampleStores reply
      reply' s' ∧ s'.ledger.entries.length = 7 ∧ NoneLive 7 s'.events := by
  have done : ((follow sampleEnv voidBetween
      (amendUsage sampleEnv 18 ⟨⟨6, 0, 0, 0, 0⟩, none, none, "b"⟩) (voidRun 7) sampleStores).map
        fun result => result.2.2.ledger.entries.length) = some 7 := by decide +kernel
  obtain ⟨⟨reply, reply', s'⟩, followed, length⟩ := Option.map_eq_some_iff.mp done
  have finishes := finishes_of_follow followed
  have read : (find sampleStores.events 18).map (fun event => (event.status, event.runId)) =
      some (.recorded, some 7) := by decide +kernel
  obtain ⟨event, found, fields⟩ := Option.map_eq_some_iff.mp read
  obtain ⟨live, tagged⟩ := Prod.mk.inj fields
  obtain ⟨member, isId⟩ := find_eq_some found
  rw [← isId] at finishes
  exact ⟨reply, reply', s', isId ▸ finishes, length,
    (amend_void_race sampleEnv_lawful sample_runs sample_keyed member live tagged _ finishes).1⟩

end Meter.Api
