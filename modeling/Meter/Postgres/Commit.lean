/-
**What a transaction commits.**

The writes of a transaction, when it commits, are the writes of a list of ledger actions
(`Action.writes`), each of them `Legal` in the database it is applied to: it holds the locks it
needs, and the amounts in its rows are the rounded ones. This is read off the database of the moment
of the commit, not off what the statements saw.

* `round5_of_exact` — rounding leaves five decimals alone, so with exact amounts a stored action is
  the abstract action, except that the system account's balance is not kept (`store_alike`,
  `settled_store`).
* `Legal.intact` — **every legal action keeps the tables intact**: well formed, scaled, every refund
  referencing a row that exists.

`focus` names a run whose refunds are watched: `Guards` is the lock that whoever refunds an entry of
that run must hold.
-/

import Meter.Ledger.Overdraft
import Meter.Postgres.Ops

namespace Meter.Postgres

open Meter.Lib Meter.Ledger

/-! ### Five decimals -/

/-- A whole number of hundred-thousandths. -/
def Exact (value : Credit) : Prop := ∃ units : ℤ, value = units / 100000

namespace Exact

theorem zero : Exact 0 := ⟨0, by norm_num⟩

theorem neg {value : Credit} (exact : Exact value) : Exact (-value) := by
  obtain ⟨units, rfl⟩ := exact
  exact ⟨-units, by push_cast; ring⟩

theorem add {first second : Credit} (exact : Exact first) (exact' : Exact second) :
    Exact (first + second) := by
  obtain ⟨units, rfl⟩ := exact
  obtain ⟨units', rfl⟩ := exact'
  exact ⟨units + units', by push_cast; ring⟩

theorem sub {first second : Credit} (exact : Exact first) (exact' : Exact second) :
    Exact (first - second) := by
  rw [sub_eq_add_neg]
  exact exact.add exact'.neg

theorem sum {values : List Credit} (exact : ∀ value ∈ values, Exact value) :
    Exact values.sum := by
  induction values with
  | nil => exact .zero
  | cons value values ih =>
    rw [List.sum_cons]
    exact (exact value List.mem_cons_self).add
      (ih fun other inside => exact other (List.mem_cons_of_mem _ inside))

theorem iff_num {value : Credit} : Exact value ↔ ((value * 100000).num : ℚ) = value * 100000 := by
  constructor
  · rintro ⟨units, rfl⟩
    rw [div_mul_cancel₀ _ (by norm_num), Rat.num_intCast]
  · intro whole
    refine ⟨(value * 100000).num, ?_⟩
    rw [whole, mul_div_cancel_right₀ _ (by norm_num)]

instance (value : Credit) : Decidable (Exact value) := decidable_of_iff _ iff_num.symm

end Exact

theorem exact_round5 (value : Credit) : Exact (round5 value) := by
  unfold round5
  split
  · exact ⟨_, rfl⟩
  · exact Exact.neg ⟨_, rfl⟩

/-- **Rounding leaves five decimals alone.** -/
theorem round5_of_exact {value : Credit} (exact : Exact value) : round5 value = value := by
  obtain ⟨units, rfl⟩ := exact
  have whole : ∀ n : ℤ, ⌊(n : ℚ) / 100000 * 100000 + 1 / 2⌋ = n := by
    intro n
    rw [div_mul_cancel₀ _ (by norm_num), Int.floor_eq_iff]
    constructor <;> linarith
  unfold round5
  split
  · rw [whole]
  · have flipped := whole (-units)
    rw [Int.cast_neg, neg_div] at flipped
    rw [flipped, Int.cast_neg, neg_div, neg_neg]

theorem round5_nonneg {value : Credit} (nonneg : 0 ≤ value) : 0 ≤ round5 value := by
  unfold round5
  rw [if_pos nonneg]
  have floor : (0 : ℤ) ≤ ⌊value * 100000 + 1 / 2⌋ := Int.floor_nonneg.mpr (by linarith)
  have cast : (0 : ℚ) ≤ (⌊value * 100000 + 1 / 2⌋ : ℤ) := by exact_mod_cast floor
  linarith

theorem round5_nonpos {value : Credit} (nonpos : value ≤ 0) : round5 value ≤ 0 := by
  rcases nonpos.eq_or_lt with rfl | negative
  · rw [round5_of_exact .zero]
  · unfold round5
    rw [if_neg (not_le.mpr negative)]
    have floor : (0 : ℤ) ≤ ⌊-value * 100000 + 1 / 2⌋ := Int.floor_nonneg.mpr (by linarith)
    have cast : (0 : ℚ) ≤ (⌊-value * 100000 + 1 / 2⌋ : ℤ) := by exact_mod_cast floor
    linarith

/-- Every amount in the tables has five decimals. -/
structure Scaled (db : State) : Prop where
  settled : ∀ {account row}, db.accounts.get? account = some row → Exact row.settled
  amount : ∀ {reservation hold}, db.holds.get? reservation = some hold → Exact hold.amount
  delta : ∀ entry ∈ db.entries, Exact entry.deltaCredits

/-! ### Locks -/

/-- A resource locked against every writer. -/
def Locked (locks : List Lock) (resource : Resource) : Prop :=
  ⟨.forUpdate, resource⟩ ∈ locks ∨ ⟨.noKeyUpdate, resource⟩ ∈ locks

theorem Locked.mono {locks more : List Lock} {resource : Resource} (locked : Locked locks resource)
    (sub : locks ⊆ more) : Locked more resource := by
  rcases locked with update | noKey
  · exact Or.inl (sub update)
  · exact Or.inr (sub noKey)

/-- **Two compatible transactions never lock the same resource.** -/
theorem Locked.exclusive {shares : Bool} {locks others : List Lock}
    (compatible : (engine shares).Compatible locks others) {resource : Resource}
    (locked : Locked locks resource) : ¬ Locked others resource := by
  rintro (other | other)
  · rcases locked with mine | mine
    · exact compatible _ mine _ other ⟨rfl, rfl⟩
    · exact compatible _ mine _ other ⟨rfl, rfl⟩
  · rcases locked with mine | mine
    · exact compatible _ mine _ other ⟨rfl, rfl⟩
    · exact compatible _ mine _ other ⟨rfl, rfl⟩

/-- The lock that whoever refunds an entry of a run must hold: the entry's own for a direct charge,
the hold's for a settle. -/
def Guard (run : RunId) (db : State) (entry : LedgerEntry) (resource : Resource) : Prop :=
  (entry.entryType = .usage ∧ entry.runId = some run ∧ resource = .entry entry.id) ∨
    (entry.entryType = .settle ∧ ∃ reservation hold, entry.reservationId = some reservation ∧
      db.holds.get? reservation = some hold ∧ hold.runId = some run ∧ resource = .hold reservation)

/-- The same for an entry named by its id, of the watched run. -/
def Guards (focus : Option RunId) (db : State) (id : EntryId) (resource : Resource) : Prop :=
  ∃ run, focus = some run ∧ ∃ entry ∈ db.entries, entry.id = id ∧ Guard run db entry resource

/-! ### Actions as writes -/

/-- The row versions that an action writes. -/
def Action.writes : Action → List Write
  | .openAccount account => [.insertAccount account]
  | .credit entry | .charge entry | .reverse entry =>
      [.setSettled entry.accountId entry.balanceAfter, .insertEntry entry]
  | .settle reservation entry => [.setSettled entry.accountId entry.balanceAfter,
      .insertEntry entry, .settleHold reservation entry.id]
  | .transfer out into => [.setSettled out.accountId out.balanceAfter,
      .setSettled into.accountId into.balanceAfter, .insertEntry out, .insertEntry into]
  | .place reservation hold => [.insertHold reservation hold]
  | .release reservations => reservations.map .voidHold
  | .extend reservation expiresAt => [.extendHold reservation expiresAt]

/-- A database under some writes. -/
def after (db : State) (writes : List Write) : State := writes.foldl Write.apply db

theorem after_append (db : State) (first second : List Write) :
    after db (first ++ second) = after (after db first) second := List.foldl_append

/-- The database after an action. -/
def Action.store (db : State) (action : Action) : State := after db (Action.writes action)

/-- The database after some actions. -/
def Action.stores (db : State) (actions : List Action) : State :=
  after db (actions.flatMap Action.writes)

theorem stores_cons (db : State) (action : Action) (actions : List Action) :
    Action.stores db (action :: actions) = Action.stores (Action.store db action) actions := by
  rw [Action.stores, List.flatMap_cons, after_append]
  rfl

/-! ### Legal actions -/

/-- A stored posting: a new id, an unused key, the amounts rounded, and its rows locked. -/
structure Stores (scaled : Prop) (locks : List Lock) (db : State) (amount : Credit)
    (entry : LedgerEntry) : Prop where
  row : ∃ row, db.accounts.get? entry.accountId = some row ∧
    entry.balanceAfter = round5 (row.settled + amount)
  delta : entry.deltaCredits = round5 amount
  scale : scaled → Exact amount
  paired : entry.pairedAccountId = systemAccount
  fresh : entry.id ∉ db.entryIds
  unused : Unused db entry
  target : ∀ id, entry.reversesEntryId = some id → id ∈ db.entryIds
  lockedAccount : Locked locks (.account entry.accountId)
  lockedEntry : Locked locks (.entry entry.id)
  lockedKey : ∀ key, entry.idempotencyKey = some key → Locked locks (.key entry.accountId key)

/-- A stored transfer. A no-overdraft payer has the amount available. -/
structure StoresTransfer (scaled : Prop) (locks : List Lock) (db : State) (amount : Credit)
    (out into : LedgerEntry) : Prop where
  positive : 0 < amount
  scale : scaled → Exact amount
  different : into.accountId ≠ out.accountId
  paired : out.pairedAccountId = into.accountId ∧ into.pairedAccountId = out.accountId
  kinds : out.entryType = .transfer ∧ into.entryType = .transfer
  deltas : out.deltaCredits = round5 (-amount) ∧ into.deltaCredits = round5 amount
  payer : ∃ row, db.accounts.get? out.accountId = some row ∧
    out.balanceAfter = round5 (row.settled + -amount) ∧
    (row.account.noOverdraft = true → amount ≤ db.available out.accountId)
  payee : ∃ row, db.accounts.get? into.accountId = some row ∧
    into.balanceAfter = round5 (row.settled + amount)
  fresh : out.id ∉ db.entryIds ∧ into.id ∉ db.entryIds ∧ out.id ≠ into.id
  plain : out.reversesEntryId = none ∧ into.reversesEntryId = none ∧
    out.idempotencyKey = none ∧ into.idempotencyKey = none
  lockedAccounts : Locked locks (.account out.accountId) ∧ Locked locks (.account into.accountId)
  lockedEntries : Locked locks (.entry out.id) ∧ Locked locks (.entry into.id)

/-- An action that a transaction with some locks may commit. -/
def Legal (focus : Option RunId) (scaled : Prop) (locks : List Lock) (db : State) : Action → Prop
  | .openAccount account => db.accounts.get? account.id = none ∧
      (∀ parent, account.parentId = some parent → db.accounts.contains parent = true) ∧
      Locked locks (.account account.id)
  | .credit entry => ∃ amount, 0 < amount ∧ Stores scaled locks db amount entry ∧
      (entry.entryType = .grant ∧ entry.reversesEntryId = none ∨ entry.entryType = .refund)
  | .charge entry => ∃ amount, amount < 0 ∧ Stores scaled locks db amount entry ∧
      entry.entryType = .usage ∧ entry.reversesEntryId = none
  | .reverse entry => ∃ amount, 0 < amount ∧ Stores scaled locks db amount entry ∧
      entry.entryType = .refund ∧ ∃ id, entry.reversesEntryId = some id ∧
      ∀ resource, Guards focus db id resource →
        Locked locks resource ∧ amount = db.unreversedRemainder id
  | .settle reservation entry => ∃ amount, amount ≤ 0 ∧ Stores scaled locks db amount entry ∧
      entry.entryType = .settle ∧ entry.reversesEntryId = none ∧ entry.idempotencyKey = none ∧
      entry.reservationId = some reservation ∧ Locked locks (.hold reservation) ∧
      ∃ hold, db.holds.get? reservation = some hold ∧ hold.status = .open ∧
        entry.accountId = hold.account
  | .transfer out into => ∃ amount, StoresTransfer scaled locks db amount out into
  | .place reservation hold => db.holds.get? reservation = none ∧ hold.status = .open ∧
      hold.settleEntry = none ∧ Locked locks (.hold reservation) ∧
      Locked locks (.account hold.account) ∧
      ∃ amount row, 0 < amount ∧ (scaled → Exact amount) ∧ hold.amount = round5 amount ∧
        db.accounts.get? hold.account = some row ∧
        (row.account.noOverdraft = true → amount ≤ db.available hold.account)
  | .release reservations => ∃ reservation, reservations = [reservation] ∧
      Locked locks (.hold reservation) ∧
      ∃ hold, db.holds.get? reservation = some hold ∧ hold.status = .open
  | .extend reservation _ => Locked locks (.hold reservation) ∧
      ∃ hold, db.holds.get? reservation = some hold ∧ hold.status = .open

/-- Actions that are legal one after another. -/
def Legals (focus : Option RunId) (scaled : Prop) (locks : List Lock) : State → List Action → Prop
  | _, [] => True
  | db, action :: actions => Legal focus scaled locks db action ∧
      Legals focus scaled locks (Action.store db action) actions

section

variable {focus : Option RunId} {scaled : Prop} {locks more : List Lock} {db : State}

theorem Stores.mono (sub : locks ⊆ more) {amount : Credit} {entry : LedgerEntry}
    (stores : Stores scaled locks db amount entry) : Stores scaled more db amount entry :=
  { stores with
    lockedAccount := stores.lockedAccount.mono sub
    lockedEntry := stores.lockedEntry.mono sub
    lockedKey := fun key own => (stores.lockedKey key own).mono sub }

theorem Legal.mono (sub : locks ⊆ more) {action : Action}
    (legal : Legal focus scaled locks db action) : Legal focus scaled more db action := by
  cases action with
  | openAccount account => exact ⟨legal.1, legal.2.1, legal.2.2.mono sub⟩
  | credit entry | charge entry =>
    obtain ⟨amount, sign, stores, rest⟩ := legal
    exact ⟨amount, sign, stores.mono sub, rest⟩
  | reverse entry =>
    obtain ⟨amount, sign, stores, kind, id, links, guarded⟩ := legal
    exact ⟨amount, sign, stores.mono sub, kind, id, links, fun resource guards =>
      ⟨(guarded resource guards).1.mono sub, (guarded resource guards).2⟩⟩
  | settle reservation entry =>
    obtain ⟨amount, sign, stores, kind, links, key, own, locked, hold⟩ := legal
    exact ⟨amount, sign, stores.mono sub, kind, links, key, own, locked.mono sub, hold⟩
  | transfer out into =>
    obtain ⟨amount, stores⟩ := legal
    exact ⟨amount, { stores with
      lockedAccounts := ⟨stores.lockedAccounts.1.mono sub, stores.lockedAccounts.2.mono sub⟩
      lockedEntries := ⟨stores.lockedEntries.1.mono sub, stores.lockedEntries.2.mono sub⟩ }⟩
  | place reservation hold =>
    obtain ⟨absent, isOpen, unsettled, locked, account, rest⟩ := legal
    exact ⟨absent, isOpen, unsettled, locked.mono sub, account.mono sub, rest⟩
  | release reservations =>
    obtain ⟨reservation, same, locked, hold⟩ := legal
    exact ⟨reservation, same, locked.mono sub, hold⟩
  | extend reservation expiresAt => exact ⟨legal.1.mono sub, legal.2⟩

theorem Legals.mono (sub : locks ⊆ more) {actions : List Action}
    (legals : Legals focus scaled locks db actions) : Legals focus scaled more db actions := by
  induction actions generalizing db with
  | nil => trivial
  | cons action actions ih => exact ⟨legals.1.mono sub, ih legals.2⟩

theorem Legals.append {first second : List Action} (earlier : Legals focus scaled locks db first)
    (later : Legals focus scaled locks (Action.stores db first) second) :
    Legals focus scaled locks db (first ++ second) := by
  induction first generalizing db with
  | nil => exact later
  | cons action actions ih =>
    rw [stores_cons] at later
    exact ⟨earlier.1, ih earlier.2 later⟩

/-- **An invariant of every legal action is an invariant of a whole transaction.** -/
theorem Legals.invariant {P : State → Prop}
    (kept : ∀ db action, P db → Legal focus scaled locks db action → P (Action.store db action))
    {actions : List Action} (legals : Legals focus scaled locks db actions) (start : P db) :
    P (Action.stores db actions) := by
  induction actions generalizing db with
  | nil => exact start
  | cons action actions ih =>
    rw [stores_cons]
    exact ih legals.2 (kept db action start legals.1)

/-! ### What a legal action keeps -/

/-- **A legal action fits the links of the tables.** -/
theorem Legal.fits {action : Action} (legal : Legal focus scaled locks db action) :
    action.Fits db := by
  have posting : ∀ {amount : Credit} {entry : LedgerEntry}, Stores scaled locks db amount entry →
      db.accounts.contains entry.accountId = true := by
    intro amount entry stores
    obtain ⟨row, found, _⟩ := stores.row
    exact Table.contains_iff.mpr ⟨row, found⟩
  cases action with
  | openAccount account => exact ⟨legal.1, parent_ne_self legal.1 legal.2.1⟩
  | credit entry =>
    obtain ⟨amount, _, stores, kind⟩ := legal
    refine ⟨posting stores, stores.fresh, fun other => ?_⟩
    rcases kind with ⟨kind, _⟩ | kind <;> rw [kind] at other <;> cases other
  | charge entry =>
    obtain ⟨amount, _, stores, kind, _⟩ := legal
    exact ⟨posting stores, stores.fresh, fun other => by cases other.symm.trans kind⟩
  | reverse entry =>
    obtain ⟨amount, _, stores, kind, _⟩ := legal
    exact ⟨posting stores, stores.fresh, fun other => by cases other.symm.trans kind⟩
  | settle reservation entry =>
    obtain ⟨amount, _, stores, kind, _, _, own, _, hold⟩ := legal
    exact ⟨posting stores, stores.fresh, kind, own, hold⟩
  | transfer out into =>
    obtain ⟨amount, stores⟩ := legal
    obtain ⟨payer, foundPayer, _⟩ := stores.payer
    obtain ⟨payee, foundPayee, _⟩ := stores.payee
    refine ⟨Table.contains_iff.mpr ⟨payer, foundPayer⟩, Table.contains_iff.mpr ⟨payee, foundPayee⟩,
      stores.fresh, ?_, ?_⟩
    · rw [stores.kinds.1]
      decide
    · rw [stores.kinds.2]
      decide
  | place reservation hold =>
    obtain ⟨absent, isOpen, unsettled, _, _, amount, row, positive, _, stored, found, _⟩ := legal
    refine ⟨absent, isOpen, unsettled, ?_, Table.contains_iff.mpr ⟨row, found⟩⟩
    rw [stored]
    exact round5_nonneg positive.le
  | release reservations =>
    obtain ⟨reservation, rfl, _, hold⟩ := legal
    intro other member
    rwa [List.mem_singleton.mp member]
  | extend reservation expiresAt => exact legal.2

/-- Two databases that differ at most in settled balances. -/
structure Alike (db db' : State) : Prop where
  holds : db.holds = db'.holds
  entries : db.entries = db'.entries
  terms : ∀ account, (db.accounts.get? account).map AccountRow.account =
    (db'.accounts.get? account).map AccountRow.account

theorem Alike.contains {db' : State} (alike : Alike db db') (account : AccountId) :
    db.accounts.contains account = db'.accounts.contains account := by
  have terms := congrArg Option.isSome (alike.terms account)
  rwa [Option.isSome_map, Option.isSome_map] at terms

theorem Alike.row {db' : State} (alike : Alike db db') {account : AccountId} {row : AccountRow}
    (found : db.accounts.get? account = some row) :
    ∃ row', db'.accounts.get? account = some row' ∧ row'.account = row.account := by
  have terms := alike.terms account
  rw [found, Option.map_some, eq_comm, Option.map_eq_some_iff] at terms
  exact terms

theorem Alike.symm {db' : State} (alike : Alike db db') : Alike db' db :=
  ⟨alike.holds.symm, alike.entries.symm, fun account => (alike.terms account).symm⟩

theorem Alike.wellFormed {db' : State} (alike : Alike db db') (wf : db.WellFormed) :
    db'.WellFormed where
  system := by
    obtain ⟨row, found, plain⟩ := wf.system
    obtain ⟨row', found', same⟩ := alike.row found
    exact ⟨row', found', by rw [same, plain]⟩
  accountIds := by
    intro account row found
    obtain ⟨old, foundOld, same⟩ := alike.symm.row found
    rw [← same, wf.accountIds foundOld]
  parents := by
    intro account row found
    obtain ⟨old, foundOld, same⟩ := alike.symm.row found
    rw [← same]
    exact wf.parents foundOld
  entryIds := by
    rw [State.entryIds, ← alike.entries]
    exact wf.entryIds
  entryAccounts := by
    intro entry member
    rw [← alike.contains]
    exact wf.entryAccounts entry (alike.entries ▸ member)
  holdTerms := by
    intro reservation hold found
    rw [← alike.contains]
    exact wf.holdTerms (alike.holds ▸ found)
  settledIff := fun found => wf.settledIff (alike.holds ▸ found)
  settleLink := by
    intro reservation hold id found link
    rw [← alike.entries]
    exact wf.settleLink (alike.holds ▸ found) link
  settleHold := by
    intro entry member kind
    rw [← alike.holds]
    exact wf.settleHold entry (alike.entries ▸ member) kind

/-- **A stored action is the abstract action**, up to settled balances. -/
theorem store_alike {action : Action} (legal : Legal focus scaled locks db action) :
    Alike (Action.store db action) (action.apply db) := by
  -- a balance that is set and a balance that is paid leave the same terms
  have posting : ∀ (accounts : Table AccountId AccountRow) (set : AccountId) (settled : Credit)
      (account : AccountId), ((accounts.modify set fun row => { row with settled }).get?
        account).map AccountRow.account = (accounts.get? account).map AccountRow.account := by
    intro accounts set settled account
    rw [Table.get?_modify]
    split
    · rename_i same
      rw [Option.map_map, same]
      rfl
    · rfl
  have paying : ∀ payer payee amount account,
      ((db.pay payer payee amount).accounts.get? account).map AccountRow.account =
        (db.accounts.get? account).map AccountRow.account := by
    intro payer payee amount account
    rw [State.get?_pay, Option.map_map]
    rfl
  cases action with
  | openAccount account => exact ⟨rfl, rfl, fun _ => rfl⟩
  | credit entry | charge entry | reverse entry | settle reservation entry =>
    exact ⟨rfl, rfl, fun account => (posting _ _ _ _).trans (paying _ _ _ _).symm⟩
  | transfer out into =>
    refine ⟨rfl, by simp [Action.store, Action.writes, after, Write.apply, Action.apply],
      fun account => ((posting _ _ _ _).trans (posting _ _ _ _)).trans (paying _ _ _ _).symm⟩
  | place reservation hold | extend reservation expiresAt => exact ⟨rfl, rfl, fun _ => rfl⟩
  | release reservations =>
    obtain ⟨reservation, rfl, _⟩ := legal
    refine ⟨?_, rfl, fun _ => rfl⟩
    simp only [Action.store, Action.writes, after, List.map_cons, List.map_nil, List.foldl_cons,
      List.foldl_nil, Write.apply, Action.apply, Table.modify, List.mem_singleton]

theorem store_entries {action : Action} (legal : Legal focus scaled locks db action) :
    (Action.store db action).entries = db.entries ++ action.posted := by
  rw [(store_alike legal).entries, Action.apply_entries]

/-- The tables as the transactions keep them: well formed, scaled, every refund references a row that
exists, and a key is used once on an account. -/
structure Intact (db : State) : Prop where
  wellFormed : db.WellFormed
  scaled : Scaled db
  links : ∀ entry ∈ db.entries, ∀ id, entry.reversesEntryId = some id → id ∈ db.entryIds
  keys : ∀ first ∈ db.entries, ∀ second ∈ db.entries, first.accountId = second.accountId →
    first.idempotencyKey = second.idempotencyKey → first.idempotencyKey ≠ none → first = second

theorem Intact.new : Intact State.new where
  wellFormed := .new
  scaled := by
    refine ⟨fun {account row} found => ?_, fun {_ _} found => (by cases found),
      fun _ member => absurd member List.not_mem_nil⟩
    rw [State.new, Table.get?_set] at found
    split at found
    · cases found
      exact .zero
    · cases found
  links := fun _ member => absurd member List.not_mem_nil
  keys := fun _ member => absurd member List.not_mem_nil

/-- The rows an action posts have five decimals, and reference rows that exist. -/
theorem Legal.posted {action : Action} (legal : Legal focus scaled locks db action) :
    ∀ entry ∈ action.posted, Exact entry.deltaCredits ∧
      ∀ id, entry.reversesEntryId = some id → id ∈ db.entryIds := by
  have one : ∀ {amount : Credit} {entry : LedgerEntry}, Stores scaled locks db amount entry →
      ∀ other ∈ [entry], Exact other.deltaCredits ∧
        ∀ id, other.reversesEntryId = some id → id ∈ db.entryIds := by
    intro amount entry stores other member
    rw [List.mem_singleton.mp member, stores.delta]
    exact ⟨exact_round5 _, stores.target⟩
  cases action with
  | credit entry | charge entry | reverse entry | settle reservation entry =>
    obtain ⟨amount, _, stores, _⟩ := legal
    exact one stores
  | transfer out into =>
    obtain ⟨amount, stores⟩ := legal
    intro entry member
    rcases List.mem_pair.mp member with rfl | rfl
    · rw [stores.deltas.1, stores.plain.1]
      exact ⟨exact_round5 _, fun _ none => by cases none⟩
    · rw [stores.deltas.2, stores.plain.2.1]
      exact ⟨exact_round5 _, fun _ none => by cases none⟩
  | openAccount _ | place _ _ | release _ | extend _ _ =>
    exact fun _ member => absurd member List.not_mem_nil

/-- A keyed row is posted alone, and its key is new. -/
theorem Legal.posted_key {action : Action} (legal : Legal focus scaled locks db action)
    {entry : LedgerEntry} (posted : entry ∈ action.posted) (keyed : entry.idempotencyKey ≠ none) :
    action.posted = [entry] ∧ ∀ other ∈ db.entries, other.accountId = entry.accountId →
      other.idempotencyKey ≠ entry.idempotencyKey := by
  have one : ∀ {amount : Credit} {stored : LedgerEntry}, Stores scaled locks db amount stored →
      entry ∈ [stored] → [stored] = [entry] ∧ ∀ other ∈ db.entries,
        other.accountId = entry.accountId → other.idempotencyKey ≠ entry.idempotencyKey := by
    intro amount stored stores member
    cases List.mem_singleton.mp member
    refine ⟨rfl, fun other inside account same => ?_⟩
    obtain ⟨key, own⟩ := Option.ne_none_iff_exists'.mp keyed
    refine List.find?_eq_none.mp (stores.unused key own) other inside ?_
    exact decide_eq_true ⟨account, same.trans own⟩
  cases action with
  | credit entry | charge entry | reverse entry | settle reservation entry =>
    obtain ⟨amount, _, stores, _⟩ := legal
    exact one stores posted
  | transfer out into =>
    obtain ⟨amount, stores⟩ := legal
    obtain ⟨_, _, keyOut, keyInto⟩ := stores.plain
    rcases List.mem_pair.mp posted with rfl | rfl
    · exact absurd keyOut keyed
    · exact absurd keyInto keyed
  | openAccount _ | place _ _ | release _ | extend _ _ => exact absurd posted List.not_mem_nil

/-- A balance that an action sets has five decimals. -/
theorem exact_modify {accounts : Table AccountId AccountRow} {set : AccountId} {settled : Credit}
    (exact : Exact settled)
    (before : ∀ {account row}, accounts.get? account = some row → Exact row.settled) :
    ∀ {account row}, (accounts.modify set fun row => { row with settled }).get? account = some row →
      Exact row.settled := by
  intro account row found
  rw [Table.get?_modify] at found
  split at found
  · obtain ⟨old, _, rfl⟩ := Option.map_eq_some_iff.mp found
    exact exact
  · exact before found

theorem Legal.exact_settled {action : Action} (legal : Legal focus scaled locks db action)
    (before : Scaled db) {account : AccountId} {row : AccountRow}
    (found : (Action.store db action).accounts.get? account = some row) : Exact row.settled := by
  cases action with
  | openAccount opened =>
    simp only [Action.store, after, Action.writes, List.foldl_cons, List.foldl_nil, Write.apply,
      Table.get?_set] at found
    split at found
    · cases found
      exact .zero
    · exact before.settled found
  | credit entry | charge entry | reverse entry | settle reservation entry =>
    obtain ⟨amount, _, stores, _⟩ := legal
    obtain ⟨row, _, balance⟩ := stores.row
    refine exact_modify ?_ before.settled found
    rw [balance]
    exact exact_round5 _
  | transfer out into =>
    obtain ⟨amount, stores⟩ := legal
    obtain ⟨payer, _, payerBalance, _⟩ := stores.payer
    obtain ⟨payee, _, payeeBalance⟩ := stores.payee
    refine exact_modify ?_ (exact_modify ?_ before.settled) found
    · rw [payeeBalance]
      exact exact_round5 _
    · rw [payerBalance]
      exact exact_round5 _
  | place reservation hold | extend reservation expiresAt => exact before.settled found
  | release reservations =>
    obtain ⟨reservation, rfl, _⟩ := legal
    exact before.settled found

/-- **Every legal action keeps the tables intact.** -/
theorem Legal.intact {action : Action} (legal : Legal focus scaled locks db action)
    (intact : Intact db) : Intact (Action.store db action) where
  wellFormed := (store_alike legal).symm.wellFormed (intact.wellFormed.of_fits legal.fits)
  scaled := by
    refine ⟨legal.exact_settled intact.scaled, fun {reservation new} found => ?_, ?_⟩
    · rw [(store_alike legal).holds] at found
      rcases hold_apply_new found with ⟨hold, foundOld⟩ | rfl
      · obtain ⟨new', found', evolves, _⟩ := hold_apply legal.fits foundOld
        rw [found, Option.some.injEq] at found'
        rw [found', evolves.amount]
        exact intact.scaled.amount foundOld
      · obtain ⟨_, _, _, _, _, amount, row, _, _, stored, _⟩ := legal
        rw [stored]
        exact exact_round5 _
    · intro entry member
      rw [store_entries legal, List.mem_append] at member
      rcases member with old | posted
      · exact intact.scaled.delta entry old
      · exact (legal.posted entry posted).1
  links := by
    intro entry member id link
    rw [State.entryIds, store_entries legal, List.map_append, List.mem_append]
    rw [store_entries legal, List.mem_append] at member
    rcases member with old | posted
    · exact Or.inl (intact.links entry old id link)
    · exact Or.inl ((legal.posted entry posted).2 id link)
  keys := by
    intro first inFirst second inSecond account same keyed
    rw [store_entries legal, List.mem_append] at inFirst inSecond
    rcases inFirst with oldFirst | newFirst
    · rcases inSecond with oldSecond | newSecond
      · exact intact.keys first oldFirst second oldSecond account same keyed
      · exact absurd same ((legal.posted_key newSecond (same ▸ keyed)).2 first oldFirst account)
    · obtain ⟨alone, unused⟩ := legal.posted_key newFirst keyed
      rcases inSecond with oldSecond | newSecond
      · exact absurd same.symm (unused second oldSecond account.symm)
      · rw [alone, List.mem_singleton] at newSecond
        exact newSecond.symm

theorem Legals.intact {actions : List Action} (legals : Legals focus scaled locks db actions)
    (intact : Intact db) : Intact (Action.stores db actions) :=
  legals.invariant (fun _ _ intact legal => legal.intact intact) intact

end

end Meter.Postgres
