/-
**The ledger's tables and the statements issued on them** (`crates/meter-store-pg`, `migrations`).

The three tables `ledger_accounts`, `ledger_entries` and `ledger_holds` have the columns of the
in-memory records, so a database is a `State` again. What differs is what a statement does:

* a `numeric(30, 5)` column rounds half away from zero and overflows at 25 integer digits, and a
  `timestamptz` column keeps microseconds;
* `insert` enforces the primary keys, the unique index on (account, idempotency key) and the foreign
  keys, and `settled_credits` of the system account is not maintained;
* `select ... for update`, `update` and `insert` take row locks. A scan `for update` reads a snapshot
  first and then locks and re-reads row by row, so it is several statements here.

`engine shares` is the resulting `Engine`. With `shares` a foreign key also takes a key-share lock on
the referenced row, as PostgreSQL does.
-/

import Meter.Ledger.Memory
import Meter.Lib.Transaction
import Mathlib.Data.Rat.Floor
import Mathlib.Data.List.Sort

namespace Meter.Postgres

open Meter.Lib Meter.Ledger

/-! ### Columns -/

/-- A statement that PostgreSQL refuses, or a row that is not there. -/
inductive DbError where
  | rowNotFound
  | columnDecode
  | uniqueViolation
  | foreignKeyViolation
  | numericOverflow
  deriving DecidableEq

def DbError.message : DbError → String
  | .rowNotFound => "no rows returned by a query that expected to return at least one row"
  | .columnDecode => "error occurred while decoding column"
  | .uniqueViolation => "duplicate key value violates unique constraint"
  | .foreignKeyViolation => "insert or update on table violates foreign key constraint"
  | .numericOverflow => "numeric field overflow"

/-- Map a database error into a ledger backend error. -/
def be (error : DbError) : LedgerError := .backend error.message

/-- Round half away from zero to five decimals. -/
def round5 (value : Credit) : Credit :=
  if 0 ≤ value then ⌊value * 100000 + 1 / 2⌋ / 100000 else -(⌊-value * 100000 + 1 / 2⌋ / 100000)

/-- A value stored in a `numeric(30, 5)` column. -/
def numeric (value : Credit) : Except DbError Credit :=
  if |round5 value| < 10 ^ 25 then .ok (round5 value) else .error .numericOverflow

/-- 2000-01-01, from which `timestamptz` counts. -/
def timestampEpoch : OffsetDateTime := 946684800 * 1000000000

/-- An instant stored in a `timestamptz` column: whole microseconds. -/
def timestamp (instant : OffsetDateTime) : OffsetDateTime :=
  timestampEpoch + (instant - timestampEpoch).tdiv 1000 * 1000

/-- The clock, truncated to microseconds. -/
def nowMicros (now : OffsetDateTime) : OffsetDateTime := now - now % 1000

/-! ### Locks -/

/-- What a lock protects: a row, or an (account, idempotency key) slot of the unique index. -/
inductive Resource where
  | account (account : AccountId)
  | hold (reservation : ReservationId)
  | entry (entry : EntryId)
  | key (account : AccountId) (key : String)
  deriving DecidableEq

/-- The row lock modes in use. -/
inductive Mode where
  | forUpdate
  | noKeyUpdate
  | keyShare
  deriving DecidableEq

structure Lock where
  mode : Mode
  resource : Resource
  deriving DecidableEq

/-- Two lock modes that exclude each other. -/
def Mode.excludes : Mode → Mode → Bool
  | .forUpdate, _ | _, .forUpdate => true
  | .noKeyUpdate, .noKeyUpdate => true
  | .keyShare, _ | _, .keyShare => false

def Lock.conflict (first second : Lock) : Prop :=
  first.resource = second.resource ∧ first.mode.excludes second.mode = true

theorem Lock.conflict_symm (first second : Lock) (conflict : first.conflict second) :
    second.conflict first := by
  refine ⟨conflict.1.symm, ?_⟩
  have excludes := conflict.2
  revert excludes
  cases first.mode <;> cases second.mode <;> exact id

/-! ### Statements -/

/-- The statements that the ledger issues, with the type of their answer. -/
inductive Stmt : Type → Type where
  /-- `insert into ledger_accounts`. -/
  | insertAccount (account : LedgerAccount) : Stmt Unit
  /-- `select ... from ledger_accounts where id = $1`. -/
  | readAccount (account : AccountId) : Stmt (Option AccountRow)
  /-- The same, `for update`. -/
  | lockAccount (account : AccountId) : Stmt (Option AccountRow)
  /-- `update ledger_accounts set settled_credits = settled_credits + $2 ... returning`. -/
  | addSettled (account : AccountId) (amount : Credit) : Stmt Credit
  /-- `select * from ledger_entries where account_id = $1 and idempotency_key = $2`. -/
  | findKeyed (account : AccountId) (key : String) : Stmt (Option LedgerEntry)
  /-- `select ... from ledger_entries where id = $1`, one row expected. -/
  | readEntry (entry : EntryId) : Stmt LedgerEntry
  /-- `select ... from ledger_entries where id = $1 for update`. -/
  | lockEntry (entry : EntryId) : Stmt (Option LedgerEntry)
  /-- `select sum(delta_credits) from ledger_entries where reverses_entry_id = $1`. -/
  | sumReversals (entry : EntryId) : Stmt Credit
  /-- `select ... where account_id = $1 or paired_account_id = $1 order by created_at, id`. -/
  | readEntries (account : AccountId) : Stmt (List LedgerEntry)
  /-- The run's usage entries in a snapshot, `order by created_at, id`. -/
  | scanRunCharges (run : RunId) : Stmt (List LedgerEntry)
  /-- `try_get` of a column that must not be null. -/
  | decode (column : Option EntryId) : Stmt EntryId
  /-- `insert into ledger_entries`. -/
  | insertEntry (entry : LedgerEntry) : Stmt Unit
  /-- `select status from ledger_holds where reservation_id = $1`. -/
  | readHold (reservation : ReservationId) : Stmt (Option Hold)
  /-- The same, `for update`. -/
  | lockHold (reservation : ReservationId) : Stmt (Option Hold)
  /-- `select sum(amount) from ledger_holds where account_id = $1 and status = 'open'`. -/
  | sumOpenHolds (account : AccountId) : Stmt Credit
  /-- The run's holds in a snapshot. -/
  | scanRunHolds (run : RunId) : Stmt (List (ReservationId × Hold))
  /-- The expired holds in a snapshot. -/
  | scanExpired (now : OffsetDateTime) : Stmt (List (ReservationId × Hold))
  /-- One row of the sweep: re-read, and voided if still expired. -/
  | voidIfExpired (reservation : ReservationId) (now : OffsetDateTime) : Stmt Bool
  /-- `insert into ledger_holds`. -/
  | insertHold (reservation : ReservationId) (hold : Hold) : Stmt Unit
  /-- `update ledger_holds set status = 'settled', settle_entry_id = $2`. -/
  | settleHold (reservation : ReservationId) (entry : EntryId) : Stmt Unit
  /-- `update ledger_holds set status = 'voided'`. -/
  | voidHold (reservation : ReservationId) : Stmt Unit
  /-- `update ledger_holds set expires_at = $2`. -/
  | extendHold (reservation : ReservationId) (expiresAt : OffsetDateTime) : Stmt Unit

/-- A row version that a statement writes. -/
inductive Write where
  | insertAccount (account : LedgerAccount)
  | setSettled (account : AccountId) (settled : Credit)
  | insertEntry (entry : LedgerEntry)
  | insertHold (reservation : ReservationId) (hold : Hold)
  | settleHold (reservation : ReservationId) (entry : EntryId)
  | voidHold (reservation : ReservationId)
  | extendHold (reservation : ReservationId) (expiresAt : OffsetDateTime)

/-- Write a row. -/
def Write.apply (db : State) : Write → State
  | .insertAccount account => { db with
      accounts := db.accounts.set account.id (AccountRow.new account) }
  | .setSettled account settled => { db with
      accounts := db.accounts.modify account fun row => { row with settled } }
  | .insertEntry entry => { db with entries := db.entries ++ [entry] }
  | .insertHold reservation hold => { db with holds := db.holds.set reservation hold }
  | .settleHold reservation entry => { db with
      holds := db.holds.modify reservation fun hold =>
        { hold with status := .settled, settleEntry := some entry } }
  | .voidHold reservation => { db with
      holds := db.holds.modify reservation fun hold => { hold with status := .voided } }
  | .extendHold reservation expiresAt => { db with
      holds := db.holds.modify reservation fun hold => { hold with expiresAt := some expiresAt } }

/-- `order by created_at, id`. -/
def LedgerEntry.before (first second : LedgerEntry) : Prop :=
  first.createdAt < second.createdAt ∨
    (first.createdAt = second.createdAt ∧ first.id.value.bits ≤ second.id.value.bits)

instance : DecidableRel LedgerEntry.before := fun first second =>
  inferInstanceAs (Decidable (first.createdAt < second.createdAt ∨
    (first.createdAt = second.createdAt ∧ first.id.value.bits ≤ second.id.value.bits)))

def orderByCreated (entries : List LedgerEntry) : List LedgerEntry :=
  entries.insertionSort LedgerEntry.before

/-- The row that an entry becomes: its amounts in numeric columns. -/
def storedEntry (entry : LedgerEntry) : Except DbError LedgerEntry := do
  let deltaCredits ← numeric entry.deltaCredits
  let balanceAfter ← numeric entry.balanceAfter
  return { entry with deltaCredits, balanceAfter }

/-- The row that a hold becomes. -/
def storedHold (hold : Hold) : Except DbError Hold := do
  let amount ← numeric hold.amount
  return { hold with amount, expiresAt := hold.expiresAt.map timestamp }

/-- Execute a statement on what the transaction sees. -/
def Stmt.exec {β : Type} (statement : Stmt β) (db : State) : Except DbError (β × List Write) :=
  match statement with
  | .insertAccount account =>
    if db.accounts.contains account.id then .error .uniqueViolation
    else if ¬ account.parentId.all db.accounts.contains then .error .foreignKeyViolation
    else .ok ((), [.insertAccount account])
  | .readAccount account | .lockAccount account => .ok (db.accounts.get? account, [])
  | .addSettled account amount => match db.accounts.get? account with
    | none => .error .rowNotFound
    | some row => do
      let settled ← numeric (row.settled + amount)
      return (settled, [.setSettled account settled])
  | .findKeyed account key => .ok (db.findKeyed account key, [])
  | .readEntry entry => match db.entries.find? fun row => row.id = entry with
    | none => .error .rowNotFound
    | some row => .ok (row, [])
  | .decode column => match column with
    | none => .error .columnDecode
    | some entry => .ok (entry, [])
  | .lockEntry entry => .ok (db.entries.find? fun row => row.id = entry, [])
  | .sumReversals entry => .ok (db.reversed entry, [])
  | .readEntries account => .ok (orderByCreated (db.entries.filter fun entry =>
      entry.accountId = account ∨ entry.pairedAccountId = account), [])
  | .scanRunCharges run => .ok (orderByCreated (runCharges run db), [])
  | .insertEntry entry => do
    let stored ← storedEntry entry
    if entry.id ∈ db.entries.map LedgerEntry.id then .error .uniqueViolation
    else if entry.idempotencyKey.any fun key => (db.findKeyed entry.accountId key).isSome then
      .error .uniqueViolation
    else if ¬ db.accounts.contains entry.accountId ∨ ¬ db.accounts.contains entry.pairedAccountId ∨
        ¬ entry.reversesEntryId.all fun id => id ∈ db.entries.map LedgerEntry.id then
      .error .foreignKeyViolation
    else return ((), [.insertEntry stored])
  | .readHold reservation | .lockHold reservation => .ok (db.holds.get? reservation, [])
  | .sumOpenHolds account => .ok (db.held account, [])
  | .scanRunHolds run => .ok (db.holds.rows.filter fun row => row.2.runId = some run, [])
  | .scanExpired now => .ok (db.holds.rows.filter fun row => row.2.expired (timestamp now), [])
  | .voidIfExpired reservation now =>
    if (db.holds.get? reservation).any fun hold => hold.expired (timestamp now) then
      .ok (true, [.voidHold reservation])
    else .ok (false, [])
  | .insertHold reservation hold => do
    let stored ← storedHold hold
    if db.holds.contains reservation then .error .uniqueViolation
    else if ¬ db.accounts.contains hold.account then .error .foreignKeyViolation
    else return ((), [.insertHold reservation stored])
  | .settleHold reservation entry =>
    if entry ∉ db.entries.map LedgerEntry.id then .error .foreignKeyViolation
    else .ok ((), [.settleHold reservation entry])
  | .voidHold reservation => .ok ((), [.voidHold reservation])
  | .extendHold reservation expiresAt => .ok ((), [.extendHold reservation (timestamp expiresAt)])

/-- The locks that a statement takes on the rows it finds, and on the rows it inserts. With `shares`
a foreign key takes a key-share lock on the row it references. -/
def Stmt.locks (shares : Bool) {β : Type} (statement : Stmt β) (db : State) : List Lock :=
  let share (resources : List Resource) : List Lock :=
    if shares then resources.map (Lock.mk .keyShare) else []
  match statement with
  | .insertAccount account =>
    ⟨.forUpdate, .account account.id⟩ :: share (account.parentId.toList.map .account)
  | .lockAccount account =>
    if db.accounts.contains account then [⟨.forUpdate, .account account⟩] else []
  | .addSettled account _ =>
    if db.accounts.contains account then [⟨.noKeyUpdate, .account account⟩] else []
  | .lockEntry entry =>
    if entry ∈ db.entries.map LedgerEntry.id then [⟨.forUpdate, .entry entry⟩] else []
  | .insertEntry entry =>
    ⟨.forUpdate, .entry entry.id⟩ ::
      (entry.idempotencyKey.toList.map fun key => ⟨.forUpdate, .key entry.accountId key⟩) ++
      share (.account entry.accountId :: .account entry.pairedAccountId ::
        entry.reversesEntryId.toList.map .entry)
  | .lockHold reservation =>
    if db.holds.contains reservation then [⟨.forUpdate, .hold reservation⟩] else []
  | .voidIfExpired reservation now =>
    if (db.holds.get? reservation).any fun hold => hold.expired (timestamp now) then
      [⟨.noKeyUpdate, .hold reservation⟩]
    else []
  | .insertHold reservation hold =>
    ⟨.forUpdate, .hold reservation⟩ :: share [.account hold.account]
  | .settleHold reservation entry =>
    (if db.holds.contains reservation then [⟨.noKeyUpdate, .hold reservation⟩] else []) ++
      share [.entry entry]
  | .voidHold reservation | .extendHold reservation _ =>
    if db.holds.contains reservation then [⟨.noKeyUpdate, .hold reservation⟩] else []
  | .readAccount _ | .findKeyed _ _ | .readEntry _ | .decode _ | .sumReversals _ | .readEntries _
  | .scanRunCharges _ | .readHold _ | .sumOpenHolds _ | .scanRunHolds _ | .scanExpired _ => []

/-- The ledger's tables as an engine. -/
def engine (shares : Bool) : Engine Stmt State Write Lock DbError where
  apply := Write.apply
  exec := Stmt.exec
  locks := Stmt.locks shares
  conflict := Lock.conflict
  conflict_symm := Lock.conflict_symm

instance (shares : Bool) : DecidableRel (engine shares).conflict := fun first second =>
  inferInstanceAs (Decidable (first.resource = second.resource ∧
    first.mode.excludes second.mode = true))

end Meter.Postgres
