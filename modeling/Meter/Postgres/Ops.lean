/-
**The `LedgerBackend` implementation for `PgLedger`** (`crates/meter-store-pg/src/ops.rs`).

Each method is a program of statements. An early `return Err(..)` before a commit rolls the
transaction back; the other early returns commit what was read. `program` gives the transaction of
every call, `serve` runs one alone.
-/

import Meter.Ledger.Step
import Meter.Postgres.Database

namespace Meter.Postgres

open Meter.Lib Meter.Ledger

/-- The end of a transaction that answers with a value or an error. -/
abbrev Answer (α : Type) := Exit (Except LedgerError α)

/-! ### Shared steps -/

/-- The entry a posting becomes, with the clock in microseconds. -/
def postingEntry (posting : Posting) (amb : Ambient) (mint : Mint) (delta balanceAfter : Credit) :
    LedgerEntry :=
  { posting.entry amb mint delta balanceAfter with createdAt := nowMicros (amb.now mint) }

/-- Update the account's balance, then insert the entry that records it. -/
def post (amb : Ambient) (mint : Mint) (posting : Posting) (delta : Credit) :
    Prog Stmt LedgerEntry := do
  let balanceAfter ← .issue (.addSettled posting.accountId delta)
  let entry := postingEntry posting amb mint delta balanceAfter
  let _ ← .issue (.insertEntry entry)
  return entry

/-- The entry already posted under the request's key, if it has one. -/
def findExisting (posting : Posting) : Prog Stmt (Option LedgerEntry) :=
  match posting.idempotencyKey with
  | none => return none
  | some key => .issue (.findKeyed posting.accountId key)

/-- The transaction of `grant`, `refund` and `charge`: lock the account, answer a used key with the
entry it posted, else post. -/
def postKeyed (amb : Ambient) (posting : Posting) (amount delta : Credit) :
    Prog Stmt (Answer LedgerEntry) :=
  if ¬ 0 < amount then return .rollback (.error .nonPositiveAmount)
  else do
    match ← .issue (.lockAccount posting.accountId) with
    | none => return .rollback (.error (.accountNotFound posting.accountId))
    | some _ =>
      match ← findExisting posting with
      | some existing => return .commit (.ok existing)
      | none => do
        let entry ← post amb .posting posting delta
        return .commit (.ok entry)

/-- The still-unreversed magnitude of an entry. -/
def unreversedRemainder (entryId : EntryId) : Prog Stmt Credit := do
  let charged ← .issue (.readEntry entryId)
  let reversed ← .issue (.sumReversals entryId)
  return -charged.deltaCredits - reversed

/-- One side of a transfer. -/
def transferRow (amb : Ambient) (mint : Mint) (account paired : AccountId)
    (delta balanceAfter : Credit) : LedgerEntry :=
  { transferEntry amb mint account paired delta balanceAfter with
    createdAt := nowMicros (amb.now mint) }

/-- Move credits between two accounts, with an entry on either side. -/
def postTransfer (amb : Ambient) (payer payee : AccountId) (amount : Credit) : Prog Stmt Unit := do
  let payerAfter ← .issue (.addSettled payer (-amount))
  let payeeAfter ← .issue (.addSettled payee amount)
  let _ ← .issue (.insertEntry
    (transferRow amb .transferOut payer payee (-amount) payerAfter))
  .issue (.insertEntry (transferRow amb .transferIn payee payer amount payeeAfter))

/-! ### Accounts and balances -/

/-- Insert an account with a minted id. A parent that does not exist breaks the foreign key. -/
def openAccount (amb : Ambient) (req : NewAccount) : Prog Stmt (Answer LedgerAccount) := do
  let account : LedgerAccount := {
    id := amb.accountId
    orgId := req.orgId
    scope := req.scope
    noOverdraft := req.noOverdraft
    parentId := req.parentId }
  let _ ← .issue (.insertAccount account)
  return .commit (.ok account)

/-- Read the balance and the open holds, in two statements and without a lock. -/
def balance (account : AccountId) : Prog Stmt (Answer Balance) := do
  match ← .issue (.readAccount account) with
  | none => return .rollback (.error (.accountNotFound account))
  | some row => do
    let held ← .issue (.sumOpenHolds account)
    return .commit (.ok { settled := row.settled, held })

/-! ### Grants, refunds, charges -/

/-- Add credits from a source. -/
def grant (amb : Ambient) (req : GrantRequest) : Prog Stmt (Answer LedgerEntry) :=
  postKeyed amb req.posting req.amount req.amount

/-- Give credits back by hand, linked to a charge if the request names one. -/
def refund (amb : Ambient) (req : RefundRequest) : Prog Stmt (Answer LedgerEntry) :=
  postKeyed amb req.posting req.amount req.amount

/-- Take credits without a hold. No limit is checked. -/
def charge (amb : Ambient) (req : ChargeRequest) : Prog Stmt (Answer LedgerEntry) :=
  postKeyed amb req.posting req.amount (-req.amount)

/-- Refund what is left of a charge: nothing if it is gone, not the account's own, or not
there. -/
def reverseCharge (amb : Ambient) (req : ReverseChargeRequest) :
    Prog Stmt (Answer (Option LedgerEntry)) := do
  match ← .issue (.lockAccount req.account) with
  | none => return .rollback (.error (.accountNotFound req.account))
  | some _ =>
    match ← .issue (.findKeyed req.account req.idempotencyKey) with
    | some existing => return .commit (.ok (some existing))
    | none =>
      match ← .issue (.lockEntry req.chargeEntryId) with
      | none => return .commit (.ok none)
      | some charge =>
        if charge.accountId ≠ req.account then return .commit (.ok none)
        else do
          let amount ← unreversedRemainder req.chargeEntryId
          if amount ≤ 0 then return .commit (.ok none)
          else do
            let entry ← post amb .posting req.posting amount
            return .commit (.ok (some entry))

/-! ### Holds -/

/-- Place a hold if the account has room for it under a hard limit. An open hold of that id is
answered again. -/
def reserve (req : ReserveRequest) : Prog Stmt (Answer ReserveOutcome) :=
  if ¬ 0 < req.amount then return .rollback (.error .nonPositiveAmount)
  else do
    match ← .issue (.lockAccount req.account) with
    | none => return .rollback (.error (.accountNotFound req.account))
    | some row =>
      match ← .issue (.readHold req.reservationId) with
      | some hold =>
        if hold.status = .open then return .commit (.ok (.allowed req.reservationId))
        else return .commit (.error (.reservationClosed req.reservationId))
      | none => do
        let held ← .issue (.sumOpenHolds req.account)
        let available := row.settled - held
        if (req.limit = .hard ∨ row.account.noOverdraft) ∧ available < req.amount then
          return .commit (.ok (.denied available req.amount))
        else do
          let _ ← .issue (.insertHold req.reservationId {
            account := req.account
            amount := req.amount
            status := .open
            settleEntry := none
            expiresAt := req.expiresAt
            runId := req.runId })
          return .commit (.ok (.allowed req.reservationId))

/-- Charge the actual amount and close the hold. A settled hold answers its entry again. -/
def settle (amb : Ambient) (req : SettleRequest) : Prog Stmt (Answer LedgerEntry) :=
  if req.actual < 0 then return .rollback (.error .nonPositiveAmount)
  else do
    match ← .issue (.lockHold req.reservationId) with
    | none => return .rollback (.error (.reservationNotFound req.reservationId))
    | some hold => match hold.status with
      | .settled => do
        let settleEntry ← .issue (.decode hold.settleEntry)
        let entry ← .issue (.readEntry settleEntry)
        return .commit (.ok entry)
      | .voided => return .commit (.error (.reservationClosed req.reservationId))
      | .open => do
        let entry ← post amb .posting (req.posting hold.account) (-req.actual)
        let _ ← .issue (.settleHold req.reservationId entry.id)
        return .commit (.ok entry)

/-- Release a hold. One that is gone or released already is no error. -/
def void (reservation : ReservationId) : Prog Stmt (Answer Unit) := do
  match ← .issue (.lockHold reservation) with
  | none => return .commit (.ok ())
  | some hold => match hold.status with
    | .voided => return .commit (.ok ())
    | .open => do
      let _ ← .issue (.voidHold reservation)
      return .commit (.ok ())
    | .settled => return .commit (.error (.reservationClosed reservation))

/-- Void the rows of the snapshot that are still expired when reached, and count them. -/
def sweep (now : OffsetDateTime) : List (ReservationId × Hold) → Prog Stmt Nat
  | [] => return 0
  | row :: rows => do
    let voided ← .issue (.voidIfExpired row.1 now)
    let count ← sweep now rows
    return if voided then count + 1 else count

/-- Release the holds that had expired, each checked again when it is reached. -/
def voidExpiredHolds (amb : Ambient) (now : OffsetDateTime) : Prog Stmt (Answer Nat) := do
  let rows ← .issue (.scanExpired now)
  let count ← sweep now (amb.iterate rows)
  return .commit (.ok count)

/-- Set the expiry of an open hold, earlier or later. -/
def extendHold (reservation : ReservationId) (expiresAt : OffsetDateTime) :
    Prog Stmt (Answer Unit) := do
  match ← .issue (.lockHold reservation) with
  | none => return .commit (.error (.reservationNotFound reservation))
  | some hold => match hold.status with
    | .open => do
      let _ ← .issue (.extendHold reservation expiresAt)
      return .commit (.ok ())
    | .settled | .voided => return .commit (.error (.reservationClosed reservation))

/-! ### Run voids -/

/-- Lock the rows of a scan one by one, keeping the latest version of those that still match. -/
def lockRunHolds (run : RunId) :
    List (ReservationId × Hold) → Prog Stmt (List (ReservationId × Hold))
  | [] => return []
  | row :: rows => do
    let latest ← .issue (.lockHold row.1)
    let locked ← lockRunHolds run rows
    return match latest with
      | some hold => if hold.runId = some run then (row.1, hold) :: locked else locked
      | none => locked

/-- The same for the run's usage entries. -/
def lockRunCharges (run : RunId) : List LedgerEntry → Prog Stmt (List LedgerEntry)
  | [] => return []
  | row :: rows => do
    let latest ← .issue (.lockEntry row.id)
    let locked ← lockRunCharges run rows
    return match latest with
      | some entry =>
        if entry.runId = some run ∧ entry.entryType = .usage then entry :: locked else locked
      | none => locked

/-- Refund the unreversed remainder of an entry, if it is positive. -/
def refundRemainder (amb : Ambient) (entryId : EntryId) (posting : Posting)
    (summary : RunVoidSummary) : Prog Stmt RunVoidSummary := do
  let amount ← unreversedRemainder entryId
  if amount ≤ 0 then return summary
  else do
    let entry ← post amb (.reversal entryId) posting amount
    return { summary with
      chargesRefunded := summary.chargesRefunded + 1
      creditsRefunded := summary.creditsRefunded + entry.deltaCredits }

/-- One locked hold of the run: release it if open, refund it if settled. -/
def voidMember (amb : Ambient) (run : RunId) (member : ReservationId × Hold)
    (summary : RunVoidSummary) : Prog Stmt RunVoidSummary :=
  match member.2.status with
  | .voided => return summary
  | .open => do
    let _ ← .issue (.voidHold member.1)
    return { summary with holdsReleased := summary.holdsReleased + 1 }
  | .settled => do
    let settleId ← .issue (.decode member.2.settleEntry)
    refundRemainder amb settleId (settleRefund run member.1 member.2.account settleId) summary

/-- All locked holds of the run, one after another. -/
def voidMembers (amb : Ambient) (run : RunId) :
    List (ReservationId × Hold) → RunVoidSummary → Prog Stmt RunVoidSummary
  | [], summary => return summary
  | member :: members, summary => do
    let summary ← voidMember amb run member summary
    voidMembers amb run members summary

/-- All locked usage entries of the run, one after another. -/
def voidCharges (amb : Ambient) (run : RunId) :
    List LedgerEntry → RunVoidSummary → Prog Stmt RunVoidSummary
  | [], summary => return summary
  | entry :: entries, summary => do
    let summary ← refundRemainder amb entry.id (chargeRefund run entry.accountId entry.id) summary
    voidCharges amb run entries summary

/-- Release the open holds of a run, and refund what is left of its settles and charges. -/
def voidRun (amb : Ambient) (run : RunId) : Prog Stmt (Answer RunVoidSummary) := do
  let rows ← .issue (.scanRunHolds run)
  let members ← lockRunHolds run (amb.iterate rows)
  let summary ← voidMembers amb run members {}
  let rows ← .issue (.scanRunCharges run)
  let charges ← lockRunCharges run rows
  let summary ← voidCharges amb run charges summary
  return .commit (.ok summary)

/-! ### Leases -/

/-- Carve a session account out of a parent that has the credits, under the parent's lock. -/
def openLease (amb : Ambient) (req : LeaseRequest) : Prog Stmt (Answer LedgerAccount) :=
  if ¬ 0 < req.amount then return .rollback (.error .nonPositiveAmount)
  else do
    match ← .issue (.lockAccount req.parent) with
    | none => return .rollback (.error (.accountNotFound req.parent))
    | some row => do
      let held ← .issue (.sumOpenHolds req.parent)
      let available := row.settled - held
      if row.account.noOverdraft ∧ available < req.amount then
        return .commit (.error (.insufficientFunds available req.amount))
      else do
        let child : LedgerAccount := {
          id := amb.accountId
          orgId := row.account.orgId
          scope := .session
          noOverdraft := true
          parentId := some req.parent }
        let _ ← .issue (.insertAccount child)
        let _ ← postTransfer amb req.parent child.id req.amount
        return .commit (.ok child)

/-- Give what a lease has available back to its parent. -/
def closeLease (amb : Ambient) (lease : AccountId) : Prog Stmt (Answer Credit) := do
  match ← .issue (.lockAccount lease) with
  | none => return .rollback (.error (.accountNotFound lease))
  | some row => match row.account.parentId with
    | none => return .commit (.error (.notALease lease))
    | some parent => do
      let held ← .issue (.sumOpenHolds lease)
      let available := row.settled - held
      if available ≤ 0 then return .commit (.ok 0)
      else do
        let _ ← postTransfer amb lease parent available
        return .commit (.ok available)

/-- The entries of an account, in posting order. -/
def entries (account : AccountId) : Prog Stmt (Answer (List LedgerEntry)) := do
  match ← .issue (.readAccount account) with
  | none => return .rollback (.error (.accountNotFound account))
  | some _ => do
    let rows ← .issue (.readEntries account)
    return .commit (.ok rows)

/-! ### Every call -/

/-- How a transaction ends, with its answer as a reply. -/
def reply {α : Type} (wrap : α → Reply) : Answer α → Answer Reply
  | .commit result => .commit (result.map wrap)
  | .rollback result => .rollback (result.map wrap)

/-- A transaction that answers with a reply. -/
def replying {α : Type} (transaction : Prog Stmt (Answer α)) (wrap : α → Reply) :
    Prog Stmt (Answer Reply) := do
  let exit ← transaction
  return reply wrap exit

/-- The transaction of a call. -/
def program (label : Ambient × Call) : Prog Stmt (Answer Reply) :=
  let amb := label.1
  match label.2 with
  | .openAccount req => replying (openAccount amb req) .account
  | .balance account => replying (balance account) .balance
  | .grant req => replying (grant amb req) .entry
  | .refund req => replying (refund amb req) .entry
  | .reserve req => replying (reserve req) .reserve
  | .settle req => replying (settle amb req) .entry
  | .charge req => replying (charge amb req) .entry
  | .reverseCharge req => replying (reverseCharge amb req) .reversal
  | .void reservation => replying (void reservation) fun _ => .done
  | .voidExpiredHolds now => replying (voidExpiredHolds amb now) .count
  | .extendHold reservation expiresAt => replying (extendHold reservation expiresAt) fun _ => .done
  | .voidRun run => replying (voidRun amb run) .summary
  | .openLease req => replying (openLease amb req) .account
  | .closeLease lease => replying (closeLease amb lease) .credit
  | .entries account => replying (entries account) .entries

/-- Serve one call alone. -/
def serve (amb : Ambient) (call : Call) (db : State) : Except LedgerError Reply × State :=
  (engine false).runSerial (fun error => .error (be error)) (program (amb, call)) db []

end Meter.Postgres
