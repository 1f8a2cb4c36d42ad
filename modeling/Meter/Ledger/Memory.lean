/-
**The in-memory ledger** (`crates/meter-ledger/src/memory`).

Every method of `LedgerBackend` as `InMemoryLedger` computes it, as a function of the state behind
the mutex. A call returns `none` where the source reaches an `expect` on a missing value, and
otherwise the method's `Result` with the state it leaves behind.

What a call draws from outside the ledger is one `Ambient`: the ids it mints, its clock readings,
and the order in which the holds map is iterated.

The two-sided update that the source writes out in `grant`, `refund`, `settle`, `charge`,
`reverse_charge` and twice in `void_run` is `postCredit` (the system account first, then the
account) or `postDebit` (the account first): the order shows in `balance_after` when the account is
the system account itself. The guards that `grant`, `refund` and `charge` share are `postKeyed`.
-/

import Meter.Ledger.Model

namespace Meter.Ledger

open Meter.Lib

/-! ### The state -/

/-- All mutable ledger state. -/
structure State where
  accounts : Table AccountId AccountRow
  holds : Table ReservationId Hold
  entries : List LedgerEntry
  deriving DecidableEq

namespace State

/-- An empty ledger with its system account. -/
def new : State where
  accounts := Table.empty.set systemAccount (AccountRow.new {
    id := systemAccount
    orgId := systemOrg
    scope := .system
    noOverdraft := false
    parentId := none })
  holds := Table.empty
  entries := []

/-- Sum of credits locked by open holds against an account. -/
def held (s : State) (account : AccountId) : Credit :=
  ((s.holds.values.filter fun hold =>
    hold.account = account ∧ hold.status = .open).map Hold.amount).sum

/-- The sum of every account's settled balance. -/
def netSettled (s : State) : Credit := (s.accounts.values.map AccountRow.settled).sum

/-- The entry posted to an account under a key. -/
def findKeyed (s : State) (account : AccountId) (key : String) : Option LedgerEntry :=
  s.entries.find? fun entry => entry.accountId = account ∧ entry.idempotencyKey = some key

/-- The entries that reverse an entry. -/
def linked (s : State) (entryId : EntryId) : List LedgerEntry :=
  s.entries.filter fun entry => entry.reversesEntryId = some entryId

/-- The delta of an entry, zero for an unknown id. -/
def charged (s : State) (entryId : EntryId) : Credit :=
  (s.entries.find? fun entry => entry.id = entryId).elim 0 LedgerEntry.deltaCredits

/-- The deltas of every entry that references an entry. -/
def reversed (s : State) (entryId : EntryId) : Credit :=
  ((s.linked entryId).map LedgerEntry.deltaCredits).sum

/-- The unreversed magnitude of an entry: its spend minus every refund that references it. -/
def unreversedRemainder (s : State) (entryId : EntryId) : Credit :=
  -s.charged entryId - s.reversed entryId

end State

/-- A method's result and the state it leaves, or `none` for a panic. -/
abbrev Outcome (α : Type) := Option (Except LedgerError α × State)

/-! ### What a call draws from outside -/

/-- What an entry id is minted for: the one posting of a call, a side of a transfer, or a run void's
refund of one entry. -/
inductive Mint where
  | posting
  | transferOut
  | transferIn
  | reversal (reversed : EntryId)

/-- Minted ids, clock readings, and the iteration order of the holds map. -/
structure Ambient where
  accountId : AccountId
  entryId : Mint → EntryId
  now : Mint → OffsetDateTime
  iterate : List (ReservationId × Hold) → List (ReservationId × Hold)
  iterate_perm : ∀ rows, (iterate rows).Perm rows

/-! ### Postings against the system account -/

/-- The fields of an entry that each operation writes itself. -/
structure Posting where
  accountId : AccountId
  entryType : EntryType
  source : Option CreditSource := none
  revenueRecognizable : Bool := false
  reversesEntryId : Option EntryId := none
  reservationId : Option ReservationId := none
  runId : Option RunId := none
  idempotencyKey : Option String := none

/-- The entry of a posting. -/
def Posting.entry (posting : Posting) (amb : Ambient) (mint : Mint) (delta balanceAfter : Credit) :
    LedgerEntry where
  id := amb.entryId mint
  accountId := posting.accountId
  pairedAccountId := systemAccount
  entryType := posting.entryType
  deltaCredits := delta
  balanceAfter := balanceAfter
  source := posting.source
  revenueRecognizable := posting.revenueRecognizable
  reversesEntryId := posting.reversesEntryId
  reservationId := posting.reservationId
  runId := posting.runId
  idempotencyKey := posting.idempotencyKey
  createdAt := amb.now mint

/-- Credit an account from the system account and record it: the system account moves first. -/
def postCredit (amb : Ambient) (mint : Mint) (posting : Posting) (amount : Credit) (s : State) :
    Option (LedgerEntry × State) := do
  let accounts := s.accounts.modify systemAccount fun row => row.add (-amount)
  let accounts := accounts.modify posting.accountId fun row => row.add amount
  let row ← accounts.get? posting.accountId
  let entry := posting.entry amb mint amount row.settled
  some (entry, { s with accounts, entries := s.entries ++ [entry] })

/-- Debit an account to the system account and record it: the account moves first. -/
def postDebit (amb : Ambient) (mint : Mint) (posting : Posting) (amount : Credit) (s : State) :
    Option (LedgerEntry × State) := do
  let accounts := s.accounts.modify posting.accountId fun row => row.add (-amount)
  let row ← accounts.get? posting.accountId
  let entry := posting.entry amb mint (-amount) row.settled
  let accounts := accounts.modify systemAccount fun row => row.add amount
  some (entry, { s with accounts, entries := s.entries ++ [entry] })

/-- The guards of a keyed posting: a positive amount, an existing account, a key not used yet on
that account. A used key answers with the entry it posted. -/
def postKeyed (post : Posting → Credit → State → Option (LedgerEntry × State)) (posting : Posting)
    (amount : Credit) (s : State) : Outcome LedgerEntry :=
  if ¬ 0 < amount then some (.error .nonPositiveAmount, s)
  else if ¬ s.accounts.contains posting.accountId then
    some (.error (.accountNotFound posting.accountId), s)
  else match posting.idempotencyKey.bind (s.findKeyed posting.accountId) with
    | some existing => some (.ok existing, s)
    | none => (post posting amount s).map fun posted => (.ok posted.1, posted.2)

/-- One side of a transfer. Both sides carry one clock reading. -/
def transferEntry (amb : Ambient) (mint : Mint) (account paired : AccountId)
    (delta balanceAfter : Credit) : LedgerEntry where
  id := amb.entryId mint
  accountId := account
  pairedAccountId := paired
  entryType := .transfer
  deltaCredits := delta
  balanceAfter := balanceAfter
  source := none
  revenueRecognizable := false
  reversesEntryId := none
  reservationId := none
  runId := none
  idempotencyKey := none
  createdAt := amb.now .transferOut

/-- Move credits between two accounts, with an entry on either side. -/
def postTransfer (amb : Ambient) (payer payee : AccountId) (amount : Credit) (s : State) :
    Option State := do
  let accounts := s.accounts.modify payer fun row => row.add (-amount)
  let payerRow ← accounts.get? payer
  let accounts := accounts.modify payee fun row => row.add amount
  let payeeRow ← accounts.get? payee
  let out := transferEntry amb .transferOut payer payee (-amount) payerRow.settled
  let into := transferEntry amb .transferIn payee payer amount payeeRow.settled
  some { s with accounts, entries := s.entries ++ [out, into] }

/-! ### Accounts and balances -/

def openAccount (amb : Ambient) (req : NewAccount) (s : State) : Outcome LedgerAccount :=
  let account : LedgerAccount := {
    id := amb.accountId
    orgId := req.orgId
    scope := req.scope
    noOverdraft := req.noOverdraft
    parentId := req.parentId }
  some (.ok account, { s with accounts := s.accounts.set account.id (AccountRow.new account) })

def balance (account : AccountId) (s : State) : Outcome Balance :=
  match s.accounts.get? account with
  | none => some (.error (.accountNotFound account), s)
  | some row => some (.ok { settled := row.settled, held := s.held account }, s)

/-! ### Grants, refunds, charges -/

def GrantRequest.posting (req : GrantRequest) : Posting where
  accountId := req.account
  entryType := .grant
  source := some req.source
  idempotencyKey := req.idempotencyKey

def grant (amb : Ambient) (req : GrantRequest) (s : State) : Outcome LedgerEntry :=
  postKeyed (postCredit amb .posting) req.posting req.amount s

def RefundRequest.posting (req : RefundRequest) : Posting where
  accountId := req.account
  entryType := .refund
  reversesEntryId := req.reversesEntryId
  idempotencyKey := req.idempotencyKey

def refund (amb : Ambient) (req : RefundRequest) (s : State) : Outcome LedgerEntry :=
  postKeyed (postCredit amb .posting) req.posting req.amount s

def ChargeRequest.posting (req : ChargeRequest) : Posting where
  accountId := req.account
  entryType := .usage
  revenueRecognizable := true
  runId := req.runId
  idempotencyKey := req.idempotencyKey

def charge (amb : Ambient) (req : ChargeRequest) (s : State) : Outcome LedgerEntry :=
  postKeyed (postDebit amb .posting) req.posting req.amount s

def ReverseChargeRequest.posting (req : ReverseChargeRequest) : Posting where
  accountId := req.account
  entryType := .refund
  reversesEntryId := some req.chargeEntryId
  runId := req.runId
  idempotencyKey := some req.idempotencyKey

/-- Reverse a charge by its unreversed remainder. -/
def reverseCharge (amb : Ambient) (req : ReverseChargeRequest) (s : State) :
    Outcome (Option LedgerEntry) :=
  if ¬ s.accounts.contains req.account then some (.error (.accountNotFound req.account), s)
  else match s.findKeyed req.account req.idempotencyKey with
    | some existing => some (.ok (some existing), s)
    | none =>
      let belongs := s.entries.any fun entry =>
        entry.id = req.chargeEntryId ∧ entry.accountId = req.account
      if ¬ belongs then some (.ok none, s)
      else
        let amount := s.unreversedRemainder req.chargeEntryId
        if ¬ 0 < amount then some (.ok none, s)
        else (postCredit amb .posting req.posting amount s).map
          fun posted => (.ok (some posted.1), posted.2)

/-! ### Holds -/

def reserve (req : ReserveRequest) (s : State) : Outcome ReserveOutcome :=
  if ¬ 0 < req.amount then some (.error .nonPositiveAmount, s)
  else match s.accounts.get? req.account with
    | none => some (.error (.accountNotFound req.account), s)
    | some row => match s.holds.get? req.reservationId with
      | some hold =>
        if hold.status = .open then some (.ok (.allowed req.reservationId), s)
        else some (.error (.reservationClosed req.reservationId), s)
      | none =>
        let available := row.settled - s.held req.account
        if (req.limit = .hard ∨ row.account.noOverdraft) ∧ available < req.amount then
          some (.ok (.denied available req.amount), s)
        else some (.ok (.allowed req.reservationId), { s with
          holds := s.holds.set req.reservationId {
            account := req.account
            amount := req.amount
            status := .open
            settleEntry := none
            expiresAt := req.expiresAt
            runId := req.runId } })

/-- The posting that closes a hold on an account. -/
def SettleRequest.posting (req : SettleRequest) (account : AccountId) : Posting where
  accountId := account
  entryType := .settle
  revenueRecognizable := true
  reservationId := some req.reservationId

def settle (amb : Ambient) (req : SettleRequest) (s : State) : Outcome LedgerEntry :=
  if req.actual < 0 then some (.error .nonPositiveAmount, s)
  else match s.holds.get? req.reservationId with
    | none => some (.error (.reservationNotFound req.reservationId), s)
    | some hold => match hold.status with
      | .settled =>
        (hold.settleEntry.bind fun id => s.entries.find? fun entry => entry.id = id).map
          fun entry => (.ok entry, s)
      | .voided => some (.error (.reservationClosed req.reservationId), s)
      | .open =>
        (postDebit amb .posting (req.posting hold.account) req.actual s).map
          fun posted => (.ok posted.1, { posted.2 with
            holds := posted.2.holds.modify req.reservationId fun hold =>
              { hold with status := .settled, settleEntry := some posted.1.id } })

def void (reservation : ReservationId) (s : State) : Outcome Unit :=
  match s.holds.get? reservation with
  | none => some (.ok (), s)
  | some hold => match hold.status with
    | .open => some (.ok (), { s with
        holds := s.holds.modify reservation fun hold => { hold with status := .voided } })
    | .voided => some (.ok (), s)
    | .settled => some (.error (.reservationClosed reservation), s)

/-- An open hold whose expiry is at or before `now`. -/
def Hold.expired (hold : Hold) (now : OffsetDateTime) : Bool :=
  hold.status = .open ∧ hold.expiresAt.any (· ≤ now)

def voidExpiredHolds (now : OffsetDateTime) (s : State) : Outcome Nat :=
  some (.ok (s.holds.values.countP fun hold => hold.expired now), { s with
    holds := s.holds.mapValues fun _ hold =>
      if hold.expired now then { hold with status := .voided } else hold })

def extendHold (reservation : ReservationId) (expiresAt : OffsetDateTime) (s : State) :
    Outcome Unit :=
  match s.holds.get? reservation with
  | none => some (.error (.reservationNotFound reservation), s)
  | some hold => match hold.status with
    | .open => some (.ok (), { s with
        holds := s.holds.modify reservation fun hold => { hold with expiresAt := some expiresAt } })
    | .settled | .voided => some (.error (.reservationClosed reservation), s)

/-! ### Run voids -/

/-- Refund the unreversed remainder of an entry, if it is positive. -/
def refundRemainder (amb : Ambient) (entryId : EntryId) (posting : Posting)
    (progress : State × RunVoidSummary) : Option (State × RunVoidSummary) :=
  let (s, summary) := progress
  let amount := s.unreversedRemainder entryId
  if ¬ 0 < amount then some (s, summary)
  else do
    let (_, s) ← postCredit amb (.reversal entryId) posting amount s
    some (s, { summary with
      chargesRefunded := summary.chargesRefunded + 1
      creditsRefunded := summary.creditsRefunded + amount })

/-- The posting that refunds one settled reservation. -/
def settleRefund (run : RunId) (reservation : ReservationId) (account : AccountId)
    (settleId : EntryId) : Posting where
  accountId := account
  entryType := .refund
  reversesEntryId := some settleId
  reservationId := some reservation
  runId := some run
  idempotencyKey := some (runVoidRefundKey run reservation)

/-- The posting that refunds one direct charge. -/
def chargeRefund (run : RunId) (account : AccountId) (chargeId : EntryId) : Posting where
  accountId := account
  entryType := .refund
  reversesEntryId := some chargeId
  runId := some run
  idempotencyKey := some (runVoidChargeRefundKey run chargeId)

/-- One hold of the run, as snapshotted: release it if open, refund it if settled. -/
def voidMember (amb : Ambient) (run : RunId) (progress : State × RunVoidSummary)
    (member : ReservationId × Hold) : Option (State × RunVoidSummary) :=
  let (s, summary) := progress
  let (reservation, hold) := member
  match hold.status with
  | .voided => some (s, summary)
  | .open => some
      ({ s with holds := s.holds.modify reservation fun hold => { hold with status := .voided } },
        { summary with holdsReleased := summary.holdsReleased + 1 })
  | .settled => do
    let settleId ← hold.settleEntry
    refundRemainder amb settleId (settleRefund run reservation hold.account settleId) (s, summary)

/-- One direct charge of the run: refund it. -/
def voidCharge (amb : Ambient) (run : RunId) (progress : State × RunVoidSummary)
    (entry : LedgerEntry) : Option (State × RunVoidSummary) :=
  refundRemainder amb entry.id (chargeRefund run entry.accountId entry.id) progress

/-- The holds of a run, in the iteration order of the map. -/
def runMembers (amb : Ambient) (run : RunId) (s : State) : List (ReservationId × Hold) :=
  (amb.iterate s.holds.rows).filter fun row => row.2.runId = some run

/-- The direct charges of a run, in posting order. -/
def runCharges (run : RunId) (s : State) : List LedgerEntry :=
  s.entries.filter fun entry => entry.runId = some run ∧ entry.entryType = .usage

def voidRun (amb : Ambient) (run : RunId) (s : State) : Outcome RunVoidSummary :=
  ((runMembers amb run s).foldlM (voidMember amb run) (s, {})).bind fun progress =>
    ((runCharges run progress.1).foldlM (voidCharge amb run) progress).map
      fun progress => (.ok progress.2, progress.1)

/-! ### Leases -/

def openLease (amb : Ambient) (req : LeaseRequest) (s : State) : Outcome LedgerAccount :=
  if ¬ 0 < req.amount then some (.error .nonPositiveAmount, s)
  else match s.accounts.get? req.parent with
    | none => some (.error (.accountNotFound req.parent), s)
    | some row =>
      let available := row.settled - s.held req.parent
      if row.account.noOverdraft ∧ available < req.amount then
        some (.error (.insufficientFunds available req.amount), s)
      else
        let child : LedgerAccount := {
          id := amb.accountId
          orgId := row.account.orgId
          scope := .session
          noOverdraft := true
          parentId := some req.parent }
        (postTransfer amb req.parent child.id req.amount
            { s with accounts := s.accounts.set child.id (AccountRow.new child) }).map
          fun s => (.ok child, s)

def closeLease (amb : Ambient) (lease : AccountId) (s : State) : Outcome Credit :=
  match s.accounts.get? lease with
  | none => some (.error (.accountNotFound lease), s)
  | some row => match row.account.parentId with
    | none => some (.error (.notALease lease), s)
    | some parent =>
      let available := row.settled - s.held lease
      if ¬ 0 < available then some (.ok 0, s)
      else (postTransfer amb lease parent available s).map fun s => (.ok available, s)

/-- Every entry touching an account. -/
def entries (account : AccountId) (s : State) : Outcome (List LedgerEntry) :=
  if ¬ s.accounts.contains account then some (.error (.accountNotFound account), s)
  else some (.ok (s.entries.filter fun entry =>
    entry.accountId = account ∨ entry.pairedAccountId = account), s)

end Meter.Ledger
