/-
**The ledger's nouns and verbs** (`crates/meter-ledger/src/model`, `request.rs`, `error.rs`,
`backend.rs`).

Accounts, entries, holds, the request of every `LedgerBackend` method, its errors, and the two keys
under which `void_run` posts its refunds. Both backends, the in-memory oracle and the Postgres one,
are stated over these types.

`runVoidRefundKey_injective`, `runVoidChargeRefundKey_injective` and `runVoidRefundKey_ne` say that
a generated key determines the run and the thing refunded, and that the two kinds never meet.
-/

import Meter.Core
import Meter.Lib.Table

namespace Meter.Ledger

/-! ### Accounts -/

/-- What an account represents. -/
inductive AccountScope where
  | org
  | team
  | user
  | product
  | session
  | promo
  | paid
  | budget
  | overage
  | fxClearing
  | system
  deriving DecidableEq

/-- A node that carries a credit balance, optionally leased from a parent account. -/
structure LedgerAccount where
  id : AccountId
  orgId : OrgId
  scope : AccountScope
  noOverdraft : Bool
  parentId : Option AccountId
  deriving DecidableEq

/-- The org that owns the system account. -/
def systemOrg : OrgId := ⟨Uuid.nil⟩

/-- The account (mint and usage sink) that every posting pairs against. -/
def systemAccount : AccountId := ⟨Uuid.nil⟩

/-! ### Entries -/

/-- The kind of a posting. -/
inductive EntryType where
  | grant
  | usage
  | reservationHold
  | settle
  | partialReturn
  | transfer
  | void
  | refund
  | chargeback
  | expiration
  | amendment
  | fx
  | sealing
  deriving DecidableEq

/-- Provenance of credits. -/
inductive CreditSource where
  | paid
  | promo
  | grant
  deriving DecidableEq

/-- One immutable posting. -/
structure LedgerEntry where
  id : EntryId
  accountId : AccountId
  pairedAccountId : AccountId
  entryType : EntryType
  deltaCredits : Credit
  balanceAfter : Credit
  source : Option CreditSource
  revenueRecognizable : Bool
  reversesEntryId : Option EntryId
  reservationId : Option ReservationId
  runId : Option RunId
  idempotencyKey : Option String
  createdAt : OffsetDateTime
  deriving DecidableEq

/-! ### Holds and stored accounts -/

/-- The life cycle of a hold. -/
inductive HoldStatus where
  | open
  | settled
  | voided
  deriving DecidableEq

/-- A durable hold against an account. -/
structure Hold where
  account : AccountId
  amount : Credit
  status : HoldStatus
  settleEntry : Option EntryId
  expiresAt : Option OffsetDateTime
  runId : Option RunId
  deriving DecidableEq

/-- A stored account and its settled balance. -/
structure AccountRow where
  account : LedgerAccount
  settled : Credit
  deriving DecidableEq

/-- A new account starts at zero. -/
def AccountRow.new (account : LedgerAccount) : AccountRow := ⟨account, 0⟩

/-- Add to a settled balance. -/
def AccountRow.add (row : AccountRow) (amount : Credit) : AccountRow :=
  { row with settled := row.settled + amount }

/-- Whether a limit blocks or only advises. -/
inductive LimitClass where
  | hard
  | soft
  deriving DecidableEq

/-! ### Requests -/

structure NewAccount where
  orgId : OrgId
  scope : AccountScope
  noOverdraft : Bool
  parentId : Option AccountId

structure GrantRequest where
  account : AccountId
  amount : Credit
  source : CreditSource
  idempotencyKey : Option String

structure RefundRequest where
  account : AccountId
  amount : Credit
  reversesEntryId : Option EntryId
  idempotencyKey : Option String

structure ReserveRequest where
  account : AccountId
  reservationId : ReservationId
  amount : Credit
  limit : LimitClass
  expiresAt : Option OffsetDateTime
  runId : Option RunId

structure SettleRequest where
  reservationId : ReservationId
  actual : Credit

structure ChargeRequest where
  account : AccountId
  amount : Credit
  runId : Option RunId
  idempotencyKey : Option String

structure ReverseChargeRequest where
  account : AccountId
  chargeEntryId : EntryId
  runId : Option RunId
  idempotencyKey : String

structure LeaseRequest where
  parent : AccountId
  amount : Credit

/-! ### Outcomes -/

inductive ReserveOutcome where
  | allowed (reservation : ReservationId)
  | denied (available requested : Credit)
  deriving DecidableEq

structure RunVoidSummary where
  holdsReleased : Nat := 0
  chargesRefunded : Nat := 0
  creditsRefunded : Credit := 0
  deriving DecidableEq

structure Balance where
  settled : Credit
  held : Credit
  deriving DecidableEq

/-- Credits available to spend: settled minus open holds. -/
def Balance.available (balance : Balance) : Credit := balance.settled - balance.held

inductive LedgerError where
  | accountNotFound (account : AccountId)
  | reservationNotFound (reservation : ReservationId)
  | reservationClosed (reservation : ReservationId)
  | nonPositiveAmount
  | insufficientFunds (available requested : Credit)
  | notALease (account : AccountId)
  | backend (message : String)
  deriving DecidableEq

/-! ### The keys of a run void -/

/-- The key of the refund of one settled reservation. -/
def runVoidRefundKey (run : RunId) (reservation : ReservationId) : String :=
  "void-run:" ++ run.toString ++ ":" ++ reservation.toString

/-- The key of the refund of one direct charge. -/
def runVoidChargeRefundKey (run : RunId) (chargeEntry : EntryId) : String :=
  "void-run:" ++ run.toString ++ ":charge:" ++ chargeEntry.toString

/-- A key of the form that `void_run` generates. -/
def GeneratedKey (key : String) : Prop := "void-run:".toList <+: key.toList

instance (key : String) : Decidable (GeneratedKey key) :=
  inferInstanceAs (Decidable (_ <+: _))

theorem toList_runVoidRefundKey (run : RunId) (reservation : ReservationId) :
    (runVoidRefundKey run reservation).toList =
      "void-run:".toList ++ (run.value.chars ++ (":".toList ++ reservation.value.chars)) := by
  simp only [runVoidRefundKey, Id.toString, String.toList_append, Uuid.toList_toString,
    List.append_assoc]

theorem toList_runVoidChargeRefundKey (run : RunId) (chargeEntry : EntryId) :
    (runVoidChargeRefundKey run chargeEntry).toList =
      "void-run:".toList ++ (run.value.chars ++ (":charge:".toList ++ chargeEntry.value.chars)) := by
  simp only [runVoidChargeRefundKey, Id.toString, String.toList_append, Uuid.toList_toString,
    List.append_assoc]

theorem generatedKey_runVoidRefundKey (run : RunId) (reservation : ReservationId) :
    GeneratedKey (runVoidRefundKey run reservation) := by
  rw [GeneratedKey, toList_runVoidRefundKey]
  exact List.prefix_append _ _

theorem generatedKey_runVoidChargeRefundKey (run : RunId) (chargeEntry : EntryId) :
    GeneratedKey (runVoidChargeRefundKey run chargeEntry) := by
  rw [GeneratedKey, toList_runVoidChargeRefundKey]
  exact List.prefix_append _ _

/-- **A settle refund's key determines the run and the reservation.** -/
theorem runVoidRefundKey_injective {run run' : RunId} {reservation reservation' : ReservationId}
    (same : runVoidRefundKey run reservation = runVoidRefundKey run' reservation') :
    run = run' ∧ reservation = reservation' := by
  rw [← String.toList_inj, toList_runVoidRefundKey, toList_runVoidRefundKey,
    List.append_cancel_left_eq] at same
  obtain ⟨runs, rest⟩ :=
    List.append_inj same ((Uuid.length_chars _).trans (Uuid.length_chars _).symm)
  rw [List.append_cancel_left_eq] at rest
  obtain ⟨run⟩ := run
  obtain ⟨run'⟩ := run'
  obtain ⟨reservation⟩ := reservation
  obtain ⟨reservation'⟩ := reservation'
  exact ⟨congrArg Id.mk (Uuid.chars_injective runs), congrArg Id.mk (Uuid.chars_injective rest)⟩

/-- **A charge refund's key determines the run and the charge.** -/
theorem runVoidChargeRefundKey_injective {run run' : RunId} {charge charge' : EntryId}
    (same : runVoidChargeRefundKey run charge = runVoidChargeRefundKey run' charge') :
    run = run' ∧ charge = charge' := by
  rw [← String.toList_inj, toList_runVoidChargeRefundKey, toList_runVoidChargeRefundKey,
    List.append_cancel_left_eq] at same
  obtain ⟨runs, rest⟩ :=
    List.append_inj same ((Uuid.length_chars _).trans (Uuid.length_chars _).symm)
  rw [List.append_cancel_left_eq] at rest
  obtain ⟨run⟩ := run
  obtain ⟨run'⟩ := run'
  obtain ⟨charge⟩ := charge
  obtain ⟨charge'⟩ := charge'
  exact ⟨congrArg Id.mk (Uuid.chars_injective runs), congrArg Id.mk (Uuid.chars_injective rest)⟩

/-- **The two kinds of refund never share a key**: their keys have different lengths. -/
theorem runVoidRefundKey_ne (run run' : RunId) (reservation : ReservationId) (charge : EntryId) :
    runVoidRefundKey run reservation ≠ runVoidChargeRefundKey run' charge := by
  intro same
  rw [← String.toList_inj, toList_runVoidRefundKey, toList_runVoidChargeRefundKey,
    List.append_cancel_left_eq] at same
  have lengths := congrArg List.length same
  simp only [List.length_append, Uuid.length_chars] at lengths
  exact absurd lengths (by decide)

end Meter.Ledger
