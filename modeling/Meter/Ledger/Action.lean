/-
**What a ledger is for: guarded actions.**

Thirteen operations write the ledger; between them they do nine things. `Action` names these nine,
`Action.Enabled` says when each is allowed (guards included), and `Action.apply` what it does. The
abstract ledger moves by enabled actions only (`Path`); the in-memory ledger refines it
(`Meter.Ledger.Run`), so every invariant is proved once per action.

* `State.pay` — a payment between two accounts, the only way a settled balance moves.
* `State.WellFormed` — the links between accounts, holds and entries that the operations rely on
  (each `expect` of the source is one of them). Every enabled action keeps it
  (`WellFormed.apply`), so every path does (`WellFormed.path`).
-/

import Meter.Ledger.Memory

namespace Meter.Ledger

open Meter.Lib

/-! ### Payments -/

/-- What a payment of `amount` from `payer` to `payee` adds to an account. -/
def flow (payer payee : AccountId) (amount : Credit) (account : AccountId) : Credit :=
  (if account = payee then amount else 0) - (if account = payer then amount else 0)

namespace State

/-- The settled balance of an account, zero for an unknown one. -/
def settled (s : State) (account : AccountId) : Credit :=
  (s.accounts.get? account).elim 0 AccountRow.settled

/-- Settled minus held. -/
def available (s : State) (account : AccountId) : Credit := s.settled account - s.held account

/-- Move credits between two accounts. -/
def pay (s : State) (payer payee : AccountId) (amount : Credit) : State :=
  { s with accounts := s.accounts.mapValues fun account row =>
      row.add (flow payer payee amount account) }

/-- Append an entry. -/
def record (s : State) (entry : LedgerEntry) : State := { s with entries := s.entries ++ [entry] }

/-- The ids of the posted entries. -/
def entryIds (s : State) : List EntryId := s.entries.map LedgerEntry.id

@[simp] theorem pay_holds (s : State) (payer payee : AccountId) (amount : Credit) :
    (s.pay payer payee amount).holds = s.holds := rfl
@[simp] theorem pay_entries (s : State) (payer payee : AccountId) (amount : Credit) :
    (s.pay payer payee amount).entries = s.entries := rfl
@[simp] theorem record_accounts (s : State) (entry : LedgerEntry) :
    (s.record entry).accounts = s.accounts := rfl
@[simp] theorem record_holds (s : State) (entry : LedgerEntry) :
    (s.record entry).holds = s.holds := rfl
@[simp] theorem record_entries (s : State) (entry : LedgerEntry) :
    (s.record entry).entries = s.entries ++ [entry] := rfl

@[simp] theorem get?_pay (s : State) (payer payee : AccountId) (amount : Credit)
    (account : AccountId) : (s.pay payer payee amount).accounts.get? account =
      (s.accounts.get? account).map fun row => row.add (flow payer payee amount account) :=
  Table.get?_mapValues _ _ _

@[simp] theorem contains_pay (s : State) (payer payee : AccountId) (amount : Credit)
    (account : AccountId) :
    (s.pay payer payee amount).accounts.contains account = s.accounts.contains account :=
  Table.contains_mapValues _ _ _

theorem settled_of_get {s : State} {account : AccountId} {row : AccountRow}
    (found : s.accounts.get? account = some row) : s.settled account = row.settled := by
  rw [settled, found]
  rfl

theorem settled_pay {s : State} {account : AccountId} (present : s.accounts.contains account = true)
    (payer payee : AccountId) (amount : Credit) :
    (s.pay payer payee amount).settled account =
      s.settled account + flow payer payee amount account := by
  obtain ⟨row, found⟩ := Table.contains_iff.mp present
  rw [settled_of_get found, settled, get?_pay, found]
  rfl

end State

theorem flow_payee {payer payee : AccountId} (different : payee ≠ payer) (amount : Credit) :
    flow payer payee amount payee = amount := by
  simp [flow, different]

theorem flow_payer {payer payee : AccountId} (different : payee ≠ payer) (amount : Credit) :
    flow payer payee amount payer = -amount := by
  simp [flow, Ne.symm different]

theorem flow_other {payer payee account : AccountId} (notPayer : account ≠ payer)
    (notPayee : account ≠ payee) (amount : Credit) : flow payer payee amount account = 0 := by
  simp [flow, notPayer, notPayee]

theorem flow_zero (payer payee account : AccountId) : flow payer payee 0 account = 0 := by
  simp [flow]

theorem flow_add (payer payee account : AccountId) (first second : Credit) :
    flow payer payee first account + flow payer payee second account =
      flow payer payee (first + second) account := by
  unfold flow
  split <;> split <;> ring

/-! ### The nine actions -/

/-- What a ledger operation can do to the state. -/
inductive Action where
  /-- Open an account at zero. -/
  | openAccount (account : LedgerAccount)
  /-- Grant credits, or give some back by hand. -/
  | credit (entry : LedgerEntry)
  /-- Charge usage directly. -/
  | charge (entry : LedgerEntry)
  /-- Close an open hold at its actual cost. -/
  | settle (reservation : ReservationId) (entry : LedgerEntry)
  /-- Refund what is left of an entry. -/
  | reverse (entry : LedgerEntry)
  /-- Move credits between two accounts. -/
  | transfer (out into : LedgerEntry)
  /-- Place a hold. -/
  | place (reservation : ReservationId) (hold : Hold)
  /-- Release open holds without charging them. -/
  | release (reservations : List ReservationId)
  /-- Move an open hold's expiry. -/
  | extend (reservation : ReservationId) (expiresAt : OffsetDateTime)

/-- A posting that the state admits: an existing account, a new id, a truthful balance. -/
structure Posts (s : State) (entry : LedgerEntry) : Prop where
  present : s.accounts.contains entry.accountId = true
  paired : entry.pairedAccountId = systemAccount
  fresh : entry.id ∉ s.entryIds
  balance : entry.accountId ≠ systemAccount →
    entry.balanceAfter = s.settled entry.accountId + entry.deltaCredits

/-- The key of an entry, if it has one, is new on its account. -/
def Unused (s : State) (entry : LedgerEntry) : Prop :=
  ∀ key, entry.idempotencyKey = some key → s.findKeyed entry.accountId key = none

/-- A refund that a run void posts: the key names the run and what is refunded, which is a direct
charge of the run or the settle of one of its holds. -/
def RunVoids (s : State) (run : RunId) (target entry : LedgerEntry) : Prop :=
  (target.entryType = .usage ∧ target.runId = some run ∧
    entry.idempotencyKey = some (runVoidChargeRefundKey run target.id)) ∨
  (target.entryType = .settle ∧ ∃ reservation hold, target.reservationId = some reservation ∧
    s.holds.get? reservation = some hold ∧ hold.runId = some run ∧
    entry.idempotencyKey = some (runVoidRefundKey run reservation))

/-- A transfer that the state admits. A no-overdraft payer must have the amount available. -/
structure Transfers (s : State) (out into : LedgerEntry) : Prop where
  different : into.accountId ≠ out.accountId
  payer : s.accounts.contains out.accountId = true
  payee : s.accounts.contains into.accountId = true
  paired : out.pairedAccountId = into.accountId ∧ into.pairedAccountId = out.accountId
  kinds : out.entryType = .transfer ∧ into.entryType = .transfer
  positive : 0 < into.deltaCredits
  opposite : out.deltaCredits = -into.deltaCredits
  fresh : out.id ∉ s.entryIds ∧ into.id ∉ s.entryIds ∧ out.id ≠ into.id
  balances : (out.accountId ≠ systemAccount →
      out.balanceAfter = s.settled out.accountId + out.deltaCredits) ∧
    (into.accountId ≠ systemAccount →
      into.balanceAfter = s.settled into.accountId + into.deltaCredits)
  covered : ∀ row, s.accounts.get? out.accountId = some row → row.account.noOverdraft = true →
    into.deltaCredits ≤ s.available out.accountId
  plain : out.reversesEntryId = none ∧ into.reversesEntryId = none ∧
    out.idempotencyKey = none ∧ into.idempotencyKey = none

namespace Action

/-- When an action is allowed. -/
def Enabled (s : State) : Action → Prop
  | .openAccount account => s.accounts.get? account.id = none ∧
      account.parentId ≠ some account.id
  | .credit entry => Posts s entry ∧ Unused s entry ∧ 0 < entry.deltaCredits ∧
      (entry.entryType = .grant ∧ entry.reversesEntryId = none ∨ entry.entryType = .refund)
  | .charge entry => Posts s entry ∧ Unused s entry ∧ entry.deltaCredits < 0 ∧
      entry.entryType = .usage ∧ entry.reversesEntryId = none
  | .settle reservation entry => Posts s entry ∧ entry.deltaCredits ≤ 0 ∧
      entry.entryType = .settle ∧ entry.reversesEntryId = none ∧ entry.idempotencyKey = none ∧
      entry.reservationId = some reservation ∧
      ∃ hold, s.holds.get? reservation = some hold ∧ hold.status = .open ∧
        entry.accountId = hold.account
  | .reverse entry => Posts s entry ∧ entry.entryType = .refund ∧ 0 < entry.deltaCredits ∧
      ∃ target ∈ s.entries, entry.reversesEntryId = some target.id ∧
        target.accountId = entry.accountId ∧
        entry.deltaCredits = s.unreversedRemainder target.id ∧
        (Unused s entry ∨ ∃ run, RunVoids s run target entry)
  | .transfer out into => Transfers s out into
  | .place reservation hold => s.holds.get? reservation = none ∧ hold.status = .open ∧
      hold.settleEntry = none ∧ 0 < hold.amount ∧
      ∃ row, s.accounts.get? hold.account = some row ∧
        (row.account.noOverdraft = true → hold.amount ≤ s.available hold.account)
  | .release reservations => ∀ reservation ∈ reservations,
      ∃ hold, s.holds.get? reservation = some hold ∧ hold.status = .open
  | .extend reservation _ => ∃ hold, s.holds.get? reservation = some hold ∧ hold.status = .open

/-- What an action does. -/
def apply (s : State) : Action → State
  | .openAccount account => { s with
      accounts := s.accounts.set account.id (AccountRow.new account) }
  | .credit entry | .charge entry | .reverse entry =>
      (s.pay systemAccount entry.accountId entry.deltaCredits).record entry
  | .settle reservation entry => { (s.pay systemAccount entry.accountId entry.deltaCredits).record
        entry with
      holds := s.holds.modify reservation fun hold =>
        { hold with status := .settled, settleEntry := some entry.id } }
  | .transfer out into =>
      ((s.pay out.accountId into.accountId into.deltaCredits).record out).record into
  | .place reservation hold => { s with holds := s.holds.set reservation hold }
  | .release reservations => { s with
      holds := s.holds.mapValues fun reservation hold =>
        if reservation ∈ reservations then { hold with status := .voided } else hold }
  | .extend reservation expiresAt => { s with
      holds := s.holds.modify reservation fun hold => { hold with expiresAt := some expiresAt } }

/-- The entries an action appends. -/
def posted : Action → List LedgerEntry
  | .credit entry | .charge entry | .settle _ entry | .reverse entry => [entry]
  | .transfer out into => [out, into]
  | .openAccount _ | .place _ _ | .release _ | .extend _ _ => []

/-- **An action only appends entries.** -/
theorem apply_entries (s : State) (action : Action) :
    (action.apply s).entries = s.entries ++ action.posted := by
  cases action with
  | transfer out into => simp [apply, posted]
  | _ => simp [apply, posted]

/-- Accounts are never dropped. -/
theorem contains_apply {s : State} {account : AccountId}
    (present : s.accounts.contains account = true) (action : Action) :
    (action.apply s).accounts.contains account = true := by
  cases action with
  | openAccount opened =>
    rw [apply, Table.contains_iff]
    simp only [Table.get?_set]
    split
    · exact ⟨_, rfl⟩
    · exact Table.contains_iff.mp present
  | credit entry | charge entry | settle reservation entry | reverse entry | transfer out into =>
    simpa [apply] using present
  | _ => exact present

/-- The part of `Enabled` that concerns links and not money. -/
def Fits (s : State) : Action → Prop
  | .openAccount account => s.accounts.get? account.id = none ∧
      account.parentId ≠ some account.id
  | .credit entry | .charge entry | .reverse entry =>
      s.accounts.contains entry.accountId = true ∧ entry.id ∉ s.entryIds ∧
      entry.entryType ≠ .settle
  | .settle reservation entry => s.accounts.contains entry.accountId = true ∧
      entry.id ∉ s.entryIds ∧ entry.entryType = .settle ∧ entry.reservationId = some reservation ∧
      ∃ hold, s.holds.get? reservation = some hold ∧ hold.status = .open ∧
        entry.accountId = hold.account
  | .transfer out into => s.accounts.contains out.accountId = true ∧
      s.accounts.contains into.accountId = true ∧
      (out.id ∉ s.entryIds ∧ into.id ∉ s.entryIds ∧ out.id ≠ into.id) ∧
      out.entryType ≠ .settle ∧ into.entryType ≠ .settle
  | .place reservation hold => s.holds.get? reservation = none ∧ hold.status = .open ∧
      hold.settleEntry = none ∧ 0 ≤ hold.amount ∧ s.accounts.contains hold.account = true
  | .release reservations => ∀ reservation ∈ reservations,
      ∃ hold, s.holds.get? reservation = some hold ∧ hold.status = .open
  | .extend reservation _ => ∃ hold, s.holds.get? reservation = some hold ∧ hold.status = .open

theorem Enabled.fits {s : State} {action : Action} (enabled : action.Enabled s) :
    action.Fits s := by
  cases action with
  | openAccount _ => exact enabled
  | credit entry =>
    refine ⟨enabled.1.present, enabled.1.fresh, fun kind => ?_⟩
    rcases enabled.2.2.2 with ⟨other, _⟩ | other <;> rw [kind] at other <;> cases other
  | charge entry =>
    exact ⟨enabled.1.present, enabled.1.fresh, fun kind => by cases kind.symm.trans enabled.2.2.2.1⟩
  | reverse entry =>
    exact ⟨enabled.1.present, enabled.1.fresh, fun kind => by cases kind.symm.trans enabled.2.1⟩
  | settle reservation entry =>
    obtain ⟨posts, _, kind, _, _, own, hold⟩ := enabled
    exact ⟨posts.present, posts.fresh, kind, own, hold⟩
  | transfer out into =>
    refine ⟨enabled.payer, enabled.payee, enabled.fresh, ?_, ?_⟩
    · rw [enabled.kinds.1]
      decide
    · rw [enabled.kinds.2]
      decide
  | place reservation hold =>
    obtain ⟨absent, isOpen, unsettled, positive, row, found, _⟩ := enabled
    exact ⟨absent, isOpen, unsettled, positive.le, Table.contains_iff.mpr ⟨row, found⟩⟩
  | release _ | extend _ _ => exact enabled

end Action

/-- An account that does not exist yet is nobody's parent. -/
theorem parent_ne_self {s : State} {account : LedgerAccount}
    (absent : s.accounts.get? account.id = none)
    (parents : ∀ parent, account.parentId = some parent → s.accounts.contains parent = true) :
    account.parentId ≠ some account.id := by
  intro own
  obtain ⟨row, found⟩ := Table.contains_iff.mp (parents _ own)
  cases absent.symm.trans found

/-! ### Paths -/

/-- A sequence of enabled actions. -/
inductive Path : State → List Action → State → Prop
  | nil (s : State) : Path s [] s
  | cons {s s' : State} (action : Action) {actions : List Action} :
      action.Enabled s → Path (action.apply s) actions s' → Path s (action :: actions) s'

namespace Path

theorem single {s : State} {action : Action} (enabled : action.Enabled s) :
    Path s [action] (action.apply s) := .cons action enabled (.nil _)

theorem append {s middle s' : State} {first second : List Action} (earlier : Path s first middle)
    (later : Path middle second s') : Path s (first ++ second) s' := by
  induction earlier with
  | nil s => exact later
  | cons action enabled _ ih => exact .cons action enabled (ih later)

/-- **An invariant of every enabled action is an invariant of every path.** -/
theorem invariant {P : State → Prop}
    (kept : ∀ s action, P s → Action.Enabled s action → P (action.apply s)) {s s' : State}
    {actions : List Action} (path : Path s actions s') (start : P s) : P s' := by
  induction path with
  | nil s => exact start
  | cons action enabled _ ih => exact ih (kept _ action start enabled)

theorem entries {s s' : State} {actions : List Action} (path : Path s actions s') :
    s'.entries = s.entries ++ actions.flatMap Action.posted := by
  induction path with
  | nil s => simp
  | cons action _ _ ih =>
    rw [ih, Action.apply_entries, List.flatMap_cons, List.append_assoc]

end Path

/-! ### How one account and one hold move -/

/-- The accounts after an action: an old one with the same terms, or the one it opens. -/
theorem account_apply {s : State} {action : Action} {account : AccountId} {row : AccountRow}
    (found : (action.apply s).accounts.get? account = some row) :
    (∃ old, s.accounts.get? account = some old ∧ row.account = old.account) ∨
      (action = .openAccount row.account ∧ account = row.account.id) := by
  cases action with
  | openAccount opened =>
    simp only [Action.apply, Table.get?_set] at found
    split at found
    · rename_i same
      cases found
      exact Or.inr ⟨rfl, same⟩
    · exact Or.inl ⟨row, found, rfl⟩
  | credit entry | charge entry | settle reservation entry | reverse entry | transfer out into =>
    simp only [Action.apply, State.record_accounts, State.get?_pay, Option.map_eq_some_iff] at found
    obtain ⟨old, foundOld, rfl⟩ := found
    exact Or.inl ⟨old, foundOld, rfl⟩
  | place reservation hold | release reservations | extend reservation expiresAt =>
    exact Or.inl ⟨row, found, rfl⟩

/-- **The terms of an account never change.** -/
theorem Path.account {s s' : State} {actions : List Action} (path : Path s actions s')
    {account : AccountId} {row : AccountRow} (found : s.accounts.get? account = some row) :
    ∃ row', s'.accounts.get? account = some row' ∧ row'.account = row.account := by
  induction path generalizing row with
  | nil s => exact ⟨row, found, rfl⟩
  | cons action enabled _ ih =>
    obtain ⟨next, foundNext⟩ := Table.contains_iff.mp
      (Action.contains_apply (Table.contains_iff.mpr ⟨row, found⟩) action)
    rcases account_apply foundNext with ⟨old, foundOld, same⟩ | ⟨rfl, same⟩
    · rw [found, Option.some.injEq] at foundOld
      obtain ⟨row', found', same'⟩ := ih foundNext
      exact ⟨row', found', by rw [same', same, foundOld]⟩
    · rw [same, enabled.1] at found
      cases found

/-- How a hold may change: its terms never do, and its status only leaves `open`. -/
structure HoldEvolves (old new : Hold) : Prop where
  account : new.account = old.account
  amount : new.amount = old.amount
  runId : new.runId = old.runId
  closed : old.status ≠ .open → new.status = old.status ∧ new.settleEntry = old.settleEntry

theorem HoldEvolves.refl (hold : Hold) : HoldEvolves hold hold :=
  ⟨rfl, rfl, rfl, fun _ => ⟨rfl, rfl⟩⟩

theorem HoldEvolves.trans {first second third : Hold} (earlier : HoldEvolves first second)
    (later : HoldEvolves second third) : HoldEvolves first third := by
  refine ⟨later.account.trans earlier.account, later.amount.trans earlier.amount,
    later.runId.trans earlier.runId, fun closed => ?_⟩
  obtain ⟨status, entry⟩ := earlier.closed closed
  obtain ⟨status', entry'⟩ := later.closed (status ▸ closed)
  exact ⟨status'.trans status, entry'.trans entry⟩

/-- The settle link of a hold after an action: unchanged off `settled`, set by a settle. -/
inductive LinkAfter (reservation : ReservationId) (old new : Hold) : Action → Prop
  | kept {action : Action} (entry : new.settleEntry = old.settleEntry)
      (status : new.status = .settled ↔ old.status = .settled) : LinkAfter reservation old new action
  | settle {entry : LedgerEntry} (link : new.settleEntry = some entry.id)
      (status : new.status = .settled) : LinkAfter reservation old new (.settle reservation entry)

/-- **A hold after an action.** -/
theorem hold_apply {s : State} {action : Action} (fits : action.Fits s)
    {reservation : ReservationId} {hold : Hold} (found : s.holds.get? reservation = some hold) :
    ∃ new, (action.apply s).holds.get? reservation = some new ∧ HoldEvolves hold new ∧
      LinkAfter reservation hold new action := by
  cases action with
  | openAccount _ | credit _ | charge _ | reverse _ | transfer _ _ =>
    exact ⟨hold, found, .refl hold, .kept rfl Iff.rfl⟩
  | settle settled entry =>
    obtain ⟨_, _, _, _, old, foundOld, isOpen, _⟩ := fits
    by_cases same : reservation = settled
    · subst same
      rw [found, Option.some.injEq] at foundOld
      subst foundOld
      refine ⟨{ hold with status := .settled, settleEntry := some entry.id }, ?_,
        ⟨rfl, rfl, rfl, fun closed => absurd isOpen closed⟩, .settle rfl rfl⟩
      simp [Action.apply, found]
    · exact ⟨hold, by simp [Action.apply, same, found], .refl hold, .kept rfl Iff.rfl⟩
  | place placed new =>
    have different : reservation ≠ placed := by
      rintro rfl
      rw [fits.1] at found
      cases found
    exact ⟨hold, by simp [Action.apply, different, found], .refl hold, .kept rfl Iff.rfl⟩
  | release reservations =>
    by_cases member : reservation ∈ reservations
    · obtain ⟨old, foundOld, isOpen⟩ := fits reservation member
      rw [found, Option.some.injEq] at foundOld
      subst foundOld
      refine ⟨{ hold with status := .voided }, by simp [Action.apply, member, found],
        ⟨rfl, rfl, rfl, fun closed => absurd isOpen closed⟩, .kept rfl ?_⟩
      simp [isOpen]
    · exact ⟨hold, by simp [Action.apply, member, found], .refl hold, .kept rfl Iff.rfl⟩
  | extend extended expiresAt =>
    by_cases same : reservation = extended
    · subst same
      exact ⟨{ hold with expiresAt := some expiresAt }, by simp [Action.apply, found],
        ⟨rfl, rfl, rfl, fun _ => ⟨rfl, rfl⟩⟩, .kept rfl Iff.rfl⟩
    · exact ⟨hold, by simp [Action.apply, same, found], .refl hold, .kept rfl Iff.rfl⟩

/-- A hold after an action was there before, or was just placed. -/
theorem hold_apply_new {s : State} {action : Action} {reservation : ReservationId} {new : Hold}
    (found : (action.apply s).holds.get? reservation = some new) :
    (∃ hold, s.holds.get? reservation = some hold) ∨ action = .place reservation new := by
  cases action with
  | openAccount _ | credit _ | charge _ | reverse _ | transfer _ _ => exact Or.inl ⟨new, found⟩
  | settle settled entry =>
    simp only [Action.apply, Table.get?_modify] at found
    split at found
    · rename_i same
      subst same
      obtain ⟨hold, foundOld, _⟩ := Option.map_eq_some_iff.mp found
      exact Or.inl ⟨hold, foundOld⟩
    · exact Or.inl ⟨new, found⟩
  | place placed hold =>
    simp only [Action.apply, Table.get?_set] at found
    split at found
    · rename_i same
      cases found
      exact Or.inr (by rw [same])
    · exact Or.inl ⟨new, found⟩
  | release reservations =>
    simp only [Action.apply, Table.get?_mapValues] at found
    obtain ⟨hold, foundOld, _⟩ := Option.map_eq_some_iff.mp found
    exact Or.inl ⟨hold, foundOld⟩
  | extend extended expiresAt =>
    simp only [Action.apply, Table.get?_modify] at found
    split at found
    · rename_i same
      subst same
      obtain ⟨hold, foundOld, _⟩ := Option.map_eq_some_iff.mp found
      exact Or.inl ⟨hold, foundOld⟩
    · exact Or.inl ⟨new, found⟩

/-! ### Well-formed states -/

/-- The links between accounts, holds and entries. -/
structure State.WellFormed (s : State) : Prop where
  system : ∃ row, s.accounts.get? systemAccount = some row ∧ row.account.noOverdraft = false
  accountIds : ∀ {account row}, s.accounts.get? account = some row → row.account.id = account
  parents : ∀ {account row}, s.accounts.get? account = some row →
    row.account.parentId ≠ some account
  entryIds : s.entryIds.Nodup
  entryAccounts : ∀ entry ∈ s.entries, s.accounts.contains entry.accountId = true
  holdTerms : ∀ {reservation hold}, s.holds.get? reservation = some hold →
    s.accounts.contains hold.account = true ∧ 0 ≤ hold.amount
  settledIff : ∀ {reservation hold}, s.holds.get? reservation = some hold →
    (hold.status = .settled ↔ ∃ id, hold.settleEntry = some id)
  settleLink : ∀ {reservation hold id}, s.holds.get? reservation = some hold →
    hold.settleEntry = some id → ∃ entry ∈ s.entries, entry.id = id ∧ entry.entryType = .settle ∧
      entry.reservationId = some reservation ∧ entry.accountId = hold.account
  settleHold : ∀ entry ∈ s.entries, entry.entryType = .settle →
    ∃ reservation hold, entry.reservationId = some reservation ∧
      s.holds.get? reservation = some hold ∧ hold.settleEntry = some entry.id

namespace State.WellFormed

/-- **A fresh ledger is well formed.** -/
theorem new : State.new.WellFormed where
  system := ⟨_, rfl, rfl⟩
  accountIds := by
    intro account row found
    simp only [State.new, Table.get?_set, Table.get?_empty] at found
    split at found
    · rename_i same
      cases found
      exact same.symm
    · cases found
  parents := by
    intro account row found isParent
    simp only [State.new, Table.get?_set, Table.get?_empty] at found
    split at found
    · cases found
      cases isParent
    · cases found
  entryIds := List.nodup_nil
  entryAccounts := fun _ member => absurd member List.not_mem_nil
  holdTerms := fun found => by cases found
  settledIff := fun found => by cases found
  settleLink := fun found => by cases found
  settleHold := fun _ member => absurd member List.not_mem_nil

/-- The entries an action appends have new, distinct ids and existing accounts. -/
theorem posted_fresh {s : State} {action : Action} (fits : action.Fits s) :
    (action.posted.map LedgerEntry.id).Nodup ∧
      ∀ entry ∈ action.posted, entry.id ∉ s.entryIds ∧
        s.accounts.contains entry.accountId = true := by
  have one : ∀ {entry : LedgerEntry}, s.accounts.contains entry.accountId = true →
      entry.id ∉ s.entryIds → ([entry].map LedgerEntry.id).Nodup ∧ ∀ other ∈ [entry], other.id ∉ s.entryIds ∧
        s.accounts.contains other.accountId = true := by
    intro entry present fresh
    refine ⟨List.nodup_singleton _, fun other member => ?_⟩
    rw [List.mem_singleton.mp member]
    exact ⟨fresh, present⟩
  cases action with
  | credit entry | charge entry | reverse entry | settle reservation entry =>
    exact one fits.1 fits.2.1
  | transfer out into =>
    obtain ⟨payer, payee, ⟨outFresh, intoFresh, different⟩, _⟩ := fits
    refine ⟨by simp [Action.posted, different], fun entry member => ?_⟩
    rcases List.mem_pair.mp member with rfl | rfl
    · exact ⟨outFresh, payer⟩
    · exact ⟨intoFresh, payee⟩
  | openAccount _ | place _ _ | release _ | extend _ _ =>
    exact ⟨List.nodup_nil, fun _ member => absurd member List.not_mem_nil⟩

theorem entryIds_apply {s : State} {action : Action} (wf : s.WellFormed)
    (fits : action.Fits s) : (action.apply s).entryIds.Nodup := by
  obtain ⟨distinct, fresh⟩ := posted_fresh fits
  rw [State.entryIds, Action.apply_entries, List.map_append, List.nodup_append]
  refine ⟨wf.entryIds, distinct, ?_⟩
  rintro id member id' member' rfl
  obtain ⟨entry, posted, rfl⟩ := List.mem_map.mp member'
  exact (fresh entry posted).1 member

theorem settleLink_apply {s : State} {action : Action} (wf : s.WellFormed)
    (fits : action.Fits s) {reservation : ReservationId} {new : Hold} {id : EntryId}
    (found : (action.apply s).holds.get? reservation = some new)
    (link : new.settleEntry = some id) : ∃ entry ∈ (action.apply s).entries, entry.id = id ∧
      entry.entryType = .settle ∧ entry.reservationId = some reservation ∧
      entry.accountId = new.account := by
  rw [Action.apply_entries]
  rcases hold_apply_new found with ⟨hold, foundOld⟩ | rfl
  · obtain ⟨new', found', evolves, after⟩ := hold_apply fits foundOld
    rw [found, Option.some.injEq] at found'
    subst found'
    cases after with
    | kept same _ =>
      obtain ⟨entry, member, facts⟩ := wf.settleLink foundOld (same ▸ link)
      exact ⟨entry, List.mem_append_left _ member, evolves.account ▸ facts⟩
    | @settle entry link' _ =>
      obtain ⟨_, _, kind, own, hold', foundHold, _, account⟩ := fits
      rw [foundOld, Option.some.injEq] at foundHold
      subst foundHold
      rw [link', Option.some.injEq] at link
      refine ⟨entry, List.mem_append_right _ (List.mem_singleton_self _), link, kind, own, ?_⟩
      rw [evolves.account, account]
  · rw [fits.2.2.1] at link
    cases link

theorem settleHold_apply {s : State} {action : Action} (wf : s.WellFormed)
    (fits : action.Fits s) {entry : LedgerEntry} (member : entry ∈ (action.apply s).entries)
    (kind : entry.entryType = .settle) : ∃ reservation hold,
      entry.reservationId = some reservation ∧
      (action.apply s).holds.get? reservation = some hold ∧ hold.settleEntry = some entry.id := by
  rw [Action.apply_entries, List.mem_append] at member
  rcases member with old | posted
  · obtain ⟨reservation, hold, own, found, link⟩ := wf.settleHold entry old kind
    obtain ⟨new, found', _, after⟩ := hold_apply fits found
    refine ⟨reservation, new, own, found', ?_⟩
    cases after with
    | kept same _ => rw [same, link]
    | @settle settling _ _ =>
      -- a settle needs an open hold, and this one is settled already
      obtain ⟨_, _, _, _, hold', foundHold, isOpen, _⟩ := fits
      rw [found, Option.some.injEq] at foundHold
      subst foundHold
      have settled := (wf.settledIff found).mpr ⟨_, link⟩
      rw [isOpen] at settled
      cases settled
  · cases action with
    | settle reservation settling =>
      cases List.mem_singleton.mp posted
      obtain ⟨_, _, _, own, hold, found, _⟩ := fits
      exact ⟨reservation, { hold with status := .settled, settleEntry := some entry.id }, own,
        by simp [Action.apply, found], rfl⟩
    | credit other | charge other | reverse other =>
      cases List.mem_singleton.mp posted
      exact absurd kind fits.2.2
    | transfer out into =>
      rcases List.mem_pair.mp posted with rfl | rfl
      · exact absurd kind fits.2.2.2.1
      · exact absurd kind fits.2.2.2.2
    | openAccount _ | place _ _ | release _ | extend _ _ => exact absurd posted List.not_mem_nil

/-- **Every action that fits keeps the state well formed.** -/
theorem of_fits {s : State} {action : Action} (wf : s.WellFormed) (fits : action.Fits s) :
    (action.apply s).WellFormed where
  system := by
    obtain ⟨row, found, plain⟩ := wf.system
    obtain ⟨row', found'⟩ := Table.contains_iff.mp
      (Action.contains_apply (Table.contains_iff.mpr ⟨row, found⟩) action)
    rcases account_apply found' with ⟨old, foundOld, same⟩ | ⟨rfl, same⟩
    · rw [found, Option.some.injEq] at foundOld
      exact ⟨row', found', by rw [same, ← foundOld, plain]⟩
    · have absent := fits.1
      rw [← same, found] at absent
      cases absent
  accountIds := by
    intro account row found
    rcases account_apply found with ⟨old, foundOld, same⟩ | ⟨_, same⟩
    · rw [same, wf.accountIds foundOld]
    · exact same.symm
  parents := by
    intro account row found
    rcases account_apply found with ⟨old, foundOld, same⟩ | ⟨rfl, same⟩
    · rw [same]
      exact wf.parents foundOld
    · rw [same]
      exact fits.2
  entryIds := wf.entryIds_apply fits
  entryAccounts := by
    intro entry member
    rw [Action.apply_entries, List.mem_append] at member
    rcases member with old | posted
    · exact Action.contains_apply (wf.entryAccounts entry old) action
    · exact Action.contains_apply ((posted_fresh fits).2 entry posted).2 action
  holdTerms := by
    intro reservation new found
    rcases hold_apply_new found with ⟨hold, foundOld⟩ | rfl
    · obtain ⟨new', found', evolves, _⟩ := hold_apply fits foundOld
      rw [found, Option.some.injEq] at found'
      subst found'
      obtain ⟨present, positive⟩ := wf.holdTerms foundOld
      rw [evolves.account, evolves.amount]
      exact ⟨Action.contains_apply present action, positive⟩
    · obtain ⟨_, _, _, nonneg, present⟩ := fits
      exact ⟨Action.contains_apply present _, nonneg⟩
  settledIff := by
    intro reservation new found
    rcases hold_apply_new found with ⟨hold, foundOld⟩ | rfl
    · obtain ⟨new', found', _, after⟩ := hold_apply fits foundOld
      rw [found, Option.some.injEq] at found'
      subst found'
      cases after with
      | kept same status => rw [status, same, wf.settledIff foundOld]
      | settle link status => simp [link, status]
    · obtain ⟨_, isOpen, unsettled, _⟩ := fits
      simp [isOpen, unsettled]
  settleLink := wf.settleLink_apply fits
  settleHold := fun _ => wf.settleHold_apply fits

/-- **Every enabled action keeps the state well formed.** -/
theorem apply {s : State} {action : Action} (wf : s.WellFormed) (enabled : action.Enabled s) :
    (action.apply s).WellFormed := wf.of_fits enabled.fits

/-- **Every path keeps the state well formed.** -/
theorem path {s s' : State} {actions : List Action} (wf : s.WellFormed)
    (path : Path s actions s') : s'.WellFormed :=
  path.invariant (fun _ _ wf enabled => wf.apply enabled) wf

end State.WellFormed

end Meter.Ledger
