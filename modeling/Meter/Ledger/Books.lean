/-
**The books balance.**

Every action moves settled credits by a payment and records what it moved, so three things hold in
every reachable state (`State.Balanced`):

* the settled balances of all accounts sum to zero;
* the settled balance of an account is the fold of its deltas;
* `balance_after` is that fold up to the entry.

The system account is left out of the last two: one posting moves it without an entry of its own.
-/

import Meter.Ledger.Run

namespace Meter.Ledger

open Meter.Lib

/-! ### Folds of deltas -/

/-- The sum of the deltas of an account's entries. -/
def deltas (entries : List LedgerEntry) (account : AccountId) : Credit :=
  ((entries.filter fun entry => entry.accountId = account).map LedgerEntry.deltaCredits).sum

/-- The balance after an entry is the fold up to it. -/
def RunningBalances (entries : List LedgerEntry) : Prop :=
  ∀ before entry after, entries = before ++ entry :: after → entry.accountId ≠ systemAccount →
    entry.balanceAfter = deltas (before ++ [entry]) entry.accountId

theorem deltas_append_singleton (entries : List LedgerEntry) (entry : LedgerEntry)
    (account : AccountId) : deltas (entries ++ [entry]) account =
      deltas entries account + if entry.accountId = account then entry.deltaCredits else 0 := by
  rw [deltas, deltas, List.filter_append, List.map_append, List.sum_append]
  by_cases own : entry.accountId = account
  · simp [own]
  · simp [own]

/-- **One more entry with a truthful balance.** -/
theorem RunningBalances.append {entries : List LedgerEntry} (running : RunningBalances entries)
    {entry : LedgerEntry} (truthful : entry.accountId ≠ systemAccount →
      entry.balanceAfter = deltas entries entry.accountId + entry.deltaCredits) :
    RunningBalances (entries ++ [entry]) := by
  intro before other after split notSystem
  rcases List.eq_nil_or_concat after with rfl | ⟨rest, last, rfl⟩
  · obtain ⟨rfl, same⟩ := List.append_inj' split rfl
    cases same
    rw [truthful notSystem, deltas_append_singleton, if_pos rfl]
  · rw [List.concat_eq_append, ← List.cons_append, ← List.append_assoc] at split
    exact running before other rest (List.append_inj' split rfl).1 notSystem

/-! ### The net of all balances -/

theorem State.netSettled_eq_sum (s : State) :
    s.netSettled = s.accounts.sum fun _ row => row.settled :=
  (Table.sum_eq_sum_values _ _).symm

/-- **A payment between two accounts nets to zero.** -/
theorem State.netSettled_pay {s : State} {payer payee : AccountId}
    (payerPresent : s.accounts.contains payer = true)
    (payeePresent : s.accounts.contains payee = true) (amount : Credit) :
    (s.pay payer payee amount).netSettled = s.netSettled := by
  have split : ∀ account row, (AccountRow.add row (flow payer payee amount account)).settled =
      row.settled + ((if account = payee then amount else 0) +
        (if account = payer then -amount else 0)) := by
    intro account row
    simp only [AccountRow.add, flow]
    split <;> split <;> ring
  rw [netSettled_eq_sum, netSettled_eq_sum, pay, Table.sum_mapValues]
  simp only [split]
  rw [Table.sum_add, Table.sum_add, Table.sum_single payeePresent, Table.sum_single payerPresent]
  ring

/-- Opening an account at zero moves no money. -/
theorem State.netSettled_openAccount {s : State} {account : LedgerAccount}
    (absent : s.accounts.get? account.id = none) :
    ((Action.openAccount account).apply s).netSettled = s.netSettled := by
  rw [netSettled_eq_sum, netSettled_eq_sum, ← sub_eq_zero, Action.apply,
    Table.sum_sub_sum_get account.id]
  · rw [Table.measureAt, Table.measureAt, Table.get?_set, if_pos rfl, absent]
    exact sub_self _
  · intro other different
    rw [Table.measureAt, Table.measureAt, Table.get?_set, if_neg different]

theorem State.settled_openAccount {s : State} {account : LedgerAccount}
    (absent : s.accounts.get? account.id = none) (other : AccountId) :
    ((Action.openAccount account).apply s).settled other = s.settled other := by
  rw [settled, settled, Action.apply, Table.get?_set]
  by_cases same : other = account.id
  · rw [if_pos same, same, absent]
    rfl
  · rw [if_neg same]

/-- Settled balances after a payment between accounts that exist. -/
theorem State.settled_pay_of {s : State} {payer payee : AccountId}
    (payerPresent : s.accounts.contains payer = true)
    (payeePresent : s.accounts.contains payee = true) (amount : Credit) (account : AccountId) :
    (s.pay payer payee amount).settled account =
      s.settled account + flow payer payee amount account := by
  by_cases present : s.accounts.contains account = true
  · exact State.settled_pay present payer payee amount
  · have notPayer : account ≠ payer := fun same => present (same ▸ payerPresent)
    have notPayee : account ≠ payee := fun same => present (same ▸ payeePresent)
    have absent := Table.contains_eq_false_iff.mp (Bool.not_eq_true _ ▸ present)
    rw [flow_other notPayer notPayee, State.settled, State.settled, State.get?_pay, absent]
    exact (add_zero _).symm

/-! ### The invariant -/

/-- Every balance but the system account's is a fold of deltas. -/
structure State.Folds (s : State) : Prop where
  fold : ∀ account ≠ systemAccount, s.settled account = deltas s.entries account
  running : RunningBalances s.entries

namespace State.Folds

theorem new : State.new.Folds where
  fold := by
    intro account notSystem
    rw [State.settled, State.new, Table.get?_set, if_neg notSystem]
    rfl
  running := by
    intro before entry after split
    exact absurd split.symm (by simp [State.new])

/-- Settled balances after a payment; an account that does not exist has none, and no entries. -/
theorem settled_pay {s : State} (folds : s.Folds)
    {payer payee account : AccountId} (payerPresent : s.accounts.contains payer = true)
    (payeePresent : s.accounts.contains payee = true) (notSystem : account ≠ systemAccount)
    (amount : Credit) : (s.pay payer payee amount).settled account =
      deltas s.entries account + flow payer payee amount account := by
  rw [← folds.fold account notSystem]
  exact State.settled_pay_of payerPresent payeePresent amount account

/-- **A posting against the system account folds.** -/
theorem post {s s' : State} (system : s.accounts.contains systemAccount = true) (folds : s.Folds)
    {entry : LedgerEntry} (posts : Posts s entry)
    (accounts : s'.accounts = (s.pay systemAccount entry.accountId entry.deltaCredits).accounts)
    (entries : s'.entries = s.entries ++ [entry]) : s'.Folds := by
  refine ⟨fun account notSystem => ?_, ?_⟩
  · rw [State.settled, accounts, entries, deltas_append_singleton]
    refine (folds.settled_pay system posts.present notSystem _).trans ?_
    rw [flow, if_neg notSystem, sub_zero]
    simp only [eq_comm]
  · rw [entries]
    refine folds.running.append fun notSystem => ?_
    rw [posts.balance notSystem, folds.fold _ notSystem]

/-- **A transfer folds.** -/
theorem transfer {s : State} (folds : s.Folds) {out into : LedgerEntry}
    (transfers : Transfers s out into) : ((Action.transfer out into).apply s).Folds := by
  refine ⟨fun account notSystem => ?_, ?_⟩
  · refine (folds.settled_pay transfers.payer transfers.payee notSystem _).trans ?_
    simp only [Action.apply, State.record_entries, State.pay_entries, deltas_append_singleton,
      transfers.opposite, flow, eq_comm]
    split <;> split <;> ring
  · refine (folds.running.append fun notSystem => ?_).append fun notSystem => ?_
    · rw [transfers.balances.1 notSystem, folds.fold _ notSystem]
    · rw [transfers.balances.2 notSystem, folds.fold _ notSystem, deltas_append_singleton,
        if_neg transfers.different.symm, add_zero]

/-- **Every enabled action folds.** -/
theorem apply {s : State} (wf : s.WellFormed) (folds : s.Folds) {action : Action}
    (enabled : action.Enabled s) : (action.apply s).Folds := by
  obtain ⟨row, found, _⟩ := wf.system
  have system : s.accounts.contains systemAccount = true := Table.contains_iff.mpr ⟨row, found⟩
  cases action with
  | openAccount account =>
    refine ⟨fun other notSystem => ?_, folds.running⟩
    rw [State.settled_openAccount enabled.1]
    exact folds.fold other notSystem
  | credit entry | charge entry | reverse entry | settle reservation entry =>
    exact folds.post system enabled.1 rfl rfl
  | transfer out into => exact folds.transfer enabled
  | place _ _ | release _ | extend _ _ => exact ⟨folds.fold, folds.running⟩

end State.Folds

/-- The books of a state balance. -/
structure State.Balanced (s : State) : Prop extends State.Folds s where
  net : s.netSettled = 0

namespace State.Balanced

theorem new : State.new.Balanced := ⟨.new, by decide +kernel⟩

/-- **Every enabled action keeps the books.** -/
theorem apply {s : State} (wf : s.WellFormed) (balanced : s.Balanced) {action : Action}
    (enabled : action.Enabled s) : (action.apply s).Balanced := by
  refine ⟨balanced.toFolds.apply wf enabled, ?_⟩
  obtain ⟨row, found, _⟩ := wf.system
  have system : s.accounts.contains systemAccount = true := Table.contains_iff.mpr ⟨row, found⟩
  cases action with
  | openAccount account => exact (State.netSettled_openAccount enabled.1).trans balanced.net
  | credit entry | charge entry | reverse entry | settle reservation entry =>
    exact (State.netSettled_pay system enabled.1.present _).trans balanced.net
  | transfer out into =>
    exact (State.netSettled_pay enabled.payer enabled.payee _).trans balanced.net
  | place _ _ | release _ | extend _ _ => exact balanced.net

end State.Balanced

/-- The books balance after every history. -/
theorem History.balanced {s : State} {events : List Event} (history : History State.new events s) :
    s.Balanced :=
  history.invariant .new fun _ _ wf balanced enabled => balanced.apply wf enabled

/-- Every reachable state balances. -/
theorem Reachable.balanced {s : State} (reachable : Reachable s) : s.Balanced := by
  obtain ⟨events, run⟩ := reachable
  exact run.history.balanced

/-- **Conservation and fold.** In every reachable state the balances net to zero, each account's
balance is the fold of its deltas and each `balance_after` the fold up to its entry; and every
further call returns, having only appended entries. -/
theorem conservation_and_fold {s : State} (reachable : Reachable s) :
    s.netSettled = 0 ∧
    (∀ account row, s.accounts.get? account = some row → account ≠ systemAccount →
      row.settled = deltas s.entries account) ∧
    (∀ before entry after, s.entries = before ++ entry :: after →
      entry.accountId ≠ systemAccount →
      entry.balanceAfter = deltas (before ++ [entry]) entry.accountId) ∧
    (∀ amb call, Admissible amb call s → ∃ reply s' posted,
      step amb call s = some (reply, s') ∧ s'.entries = s.entries ++ posted) := by
  have balanced := reachable.balanced
  refine ⟨balanced.net, fun account row found notSystem => ?_, balanced.running,
    fun amb call admissible => ?_⟩
  · rw [← State.settled_of_get found]
    exact balanced.fold account notSystem
  · obtain ⟨reply, s', actions, result, path, _⟩ :=
      step_refines reachable.wellFormed reachable.rooted admissible
    exact ⟨reply, s', _, result, path.entries⟩

/-- The script leaves 57 credits, the fold of its four deltas. -/
theorem conservation_and_fold_sample :
    sample.netSettled = 0 ∧ sample.settled 1 = 57 ∧ deltas sample.entries 1 = 57 := by
  have books := conservation_and_fold reachable_sample
  have settled : (sample.accounts.get? 1).map AccountRow.settled = some 57 := by decide +kernel
  obtain ⟨row, found, balance⟩ := Option.map_eq_some_iff.mp settled
  refine ⟨books.1, ?_, ?_⟩
  · rw [State.settled_of_get found, balance]
  · rw [← books.2.1 _ row found (by decide), balance]

end Meter.Ledger
