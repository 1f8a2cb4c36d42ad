/-
**Which calls return, and what a failed one leaves behind.**

Every `expect` of `memory/ops.rs` relies on a link between accounts, holds and entries that other
operations have set up. All of them are met but one: `open_account` takes any parent id, and
`close_lease` pays what is available to that parent.

* `Atomic` — an outcome that, on an error, leaves the state as it was; one lemma per operation.
* `perform` — calls with any arguments one after another, as a script.
* `returns_iff` — **a call returns, and leaves nothing behind if it fails, exactly if it does not
  close a lease that has credit and whose parent does not exist**.
-/

import Meter.Ledger.Run

namespace Meter.Ledger

open Meter.Lib

/-! ### Failed calls -/

/-- The call failed: an error, or a denied reservation. -/
def Failed : Except LedgerError Reply → Prop
  | .error _ => True
  | .ok (.reserve (.denied _ _)) => True
  | .ok _ => False

/-- An error leaves the state as it was. -/
def Atomic {α : Type} (s : State) (outcome : Outcome α) : Prop :=
  ∀ error s', outcome = some (.error error, s') → s' = s

namespace Atomic

variable {α : Type} {s : State}

theorem still (reply : Except LedgerError α) : Atomic s (some (reply, s)) := by
  rintro error s' ⟨⟩
  rfl

/-- What succeeds whenever it returns. -/
theorem posted {β : Type} (result : Option β) (answer : β → α) (after : β → State) :
    Atomic s (result.map fun value => (.ok (answer value), after value)) := by
  intro error s' returned
  obtain ⟨value, _, same⟩ := Option.map_eq_some_iff.mp returned
  cases same

theorem reply {outcome : Outcome α} (atomic : Atomic s outcome) (wrap : α → Reply) :
    Atomic s (outcome.reply wrap) := by
  intro error s' returned
  obtain ⟨⟨answer, after⟩, result, same⟩ := Option.map_eq_some_iff.mp returned
  cases answer with
  | ok value => cases same
  | error other =>
    cases same
    exact atomic _ _ result

end Atomic

theorem Outcome.of_reply {α : Type} {outcome : Outcome α} {wrap : α → Reply} {answer : Reply}
    {s' : State} (result : outcome.reply wrap = some (.ok answer, s')) :
    ∃ value, outcome = some (.ok value, s') ∧ wrap value = answer := by
  obtain ⟨⟨reply, after⟩, returned, same⟩ := Option.map_eq_some_iff.mp result
  cases reply with
  | error error => cases same
  | ok value =>
    cases same
    exact ⟨value, returned, rfl⟩

section Calls

variable {amb : Ambient} {s : State}

theorem postKeyed_atomic (post : Posting → Credit → State → Option (LedgerEntry × State))
    (posting : Posting) (amount : Credit) : Atomic s (postKeyed post posting amount s) := by
  unfold postKeyed
  split
  · exact .still _
  split
  · exact .still _
  split
  · exact .still _
  · exact .posted _ _ _

theorem reverseCharge_atomic (req : ReverseChargeRequest) : Atomic s (reverseCharge amb req s) := by
  unfold reverseCharge
  split
  · exact .still _
  split
  · exact .still _
  dsimp only
  split
  · exact .still _
  split
  · exact .still _
  · exact .posted _ _ _

theorem reserve_atomic (req : ReserveRequest) : Atomic s (reserve req s) := by
  unfold reserve
  split
  · exact .still _
  split
  · exact .still _
  split
  · split
    · exact .still _
    · exact .still _
  dsimp only
  split
  · exact .still _
  · rintro error s' ⟨⟩

theorem settle_atomic (req : SettleRequest) : Atomic s (settle amb req s) := by
  unfold settle
  split
  · exact .still _
  split
  · exact .still _
  split
  · exact .posted _ _ _
  · exact .still _
  · exact .posted _ _ _

theorem void_atomic (reservation : ReservationId) : Atomic s (void reservation s) := by
  unfold void
  split
  · exact .still _
  split
  · rintro error s' ⟨⟩
  · exact .still _
  · exact .still _

theorem extendHold_atomic (reservation : ReservationId) (expiresAt : OffsetDateTime) :
    Atomic s (extendHold reservation expiresAt s) := by
  unfold extendHold
  split
  · exact .still _
  split
  · rintro error s' ⟨⟩
  · exact .still _
  · exact .still _

theorem voidRun_atomic (run : RunId) : Atomic s (voidRun amb run s) := by
  intro error s' returned
  obtain ⟨progress, _, result⟩ := Option.bind_eq_some_iff.mp returned
  exact Atomic.posted _ _ _ error s' result

theorem openLease_atomic (req : LeaseRequest) : Atomic s (openLease amb req s) := by
  unfold openLease
  split
  · exact .still _
  split
  · exact .still _
  dsimp only
  split
  · exact .still _
  · exact .posted _ _ _

theorem closeLease_atomic (lease : AccountId) : Atomic s (closeLease amb lease s) := by
  unfold closeLease
  split
  · exact .still _
  split
  · exact .still _
  dsimp only
  split
  · exact .still _
  · exact .posted _ _ _

/-- **A call that answers with an error changes nothing.** -/
theorem step_atomic (call : Call) : Atomic s (step amb call s) := by
  cases call with
  | openAccount req => exact Atomic.reply (by rintro error s' ⟨⟩) _
  | balance account =>
    refine Atomic.reply ?_ _
    unfold balance
    split
    · exact .still _
    · exact .still _
  | grant req => exact (postKeyed_atomic _ _ _).reply _
  | refund req => exact (postKeyed_atomic _ _ _).reply _
  | reserve req => exact (reserve_atomic req).reply _
  | settle req => exact (settle_atomic req).reply _
  | charge req => exact (postKeyed_atomic _ _ _).reply _
  | reverseCharge req => exact (reverseCharge_atomic req).reply _
  | void reservation => exact (void_atomic reservation).reply _
  | voidExpiredHolds now => exact Atomic.reply (by rintro error s' ⟨⟩) _
  | extendHold reservation expiresAt => exact (extendHold_atomic reservation expiresAt).reply _
  | voidRun run => exact (voidRun_atomic run).reply _
  | openLease req => exact (openLease_atomic req).reply _
  | closeLease lease => exact (closeLease_atomic lease).reply _
  | entries account =>
    refine Atomic.reply ?_ _
    unfold entries
    split
    · exact .still _
    · exact .still _

/-- **A denied reservation changes nothing.** -/
theorem reserve_denied {req : ReserveRequest} {available requested : Credit} {s' : State}
    (result : reserve req s = some (.ok (.denied available requested), s')) : s' = s := by
  unfold reserve at result
  split at result
  · cases result
  split at result
  · cases result
  split at result
  · split at result
    · cases result
    · cases result
  dsimp only at result
  split at result
  · cases result
    rfl
  · cases result

theorem failed_still {call : Call} {reply : Except LedgerError Reply} {s' : State}
    (result : step amb call s = some (reply, s')) (failed : Failed reply) : s' = s := by
  cases reply with
  | error error => exact step_atomic call error s' result
  | ok answer =>
    cases answer with
    | reserve outcome =>
      cases outcome with
      | allowed reservation => exact failed.elim
      | denied available requested =>
        unfold step at result
        cases call with
        | reserve req =>
          obtain ⟨value, returned, same⟩ := Outcome.of_reply result
          cases same
          exact reserve_denied returned
        | _ =>
          obtain ⟨value, _, same⟩ := Outcome.of_reply result
          cases same
    | _ => exact failed.elim

/-! ### The lease without a parent -/

/-- The call closes a lease that has credit to give back and names a parent that does not exist. -/
def Orphaned (s : State) : Call → Prop
  | .closeLease lease => ∃ row parent, s.accounts.get? lease = some row ∧
      row.account.parentId = some parent ∧ ¬ s.accounts.contains parent = true ∧
      0 < s.available lease
  | _ => False

theorem closeLease_panics {lease : AccountId} (orphaned : Orphaned s (.closeLease lease)) :
    closeLease amb lease s = none := by
  obtain ⟨row, parent, found, isParent, absent, positive⟩ := orphaned
  rw [State.available, State.settled_of_get found] at positive
  rw [closeLease, found]
  dsimp only
  rw [isParent]
  dsimp only
  rw [if_neg (not_not.mpr positive), Option.map_eq_none_iff]
  cases result : postTransfer amb lease parent (row.settled - s.held lease) s with
  | none => rfl
  | some s' => exact absurd (postTransfer_present result) absent

theorem closeLease_spent {lease : AccountId} {row : AccountRow} {parent : AccountId}
    (found : s.accounts.get? lease = some row) (isParent : row.account.parentId = some parent)
    (spent : ¬ 0 < s.available lease) : closeLease amb lease s = some (.ok 0, s) := by
  rw [State.available, State.settled_of_get found] at spent
  rw [closeLease, found]
  dsimp only
  rw [isParent]
  exact if_pos spent

/-- A call that is not orphaned returns. -/
theorem step_returns (wf : s.WellFormed) {call : Call} (callable : Callable amb call s)
    (fine : ¬ Orphaned s call) : ∃ reply s', step amb call s = some (reply, s') := by
  by_cases parents : ∀ lease, call = .closeLease lease → ∀ row parent,
      s.accounts.get? lease = some row → row.account.parentId = some parent →
      s.accounts.contains parent = true
  · obtain ⟨reply, s', _, result, _⟩ := step_refines_of wf callable parents
    exact ⟨reply, s', result⟩
  · push Not at parents
    obtain ⟨lease, rfl, row, parent, found, isParent, absent⟩ := parents
    have spent : ¬ 0 < s.available lease := fun positive =>
      fine ⟨row, parent, found, isParent, absent, positive⟩
    refine ⟨.ok (.credit 0), s, ?_⟩
    rw [step, closeLease_spent found isParent spent]
    rfl

/-- **Which calls are total and atomic.** After any calls with any arguments, a call returns, and
leaves accounts, holds and entries as they were if it fails, exactly if it does not close a lease
that has credit to give back and names a parent that does not exist. -/
theorem returns_iff {events : List Event} (history : History State.new events s) {call : Call}
    (callable : Callable amb call s) :
    (∃ reply s', step amb call s = some (reply, s') ∧ (Failed reply → s' = s)) ↔
      ¬ Orphaned s call := by
  refine ⟨fun ⟨reply, s', result, _⟩ orphaned => ?_, fun fine => ?_⟩
  · cases call with
    | closeLease lease =>
      rw [step, closeLease_panics orphaned] at result
      cases result
    | _ => exact orphaned
  · obtain ⟨reply, s', result⟩ := step_returns (history.wellFormed .new) callable fine
    exact ⟨reply, s', result, failed_still result⟩

end Calls

/-! ### Scripts with any arguments -/

instance (account : AccountId) (call : Call) : Decidable (call.Unnamed account) :=
  match call with
  | .openAccount req => inferInstanceAs (Decidable (req.parentId ≠ some account))
  | .balance _ | .grant _ | .refund _ | .reserve _ | .settle _ | .charge _ | .reverseCharge _
  | .void _ | .voidExpiredHolds _ | .extendHold _ _ | .voidRun _ | .openLease _ | .closeLease _
  | .entries _ => isTrue trivial

instance (amb : Ambient) (call : Call) (s : State) : Decidable (Callable amb call s) :=
  decidable_of_iff (amb.Fresh s ∧ call.Unnamed amb.accountId)
    ⟨fun both => ⟨both.1, both.2⟩, fun callable => ⟨callable.fresh, callable.unnamed⟩⟩

/-- Make calls with any arguments one after another. -/
def perform : State → List (Ambient × Call) → Option (List Event × State)
  | s, [] => some ([], s)
  | s, (amb, call) :: rest =>
    if Callable amb call s then
      (step amb call s).bind fun result => (perform result.2 rest).map fun tail =>
        (⟨s, call, result.1, result.2⟩ :: tail.1, tail.2)
    else none

/-- **A script is a history.** -/
theorem history_of_perform {calls : List (Ambient × Call)} {s s' : State} {events : List Event}
    (performed : perform s calls = some (events, s')) : History s events s' := by
  induction calls generalizing s events with
  | nil =>
    cases performed
    exact .nil _
  | cons first rest ih =>
    obtain ⟨amb, call⟩ := first
    rw [perform] at performed
    split at performed
    · rename_i callable
      obtain ⟨⟨reply, after⟩, stepped, performed⟩ := Option.bind_eq_some_iff.mp performed
      obtain ⟨⟨tail, last⟩, rest, same⟩ := Option.map_eq_some_iff.mp performed
      cases same
      exact .cons amb ⟨_, call, reply, after⟩ ⟨callable, stepped⟩ (ih rest)
    · cases performed

/-- The calls of the history are those of the script. -/
theorem calls_of_perform {calls : List (Ambient × Call)} {s s' : State} {events : List Event}
    (performed : perform s calls = some (events, s')) :
    events.map Event.call = calls.map Prod.snd := by
  induction calls generalizing s events with
  | nil =>
    cases performed
    rfl
  | cons first rest ih =>
    rw [perform] at performed
    split at performed
    · obtain ⟨⟨reply, after⟩, _, performed⟩ := Option.bind_eq_some_iff.mp performed
      obtain ⟨⟨tail, last⟩, later, same⟩ := Option.map_eq_some_iff.mp performed
      cases same
      rw [List.map_cons, List.map_cons, ih later]
    · cases performed

/-- An account that names a parent which nobody opened, and a grant to it. -/
def orphanCalls : List (Ambient × Call) :=
  [.openAccount ⟨1, .session, true, some 99⟩, .grant ⟨1, 100, .paid, none⟩].zipIdx.map
    fun call => (numbered call.2, call.1)

/-- The state that the script ends in. -/
def orphan : State := (perform State.new orphanCalls).elim State.new Prod.snd

theorem history_orphan : ∃ events, History State.new events orphan := by
  have result : (perform State.new orphanCalls).isSome := by decide +kernel
  obtain ⟨⟨events, last⟩, found⟩ := Option.isSome_iff_exists.mp result
  refine ⟨events, ?_⟩
  rw [orphan, found]
  exact history_of_perform found

/-- The account can still be charged. -/
theorem returns_iff_charge : ∃ reply s',
    step (numbered 2) (.charge ⟨1, 40, none, none⟩) orphan = some (reply, s') ∧
      (Failed reply → s' = orphan) := by
  obtain ⟨events, history⟩ := history_orphan
  have callable : Callable (numbered 2) (.charge ⟨1, 40, none, none⟩) orphan := by decide +kernel
  exact (returns_iff history callable).mpr id

/-- Closing it does not return. -/
theorem close_orphan_panics : (∃ events, History State.new events orphan) ∧
    Callable (numbered 2) (.closeLease 1) orphan ∧
    ¬ ∃ reply s', step (numbered 2) (.closeLease 1) orphan = some (reply, s') ∧
      (Failed reply → s' = orphan) := by
  refine ⟨history_orphan, by decide +kernel, ?_⟩
  rintro ⟨reply, s', result, _⟩
  have none : step (numbered 2) (.closeLease 1) orphan = none := by decide +kernel
  rw [none] at result
  cases result

end Meter.Ledger
