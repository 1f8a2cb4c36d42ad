/-
**A no-overdraft account is never driven below its exposure.**

What can push a no-overdraft account below zero is a direct charge, or a settle above the held
amount: the sum of both is its exposure. Every other action leaves `settled - held` at least
`min 0` of what it was, because it either adds credits, or releases a hold, or has checked that the
amount is available (`Action.risk`, `available_apply`).
-/

import Meter.Ledger.Holds

namespace Meter.Ledger

open Meter.Lib

/-! ### Exposure -/

/-- The amount held under a reservation, zero for an unknown one. -/
def State.heldAmount (s : State) (reservation : Option ReservationId) : Credit :=
  (reservation.bind s.holds.get?).elim 0 Hold.amount

/-- What an entry may take beyond what was available: a charge in full, a settle above its hold. -/
def State.excess (s : State) (entry : LedgerEntry) : Credit :=
  match entry.entryType with
  | .usage => -entry.deltaCredits
  | .settle => max 0 (-entry.deltaCredits - s.heldAmount entry.reservationId)
  | _ => 0

/-- The direct charges posted to an account. -/
def State.directCharges (s : State) (account : AccountId) : Credit :=
  ((s.entries.filter fun entry => entry.accountId = account ∧ entry.entryType = .usage).map
    fun entry => -entry.deltaCredits).sum

/-- What the settles posted to an account took above their holds. -/
def State.overSettles (s : State) (account : AccountId) : Credit :=
  ((s.entries.filter fun entry => entry.accountId = account ∧ entry.entryType = .settle).map
    fun entry => max 0 (-entry.deltaCredits - s.heldAmount entry.reservationId)).sum

/-- The excess of every entry of an account. -/
def State.exposure (s : State) (account : AccountId) : Credit :=
  ((s.entries.filter fun entry => entry.accountId = account).map s.excess).sum

/-- Exposure is charges and over-settles. -/
theorem State.exposure_eq (s : State) (account : AccountId) :
    s.exposure account = s.directCharges account + s.overSettles account := by
  rw [exposure, directCharges, overSettles]
  induction s.entries with
  | nil => simp
  | cons entry entries ih =>
    by_cases own : entry.accountId = account
    · cases kind : entry.entryType with
      | usage => simp [own, kind, excess, ih, add_assoc]
      | settle => simp [own, kind, excess, ih, add_left_comm]
      | _ => simp [own, kind, excess, ih]
    · simp [own, ih]

/-- How much an action may take beyond what is available. -/
def Action.risk (s : State) (account : AccountId) : Action → Credit
  | .charge entry => if entry.accountId = account then -entry.deltaCredits else 0
  | .settle reservation entry => if entry.accountId = account then
      max 0 (-entry.deltaCredits - s.heldAmount (some reservation)) else 0
  | .openAccount _ | .credit _ | .reverse _ | .transfer _ _ | .place _ _ | .release _
  | .extend _ _ => 0

theorem Action.risk_nonneg {s : State} {action : Action} (enabled : action.Enabled s)
    (account : AccountId) : 0 ≤ action.risk s account := by
  cases action with
  | charge entry =>
    rw [risk]
    split
    · exact neg_nonneg.mpr enabled.2.2.1.le
    · exact le_rfl
  | settle reservation entry =>
    rw [risk]
    split
    · exact le_max_left _ _
    · exact le_rfl
  | _ => exact le_rfl

/-- The amount held under a known reservation never changes. -/
theorem heldAmount_apply {s : State} {action : Action} (enabled : action.Enabled s)
    {reservation : ReservationId} {hold : Hold} (found : s.holds.get? reservation = some hold) :
    (action.apply s).heldAmount (some reservation) = s.heldAmount (some reservation) := by
  obtain ⟨new, found', evolves, _⟩ := hold_apply enabled.fits found
  simp only [State.heldAmount, Option.bind_some, found, found', Option.elim_some, evolves.amount]

/-- The excess of an entry already posted never changes. -/
theorem excess_apply {s : State} (wf : s.WellFormed) {action : Action} (enabled : action.Enabled s)
    {entry : LedgerEntry} (member : entry ∈ s.entries) :
    (action.apply s).excess entry = s.excess entry := by
  unfold State.excess
  split
  · rfl
  · rename_i kind
    obtain ⟨reservation, hold, own, found, _⟩ := wf.settleHold entry member kind
    rw [own, heldAmount_apply enabled found]
  · rfl

/-- The excess of what an action posts is its risk. -/
theorem excess_posted {s : State} {action : Action} (enabled : action.Enabled s)
    (account : AccountId) :
    ((action.posted.filter fun entry => entry.accountId = account).map
      (action.apply s).excess).sum = action.risk s account := by
  have one : ∀ entry : LedgerEntry, (([entry].filter fun entry => entry.accountId = account).map
      (action.apply s).excess).sum =
      if entry.accountId = account then (action.apply s).excess entry else 0 := by
    intro entry
    by_cases own : entry.accountId = account
    · simp [own]
    · simp [own]
  cases action with
  | credit entry =>
    rw [Action.posted, one, Action.risk, State.excess]
    rcases enabled.2.2.2 with ⟨kind, _⟩ | kind <;> rw [kind] <;> exact ite_self _
  | charge entry =>
    rw [Action.posted, one, Action.risk, State.excess, enabled.2.2.2.1]
  | reverse entry =>
    rw [Action.posted, one, Action.risk, State.excess, enabled.2.1]
    exact ite_self _
  | settle reservation entry =>
    have original := enabled
    obtain ⟨_, _, kind, _, _, own, hold, found, _⟩ := enabled
    rw [Action.posted, one, Action.risk, State.excess, kind, own]
    simp only [heldAmount_apply original found]
  | transfer out into =>
    have zero : ∀ entry ∈ [out, into], (Action.apply s (.transfer out into)).excess entry = 0 := by
      intro entry member
      rcases List.mem_pair.mp member with rfl | rfl
      · rw [State.excess, enabled.kinds.1]
      · rw [State.excess, enabled.kinds.2]
    refine List.sum_eq_zero fun amount member => ?_
    obtain ⟨entry, inside, rfl⟩ := List.mem_map.mp member
    exact zero entry (List.mem_filter.mp inside).1
  | openAccount _ | place _ _ | release _ | extend _ _ => rfl

/-- **Exposure grows by the risk of each action.** -/
theorem exposure_apply {s : State} (wf : s.WellFormed) {action : Action}
    (enabled : action.Enabled s) (account : AccountId) :
    (action.apply s).exposure account = s.exposure account + action.risk s account := by
  rw [State.exposure, Action.apply_entries, List.filter_append, List.map_append, List.sum_append,
    excess_posted enabled, State.exposure]
  refine congrArg (· + _) (congrArg List.sum (List.map_congr_left fun entry member => ?_))
  exact excess_apply wf enabled (List.mem_filter.mp member).1

/-! ### What is held -/

/-- What a hold locks on an account. -/
def Hold.locks (hold : Hold) (account : AccountId) : Credit :=
  if hold.account = account ∧ hold.status = .open then hold.amount else 0

theorem State.held_eq_sum (s : State) (account : AccountId) :
    s.held account = s.holds.sum fun _ hold => hold.locks account := by
  rw [held, Table.sum_filter_values]
  simp only [decide_eq_true_eq, Hold.locks]

theorem Hold.locks_of_closed {hold : Hold} (closed : hold.status ≠ .open) (account : AccountId) :
    hold.locks account = 0 := if_neg fun both => closed both.2

/-- A change of one hold changes what is held by what that hold locks. -/
theorem held_modify {holds : Table ReservationId Hold} {reservation : ReservationId} {hold : Hold}
    (found : holds.get? reservation = some hold) (change : Hold → Hold) (account : AccountId) :
    ((holds.modify reservation change).sum fun _ hold => hold.locks account) =
      (holds.sum fun _ hold => hold.locks account) +
        ((change hold).locks account - hold.locks account) := by
  rw [← sub_eq_iff_eq_add', Table.sum_sub_sum_get reservation]
  · rw [Table.measureAt, Table.measureAt, Table.get?_modify, if_pos rfl, found]
    rfl
  · intro other different
    rw [Table.measureAt, Table.measureAt, Table.get?_modify, if_neg different]

theorem held_place {s : State} {reservation : ReservationId} {hold : Hold}
    (absent : s.holds.get? reservation = none) (account : AccountId) :
    ((Action.place reservation hold).apply s).held account =
      s.held account + hold.locks account := by
  rw [State.held_eq_sum, State.held_eq_sum, ← sub_eq_iff_eq_add', Action.apply,
    Table.sum_sub_sum_get reservation]
  · rw [Table.measureAt, Table.measureAt, Table.get?_set, if_pos rfl, absent]
    exact sub_zero _
  · intro other different
    rw [Table.measureAt, Table.measureAt, Table.get?_set, if_neg different]

theorem held_settle {s : State} {reservation : ReservationId} {entry : LedgerEntry} {hold : Hold}
    (found : s.holds.get? reservation = some hold) (account : AccountId) :
    ((Action.settle reservation entry).apply s).held account =
      s.held account - hold.locks account := by
  rw [State.held_eq_sum, State.held_eq_sum, Action.apply]
  refine (held_modify found _ account).trans ?_
  rw [Hold.locks_of_closed, zero_sub, sub_eq_add_neg]
  simp

/-- Releasing holds never raises what is held. -/
theorem held_release_le {s : State} (wf : s.WellFormed) {reservations : List ReservationId}
    (account : AccountId) :
    ((Action.release reservations).apply s).held account ≤ s.held account := by
  rw [State.held_eq_sum, State.held_eq_sum, Action.apply]
  refine Table.sum_le_sum_get fun reservation => ?_
  rw [Table.measureAt, Table.measureAt, Table.get?_mapValues]
  cases found : s.holds.get? reservation with
  | none => exact le_rfl
  | some hold =>
    simp only [Option.map_some, Option.elim_some]
    split
    · rw [Hold.locks_of_closed, Hold.locks]
      · split
        · exact (wf.holdTerms found).2
        · exact le_rfl
      · simp
    · exact le_rfl

theorem held_extend {s : State} {reservation : ReservationId} {hold : Hold}
    (found : s.holds.get? reservation = some hold) (expiresAt : OffsetDateTime)
    (account : AccountId) :
    ((Action.extend reservation expiresAt).apply s).held account = s.held account := by
  rw [State.held_eq_sum, State.held_eq_sum, Action.apply]
  refine (held_modify found _ account).trans ?_
  rw [Hold.locks, Hold.locks, sub_self, add_zero]

/-! ### What is available -/

/-- A no-overdraft account, existing or not yet opened. -/
def State.Guarded (s : State) (account : AccountId) : Prop :=
  account ≠ systemAccount ∧
    ∀ row, s.accounts.get? account = some row → row.account.noOverdraft = true

/-- What is available after a posting against the system account. -/
theorem settled_post {s : State} {entry : LedgerEntry} (posts : Posts s entry)
    {account : AccountId} (notSystem : account ≠ systemAccount) :
    (s.pay systemAccount entry.accountId entry.deltaCredits).settled account =
      s.settled account + if entry.accountId = account then entry.deltaCredits else 0 := by
  by_cases present : s.accounts.contains account = true
  · rw [State.settled_pay present, flow, if_neg notSystem, sub_zero]
    simp only [eq_comm]
  · have other : entry.accountId ≠ account := fun same => present (same ▸ posts.present)
    have absent := Table.contains_eq_false_iff.mp (Bool.not_eq_true _ ▸ present)
    rw [if_neg other, State.settled, State.settled, State.get?_pay, absent]
    exact (add_zero _).symm

/-- What is available after a transfer. -/
theorem available_transfer {s : State} {out into : LedgerEntry} (transfers : Transfers s out into)
    (account : AccountId) : ((Action.transfer out into).apply s).available account =
      s.available account + flow out.accountId into.accountId into.deltaCredits account := by
  show (s.pay out.accountId into.accountId into.deltaCredits).settled account - s.held account = _
  by_cases present : s.accounts.contains account = true
  · rw [State.settled_pay present, State.available]
    ring
  · have notPayer : account ≠ out.accountId := fun same => present (same ▸ transfers.payer)
    have notPayee : account ≠ into.accountId := fun same => present (same ▸ transfers.payee)
    have absent := Table.contains_eq_false_iff.mp (Bool.not_eq_true _ ▸ present)
    rw [flow_other notPayer notPayee, State.available, State.settled, State.settled,
      State.get?_pay, absent]
    exact (add_zero _).symm

theorem available_openAccount {s : State} {opened : LedgerAccount}
    (absent : s.accounts.get? opened.id = none) (account : AccountId) :
    ((Action.openAccount opened).apply s).available account = s.available account := by
  show ((Action.openAccount opened).apply s).settled account - s.held account = _
  rw [State.settled, State.available, State.settled, Action.apply, Table.get?_set]
  split
  · rename_i isNew
    rw [isNew, absent]
    rfl
  · rfl

/-- **One action**: what is available falls below zero by at most the action's risk. -/
theorem available_apply {s : State} (wf : s.WellFormed) {action : Action}
    (enabled : action.Enabled s) {account : AccountId} (guarded : s.Guarded account) :
    min 0 (s.available account) - action.risk s account ≤
      (action.apply s).available account := by
  obtain ⟨notSystem, protects⟩ := guarded
  obtain ⟨bound, isBound⟩ : ∃ bound, bound = min 0 (s.available account) := ⟨_, rfl⟩
  have least : bound ≤ s.available account := isBound ▸ min_le_right _ _
  have nonpos : bound ≤ 0 := isBound ▸ min_le_left _ _
  rw [← isBound]
  -- a posting that leaves the holds alone
  have posting : ∀ {entry : LedgerEntry}, Posts s entry →
      (s.pay systemAccount entry.accountId entry.deltaCredits).settled account - s.held account =
        s.available account + if entry.accountId = account then entry.deltaCredits else 0 := by
    intro entry posts
    rw [settled_post posts notSystem, State.available]
    ring
  cases action with
  | openAccount opened =>
    rwa [available_openAccount enabled.1, Action.risk, sub_zero]
  | credit entry =>
    obtain ⟨posts, _, positive, _⟩ := enabled
    refine le_trans ?_ (posting posts).ge
    rw [Action.risk]
    split <;> linarith
  | charge entry =>
    refine le_trans ?_ (posting enabled.1).ge
    rw [Action.risk]
    split <;> linarith
  | settle reservation entry =>
    obtain ⟨posts, _, _, _, _, _, hold, found, isOpen, own⟩ := enabled
    have above := le_max_right 0 (-entry.deltaCredits - hold.amount)
    have after : ((Action.settle reservation entry).apply s).available account =
        s.available account + (if hold.account = account then entry.deltaCredits else 0) +
          (if hold.account = account then hold.amount else 0) := by
      rw [State.available, held_settle found, Hold.locks, State.available, ← own]
      show (s.pay systemAccount entry.accountId entry.deltaCredits).settled account - _ = _
      rw [settled_post posts notSystem]
      simp only [isOpen, and_true]
      ring
    rw [after, Action.risk, State.heldAmount, Option.bind_some, found, own, Option.elim_some]
    split <;> linarith
  | reverse entry =>
    obtain ⟨posts, _, positive, _⟩ := enabled
    refine le_trans ?_ (posting posts).ge
    rw [Action.risk]
    split <;> linarith
  | transfer out into =>
    have positive := enabled.positive
    rw [available_transfer enabled, Action.risk, sub_zero]
    by_cases payer : account = out.accountId
    · obtain ⟨row, found⟩ := Table.contains_iff.mp enabled.payer
      have covered := enabled.covered row found (protects row (payer ▸ found))
      rw [payer, flow_payer enabled.different]
      linarith
    · by_cases payee : account = into.accountId
      · rw [payee, flow_payee enabled.different, ← payee]
        linarith
      · rwa [flow_other payer payee, add_zero]
  | place reservation hold =>
    obtain ⟨absent, isOpen, _, _, row, found, covered⟩ := enabled
    show bound - 0 ≤ s.settled account - _
    rw [held_place absent, Hold.locks, sub_zero]
    rw [State.available] at least
    split
    · rename_i own
      have enough := covered (protects row (own.1 ▸ found))
      rw [own.1, State.available] at enough
      linarith
    · rwa [add_zero]
  | release reservations =>
    show bound - 0 ≤ s.settled account - _
    have released := @held_release_le s wf reservations account
    rw [State.available] at least
    linarith
  | extend reservation expiresAt =>
    obtain ⟨hold, found, _⟩ := enabled
    show bound - 0 ≤ s.settled account - _
    rwa [held_extend found, sub_zero]

/-! ### Runs -/

/-- Every guarded account is above minus its exposure. -/
def State.Covered (s : State) : Prop :=
  ∀ account, s.Guarded account →
    0 ≤ s.exposure account ∧ -s.exposure account ≤ s.available account

theorem State.Covered.new : State.new.Covered := by
  intro account guarded
  have settled : State.new.settled account = 0 := by
    rw [State.settled, State.new, Table.get?_set, if_neg guarded.1]
    rfl
  have exposure : State.new.exposure account = 0 := rfl
  have held : State.new.held account = 0 := rfl
  rw [State.available, settled, exposure, held]
  norm_num

theorem guarded_apply {s : State} {action : Action} (enabled : action.Enabled s)
    {account : AccountId} (guarded : (action.apply s).Guarded account) : s.Guarded account := by
  refine ⟨guarded.1, fun row found => ?_⟩
  obtain ⟨row', found'⟩ := Table.contains_iff.mp
    (Action.contains_apply (Table.contains_iff.mpr ⟨row, found⟩) action)
  rcases account_apply found' with ⟨old, foundOld, same⟩ | ⟨rfl, same⟩
  · rw [found, Option.some.injEq] at foundOld
    rw [foundOld, ← same]
    exact guarded.2 row' found'
  · rw [same, enabled.1] at found
    cases found

/-- **Every enabled action keeps guarded accounts covered.** -/
theorem State.Covered.apply {s : State} (wf : s.WellFormed) (covered : s.Covered) {action : Action}
    (enabled : action.Enabled s) : (action.apply s).Covered := by
  intro account guarded
  have before := guarded_apply enabled guarded
  obtain ⟨nonneg, above⟩ := covered account before
  have risk := Action.risk_nonneg enabled account
  have step := available_apply wf enabled before
  have least : -s.exposure account ≤ min 0 (s.available account) :=
    le_min (neg_nonpos.mpr nonneg) above
  rw [exposure_apply wf enabled]
  exact ⟨add_nonneg nonneg risk, by linarith⟩

/-- A call that may take an account below what is available: a charge on it, or a settle of one of
its holds above the held amount. -/
def Call.Overdraws (s : State) (account : AccountId) : Call → Prop
  | .charge req => req.account = account
  | .settle req => ∃ hold, s.holds.get? req.reservationId = some hold ∧ hold.account = account ∧
      hold.amount < req.actual
  | _ => False

/-- An action of a call that does not overdraw has no risk, and the call still does not overdraw
after it. -/
theorem Call.risk_eq_zero {s : State} {call : Call} {action : Action} (enabled : action.Enabled s)
    (permitted : call.Permits action) {account : AccountId}
    (spares : ¬ call.Overdraws s account) :
    action.risk s account = 0 ∧ ¬ call.Overdraws (action.apply s) account := by
  cases call with
  | charge req =>
    cases action with
    | charge entry => exact ⟨if_neg fun own => spares (permitted.1.symm.trans own), spares⟩
    | _ => exact permitted.elim
  | settle req =>
    cases action with
    | settle reservation entry =>
      obtain ⟨rfl, delta⟩ := permitted
      have original := enabled
      obtain ⟨_, _, _, _, _, _, hold, found, _, own⟩ := enabled
      refine ⟨?_, ?_⟩
      · rw [Action.risk, State.heldAmount, Option.bind_some, found, Option.elim_some, delta, neg_neg]
        split
        · rename_i same
          refine max_eq_left (sub_nonpos.mpr (not_lt.mp fun above => ?_))
          exact spares ⟨hold, found, own.symm.trans same, above⟩
        · rfl
      · rintro ⟨new, foundNew, ownNew, above⟩
        obtain ⟨new', foundNew', evolves, _⟩ := hold_apply original.fits found
        rw [foundNew, Option.some.injEq] at foundNew'
        subst foundNew'
        exact spares ⟨hold, found, evolves.account ▸ ownNew, evolves.amount ▸ above⟩
    | _ => exact permitted.elim
  | _ =>
    cases action with
    | charge entry => exact permitted.elim
    | settle reservation entry => exact permitted.elim
    | _ => exact ⟨rfl, not_false⟩

/-- **A call that does not overdraw an account** leaves what is available on it at least at
`min 0` of what it was. -/
theorem Path.available {s s' : State} {actions : List Action} (path : Path s actions s')
    (wf : s.WellFormed) {call : Call} (permitted : ∀ action ∈ actions, call.Permits action)
    {account : AccountId} (guarded : s'.Guarded account) (spares : ¬ call.Overdraws s account) :
    s.Guarded account ∧ min 0 (s.available account) ≤ s'.available account := by
  induction path with
  | nil s => exact ⟨guarded, min_le_right _ _⟩
  | cons action enabled _ ih =>
    obtain ⟨riskless, sparesNext⟩ :=
      Call.risk_eq_zero enabled (permitted action List.mem_cons_self) spares
    obtain ⟨guardedNext, rest⟩ := ih (wf.apply enabled)
      (fun other inside => permitted other (List.mem_cons_of_mem _ inside)) guarded sparesNext
    have before := guarded_apply enabled guardedNext
    have first := available_apply wf enabled before
    rw [riskless, sub_zero] at first
    exact ⟨before, le_trans (le_min (min_le_left _ _) first) rest⟩

theorem Reachable.covered {s : State} (reachable : Reachable s) : s.Covered :=
  reachable.invariant .new fun _ _ wf covered enabled => covered.apply wf enabled

theorem State.WellFormed.guarded {s : State} (wf : s.WellFormed) {account : AccountId}
    {row : AccountRow} (found : s.accounts.get? account = some row)
    (protects : row.account.noOverdraft = true) : s.Guarded account := by
  refine ⟨?_, fun row' found' => ?_⟩
  · rintro rfl
    obtain ⟨system, foundSystem, plain⟩ := wf.system
    rw [found, Option.some.injEq] at foundSystem
    rw [foundSystem, plain] at protects
    cases protects
  · rw [found, Option.some.injEq] at found'
    rwa [← found']

/-- **No overdraft.** In every reachable state a no-overdraft account has at least minus its direct
charges and over-settles available; and every further call, unless it is a charge on the account or
a settle of one of its holds above the held amount, leaves at least `min 0` of what was available. -/
theorem no_overdraft {s : State} (reachable : Reachable s) {account : AccountId} {row : AccountRow}
    (found : s.accounts.get? account = some row) (protects : row.account.noOverdraft = true) :
    -(s.directCharges account + s.overSettles account) ≤ row.settled - s.held account ∧
    ∀ amb call, Admissible amb call s → ¬ call.Overdraws s account →
      ∃ reply s' row', step amb call s = some (reply, s') ∧
        s'.accounts.get? account = some row' ∧
        min 0 (row.settled - s.held account) ≤ row'.settled - s'.held account := by
  have wf := reachable.wellFormed
  have guarded := wf.guarded found protects
  refine ⟨?_, fun amb call admissible spares => ?_⟩
  · have above := (reachable.covered account guarded).2
    rwa [State.exposure_eq, State.available, State.settled_of_get found] at above
  · obtain ⟨reply, s', actions, result, path, permitted⟩ :=
      step_refines wf reachable.rooted admissible
    obtain ⟨row', found', same⟩ := path.account found
    have guarded' := (wf.path path).guarded found' (same ▸ protects)
    have kept := (path.available wf permitted guarded' spares).2
    rw [State.available, State.available, State.settled_of_get found,
      State.settled_of_get found'] at kept
    exact ⟨reply, s', row', result, found', kept⟩

/-- The script settles 10 above a hold and charges 5, on a no-overdraft account with 47 left. -/
theorem no_overdraft_sample : sample.directCharges 1 + sample.overSettles 1 = 15 ∧
    -15 ≤ sample.settled 1 - sample.held 1 := by
  have sums : sample.directCharges 1 + sample.overSettles 1 = 15 := by decide +kernel
  have stored : (sample.accounts.get? 1).map (fun row => row.account.noOverdraft) = some true := by
    decide +kernel
  obtain ⟨row, found, protects⟩ := Option.map_eq_some_iff.mp stored
  have above := (no_overdraft reachable_sample found protects).1
  rw [sums] at above
  rw [State.settled_of_get found]
  exact ⟨sums, above⟩

end Meter.Ledger
