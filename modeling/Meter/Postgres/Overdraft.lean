/-
**No overdraft, whatever runs at the same time.**

When the amounts of a call have five decimals, what its transaction commits is a path of enabled
actions of the abstract ledger, up to the system account's balance (`Legal.enabled`,
`settled_store`). So the one-action bound of `Meter.Ledger.Overdraft` holds at every commit, and
`concurrent_no_overdraft` for every interleaving.
-/

import Meter.Postgres.Safety

namespace Meter.Postgres

open Meter.Lib Meter.Ledger

section

variable {focus : Option RunId} {scaled : Prop} {locks : List Lock} {db : State}

/-! ### Stored actions are enabled actions -/

/-- With five decimals, a stored posting is a posting of the abstract ledger. -/
theorem Stores.posts {amount : Credit} {entry : LedgerEntry} (intact : Intact db)
    (isScaled : scaled) (stores : Stores scaled locks db amount entry) :
    Posts db entry ∧ entry.deltaCredits = amount := by
  have exact := stores.scale isScaled
  have delta : entry.deltaCredits = amount := stores.delta.trans (round5_of_exact exact)
  obtain ⟨row, found, balance⟩ := stores.row
  refine ⟨⟨Table.contains_iff.mpr ⟨row, found⟩, stores.paired, stores.fresh, fun _ => ?_⟩, delta⟩
  rw [balance, round5_of_exact ((intact.scaled.settled found).add exact),
    State.settled_of_get found, delta]

/-- With five decimals, a stored transfer is a transfer of the abstract ledger. -/
theorem StoresTransfer.transfers {amount : Credit} {out into : LedgerEntry} (intact : Intact db)
    (isScaled : scaled) (stores : StoresTransfer scaled locks db amount out into) :
    Transfers db out into := by
  have exact := stores.scale isScaled
  obtain ⟨payer, foundPayer, payerBalance, covered⟩ := stores.payer
  obtain ⟨payee, foundPayee, payeeBalance⟩ := stores.payee
  have outDelta : out.deltaCredits = -amount := stores.deltas.1.trans (round5_of_exact exact.neg)
  have intoDelta : into.deltaCredits = amount := stores.deltas.2.trans (round5_of_exact exact)
  refine {
    different := stores.different
    payer := Table.contains_iff.mpr ⟨payer, foundPayer⟩
    payee := Table.contains_iff.mpr ⟨payee, foundPayee⟩
    paired := stores.paired
    kinds := stores.kinds
    positive := by rw [intoDelta]; exact stores.positive
    opposite := by rw [outDelta, intoDelta]
    fresh := stores.fresh
    balances := ⟨fun _ => ?_, fun _ => ?_⟩
    covered := fun row found protects => ?_
    plain := stores.plain }
  · rw [payerBalance, round5_of_exact ((intact.scaled.settled foundPayer).add exact.neg),
      State.settled_of_get foundPayer, outDelta]
  · rw [payeeBalance, round5_of_exact ((intact.scaled.settled foundPayee).add exact),
      State.settled_of_get foundPayee, intoDelta]
  · rw [foundPayer, Option.some.injEq] at found
    rw [intoDelta]
    exact covered (found ▸ protects)

/-- **A legal action does what an enabled action does.** A refund by a run void counts as a credit:
under interference it need not be the whole remainder. -/
theorem Legal.enabled {action : Action} (intact : Intact db) (isScaled : scaled)
    (legal : Legal focus scaled locks db action) :
    ∃ action' : Action, action'.Enabled db ∧ action'.apply db = action.apply db := by
  cases action with
  | openAccount account => exact ⟨.openAccount account, ⟨legal.1, parent_ne_self legal.1 legal.2.1⟩, rfl⟩
  | credit entry =>
    obtain ⟨amount, positive, stores, kind⟩ := legal
    obtain ⟨posts, delta⟩ := stores.posts intact isScaled
    exact ⟨.credit entry, ⟨posts, stores.unused, delta ▸ positive, kind⟩, rfl⟩
  | reverse entry =>
    obtain ⟨amount, positive, stores, kind, _⟩ := legal
    obtain ⟨posts, delta⟩ := stores.posts intact isScaled
    exact ⟨.credit entry, ⟨posts, stores.unused, delta ▸ positive, Or.inr kind⟩, rfl⟩
  | charge entry =>
    obtain ⟨amount, negative, stores, kind⟩ := legal
    obtain ⟨posts, delta⟩ := stores.posts intact isScaled
    exact ⟨.charge entry, ⟨posts, stores.unused, delta ▸ negative, kind⟩, rfl⟩
  | settle reservation entry =>
    obtain ⟨amount, nonpos, stores, kind, plain, key, own, _, hold⟩ := legal
    obtain ⟨posts, delta⟩ := stores.posts intact isScaled
    exact ⟨.settle reservation entry, ⟨posts, delta ▸ nonpos, kind, plain, key, own, hold⟩, rfl⟩
  | transfer out into =>
    obtain ⟨amount, stores⟩ := legal
    exact ⟨.transfer out into, stores.transfers intact isScaled, rfl⟩
  | place reservation hold =>
    obtain ⟨absent, isOpen, unsettled, _, _, amount, row, positive, scale, stored, found, covered⟩ :=
      legal
    rw [round5_of_exact (scale isScaled)] at stored
    exact ⟨.place reservation hold,
      ⟨absent, isOpen, unsettled, stored ▸ positive, row, found, stored ▸ covered⟩, rfl⟩
  | release reservations =>
    have fits := legal.fits
    exact ⟨.release reservations, fits, rfl⟩
  | extend reservation expiresAt => exact ⟨.extend reservation expiresAt, legal.2, rfl⟩

/-- A balance that is set to what it was plus an amount. -/
theorem settled_modify {accounts : Table AccountId AccountRow} {set : AccountId} {settled : Credit}
    {row : AccountRow} (found : accounts.get? set = some row) (account : AccountId) :
    ((accounts.modify set fun row => { row with settled }).get? account).elim 0 AccountRow.settled =
      (accounts.get? account).elim 0 AccountRow.settled +
        if account = set then settled - row.settled else 0 := by
  rw [Table.get?_modify]
  split
  · rename_i same
    rw [same, found]
    simp
  · rw [add_zero]

/-- **Every other balance than the system account's is the one the abstract action leaves.** -/
theorem settled_store {action : Action} (intact : Intact db) (isScaled : scaled)
    (legal : Legal focus scaled locks db action) {account : AccountId}
    (notSystem : account ≠ systemAccount) :
    (Action.store db action).settled account = (action.apply db).settled account := by
  have posting : ∀ {amount : Credit} {entry : LedgerEntry}, Stores scaled locks db amount entry →
      ((db.accounts.modify entry.accountId fun row =>
        { row with settled := entry.balanceAfter }).get? account).elim 0 AccountRow.settled =
      (db.pay systemAccount entry.accountId entry.deltaCredits).settled account := by
    intro amount entry stores
    obtain ⟨posts, delta⟩ := stores.posts intact isScaled
    obtain ⟨row, found, balance⟩ := stores.row
    rw [settled_post posts notSystem, settled_modify found account, balance, delta,
      round5_of_exact ((intact.scaled.settled found).add (stores.scale isScaled)),
      add_sub_cancel_left]
    simp only [eq_comm (a := account)]
    rfl
  cases action with
  | openAccount _ | place _ _ | extend _ _ => rfl
  | credit entry | charge entry | reverse entry | settle reservation entry =>
    obtain ⟨amount, _, stores, _⟩ := legal
    exact posting stores
  | release reservations =>
    obtain ⟨reservation, rfl, _⟩ := legal
    rfl
  | transfer out into =>
    obtain ⟨amount, stores⟩ := legal
    have transfers := stores.transfers intact isScaled
    have after := available_transfer transfers account
    rw [State.available, State.available] at after
    have paid : ((Action.transfer out into).apply db).settled account = db.settled account +
        flow out.accountId into.accountId into.deltaCredits account := by
      have sameHeld : ((Action.transfer out into).apply db).held account = db.held account := rfl
      rw [sameHeld] at after
      linarith
    obtain ⟨payer, foundPayer, payerBalance, _⟩ := stores.payer
    obtain ⟨payee, foundPayee, payeeBalance⟩ := stores.payee
    have exact := stores.scale isScaled
    have intoDelta : into.deltaCredits = amount := stores.deltas.2.trans (round5_of_exact exact)
    have foundPayee' : (db.accounts.modify out.accountId fun row =>
        { row with settled := out.balanceAfter }).get? into.accountId = some payee := by
      rw [Table.get?_modify, if_neg stores.different, foundPayee]
    rw [paid, intoDelta]
    show (((db.accounts.modify out.accountId fun row =>
      { row with settled := out.balanceAfter }).modify into.accountId fun row =>
        { row with settled := into.balanceAfter }).get? account).elim 0 AccountRow.settled = _
    rw [settled_modify foundPayee', settled_modify foundPayer, payerBalance, payeeBalance,
      round5_of_exact ((intact.scaled.settled foundPayer).add exact.neg),
      round5_of_exact ((intact.scaled.settled foundPayee).add exact), flow]
    show db.settled account + _ + _ = _
    by_cases isPayer : account = out.accountId
    · have isPayee : account ≠ into.accountId := fun same => stores.different (same.symm.trans isPayer)
      rw [if_pos isPayer, if_neg isPayee, if_neg isPayee, if_pos isPayer]
      ring
    · rw [if_neg isPayer, if_neg isPayer]
      split <;> ring

/-! ### Coverage -/

theorem exposure_congr {s s' : State} (holds : s.holds = s'.holds) (entries : s.entries = s'.entries)
    (account : AccountId) : s.exposure account = s'.exposure account := by
  have excess : s.excess = s'.excess := by
    funext entry
    simp only [State.excess, State.heldAmount, holds]
  rw [State.exposure, State.exposure, entries, excess]

/-- **Every legal action keeps guarded accounts covered.** -/
theorem covered_store {action : Action} (intact : Intact db) (isScaled : scaled)
    (legal : Legal focus scaled locks db action) (covered : db.Covered) :
    (Action.store db action).Covered := by
  obtain ⟨action', enabled, same⟩ := legal.enabled intact isScaled
  have abstract : (action.apply db).Covered := same ▸ covered.apply intact.wellFormed enabled
  have alike := store_alike legal
  intro account guarded
  have guarded' : (action.apply db).Guarded account := by
    refine ⟨guarded.1, fun row found => ?_⟩
    obtain ⟨row', found', terms⟩ := alike.symm.row found
    rw [← terms]
    exact guarded.2 row' found'
  have held : (Action.store db action).held account = (action.apply db).held account := by
    rw [State.held, State.held, alike.holds]
  rw [exposure_congr alike.holds alike.entries, State.available,
    settled_store intact isScaled legal guarded.1, held]
  exact abstract account guarded'

end

/-- The tables are intact and every guarded account is covered. -/
structure Solvent (point : Point State Label) : Prop where
  intact : Intact point.db
  covered : point.db.Covered

theorem keeps_solvent : Keeps none (fun _ label => Call.Scaled label.2) Solvent := by
  intro point label locks actions solvent isScaled _ legals _ _
  have both : Intact (Action.stores point.db actions) ∧ (Action.stores point.db actions).Covered :=
    legals.invariant (P := fun db => Intact db ∧ db.Covered) (fun db action before legal =>
      ⟨legal.intact before.1, covered_store before.1 isScaled legal before.2⟩)
      ⟨solvent.intact, solvent.covered⟩
  exact ⟨both.1, both.2⟩

theorem solvent_of_reaches {shares : Bool}
    {world : World Stmt State Write Lock Label (Except LedgerError Reply)}
    (reaches : (engine shares).Reaches program (fun _ label => Call.Scaled label.2) State.new world) :
    Solvent world.point := by
  exact invariant_of_reaches keeps_solvent (fun point label _ => sparesRun_none point label.2)
    (fun _ => Solvent.intact) (fun _ _ solvent => ⟨solvent.intact, solvent.covered⟩) ⟨.new, .new⟩
    reaches

/-- **No overdraft under concurrency.** Whatever transactions run at the same time, statement by
statement and in any order, with or without the key-share locks of foreign keys: in every committed
state a no-overdraft account has at least minus its direct charges and over-settles available, and
every reservation has at most one settle entry. -/
theorem concurrent_no_overdraft {shares : Bool}
    {world : World Stmt State Write Lock Label (Except LedgerError Reply)}
    (reaches : (engine shares).Reaches program (fun _ label => Call.Scaled label.2) State.new world) :
    (∀ account row, world.point.db.accounts.get? account = some row →
      row.account.noOverdraft = true →
      -(world.point.db.directCharges account + world.point.db.overSettles account) ≤
        row.settled - world.point.db.held account) ∧
    ∀ reservation, (world.point.db.settles reservation).length ≤ 1 := by
  obtain ⟨intact, covered⟩ := solvent_of_reaches reaches
  refine ⟨fun account row found protects => ?_, intact.wellFormed.settles_length_le_one⟩
  have above := (covered account (intact.wellFormed.guarded found protects)).2
  rwa [State.exposure_eq, State.available, State.settled_of_get found] at above

/-- A hold of 60 is settled at 70 while 5 are charged: the settle locks the hold, waits for the
charge to commit, and then moves the balance. -/
def racingSettle : List (Engine.Move Label) := [
  serially 0 (.openAccount ⟨1, .user, true, none⟩) 1,
  serially 1 (.grant ⟨1, 100, .paid, none⟩) 3,
  serially 2 (.reserve ⟨1, 11, 60, .hard, none, some 7⟩) 4,
  [.start 0 (numbered 3, .settle ⟨11, 70⟩), .exec 0,
    .start 1 (numbered 4, .charge ⟨1, 5, some 7, none⟩), .exec 1, .exec 1, .exec 1, .commit 1,
    .exec 0, .exec 0, .exec 0, .commit 0]].flatten

theorem concurrent_no_overdraft_racingSettle :
    ∃ world, (engine true).Reaches program (fun _ label => Call.Scaled label.2) State.new world ∧
      world.point.db.directCharges 1 + world.point.db.overSettles 1 = 15 ∧
      -15 ≤ world.point.db.settled 1 - world.point.db.held 1 ∧
      (world.point.db.settles 11).length ≤ 1 := by
  have followed : ((engine true).followAll program (fun _ label => decide (Call.Scaled label.2)) 2
      (Engine.idle State.new) racingSettle).map (fun world =>
        (world.point.db.directCharges 1 + world.point.db.overSettles 1,
          (world.point.db.accounts.get? 1).map fun row => row.account.noOverdraft)) =
      some (15, some true) := by decide +kernel
  obtain ⟨world, result, facts⟩ := Option.map_eq_some_iff.mp followed
  rw [Prod.mk.injEq] at facts
  obtain ⟨row, found, protects⟩ := Option.map_eq_some_iff.mp facts.2
  have reaches : (engine true).Reaches program (fun _ label => Call.Scaled label.2) State.new world :=
    Engine.reaches_of_follow (fun _ _ => of_decide_eq_true) result
  obtain ⟨above, once⟩ := concurrent_no_overdraft reaches
  have bound := above 1 row found protects
  rw [facts.1] at bound
  refine ⟨world, reaches, facts.1, ?_, once 11⟩
  rw [State.settled_of_get found]
  exact bound

end Meter.Postgres
