/-
**Balance reads under concurrency.**

`PgLedger::balance` reads the settled balance and the open holds in two statements outside any
transaction, so other transactions may commit between the two. The in-memory ledger reads both under
one lock.

* `BalanceCall` — the worlds from the start of one call to its answer, in any interleaving.
* `readings` — the committed databases between its two reads; `answer_of_readings` says that the
  answer pairs the settled balance of the first with the open holds of the last.
* `balance_consistent` — **the condition**: the answer is the balance of one committed database if
  no change of the account's holds commits with or after a change of its settled balance.
* `settle_tears_balance` — a settle in between, and more credit reported than there ever was.
-/

import Meter.Postgres.Safety

namespace Meter.Postgres

open Meter.Lib Meter.Ledger

/-- The committed database and the running ledger transactions. -/
abbrev LedgerWorld := World Stmt State Write Lock Label (Except LedgerError Reply)

/-- One call of `balance`: the worlds from its start to its answer. -/
structure BalanceCall (shares : Bool) (admits : Point State Label → Label → Prop) (i : Nat)
    (account : AccountId) (worlds : List LedgerWorld) (answer : Balance) : Prop where
  steps : worlds.IsChain ((engine shares).Step program admits)
  begun : ∃ amb first, worlds.head? = some first ∧ first.live i =
    some ⟨(amb, .balance account), program (amb, .balance account), [], []⟩
  running : ∀ world ∈ worlds, (world.live i).isSome = true
  answered : ∃ last, worlds.getLast? = some last ∧
    (last.live i).bind Session.answer = some (.ok (.balance answer))

/-- The answer is the balance in one committed database of the call. -/
def Consistent (account : AccountId) (worlds : List LedgerWorld) (answer : Balance) : Prop :=
  ∃ world ∈ worlds, world.point.db.settled account = answer.settled ∧
    world.point.db.held account = answer.held ∧
    answer.available ≤ world.point.db.available account

/-- The call has read the settled balance and not yet the holds. -/
def betweenReads (i : Nat) (world : LedgerWorld) : Bool :=
  match world.live i with
  | some ⟨_, .stmt (.sumOpenHolds _) _, _, _⟩ => true
  | _ => false

/-- The committed databases between the two reads. -/
def readings (i : Nat) (worlds : List LedgerWorld) : List State :=
  (worlds.filter (betweenReads i)).map fun world => world.point.db

/-! ### The life of a call -/

section

variable {shares : Bool} {admits : Point State Label → Label → Prop} {i : Nat} {label : Label}
  {account : AccountId} {world world' : LedgerWorld} {worlds : List LedgerWorld}

/-- The call has read a row, and will read the holds. -/
def Reading (i : Nat) (label : Label) (account : AccountId) (row : AccountRow)
    (world : LedgerWorld) : Prop :=
  world.live i = some ⟨label, .stmt (.sumOpenHolds account) fun held =>
    .done (.commit (.ok (.balance ⟨row.settled, held⟩))), [], []⟩

/-- The call has its answer. -/
def Ended (i : Nat) (label : Label) (exit : Exit (Except LedgerError Reply)) (world : LedgerWorld) :
    Prop :=
  world.live i = some ⟨label, .done exit, [], []⟩

theorem ended_of_step {exit : Exit (Except LedgerError Reply)}
    (step : (engine shares).Step program admits world world') (ended : Ended i label exit world)
    (still : (world'.live i).isSome = true) : Ended i label exit world' := by
  rcases Engine.Step.session _ step ended still with same | ⟨_, _, _, _, _, _, shape, _⟩
  · exact same
  · cases shape

theorem reading_of_step {row : AccountRow}
    (step : (engine shares).Step program admits world world')
    (reading : Reading i label account row world) (still : (world'.live i).isSome = true) :
    Reading i label account row world' ∨
      Ended i label (.commit (.ok (.balance ⟨row.settled, world.point.db.held account⟩))) world' := by
  rcases Engine.Step.session _ step reading still with same | ⟨_, _, _, _, _, _, shape, result, next⟩
  · exact Or.inl same
  · cases shape
    cases result
    exact Or.inr next

theorem begun_of_step {amb : Ambient}
    (step : (engine shares).Step program admits world world')
    (begun : world.live i =
      some ⟨(amb, .balance account), program (amb, .balance account), [], []⟩)
    (still : (world'.live i).isSome = true) :
    world'.live i = world.live i ∨
      (∃ row, world'.point.db.accounts.get? account = some row ∧
        Reading i (amb, .balance account) account row world') ∨
      ∃ error, Ended i (amb, .balance account) (.rollback error) world' := by
  rcases Engine.Step.session _ step begun still with same |
    ⟨point, _, _, _, _, _, shape, result, next⟩
  · exact Or.inl (same.trans begun.symm)
  · cases shape
    cases result
    rw [point]
    cases found : world.point.db.accounts.get? account with
    | none =>
      simp only [Engine.view_nil, found] at next
      exact Or.inr (Or.inr ⟨.error (.accountNotFound account), next⟩)
    | some row =>
      simp only [Engine.view_nil, found] at next
      exact Or.inr (Or.inl ⟨row, rfl, next⟩)

theorem betweenReads_of_ended {exit : Exit (Except LedgerError Reply)}
    (ended : Ended i label exit world) : betweenReads i world = false := by
  rw [betweenReads, ended]

theorem betweenReads_of_reading {row : AccountRow} (reading : Reading i label account row world) :
    betweenReads i world = true := by
  rw [betweenReads, reading]

theorem betweenReads_of_begun {amb : Ambient}
    (begun : world.live i =
      some ⟨(amb, .balance account), program (amb, .balance account), [], []⟩) :
    betweenReads i world = false := by
  rw [betweenReads, begun]
  rfl

/-! ### What the two reads answer -/

/-- An answered call reads nothing more. -/
theorem answer_of_ended {exit : Exit (Except LedgerError Reply)}
    (steps : (world :: worlds).IsChain ((engine shares).Step program admits))
    (running : ∀ other ∈ worlds, (other.live i).isSome = true) (ended : Ended i label exit world)
    {last : LedgerWorld} (isLast : (world :: worlds).getLast? = some last) :
    Ended i label exit last ∧ readings i (world :: worlds) = [] := by
  induction worlds generalizing world with
  | nil =>
    cases isLast
    exact ⟨ended, by rw [readings, List.filter_cons, betweenReads_of_ended ended]; rfl⟩
  | cons next rest ih =>
    obtain ⟨step, steps⟩ := List.isChain_cons_cons.mp steps
    have later := ended_of_step step ended (running next List.mem_cons_self)
    obtain ⟨same, none_⟩ := ih steps (fun other inside => running other
      (List.mem_cons_of_mem _ inside)) later (List.getLast?_cons_cons ▸ isLast)
    refine ⟨same, ?_⟩
    rw [readings, List.filter_cons, betweenReads_of_ended ended]
    exact none_

theorem readings_cons (world : LedgerWorld) (worlds : List LedgerWorld) :
    readings i (world :: worlds) =
      if betweenReads i world then world.point.db :: readings i worlds else readings i worlds := by
  rw [readings, List.filter_cons]
  split <;> rfl

/-- A call between its reads answers with the holds of the last database it can see. -/
theorem answer_of_reading {row : AccountRow} {answer : Balance}
    (steps : (world :: worlds).IsChain ((engine shares).Step program admits))
    (running : ∀ other ∈ worlds, (other.live i).isSome = true)
    (reading : Reading i label account row world) {last : LedgerWorld}
    (isLast : (world :: worlds).getLast? = some last)
    (answered : (last.live i).bind Session.answer = some (.ok (.balance answer))) :
    ∃ finish, (readings i (world :: worlds)).getLast? = some finish ∧
      answer = ⟨row.settled, finish.held account⟩ := by
  induction worlds generalizing world with
  | nil =>
    rw [← Option.some.inj isLast, List.getLast_singleton, reading] at answered
    cases answered
  | cons next rest ih =>
    obtain ⟨step, steps⟩ := List.isChain_cons_cons.mp steps
    have isLast' : (next :: rest).getLast? = some last := List.getLast?_cons_cons ▸ isLast
    have running' : ∀ other ∈ rest, (other.live i).isSome = true :=
      fun other inside => running other (List.mem_cons_of_mem _ inside)
    rw [readings_cons, if_pos (betweenReads_of_reading reading)]
    rcases reading_of_step step reading (running next List.mem_cons_self) with later | ended
    · obtain ⟨finish, found, same⟩ := ih steps running' later isLast'
      rw [List.getLast?_cons, found]
      exact ⟨finish, rfl, same⟩
    · obtain ⟨same, none_⟩ := answer_of_ended steps running' ended isLast'
      rw [same] at answered
      cases answered
      exact ⟨world.point.db, by rw [none_]; rfl, rfl⟩

/-- **The answer of a call**: the settled balance before the commits between its two reads, and the
open holds after them. -/
theorem answer_of_readings {answer : Balance}
    (call : BalanceCall shares admits i account worlds answer) :
    ∃ start finish, (readings i worlds).head? = some start ∧
      (readings i worlds).getLast? = some finish ∧
      answer = ⟨start.settled account, finish.held account⟩ := by
  obtain ⟨steps, ⟨amb, first, isFirst, begun⟩, running, last, isLast, answered⟩ := call
  induction worlds generalizing first with
  | nil => cases isFirst
  | cons world rest ih =>
    cases isFirst
    cases rest with
    | nil =>
      rw [← Option.some.inj isLast, List.getLast_singleton, begun] at answered
      cases answered
    | cons next rest =>
      obtain ⟨step, steps⟩ := List.isChain_cons_cons.mp steps
      have isLast' : (next :: rest).getLast? = some last := List.getLast?_cons_cons ▸ isLast
      have running' : ∀ other ∈ next :: rest, (other.live i).isSome = true :=
        fun other inside => running other (List.mem_cons_of_mem _ inside)
      have after : ∀ other ∈ rest, (other.live i).isSome = true :=
        fun other inside => running' other (List.mem_cons_of_mem _ inside)
      rw [readings_cons, if_neg (by rw [betweenReads_of_begun begun]; decide)]
      rcases begun_of_step step begun (running' next List.mem_cons_self) with same |
        ⟨row, found, reading⟩ | ⟨error, ended⟩
      · exact ih steps running' next rfl (same.trans begun) isLast'
      · obtain ⟨finish, isFinish, same⟩ := answer_of_reading steps after reading isLast' answered
        refine ⟨next.point.db, finish, ?_, isFinish, ?_⟩
        · rw [readings_cons, if_pos (betweenReads_of_reading reading)]
          rfl
        · rw [same, State.settled_of_get found]
      · obtain ⟨same, _⟩ := answer_of_ended steps after ended isLast'
        rw [same] at answered
        cases answered

/-- **Balance reads are consistent if the commits between the two reads are untorn**: none of them
changes the account's open holds once one has changed its settled balance. -/
theorem balance_consistent {answer : Balance}
    (call : BalanceCall shares admits i account worlds answer)
    (untorn : Untorn (fun db => db.settled account) (fun db => db.held account)
      (readings i worlds)) : Consistent account worlds answer := by
  obtain ⟨start, finish, isStart, isFinish, rfl⟩ := answer_of_readings call
  obtain ⟨db, member, settled, held⟩ := untorn.read isStart isFinish
  obtain ⟨world, inside, rfl⟩ := List.mem_map.mp member
  refine ⟨world, (List.mem_filter.mp inside).1, settled, held, ?_⟩
  rw [Balance.available, State.available]
  exact (congrArg₂ (· - ·) settled held).ge

end

/-! ### Two schedules -/

/-- An account with 100 credits and an open hold of 30. -/
def balancePrelude : List (Engine.Move Label) := [
  serially 0 (.openAccount ⟨1, .user, true, none⟩) 1,
  serially 1 (.grant ⟨1, 100, .paid, none⟩) 3,
  serially 2 (.reserve ⟨1, 11, 30, .hard, none, none⟩) 4].flatten

/-- A world in which a balance call has just started. -/
def startBalance (world : LedgerWorld) : LedgerWorld :=
  ⟨Engine.begin world.point (numbered 3, .balance 1), Function.update world.live 0
    (some ⟨(numbered 3, .balance 1), program (numbered 3, .balance 1), [], []⟩)⟩

/-- The worlds of a balance call on that account, along a schedule. -/
def balanceWorlds (moves : List (Engine.Move Label)) : Option (List LedgerWorld) :=
  ((engine true).followAll program (fun _ _ => true) 2 (Engine.idle State.new) balancePrelude).bind
    fun world => if (world.live 0).isNone then
      (engine true).follows program (fun _ _ => true) 2 (startBalance world) moves
    else none

/-- The worlds along a schedule are those of a call. -/
theorem balanceCall_of_worlds {moves : List (Engine.Move Label)} {worlds : List LedgerWorld}
    {answer : Balance} (found : balanceWorlds moves = some worlds)
    (running : (worlds.all fun world => (world.live 0).isSome) = true)
    (answered : (worlds.getLast?.bind fun last => (last.live 0).bind Session.answer) =
      some (.ok (.balance answer))) :
    BalanceCall true (fun _ _ => True) 0 1 worlds answer ∧
      ∃ first, worlds.head? = some first ∧
        (engine true).Reaches program (fun _ _ => True) State.new first := by
  obtain ⟨world, prelude, rest⟩ := Option.bind_eq_some_iff.mp found
  split at rest
  · rename_i vacant
    obtain ⟨reaches, beyond⟩ := @Engine.steps_of_followAll _ _ _ _ _ _ _ _ _ _ (fun _ _ => True)
      _ _ _ (fun _ _ _ => trivial) _ _ (fun _ _ => rfl) prelude
    have beyond' : ∀ j, 2 ≤ j → (startBalance world).live j = none := by
      intro j outside
      have other : j ≠ 0 := by omega
      exact (Function.update_of_ne other _ _).trans (beyond j outside)
    obtain ⟨steps, head⟩ := @Engine.isChain_of_follows _ _ _ _ _ _ _ _ _ _ (fun _ _ => True)
      _ _ (fun _ _ _ => trivial) _ _ _ beyond' rest
    obtain ⟨last, isLast, answered⟩ := Option.bind_eq_some_iff.mp answered
    have started : (startBalance world).live 0 =
        some ⟨(numbered 3, .balance 1), program (numbered 3, .balance 1), [], []⟩ := by
      simp only [startBalance, Function.update_self]
    refine ⟨⟨steps, ⟨numbered 3, _, head, started⟩,
      List.all_eq_true.mp running, last, isLast, answered⟩, _, head, reaches.tail ?_⟩
    exact .start 0 _ (Option.isNone_iff_eq_none.mp vacant)
  · cases rest

/-- A reserve and then a grant commit between the two reads. -/
theorem balance_consistent_sample : ∃ worlds, BalanceCall true (fun _ _ => True) 0 1 worlds ⟨100, 40⟩ ∧
    Consistent 1 worlds ⟨100, 40⟩ := by
  have followed : (balanceWorlds [.exec 0, .start 1 (numbered 4, .reserve ⟨1, 12, 10, .hard, none,
      none⟩), .exec 1, .exec 1, .exec 1, .exec 1, .commit 1,
      .start 1 (numbered 5, .grant ⟨1, 7, .paid, none⟩), .exec 1, .exec 1, .exec 1, .commit 1,
      .exec 0]).any (fun worlds => (worlds.all fun world => (world.live 0).isSome) ∧
        (worlds.getLast?.bind fun last => (last.live 0).bind Session.answer) =
          some (.ok (.balance ⟨100, 40⟩)) ∧
        Untorn (fun db => db.settled 1) (fun db => db.held 1) (readings 0 worlds)) := by
    decide +kernel
  obtain ⟨worlds, found, facts⟩ := (Option.any_eq_true _ _).mp followed
  obtain ⟨running, answered, untorn⟩ := of_decide_eq_true facts
  obtain ⟨call, _⟩ := balanceCall_of_worlds found running answered
  exact ⟨worlds, call, balance_consistent call untorn⟩

/-- **A torn read.** A settle of 30 commits between the two reads: the call reports 100 credits
available, where there were 70 before, after and throughout. -/
theorem settle_tears_balance : ∃ worlds, BalanceCall true (fun _ _ => True) 0 1 worlds ⟨100, 0⟩ ∧
    (∃ first, worlds.head? = some first ∧
      (engine true).Reaches program (fun _ _ => True) State.new first) ∧
    ¬ Consistent 1 worlds ⟨100, 0⟩ ∧
    ∀ world ∈ worlds, world.point.db.available 1 < Balance.available ⟨100, 0⟩ := by
  have followed : (balanceWorlds [.exec 0, .start 1 (numbered 4, .settle ⟨11, 30⟩), .exec 1, .exec 1,
      .exec 1, .exec 1, .commit 1, .exec 0]).any (fun worlds =>
        (worlds.all fun world => (world.live 0).isSome) ∧
        (worlds.getLast?.bind fun last => (last.live 0).bind Session.answer) =
          some (.ok (.balance ⟨100, 0⟩)) ∧
        worlds.all fun world => world.point.db.available 1 < 100) := by
    decide +kernel
  obtain ⟨worlds, found, facts⟩ := (Option.any_eq_true _ _).mp followed
  obtain ⟨running, answered, less⟩ := of_decide_eq_true facts
  obtain ⟨call, reached⟩ := balanceCall_of_worlds found running answered
  have below : ∀ world ∈ worlds, world.point.db.available 1 < Balance.available ⟨100, 0⟩ := by
    intro world inside
    have short := of_decide_eq_true (List.all_eq_true.mp less world inside)
    simpa [Balance.available] using short
  refine ⟨worlds, call, reached, ?_, below⟩
  rintro ⟨world, inside, _, _, covered⟩
  exact absurd (below world inside) (not_lt.mpr covered)

end Meter.Postgres
