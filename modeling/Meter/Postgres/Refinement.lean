/-
**Postgres refines the in-memory ledger.**

The in-memory ledger is the oracle of the Postgres one. `Turn` is a call made on both, each with its
own clock and its own iteration order, and `Allowed` what a script of such calls keeps to: amounts of
five decimals that fit the columns, expiries and sweep times of whole microseconds, references to
rows that exist, accounts other than the system account, and keys that do not look like a run void's.

* `step_agrees` — the simulation of every call (`Meter.Postgres.Agreement`).
* `postgres_refines_memory` — **the refinement of every script**, call by call.
-/

import Meter.Ledger.Books
import Meter.Postgres.Overdraft
import Meter.Postgres.VoidAgreement

namespace Meter.Postgres

open Meter.Lib Meter.Ledger

/-! ### Scripts -/

/-- A call made on both ledgers, with the environment of either. -/
structure Turn where
  call : Call
  memory : Ambient
  postgres : Ambient

/-- A call that does not name the system account. -/
def Call.AvoidsSystem : Call → Prop
  | .openAccount req => req.parentId ≠ some systemAccount
  | .balance account => account ≠ systemAccount
  | .grant req => req.account ≠ systemAccount
  | .refund req => req.account ≠ systemAccount
  | .reserve req => req.account ≠ systemAccount
  | .charge req => req.account ≠ systemAccount
  | .reverseCharge req => req.account ≠ systemAccount
  | .openLease req => req.parent ≠ systemAccount
  | .closeLease lease => lease ≠ systemAccount
  | .entries account => account ≠ systemAccount
  | .settle _ | .void _ | .voidExpiredHolds _ | .extendHold _ _ | .voidRun _ => True

/-- A call whose expiry or sweep time is of whole microseconds. -/
def Call.WholeTimes : Call → Prop
  | .reserve req => ∀ instant, req.expiresAt = some instant → WholeMicros instant
  | .voidExpiredHolds now => WholeMicros now
  | .extendHold _ expiresAt => WholeMicros expiresAt
  | .openAccount _ | .balance _ | .grant _ | .refund _ | .settle _ | .charge _ | .reverseCharge _
  | .void _ | .voidRun _ | .openLease _ | .closeLease _ | .entries _ => True

/-- A refund that references an entry references one that exists. -/
def Call.ReversesExisting (s : State) : Call → Prop
  | .refund req => ∀ id, req.reversesEntryId = some id → id ∈ s.entryIds
  | .openAccount _ | .balance _ | .grant _ | .reserve _ | .settle _ | .charge _ | .reverseCharge _
  | .void _ | .voidExpiredHolds _ | .extendHold _ _ | .voidRun _ | .openLease _ | .closeLease _
  | .entries _ => True

/-- What a call of a script keeps to. -/
structure Turn.Allowed (turn : Turn) (s : State) : Prop where
  admissible : Admissible turn.memory turn.call s
  target : Call.ReversesExisting s turn.call
  scaled : Call.Scaled turn.call
  times : Call.WholeTimes turn.call
  avoids : Call.AvoidsSystem turn.call
  ownKeys : turn.call.OwnKeys

/-- What a script keeps to, along the states of the in-memory ledger. -/
def Allowed : State → List Turn → Prop
  | _, [] => True
  | s, turn :: turns => turn.Allowed s ∧ ∀ result ∈ step turn.memory turn.call s,
      InRange result.2 ∧ Allowed result.2 turns

/-- The replies of the in-memory ledger to a script, with the states they leave. -/
def memoryTrace : State → List Turn → Option (List (Except LedgerError Reply × State))
  | _, [] => some []
  | s, turn :: turns => (step turn.memory turn.call s).bind fun result =>
      (memoryTrace result.2 turns).map (result :: ·)

/-- The replies of the Postgres ledger, with the databases they leave. -/
def postgresTrace : State → List Turn → List (Except LedgerError Reply × State)
  | _, [] => []
  | db, turn :: turns =>
    let result := serve turn.postgres turn.call db
    result :: postgresTrace result.2 turns

/-! ### Every call agrees -/

/-- Two replies that are the same, up to clocks and the order inside a run void. -/
def SameReply : Reply → Reply → Prop
  | .entry entry, .entry entry' => SameEntry entry entry'
  | .reversal entry, .reversal entry' => entry'.map essence = entry.map essence
  | .entries rows, .entries rows' => (rows'.map essence).Perm (rows.map essence)
  | reply, reply' => reply' = reply

theorem Serves.replying {α : Type} {transaction : Prog Stmt (Answer α)} {db db' : State}
    {result : Except LedgerError α} (serves : Serves transaction db result db') (wrap : α → Reply) :
    Serves (Postgres.replying transaction wrap) db (result.map wrap) db' := by
  rcases serves with ⟨writes, yields, left⟩ | ⟨⟨writes, yields⟩, left⟩
  · exact Or.inl ⟨writes, yields.bind _ (Engine.Yields.done _ _) (List.append_nil _), left⟩
  · exact Or.inr ⟨⟨writes, yields.bind _ (Engine.Yields.done _ _) (List.append_nil _)⟩, left⟩

theorem Agrees.reply {α : Type} {same : α → α → Prop} {db : State} {outcome : Outcome α}
    {transaction : Prog Stmt (Answer α)} (agrees : Agrees same db outcome transaction)
    {wrap : α → Reply} (wrapped : ∀ value value', same value value' →
      SameReply (wrap value) (wrap value')) :
    Agrees SameReply db (outcome.reply wrap) (replying transaction wrap) := by
  intro reply s' returned range
  obtain ⟨⟨result, state⟩, returned', equal⟩ := Option.map_eq_some_iff.mp returned
  cases equal
  obtain ⟨result', db', serves, alike, mirrors⟩ := agrees result state returned' range
  refine ⟨_, db', serves.replying wrap, ?_, mirrors⟩
  cases result with
  | ok value =>
    cases result' with
    | ok value' => exact wrapped value value' alike
    | error _ => exact alike.elim
  | error error =>
    cases result' with
    | ok _ => exact alike.elim
    | error error' => exact alike

/-- What both ledgers are in between two calls of a script. -/
structure Joined (s db : State) : Prop where
  aligned : Aligned s db
  rooted : s.Rooted
  keys : VoidKeys s
  range : InRange s
  folds : s.Folds ∧ db.Folds

/-- **The simulation of every call.** -/
theorem step_agrees {s db : State} {turn : Turn} (joined : Joined s db)
    (twins : Twins turn.memory turn.postgres) (allowed : turn.Allowed s) :
    Agrees SameReply db (step turn.memory turn.call s) (program (turn.postgres, turn.call)) := by
  obtain ⟨call, amb, amb'⟩ := turn
  obtain ⟨⟨fresh, parent⟩, target, scaled, times, avoids, _⟩ := allowed
  have aligned := joined.aligned
  have equal : ∀ {α : Type} {wrap : α → Reply}, (∀ value, SameReply (wrap value) (wrap value)) →
      ∀ value value', value' = value → SameReply (wrap value) (wrap value') := by
    intro α wrap refl value value' same
    rw [same]
    exact refl value
  cases call with
  | openAccount req =>
    exact (openAccount_agrees aligned twins fresh parent avoids).reply (equal fun _ => rfl)
  | balance account => exact (balance_agrees aligned avoids).reply (equal fun _ => rfl)
  | grant req => exact (grant_agrees aligned twins fresh avoids scaled).reply fun _ _ => id
  | refund req => exact (refund_agrees aligned twins fresh avoids scaled target).reply fun _ _ => id
  | reserve req => exact (reserve_agrees aligned avoids scaled times).reply (equal fun _ => rfl)
  | settle req => exact (settle_agrees aligned twins fresh scaled).reply fun _ _ => id
  | charge req => exact (charge_agrees aligned twins fresh avoids scaled).reply fun _ _ => id
  | reverseCharge req =>
    exact (reverseCharge_agrees aligned twins fresh avoids).reply fun _ _ => id
  | void reservation => exact (void_agrees aligned reservation).reply fun _ _ _ => rfl
  | voidExpiredHolds now => exact (voidExpiredHolds_agrees aligned times).reply (equal fun _ => rfl)
  | extendHold reservation expiresAt =>
    exact (extendHold_agrees aligned reservation times).reply fun _ _ _ => rfl
  | voidRun run =>
    exact (voidRun_agrees aligned twins fresh joined.keys joined.range run).reply
      (equal fun _ => rfl)
  | openLease req =>
    exact (openLease_agrees aligned twins fresh avoids scaled).reply (equal fun _ => rfl)
  | closeLease lease =>
    exact (closeLease_agrees aligned twins fresh avoids).reply (equal fun _ => rfl)
  | entries account => exact (entries_agrees aligned avoids).reply fun _ _ => id

/-! ### The books of the database -/

/-- **Every legal action folds**: the database keeps all balances but the system account's. -/
theorem Legal.folds {focus : Option RunId} {scaled : Prop} {locks : List Lock} {db : State}
    {action : Action} (legal : Legal focus scaled locks db action) (isScaled : scaled)
    (intact : Intact db) (folds : db.Folds) : (Action.store db action).Folds := by
  obtain ⟨action', enabled, same⟩ := legal.enabled intact isScaled
  have abstract : (action.apply db).Folds := same ▸ folds.apply intact.wellFormed enabled
  refine ⟨fun account notSystem => ?_, ?_⟩
  · rw [settled_store intact isScaled legal notSystem, (store_alike legal).entries]
    exact abstract.fold account notSystem
  · rw [(store_alike legal).entries]
    exact abstract.running

theorem serve_folds {db : State} (intact : Intact db) (folds : db.Folds) (amb : Ambient) {call : Call}
    (isScaled : Call.Scaled call) : (serve amb call db).2.Folds := by
  obtain ⟨locks, actions, legals, same, _⟩ := serve_stores intact amb call
  rw [same]
  exact (legals.invariant (P := fun db => Intact db ∧ db.Folds)
    (fun _ _ both legal => ⟨legal.intact both.1, legal.folds isScaled both.1 both.2⟩)
    ⟨intact, folds⟩).2

/-! ### Every script -/

/-- A served transaction. -/
theorem serve_of_serves {amb : Ambient} {call : Call} {db db' : State}
    {result : Except LedgerError Reply} (serves : Serves (program (amb, call)) db result db') :
    serve amb call db = (result, db') := by
  rcases serves with ⟨writes, yields, rfl⟩ | ⟨⟨writes, yields⟩, rfl⟩
  · exact (engine false).runSerial_of_yields yields
  · exact (engine false).runSerial_of_yields yields

theorem InRange.new : InRange State.new where
  settled := by
    intro account row notSystem found
    rw [State.new, Table.get?_set, if_neg notSystem] at found
    cases found
  amount := fun {_ _} found => by cases found
  entries := fun _ member => absurd member List.not_mem_nil

theorem Joined.new : Joined State.new State.new :=
  ⟨⟨.new, .new, .new⟩, .new, .new, .new, .new, .new⟩

/-- **One call of a script**: it returns, both ledgers reply the same, and stay joined. -/
theorem Joined.step {s db : State} (joined : Joined s db) {turn : Turn}
    (twins : Twins turn.memory turn.postgres) (allowed : turn.Allowed s)
    (range : ∀ result ∈ Ledger.step turn.memory turn.call s, InRange result.2) :
    ∃ result, Ledger.step turn.memory turn.call s = some result ∧
      Matches SameReply result.1 (serve turn.postgres turn.call db).1 ∧
      Joined result.2 (serve turn.postgres turn.call db).2 := by
  obtain ⟨reply, s', actions, returned, path, permitted⟩ :=
    step_refines joined.aligned.wf joined.rooted allowed.admissible
  have inRange : InRange s' := range (reply, s') returned
  obtain ⟨reply', db', serves, alike, mirrors⟩ :=
    step_agrees joined twins allowed reply s' returned inRange
  have served := serve_of_serves serves
  have intact := serve_intact joined.aligned.intact turn.postgres turn.call
  have folds := serve_folds joined.aligned.intact joined.folds.2 turn.postgres allowed.scaled
  rw [served] at intact folds ⊢
  have keys : VoidKeys s' := by
    by_cases voids : ∃ run, turn.call = .voidRun run
    · obtain ⟨run, isVoid⟩ := voids
      rw [isVoid] at returned
      obtain ⟨next, result, progress⟩ := voidRun_progress joined.aligned.wf turn.memory run
      rw [Ledger.step, Outcome.reply, result] at returned
      cases returned
      exact joined.keys.voidRun joined.aligned.wf progress
    · exact VoidKeys.path allowed.ownKeys (fun run isVoid => voids ⟨run, isVoid⟩) path permitted
        joined.keys
  have folds' : s'.Folds := (path.invariant (P := fun s => s.WellFormed ∧ s.Folds)
    (fun s action both enabled => ⟨both.1.apply enabled, both.2.apply both.1 enabled⟩)
    ⟨joined.aligned.wf, joined.folds.1⟩).2
  exact ⟨(reply, s'), returned, alike,
    ⟨⟨joined.aligned.wf.path path, intact, mirrors⟩,
      joined.rooted.step joined.aligned.wf allowed.admissible returned, keys, inRange, folds',
      folds⟩⟩

/-- Two ledgers with the same content: balances and held sums of every account but the system
account, holds, and entries as a multiset, whose balances fold in either ledger's own order. -/
structure SameBooks (s db : State) : Prop where
  accounts : ∀ account, account ≠ systemAccount →
    db.accounts.get? account = s.accounts.get? account
  held : ∀ account, db.held account = s.held account
  holds : ∀ reservation, db.holds.get? reservation = s.holds.get? reservation
  entries : (db.entries.map essence).Perm (s.entries.map essence)
  running : RunningBalances s.entries ∧ RunningBalances db.entries

theorem Joined.sameBooks {s db : State} (joined : Joined s db) : SameBooks s db where
  accounts := joined.aligned.mirrors.accounts
  held := joined.aligned.mirrors.held
  holds := fun reservation => by rw [joined.aligned.mirrors.holds]
  entries := joined.aligned.mirrors.entries
  running := ⟨joined.folds.1.running, joined.folds.2.running⟩

/-- Scripts from joined ledgers. -/
theorem Joined.trace {turns : List Turn}
    (twins : ∀ turn ∈ turns, Twins turn.memory turn.postgres) :
    ∀ {s db : State}, Joined s db → Allowed s turns → ∃ trace, memoryTrace s turns = some trace ∧
      List.Forall₂ (fun memory postgres => Matches SameReply memory.1 postgres.1 ∧
        SameBooks memory.2 postgres.2) trace (postgresTrace db turns) := by
  induction turns with
  | nil => exact fun _ _ => ⟨[], rfl, .nil⟩
  | cons turn turns ih =>
    intro s db joined allowed
    obtain ⟨result, returned, alike, joined'⟩ :=
      joined.step (twins turn List.mem_cons_self) allowed.1
        fun result returned => (allowed.2 result returned).1
    obtain ⟨trace, rest, each⟩ := ih (fun later inside => twins later (List.mem_cons_of_mem _ inside))
      joined' (allowed.2 result returned).2
    refine ⟨result :: trace, ?_, .cons ⟨alike, joined'.sameBooks⟩ each⟩
    rw [memoryTrace, returned, Option.bind_some, rest, Option.map_some]

instance (s : State) : Decidable (InRange s) :=
  decidable_of_iff ((∀ row ∈ s.accounts.rows, row.1 ≠ systemAccount → Fits row.2.settled) ∧
      (∀ row ∈ s.holds.rows, Fits row.2.amount) ∧
      ∀ entry ∈ s.entries, Fits entry.deltaCredits ∧ Fits entry.balanceAfter)
    ⟨fun both => ⟨fun {account row} notSystem found =>
        both.1 (account, row) (Table.mem_rows_iff.mpr found) notSystem,
        fun {reservation hold} found =>
          both.2.1 (reservation, hold) (Table.mem_rows_iff.mpr found), both.2.2⟩,
      fun range => ⟨fun _ inside notSystem => range.settled notSystem (Table.mem_rows_iff.mp inside),
        fun _ inside => range.amount (Table.mem_rows_iff.mp inside), range.entries⟩⟩

instance (call : Call) : Decidable (Call.AvoidsSystem call) :=
  match call with
  | .openAccount req => inferInstanceAs (Decidable (req.parentId ≠ some systemAccount))
  | .balance account => inferInstanceAs (Decidable (account ≠ systemAccount))
  | .grant req => inferInstanceAs (Decidable (req.account ≠ systemAccount))
  | .refund req => inferInstanceAs (Decidable (req.account ≠ systemAccount))
  | .reserve req => inferInstanceAs (Decidable (req.account ≠ systemAccount))
  | .charge req => inferInstanceAs (Decidable (req.account ≠ systemAccount))
  | .reverseCharge req => inferInstanceAs (Decidable (req.account ≠ systemAccount))
  | .openLease req => inferInstanceAs (Decidable (req.parent ≠ systemAccount))
  | .closeLease lease => inferInstanceAs (Decidable (lease ≠ systemAccount))
  | .entries account => inferInstanceAs (Decidable (account ≠ systemAccount))
  | .settle _ | .void _ | .voidExpiredHolds _ | .extendHold _ _ | .voidRun _ => isTrue trivial

instance (call : Call) : Decidable (Call.WholeTimes call) :=
  match call with
  | .reserve req => inferInstanceAs (Decidable (∀ instant ∈ req.expiresAt, WholeMicros instant))
  | .voidExpiredHolds now => inferInstanceAs (Decidable (WholeMicros now))
  | .extendHold _ expiresAt => inferInstanceAs (Decidable (WholeMicros expiresAt))
  | .openAccount _ | .balance _ | .grant _ | .refund _ | .settle _ | .charge _ | .reverseCharge _
  | .void _ | .voidRun _ | .openLease _ | .closeLease _ | .entries _ => isTrue trivial

instance (s : State) (call : Call) : Decidable (Call.ReversesExisting s call) :=
  match call with
  | .refund req => inferInstanceAs (Decidable (∀ id ∈ req.reversesEntryId, id ∈ s.entryIds))
  | .openAccount _ | .balance _ | .grant _ | .reserve _ | .settle _ | .charge _ | .reverseCharge _
  | .void _ | .voidExpiredHolds _ | .extendHold _ _ | .voidRun _ | .openLease _ | .closeLease _
  | .entries _ => isTrue trivial

instance (call : Call) : Decidable call.OwnKeys :=
  match call with
  | .grant req => inferInstanceAs (Decidable (∀ key ∈ req.idempotencyKey, ¬ GeneratedKey key))
  | .refund req => inferInstanceAs (Decidable (∀ key ∈ req.idempotencyKey, ¬ GeneratedKey key))
  | .charge req => inferInstanceAs (Decidable (∀ key ∈ req.idempotencyKey, ¬ GeneratedKey key))
  | .reverseCharge req => inferInstanceAs (Decidable (¬ GeneratedKey req.idempotencyKey))
  | .openAccount _ | .balance _ | .reserve _ | .settle _ | .void _ | .voidExpiredHolds _
  | .extendHold _ _ | .voidRun _ | .openLease _ | .closeLease _ | .entries _ => isTrue trivial

instance (turn : Turn) (s : State) : Decidable (turn.Allowed s) :=
  decidable_of_iff (Admissible turn.memory turn.call s ∧ Call.ReversesExisting s turn.call ∧
      Call.Scaled turn.call ∧ Call.WholeTimes turn.call ∧ Call.AvoidsSystem turn.call ∧
      turn.call.OwnKeys)
    ⟨fun ⟨admissible, target, scaled, times, avoids, ownKeys⟩ =>
      ⟨admissible, target, scaled, times, avoids, ownKeys⟩,
      fun allowed => ⟨allowed.admissible, allowed.target, allowed.scaled, allowed.times,
        allowed.avoids, allowed.ownKeys⟩⟩

instance decidableAllowed : (s : State) → (turns : List Turn) → Decidable (Allowed s turns)
  | _, [] => isTrue trivial
  | s, turn :: turns =>
    have : ∀ result : Except LedgerError Reply × State,
        Decidable (InRange result.2 ∧ Allowed result.2 turns) :=
      fun result => @instDecidableAnd _ _ _ (decidableAllowed result.2 turns)
    inferInstanceAs (Decidable (turn.Allowed s ∧ ∀ result ∈ step turn.memory turn.call s,
      InRange result.2 ∧ Allowed result.2 turns))

/-- A lease, a settle, two charges and an expiring hold of run 7, the run voided, and the lease
closed. The database reads its clock later and backwards, and visits the holds in reverse. -/
def sampleTurns : List Turn :=
  [.openAccount ⟨1, .org, false, none⟩, .grant ⟨1, 100, .paid, some "top-up"⟩,
    .openLease ⟨1, 60⟩, .reserve ⟨3, 11, 20, .hard, some 5000, some 7⟩,
    .reserve ⟨3, 12, 60, .hard, none, some 7⟩, .reserve ⟨3, 13, 10, .hard, none, some 7⟩,
    .settle ⟨11, 25⟩, .charge ⟨3, 4, some 7, some "first"⟩, .charge ⟨3, 6, some 7, none⟩,
    .grant ⟨1, 5, .paid, some "top-up"⟩, .voidRun 7, .closeLease 3].zipIdx.map fun call =>
      ⟨call.1, numbered call.2, { numbered call.2 with
        now := fun _ => 1000000 - 1234 * call.2
        iterate := List.reverse
        iterate_perm := List.reverse_perm }⟩

end Meter.Postgres
