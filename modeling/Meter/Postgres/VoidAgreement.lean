/-
**Both ledgers void a run alike.**

The two ledgers visit a run's holds in orders of their own, and its charges in posting order or by
clock. Each of them is nevertheless where `VoidProgress` says, after some releases and some refunds:
the in-memory one with the system account as counterpart, the database without (`credited`). Since
the refunds are the same up to order, so is what they add up to.

* `Voidable` — what the refunds of a run void need so that every insert goes through: their keys are
  unused, their minted ids new, and every balance on the way lies between the first and the last.
* `voidRun_agrees` — **the simulation of `void_run`.**
-/

import Meter.Ledger.VoidKeys
import Meter.Postgres.Agreement

namespace Meter.Postgres

open Meter.Lib Meter.Ledger

/-- What a refund adds to an account of the database: the counterpart is not kept. -/
def credited (payee : AccountId) (amount : Credit) (account : AccountId) : Credit :=
  if account = payee then amount else 0

/-- An environment whose clock counts microseconds. -/
def micros (amb : Ambient) : Ambient := { amb with now := fun mint => nowMicros (amb.now mint) }

/-- What the refunds of a run void need so that every insert goes through. -/
structure Voidable (amb : Ambient) (db : State) (refunds : List RunRefund) : Prop where
  valid : ∀ refund ∈ refunds, refund.Valid db
  distinct : (refunds.map Prod.fst).Nodup
  keys : ∀ first ∈ refunds, ∀ second ∈ refunds,
    first.2.idempotencyKey = second.2.idempotencyKey → first.1 = second.1
  unused : ∀ refund ∈ db.due refunds, ∀ entry ∈ db.entries,
    entry.idempotencyKey ≠ refund.2.idempotencyKey
  system : db.accounts.contains systemAccount = true
  fresh : ∀ id ∈ db.entryIds, amb.entryId (.reversal id) ∉ db.entryIds
  minted : ∀ first ∈ db.entryIds, ∀ second ∈ db.entryIds,
    amb.entryId (.reversal first) = amb.entryId (.reversal second) → first = second
  delta : ∀ refund ∈ db.due refunds, Storable (db.unreversedRemainder refund.1)
  balance : ∀ refund ∈ refunds, ∀ row, db.accounts.get? refund.2.accountId = some row →
    Storable row.settled ∧
      Fits (row.settled + db.refunded credited refunds refund.2.accountId)

section Refund

variable {amb : Ambient} {db : State} {all refunds rest : List RunRefund} {refund : RunRefund}
  {released : List ReservationId} {now : State} {summary : RunVoidSummary}

/-- What is owed is never negative, and has five decimals. -/
theorem Voidable.owed (voidable : Voidable amb db all) (member : refund ∈ all) :
    Exact (db.owed refund.1) := by
  by_cases positive : 0 < db.unreversedRemainder refund.1
  · rw [State.owed_of_pos positive]
    exact (voidable.delta refund (List.mem_filter.mpr ⟨member, decide_eq_true positive⟩)).1
  · rw [State.owed_of_nonpos positive]
    exact .zero

theorem refunded_nonneg (db : State) (refunds : List RunRefund) (account : AccountId) :
    0 ≤ db.refunded credited refunds account := by
  refine List.sum_nonneg fun amount member => ?_
  obtain ⟨refund, _, rfl⟩ := List.mem_map.mp member
  rw [credited]
  split
  · exact le_max_left _ _
  · exact le_rfl

theorem refunded_append (db : State) (first second : List RunRefund) (account : AccountId) :
    db.refunded credited (first ++ second) account =
      db.refunded credited first account + db.refunded credited second account := by
  rw [State.refunded, List.map_append, List.sum_append]
  rfl

/-- **A balance on the way lies between the first and the last**, so it fits the column. -/
theorem Voidable.storable (voidable : Voidable amb db all) (split : all = refunds ++ refund :: rest)
    {row : AccountRow} (found : db.accounts.get? refund.2.accountId = some row) :
    Storable (row.settled + db.refunded credited (refunds ++ [refund]) refund.2.accountId) := by
  have member : refund ∈ all := by
    rw [split]
    exact List.mem_append_right _ List.mem_cons_self
  obtain ⟨first, last⟩ := voidable.balance refund member row found
  have parts : all = (refunds ++ [refund]) ++ rest := by
    rw [split, List.append_assoc]
    rfl
  rw [parts, refunded_append] at last
  have below := refunded_nonneg db (refunds ++ [refund]) refund.2.accountId
  have above := refunded_nonneg db rest refund.2.accountId
  constructor
  · refine first.1.add (Exact.sum fun amount inside => ?_)
    obtain ⟨other, earlier, rfl⟩ := List.mem_map.mp inside
    rw [credited]
    split
    · refine voidable.owed ?_
      rw [parts]
      exact List.mem_append_left _ earlier
    · exact .zero
  · have low := (abs_lt.mp first.2).1
    have high := (abs_lt.mp last).2
    exact abs_lt.mpr ⟨by linarith, by linarith⟩

/-- The entries that a run void has posted are the refunds due. -/
theorem refund_of_posted {posted : List LedgerEntry}
    (same : posted.map LedgerEntry.unbalanced = (db.due refunds).map (db.refundOf (micros amb)))
    {entry : LedgerEntry} (member : entry ∈ posted) : ∃ refund ∈ refunds,
      entry.id = amb.entryId (.reversal refund.1) ∧
        entry.idempotencyKey = refund.2.idempotencyKey ∧ entry.entryType = refund.2.entryType := by
  have inside := List.mem_map_of_mem (f := LedgerEntry.unbalanced) member
  rw [same] at inside
  obtain ⟨refund, due, equal⟩ := List.mem_map.mp inside
  exact ⟨refund, (List.mem_filter.mp due).1, (congrArg LedgerEntry.id equal).symm,
    (congrArg LedgerEntry.idempotencyKey equal).symm, (congrArg LedgerEntry.entryType equal).symm⟩

/-- What is stored before a void is stored while it runs. -/
theorem mem_of_progress
    (progress : VoidProgress (micros amb) credited db released refunds (now, summary)) :
    ∀ id ∈ db.entryIds, id ∈ now.entryIds := by
  obtain ⟨posted, entries, _⟩ := progress.entries
  intro id inside
  rw [State.entryIds, entries, List.map_append]
  exact List.mem_append_left _ inside

theorem Voidable.different (voidable : Voidable amb db all)
    (split : all = refunds ++ refund :: rest) : ∀ other ∈ refunds, other.1 ≠ refund.1 := by
  have distinct := voidable.distinct
  rw [split, List.map_append, List.map_cons, List.nodup_append] at distinct
  exact fun other inside same =>
    distinct.2.2 other.1 (List.mem_map_of_mem inside) refund.1 List.mem_cons_self same

/-- The refunds before it have left the next charge alone. -/
theorem Voidable.untouched (voidable : Voidable amb db all)
    (split : all = refunds ++ refund :: rest)
    (progress : VoidProgress (micros amb) credited db released refunds (now, summary)) :
    now.unreversedRemainder refund.1 = db.unreversedRemainder refund.1 := by
  have parts := voidable.distinct
  rw [split, List.map_append, List.nodup_append] at parts
  have valid : ∀ other ∈ refunds ++ refund :: rest, other.Valid db :=
    split ▸ voidable.valid
  have remainder := progress.remainder
    (fun other inside => valid other (List.mem_append_left _ inside)) parts.1
    (valid refund (List.mem_append_right _ List.mem_cons_self)).known
  rw [if_neg, sub_zero] at remainder
  · exact remainder
  · intro inside
    obtain ⟨other, otherIn, same⟩ := List.mem_map.mp inside
    exact voidable.different split other otherIn same

/-- The balance after a refund. -/
theorem settled_refunded (positive : 0 < db.unreversedRemainder refund.1) (row : AccountRow) :
    (row.add (db.refunded credited refunds refund.2.accountId)).settled +
        db.unreversedRemainder refund.1 =
      row.settled + db.refunded credited (refunds ++ [refund]) refund.2.accountId := by
  rw [refunded_append, ← add_assoc]
  refine congrArg (row.settled + db.refunded credited refunds refund.2.accountId + ·) ?_
  rw [State.refunded, List.map_singleton, List.sum_singleton, credited, if_pos rfl,
    State.owed_of_pos positive]

/-- **The entry of a refund can be inserted**: its id and its key are new, and it fits the columns. -/
theorem Voidable.insertable (voidable : Voidable amb db all)
    (split : all = refunds ++ refund :: rest)
    (progress : VoidProgress (micros amb) credited db released refunds (now, summary))
    (positive : 0 < db.unreversedRemainder refund.1) {row : AccountRow}
    (found : db.accounts.get? refund.2.accountId = some row) :
    Insertable now (postingEntry refund.2 amb (.reversal refund.1) (db.unreversedRemainder refund.1)
      ((row.add (db.refunded credited refunds refund.2.accountId)).settled +
        db.unreversedRemainder refund.1)) := by
  have member : refund ∈ all := by
    rw [split]
    exact List.mem_append_right _ List.mem_cons_self
  have earlier : ∀ other ∈ refunds, other ∈ all := fun other inside => by
    rw [split]
    exact List.mem_append_left _ inside
  have own := voidable.valid refund member
  have due : refund ∈ db.due all := List.mem_filter.mpr ⟨member, decide_eq_true positive⟩
  have different := voidable.different split
  obtain ⟨posted, entries, same⟩ := progress.entries
  refine ⟨voidable.delta refund due, ?_, ?_, ?_, ?_, ?_, ?_⟩
  · show Storable ((row.add (db.refunded credited refunds refund.2.accountId)).settled + _)
    rw [settled_refunded positive]
    exact voidable.storable split found
  · intro stored
    rw [State.entryIds, entries, List.map_append, List.mem_append] at stored
    rcases stored with old | new
    · exact voidable.fresh _ own.known old
    · obtain ⟨entry, inside, isEntry⟩ := List.mem_map.mp new
      obtain ⟨other, otherIn, minted, _⟩ := refund_of_posted same inside
      refine different other otherIn (voidable.minted _ ?_ _ own.known (minted ▸ isEntry))
      exact (voidable.valid other (earlier other otherIn)).known
  · intro key isKey
    refine List.find?_eq_none.mpr fun entry stored => ?_
    rw [decide_eq_true_eq]
    rintro ⟨_, keyed⟩
    have sameKey : entry.idempotencyKey = refund.2.idempotencyKey := keyed.trans isKey.symm
    rw [entries, List.mem_append] at stored
    rcases stored with old | new
    · exact voidable.unused refund due entry old sameKey
    · obtain ⟨other, otherIn, _, otherKey, _⟩ := refund_of_posted same new
      exact different other otherIn
        (voidable.keys other (earlier other otherIn) refund member (otherKey.symm.trans sameKey))
  · exact (progress.contains _).trans own.present
  · exact (progress.contains _).trans voidable.system
  · intro id link
    rw [show (postingEntry refund.2 amb (.reversal refund.1) _ _).reversesEntryId =
      refund.2.reversesEntryId from rfl, own.links, Option.some.injEq] at link
    exact link ▸ mem_of_progress progress _ own.known

/-- Setting one balance credits one account. -/
theorem accounts_setSettled {account : AccountId} {row : AccountRow} {amount : Credit}
    (found : now.accounts.get? account = some row) (entry : LedgerEntry) :
    (after now [.setSettled account (row.settled + amount), .insertEntry entry]).accounts =
      now.accounts.mapValues fun other row => row.add (credited account amount other) := by
  show (now.accounts.modify account fun row' => { row' with settled := row.settled + amount }) = _
  refine Table.mapValues_congr fun other row' foundRow => ?_
  by_cases payee : other = account
  · subst payee
    rw [found, Option.some.injEq] at foundRow
    rw [if_pos rfl, credited, if_pos rfl, ← foundRow]
    rfl
  · rw [if_neg payee, credited, if_neg payee, AccountRow.add_eq_self]

/-- **One refund goes through**, and the void goes on. -/
theorem Voidable.goesOn (voidable : Voidable amb db all) (split : all = refunds ++ refund :: rest)
    (progress : VoidProgress (micros amb) credited db released refunds (now, summary)) :
    ∃ writes next, (engine false).Yields (refundRemainder amb refund.1 refund.2 summary) now next.2
        writes ∧ next.1 = after now writes ∧
      VoidProgress (micros amb) credited db released (refunds ++ [refund]) next := by
  have own := voidable.valid refund (by
    rw [split]
    exact List.mem_append_right _ List.mem_cons_self)
  have untouched := voidable.untouched split progress
  have known := mem_of_progress progress _ own.known
  by_cases positive : 0 < db.unreversedRemainder refund.1
  · obtain ⟨row, found⟩ := Table.contains_iff.mp own.present
    let current := row.add (db.refunded credited refunds refund.2.accountId)
    let amount := db.unreversedRemainder refund.1
    let entry := postingEntry refund.2 amb (.reversal refund.1) amount (current.settled + amount)
    have foundNow : now.accounts.get? refund.2.accountId = some current := by
      rw [progress.accounts, Table.get?_mapValues, found, Option.map_some]
    have insertable : Insertable now entry := voidable.insertable split progress positive found
    let writes : List Write :=
      [.setSettled refund.2.accountId (current.settled + amount), .insertEntry entry]
    let summary' : RunVoidSummary := { summary with
      chargesRefunded := summary.chargesRefunded + 1
      creditsRefunded := summary.creditsRefunded + amount }
    refine ⟨writes, (after now writes, summary'), ?_, rfl,
      @VoidProgress.post _ _ _ _ _ _ progress _ positive (after now writes, summary') entry rfl
        (accounts_setSettled foundNow entry) rfl rfl rfl⟩
    refine Engine.Yields.bind _ (yields_unreversedRemainder known) ?_ rfl
    rw [untouched, if_neg (not_le.mpr positive)]
    exact Engine.Yields.bind _ (yields_post foundNow insertable) (Engine.Yields.done _ _)
      (List.append_nil _)
  · refine ⟨[], (now, summary), ?_, rfl, progress.skip (fun payee account => ite_self 0) positive⟩
    refine Engine.Yields.bind _ (yields_unreversedRemainder known) ?_ rfl
    rw [untouched, if_pos (not_lt.mp positive)]
    exact Engine.Yields.done _ _

end Refund

/-! ### The two loops -/

section Loops

variable {amb : Ambient} {db : State} {all : List RunRefund} {run : RunId}

/-- **The loop over the holds.** -/
theorem Voidable.members (voidable : Voidable amb db all) (members : List (ReservationId × Hold))
    (linked : ∀ member ∈ members, member.2.status = .settled →
      ∃ id, member.2.settleEntry = some id) :
    ∀ {released refunds rest now summary}, all = refunds ++ (memberRefunds run members ++ rest) →
      VoidProgress (micros amb) credited db released refunds (now, summary) →
      ∃ writes next, (engine false).Yields (voidMembers amb run members summary) now next.2 writes ∧
        next.1 = after now writes ∧
        VoidProgress (micros amb) credited db (released ++ openMembers members)
          (refunds ++ memberRefunds run members) next := by
  induction members with
  | nil =>
    intro released refunds rest now summary _ progress
    refine ⟨[], (now, summary), Engine.Yields.done _ _, rfl, ?_⟩
    rwa [openMembers, memberRefunds, List.filter_nil, List.map_nil, List.filterMap_nil,
      List.append_nil, List.append_nil]
  | cons member members ih =>
    intro released refunds rest now summary split progress
    have later : ∀ other ∈ members, other.2.status = .settled →
        ∃ id, other.2.settleEntry = some id :=
      fun other inside => linked other (List.mem_cons_of_mem _ inside)
    obtain ⟨reservation, hold⟩ := member
    cases status : hold.status with
    | voided =>
      have refunds' : memberRefunds run ((reservation, hold) :: members) =
          memberRefunds run members := by simp [memberRefunds, status]
      have opened : openMembers ((reservation, hold) :: members) = openMembers members := by
        simp [openMembers, status]
      rw [refunds'] at split ⊢
      rw [opened]
      obtain ⟨writes, next, yields, left, done⟩ := ih later split progress
      refine ⟨writes, next, ?_, left, done⟩
      rw [voidMembers, voidMember, status]
      exact yields
    | «open» =>
      have refunds' : memberRefunds run ((reservation, hold) :: members) =
          memberRefunds run members := by simp [memberRefunds, status]
      have opened : openMembers ((reservation, hold) :: members) =
          [reservation] ++ openMembers members := by simp [openMembers, status]
      rw [refunds'] at split ⊢
      rw [opened, ← List.append_assoc]
      have progress' := @VoidProgress.release _ _ _ _ _ _ progress reservation
        (Write.apply now (.voidHold reservation),
          { summary with holdsReleased := summary.holdsReleased + 1 }) rfl rfl rfl rfl
      obtain ⟨writes, next, yields, left, done⟩ := ih later split progress'
      refine ⟨.voidHold reservation :: writes, next, ?_, left, done⟩
      rw [voidMembers, voidMember, status]
      exact Engine.Yields.issue (engine false) rfl yields rfl
    | settled =>
      obtain ⟨id, link⟩ := linked _ List.mem_cons_self status
      have refunds' : memberRefunds run ((reservation, hold) :: members) =
          (id, settleRefund run reservation hold.account id) :: memberRefunds run members := by
        simp [memberRefunds, status, show hold.settleEntry = some id from link]
      have opened : openMembers ((reservation, hold) :: members) = openMembers members := by
        simp [openMembers, status]
      rw [refunds'] at split ⊢
      rw [opened, List.append_cons]
      obtain ⟨first, ⟨state, summary'⟩, yields₁, rfl, progress'⟩ := voidable.goesOn split progress
      rw [List.cons_append, List.append_cons] at split
      obtain ⟨second, next, yields₂, left, done⟩ := ih later split progress'
      refine ⟨first ++ second, next, ?_, left.trans (after_append now first second).symm, done⟩
      rw [voidMembers, voidMember, status]
      refine Engine.Yields.bind (engine false) ?_ yields₂ rfl
      refine Engine.Yields.read (engine false) (?_ : (Stmt.decode hold.settleEntry).exec now =
        .ok (id, [])) yields₁
      rw [show hold.settleEntry = some id from link]
      rfl

/-- **The loop over the direct charges.** -/
theorem Voidable.charges (voidable : Voidable amb db all) {released : List ReservationId}
    (charges : List LedgerEntry) :
    ∀ {refunds now summary}, all = refunds ++ chargeRefunds run charges →
      VoidProgress (micros amb) credited db released refunds (now, summary) →
      ∃ writes next, (engine false).Yields (voidCharges amb run charges summary) now next.2 writes ∧
        next.1 = after now writes ∧ VoidProgress (micros amb) credited db released all next := by
  induction charges with
  | nil =>
    intro refunds now summary split progress
    rw [chargeRefunds, List.map_nil, List.append_nil] at split
    exact ⟨[], (now, summary), Engine.Yields.done _ _, rfl, split ▸ progress⟩
  | cons entry charges ih =>
    intro refunds now summary split progress
    have refunds' : chargeRefunds run (entry :: charges) =
      (entry.id, chargeRefund run entry.accountId entry.id) :: chargeRefunds run charges := rfl
    rw [refunds'] at split
    obtain ⟨first, ⟨state, summary'⟩, yields₁, rfl, progress'⟩ := voidable.goesOn split progress
    rw [List.append_cons] at split
    obtain ⟨second, next, yields₂, left, done⟩ := ih split progress'
    exact ⟨first ++ second, next, Engine.Yields.bind (engine false) yields₁ yields₂ rfl,
      left.trans (after_append now first second).symm, done⟩

/-- Locking the holds of a snapshot that nobody changed. -/
theorem yields_lockRunHolds (rows : List (ReservationId × Hold))
    (stored : ∀ row ∈ rows, db.holds.get? row.1 = some row.2 ∧ row.2.runId = some run) :
    (engine false).Yields (lockRunHolds run rows) db rows [] := by
  induction rows with
  | nil => exact Engine.Yields.done _ _
  | cons row rows ih =>
    obtain ⟨found, tagged⟩ := stored row List.mem_cons_self
    refine Engine.Yields.read (engine false) rfl (Engine.Yields.bind (engine false)
      (ih fun other inside => stored other (List.mem_cons_of_mem _ inside)) ?_ rfl)
    rw [found]
    simp only [if_pos tagged]
    exact Engine.Yields.done _ _

/-- Locking the charges of a snapshot that nobody changed. -/
theorem yields_lockRunCharges (rows : List LedgerEntry)
    (stored : ∀ row ∈ rows, db.entries.find? (fun other => other.id = row.id) = some row ∧
      row.runId = some run ∧ row.entryType = .usage) :
    (engine false).Yields (lockRunCharges run rows) db rows [] := by
  induction rows with
  | nil => exact Engine.Yields.done _ _
  | cons row rows ih =>
    obtain ⟨found, tagged⟩ := stored row List.mem_cons_self
    refine Engine.Yields.read (engine false) rfl (Engine.Yields.bind (engine false)
      (ih fun other inside => stored other (List.mem_cons_of_mem _ inside)) ?_ rfl)
    rw [found]
    simp only [if_pos tagged]
    exact Engine.Yields.done _ _

end Loops

/-! ### The whole call -/

section Void

variable {s db : State} {amb amb' : Ambient} {run : RunId}

/-- The refunds that the database considers, in its own order. -/
def storedRefunds (amb : Ambient) (run : RunId) (db : State) : List RunRefund :=
  memberRefunds run (amb.iterate (db.holds.rows.filter fun row => row.2.runId = some run)) ++
    chargeRefunds run (orderByCreated (runCharges run db))

/-- **A run void alone.** -/
theorem yields_voidRun (intact : Intact db)
    (voidable : Voidable amb' db (storedRefunds amb' run db)) :
    ∃ writes next, (engine false).Yields (voidRun amb' run) db (.commit (.ok next.2)) writes ∧
      next.1 = after db writes ∧ VoidProgress (micros amb') credited db
        (openMembers (amb'.iterate (db.holds.rows.filter fun row => row.2.runId = some run)))
        (storedRefunds amb' run db) next := by
  let rows := db.holds.rows.filter fun row => row.2.runId = some run
  have stored : ∀ row ∈ amb'.iterate rows, db.holds.get? row.1 = some row.2 ∧
      row.2.runId = some run := by
    intro row inside
    obtain ⟨stored, tagged⟩ := List.mem_filter.mp ((amb'.iterate_perm rows).mem_iff.mp inside)
    exact ⟨Table.mem_rows_iff.mp stored, of_decide_eq_true tagged⟩
  have linked : ∀ member ∈ amb'.iterate rows, member.2.status = .settled →
      ∃ id, member.2.settleEntry = some id := fun member inside status =>
    (intact.wellFormed.settledIff (stored member inside).1).mp status
  obtain ⟨first, ⟨middle, summary⟩, yields₁, rfl, progress⟩ := @Voidable.members _ _ _ run
    voidable _ linked [] [] _ db {} rfl (VoidProgress.start (micros amb') credited db)
  rw [List.nil_append, List.nil_append] at progress
  obtain ⟨posted, entries, same⟩ := progress.entries
  have charges : runCharges run (after db first) = runCharges run db := by
    rw [runCharges, runCharges, entries, List.filter_append, List.append_right_eq_self,
      List.filter_eq_nil_iff]
    intro entry member
    obtain ⟨refund, inside, _, _, kind⟩ := refund_of_posted same member
    rw [kind, (voidable.valid refund (List.mem_append_left _ inside)).kind]
    simp
  have locked := @yields_lockRunCharges (after db first) run
    (orderByCreated (runCharges run db)) fun row inside => by
      obtain ⟨old, tagged⟩ := List.mem_filter.mp ((List.perm_insertionSort _ _).mem_iff.mp inside)
      refine ⟨?_, of_decide_eq_true tagged⟩
      rw [entries, List.find?_append, State.find?_id intact.wellFormed.entryIds old]
      rfl
  obtain ⟨second, next, yields₂, left, done⟩ := voidable.charges
    (orderByCreated (runCharges run db)) rfl progress
  refine ⟨first ++ second, next, ?_, left.trans (after_append db first second).symm, done⟩
  refine Engine.Yields.read (engine false) rfl (Engine.Yields.bind (engine false)
    (yields_lockRunHolds _ stored) ?_ rfl)
  refine Engine.Yields.bind (engine false) yields₁ ?_ rfl
  refine Engine.Yields.read (engine false) (?_ : (Stmt.scanRunCharges run).exec (after db first) =
    .ok (orderByCreated (runCharges run db), [])) ?_
  · rw [Stmt.exec, charges]
  · exact Engine.Yields.bind (engine false) locked (Engine.Yields.bind (engine false) yields₂
      (Engine.Yields.done _ _) (List.append_nil _)) rfl

/-- **The two ledgers consider the same refunds**, each in its own order. -/
theorem storedRefunds_perm (mirrors : Mirrors s db) :
    (storedRefunds amb' run db).Perm (runRefunds amb run s) := by
  refine List.Perm.append (List.Perm.filterMap _ ?_) ?_
  · rw [mirrors.holds, runMembers]
    exact (amb'.iterate_perm _).trans ((amb.iterate_perm s.holds.rows).symm.filter _)
  · have charges := filter_perm_of_essence mirrors.entries
      (fun entry => entry.runId = some run ∧ entry.entryType = .usage) fun _ => rfl
    have refunds := map_perm_of_essence charges
      (fun entry => (entry.id, chargeRefund run entry.accountId entry.id)) fun _ => rfl
    exact ((List.perm_insertionSort _ _).map _).trans refunds

theorem openMembers_perm (mirrors : Mirrors s db) :
    (openMembers (amb'.iterate (db.holds.rows.filter fun row => row.2.runId = some run))).Perm
      (openMembers (runMembers amb run s)) := by
  rw [mirrors.holds, runMembers]
  refine List.Perm.map _ (List.Perm.filter _ ?_)
  exact (amb'.iterate_perm _).trans ((amb.iterate_perm s.holds.rows).symm.filter _)

theorem credited_eq_flow {account : AccountId} (notSystem : account ≠ systemAccount)
    (payee : AccountId) (amount : Credit) :
    credited payee amount account = flow systemAccount payee amount account := by
  rw [credited, flow, if_neg notSystem, sub_zero]

/-- **What the refunds add to an account is the same.** -/
theorem refunded_eq_of_mirrors (mirrors : Mirrors s db)
    (remainders : ∀ id, db.unreversedRemainder id = s.unreversedRemainder id)
    {account : AccountId} (notSystem : account ≠ systemAccount) :
    db.refunded credited (storedRefunds amb' run db) account =
      s.refunded (flow systemAccount) (runRefunds amb run s) account := by
  have same : (fun refund : RunRefund => credited refund.2.accountId (db.owed refund.1) account) =
      fun refund => flow systemAccount refund.2.accountId (s.owed refund.1) account := by
    funext refund
    rw [credited_eq_flow notSystem, State.owed, State.owed, remainders]
  rw [State.refunded, State.refunded, same]
  exact ((storedRefunds_perm mirrors).map _).sum_eq

/-- The refunds of the database are due when those in memory are. -/
theorem due_perm_of_mirrors (mirrors : Mirrors s db)
    (remainders : ∀ id, db.unreversedRemainder id = s.unreversedRemainder id) :
    (db.due (storedRefunds amb' run db)).Perm (s.due (runRefunds amb run s)) := by
  have same : db.due = s.due := by
    funext refunds
    simp only [State.due, remainders]
  rw [same]
  exact (storedRefunds_perm mirrors).filter _

/-- **Every refund of the database goes through.** -/
theorem voidable_of_aligned (aligned : Aligned s db) (twins : Twins amb amb') (fresh : amb.Fresh s)
    (keys : VoidKeys s) (range : InRange s) {next : State × RunVoidSummary}
    (progress : VoidProgress amb (flow systemAccount) s (openMembers (runMembers amb run s))
      (runRefunds amb run s) next) (range' : InRange next.1) :
    Voidable amb' db (storedRefunds amb' run db) := by
  have mirrors := aligned.mirrors
  have distinct := aligned.intact.wellFormed.entryIds
  have remainders := mirrors.remainder distinct
  have perm := @storedRefunds_perm s db amb amb' run mirrors
  have considered : ∀ {refund}, refund ∈ storedRefunds amb' run db → refund ∈ runRefunds amb run s :=
    fun inside => perm.mem_iff.mp inside
  have dueBoth : ∀ {refund}, refund ∈ db.due (storedRefunds amb' run db) →
      refund ∈ s.due (runRefunds amb run s) :=
    fun inside => (due_perm_of_mirrors mirrors remainders).mem_iff.mp inside
  have payee : ∀ {refund}, refund ∈ storedRefunds amb' run db →
      refund.2.accountId ≠ systemAccount := by
    intro refund inside
    obtain ⟨_, entry, inRun, _, account⟩ := entry_of_refund aligned.wf (considered inside)
    rw [← account]
    exact mirrors.owners entry (mem_runEntries.mp inRun).1
  refine ⟨fun refund inside => ?_, ?_, fun first firstIn second secondIn same => ?_,
    fun refund due entry stored same => ?_, mirrors.system.2, fun id known => ?_,
    fun first firstIn second secondIn same => ?_, fun refund due => ?_,
    fun refund inside row found => ?_⟩
  · obtain ⟨known, present, links, kind⟩ := (entry_of_refund aligned.wf (considered inside)).1
    exact ⟨mirrors.mem_entryIds.mpr known, (mirrors.contains _).trans present, links, kind⟩
  · exact (perm.map Prod.fst).nodup_iff.mpr (runRefunds_nodup aligned.wf)
  · exact runRefunds_key aligned.wf (considered firstIn) (considered secondIn) same
  · obtain ⟨entry', stored', alike⟩ := mem_of_essence mirrors.entries.symm stored
    obtain ⟨inside, positive⟩ := List.mem_filter.mp (dueBoth due)
    refine keys.unused aligned.wf inside (of_decide_eq_true positive) entry' stored' ?_
    rw [← same, ← essence_idempotencyKey entry', alike, essence_idempotencyKey]
  · rw [twins.entryId, mirrors.mem_entryIds]
    exact fresh.reversal (mirrors.mem_entryIds.mp known)
  · rw [twins.entryId] at same
    exact fresh.reversal_injective (mirrors.mem_entryIds.mp firstIn)
      (mirrors.mem_entryIds.mp secondIn) same
  · obtain ⟨posted, entries, same⟩ := progress.entries
    have inside := (List.mem_filter.mp due).1
    have known := (entry_of_refund aligned.wf (considered inside)).1.known
    refine ⟨aligned.intact.scaled.exact_unreversedRemainder (mirrors.mem_entryIds.mpr known)
      distinct, ?_⟩
    have mapped := List.mem_map_of_mem (f := s.refundOf amb) (dueBoth due)
    rw [← same] at mapped
    obtain ⟨entry, isPosted, equal⟩ := List.mem_map.mp mapped
    have delta : entry.deltaCredits = s.unreversedRemainder refund.1 :=
      congrArg LedgerEntry.deltaCredits equal
    have bound := (range'.entries entry (by
      rw [entries]
      exact List.mem_append_right _ isPosted)).1
    rwa [delta, ← remainders] at bound
  · have notSystem := payee inside
    have stored := (mirrors.accounts _ notSystem).symm.trans found
    refine ⟨⟨aligned.intact.scaled.settled found, range.settled notSystem stored⟩, ?_⟩
    rw [refunded_eq_of_mirrors mirrors remainders notSystem]
    have last : next.1.accounts.get? refund.2.accountId = some (row.add
        (s.refunded (flow systemAccount) (runRefunds amb run s) refund.2.accountId)) := by
      rw [progress.accounts, Table.get?_mapValues, stored, Option.map_some]
    have bound := range'.settled notSystem last
    rwa [AccountRow.add] at bound

/-- A refund of a run void, up to the clock. -/
theorem essence_refundOf (twins : Twins amb amb')
    (remainders : ∀ id, db.unreversedRemainder id = s.unreversedRemainder id) (refund : RunRefund) :
    essence (db.refundOf (micros amb') refund) = essence (s.refundOf amb refund) := by
  simp only [State.refundOf, Posting.entry, essence, micros, twins.entryId, remainders]
  rfl

/-- The balances of a run void's refunds do not matter. -/
theorem map_essence_posted {amb : Ambient} {s : State} {refunds : List RunRefund}
    {posted : List LedgerEntry}
    (generated : ∀ refund ∈ refunds, ∃ key, refund.2.idempotencyKey = some key ∧ GeneratedKey key)
    (same : posted.map LedgerEntry.unbalanced = (s.due refunds).map (s.refundOf amb)) :
    posted.map essence = (s.due refunds).map fun refund => essence (s.refundOf amb refund) := by
  have unbalanced : posted.map essence = (posted.map LedgerEntry.unbalanced).map essence := by
    rw [List.map_map]
    refine List.map_congr_left fun entry member => ?_
    have inside := List.mem_map_of_mem (f := LedgerEntry.unbalanced) member
    rw [same] at inside
    obtain ⟨refund, due, equal⟩ := List.mem_map.mp inside
    obtain ⟨key, own, isGenerated⟩ := generated refund (List.mem_filter.mp due).1
    have keyed : entry.idempotencyKey = some key :=
      (congrArg LedgerEntry.idempotencyKey equal).symm.trans own
    simp only [Function.comp_apply, essence, LedgerEntry.unbalanced, keyed, Option.any_some,
      decide_eq_true isGenerated, if_pos]
  rw [unbalanced, same, List.map_map]
  rfl

/-- **What a run void leaves is the same.** -/
theorem mirrors_of_progress (aligned : Aligned s db) (twins : Twins amb amb')
    {next next' : State × RunVoidSummary}
    (progress : VoidProgress amb (flow systemAccount) s (openMembers (runMembers amb run s))
      (runRefunds amb run s) next)
    (progress' : VoidProgress (micros amb') credited db
      (openMembers (amb'.iterate (db.holds.rows.filter fun row => row.2.runId = some run)))
      (storedRefunds amb' run db) next') : Mirrors next.1 next'.1 := by
  have mirrors := aligned.mirrors
  have remainders := mirrors.remainder aligned.intact.wellFormed.entryIds
  have opened := @openMembers_perm s db amb amb' run mirrors
  have generated : ∀ refund ∈ runRefunds amb run s, ∃ key,
      refund.2.idempotencyKey = some key ∧ GeneratedKey key := by
    intro refund inside
    obtain ⟨target, _, _, voids⟩ := runVoids_of_refund aligned.wf inside
    exact (voids 0).generated
  obtain ⟨posted, entries, same⟩ := progress.entries
  obtain ⟨posted', entries', same'⟩ := progress'.entries
  refine ⟨?_, fun account notSystem => ?_, ⟨?_, ?_⟩, ?_, fun {account row} found => ?_,
    fun {reservation hold} found => ?_, fun entry member => ?_⟩
  · rw [mirrors.holds] at opened
    rw [progress.holds, progress'.holds, mirrors.holds]
    refine Table.mapValues_congr fun reservation hold _ => ?_
    simp only [opened.mem_iff]
  · rw [progress.accounts, progress'.accounts, Table.get?_mapValues, Table.get?_mapValues,
      mirrors.accounts account notSystem, refunded_eq_of_mirrors mirrors remainders notSystem]
  · exact (progress.contains _).trans mirrors.system.1
  · exact (progress'.contains _).trans mirrors.system.2
  · rw [entries, entries', List.map_append, List.map_append]
    refine mirrors.entries.append ?_
    rw [map_essence_posted generated same, map_essence_posted (fun refund inside =>
      generated refund ((storedRefunds_perm mirrors).mem_iff.mp inside)) same']
    have alike : (fun refund => essence (db.refundOf (micros amb') refund)) =
        fun refund => essence (s.refundOf amb refund) := funext (essence_refundOf twins remainders)
    rw [alike]
    exact (due_perm_of_mirrors mirrors remainders).map _
  · rw [progress.accounts, Table.get?_mapValues] at found
    obtain ⟨old, foundOld, rfl⟩ := Option.map_eq_some_iff.mp found
    have before := mirrors.parents foundOld
    exact before
  · rw [progress.holds, Table.get?_mapValues] at found
    obtain ⟨old, foundOld, rfl⟩ := Option.map_eq_some_iff.mp found
    have before := mirrors.holders foundOld
    split
    · exact before
    · exact before
  · rw [entries, List.mem_append] at member
    rcases member with old | new
    · exact mirrors.owners entry old
    · have inside := List.mem_map_of_mem (f := LedgerEntry.unbalanced) new
      rw [same] at inside
      obtain ⟨refund, due, equal⟩ := List.mem_map.mp inside
      obtain ⟨_, target, inRun, _, account⟩ :=
        entry_of_refund aligned.wf (List.mem_filter.mp due).1
      have own : entry.accountId = refund.2.accountId :=
        (congrArg LedgerEntry.accountId equal).symm
      rw [own, ← account]
      exact mirrors.owners target (mem_runEntries.mp inRun).1

/-- **The simulation of `void_run`.** -/
theorem voidRun_agrees (aligned : Aligned s db) (twins : Twins amb amb') (fresh : amb.Fresh s)
    (keys : VoidKeys s) (range : InRange s) (run : RunId) :
    Agrees (fun summary summary' => summary' = summary) db (Ledger.voidRun amb run s)
      (voidRun amb' run) := by
  intro result s' returned range'
  obtain ⟨⟨state, summary⟩, returned', progress⟩ := voidRun_progress aligned.wf amb run
  rw [returned] at returned'
  cases returned'
  have mirrors := aligned.mirrors
  have remainders := mirrors.remainder aligned.intact.wellFormed.entryIds
  obtain ⟨writes, ⟨state', summary'⟩, yields, left, progress'⟩ :=
    yields_voidRun aligned.intact (voidable_of_aligned aligned twins fresh keys range progress range')
  have owed : (fun refund : RunRefund => db.owed refund.1) = fun refund => s.owed refund.1 := by
    funext refund
    rw [State.owed, State.owed, remainders]
  have totals : summary' = summary := by
    refine progress'.summary.trans (Eq.trans ?_ progress.summary.symm)
    rw [State.voidSummary, State.voidSummary, (openMembers_perm mirrors).length_eq,
      (due_perm_of_mirrors mirrors remainders).length_eq, owed,
      ((storedRefunds_perm mirrors).map _).sum_eq]
  exact ⟨.ok summary', state', Or.inl ⟨writes, yields, left⟩, totals,
    mirrors_of_progress aligned twins progress progress'⟩

end Void

end Meter.Postgres
