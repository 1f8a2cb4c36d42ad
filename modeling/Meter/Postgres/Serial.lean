/-
**One transaction alone.**

When nothing runs beside it, a transaction does what its statements say on the database it finds.
`Storable` is a value that a column stores as it is, `Insertable` an entry that no constraint
refuses; with them each statement succeeds (`exec_addSettled_of`, `exec_insertEntry_of`, ...) and
the shared steps have one rule each (`yields_post`, `yields_postTransfer`).

* `serve_stores` — **what a served call leaves** are legal actions on the database it found, so the
  tables stay intact from call to call (`serve_intact`).
-/

import Meter.Postgres.Safety

namespace Meter.Postgres

open Meter.Lib Meter.Ledger

/-! ### Statements that succeed -/

/-- A value within the range of a `numeric(30, 5)` column. -/
def Fits (value : Credit) : Prop := |value| < 10 ^ 25

instance (value : Credit) : Decidable (Fits value) := inferInstanceAs (Decidable (|value| < 10 ^ 25))

/-- A value that a `numeric(30, 5)` column stores as it is. -/
def Storable (value : Credit) : Prop := Exact value ∧ Fits value

theorem numeric_of_storable {value : Credit} (storable : Storable value) :
    numeric value = .ok value := by
  rw [numeric, round5_of_exact storable.1]
  exact if_pos storable.2

/-- An instant of whole microseconds. -/
def WholeMicros (instant : OffsetDateTime) : Prop := instant % 1000 = 0

instance (instant : OffsetDateTime) : Decidable (WholeMicros instant) :=
  inferInstanceAs (Decidable (instant % 1000 = 0))

/-- **A `timestamptz` column keeps whole microseconds as they are.** -/
theorem timestamp_of_wholeMicros {instant : OffsetDateTime} (whole : WholeMicros instant) :
    timestamp instant = instant := by
  have divides : (1000 : Int) ∣ instant - timestampEpoch :=
    Int.dvd_sub (Int.dvd_of_emod_eq_zero whole) ⟨946684800 * 1000000, by decide⟩
  rw [timestamp, Int.tdiv_mul_cancel divides, add_sub_cancel]

/-- An entry that the constraints of the table admit as it is. -/
structure Insertable (db : State) (entry : LedgerEntry) : Prop where
  delta : Storable entry.deltaCredits
  balance : Storable entry.balanceAfter
  fresh : entry.id ∉ db.entryIds
  unused : Unused db entry
  present : db.accounts.contains entry.accountId = true
  paired : db.accounts.contains entry.pairedAccountId = true
  target : ∀ id, entry.reversesEntryId = some id → id ∈ db.entryIds

section

variable {db : State}

theorem exec_addSettled_of {account : AccountId} {row : AccountRow} {amount : Credit}
    (found : db.accounts.get? account = some row) (storable : Storable (row.settled + amount)) :
    (Stmt.addSettled account amount).exec db =
      .ok (row.settled + amount, [.setSettled account (row.settled + amount)]) := by
  simp only [Stmt.exec, found, numeric_of_storable storable]
  rfl

theorem exec_insertEntry_of {entry : LedgerEntry} (insertable : Insertable db entry) :
    (Stmt.insertEntry entry).exec db = .ok ((), [.insertEntry entry]) := by
  have stored : storedEntry entry = .ok entry := by
    rw [storedEntry, numeric_of_storable insertable.delta, numeric_of_storable insertable.balance]
    rfl
  have unused : ¬ (entry.idempotencyKey.any fun key =>
      (db.findKeyed entry.accountId key).isSome) = true := by
    rw [Option.any_eq_true]
    rintro ⟨key, own, used⟩
    rw [insertable.unused key own] at used
    cases used
  have references : ¬ (¬ db.accounts.contains entry.accountId = true ∨
      ¬ db.accounts.contains entry.pairedAccountId = true ∨
      ¬ (entry.reversesEntryId.all fun id => id ∈ db.entries.map LedgerEntry.id) = true) := by
    rw [not_or, not_or, not_not, not_not, not_not, Option.all_eq_true]
    refine ⟨insertable.present, insertable.paired, fun id own => ?_⟩
    exact decide_eq_true (insertable.target id own)
  have fresh : ¬ entry.id ∈ db.entries.map LedgerEntry.id := insertable.fresh
  simp only [Stmt.exec, stored, bind, Except.bind]
  rw [if_neg fresh, if_neg unused, if_neg references]
  rfl

theorem exec_insertAccount_of {account : LedgerAccount}
    (fresh : db.accounts.get? account.id = none)
    (parent : ∀ id, account.parentId = some id → db.accounts.contains id = true) :
    (Stmt.insertAccount account).exec db = .ok ((), [.insertAccount account]) := by
  have absent : ¬ db.accounts.contains account.id = true := by
    rw [Table.contains_eq_false_iff.mpr fresh]
    decide
  have present : ¬ ¬ (account.parentId.all db.accounts.contains) = true :=
    not_not.mpr ((Option.all_eq_true _ _).mpr parent)
  simp only [Stmt.exec]
  rw [if_neg absent, if_neg present]

theorem exec_insertHold_of {reservation : ReservationId} {hold : Hold}
    (storable : Storable hold.amount)
    (whole : ∀ instant, hold.expiresAt = some instant → WholeMicros instant)
    (fresh : db.holds.get? reservation = none)
    (present : db.accounts.contains hold.account = true) :
    (Stmt.insertHold reservation hold).exec db = .ok ((), [.insertHold reservation hold]) := by
  have expiry : hold.expiresAt.map timestamp = hold.expiresAt := by
    cases expires : hold.expiresAt with
    | none => rfl
    | some instant => rw [Option.map_some, timestamp_of_wholeMicros (whole instant expires)]
  have stored : storedHold hold = .ok hold := by
    rw [storedHold, numeric_of_storable storable, expiry]
    rfl
  have absent : ¬ db.holds.contains reservation = true := by
    rw [Table.contains_eq_false_iff.mpr fresh]
    decide
  simp only [Stmt.exec, stored, bind, Except.bind]
  rw [if_neg absent, if_neg (not_not.mpr present)]
  rfl

theorem exec_settleHold_of {reservation : ReservationId} {entry : EntryId}
    (known : entry ∈ db.entryIds) :
    (Stmt.settleHold reservation entry).exec db = .ok ((), [.settleHold reservation entry]) := by
  have present : ¬ entry ∉ db.entries.map LedgerEntry.id := not_not.mpr known
  simp only [Stmt.exec]
  rw [if_neg present]

theorem exec_readEntry_of {id : EntryId} {entry : LedgerEntry}
    (found : db.entries.find? (fun row => row.id = id) = some entry) :
    (Stmt.readEntry id).exec db = .ok (entry, []) := by
  simp only [Stmt.exec, found]

/-! ### The shared steps -/

/-- A balance does not matter to the constraints on entries. -/
theorem Insertable.setSettled {entry : LedgerEntry} (insertable : Insertable db entry)
    (account : AccountId) (settled : Credit) :
    Insertable (Write.apply db (.setSettled account settled)) entry :=
  { insertable with
    present := (Table.contains_mapValues _ _ _).trans insertable.present
    paired := (Table.contains_mapValues _ _ _).trans insertable.paired }

/-- **A posting alone.** -/
theorem yields_post {amb : Ambient} {mint : Mint} {posting : Posting} {delta : Credit}
    {row : AccountRow} (found : db.accounts.get? posting.accountId = some row)
    (insertable : Insertable db (postingEntry posting amb mint delta (row.settled + delta))) :
    (engine false).Yields (post amb mint posting delta) db
      (postingEntry posting amb mint delta (row.settled + delta))
      [.setSettled posting.accountId (row.settled + delta),
        .insertEntry (postingEntry posting amb mint delta (row.settled + delta))] :=
  Engine.Yields.issue _ (exec_addSettled_of found insertable.balance)
    (Engine.Yields.issue _ (exec_insertEntry_of (insertable.setSettled _ _))
      (Engine.Yields.done _ _) rfl) rfl

/-- **A transfer alone.** -/
theorem yields_postTransfer {amb : Ambient} {payer payee : AccountId} {amount : Credit}
    {payerRow payeeRow : AccountRow} (different : payee ≠ payer)
    (payerFound : db.accounts.get? payer = some payerRow)
    (payeeFound : db.accounts.get? payee = some payeeRow)
    (distinct : amb.entryId .transferOut ≠ amb.entryId .transferIn)
    (out : Insertable db
      (transferRow amb .transferOut payer payee (-amount) (payerRow.settled + -amount)))
    (into : Insertable db
      (transferRow amb .transferIn payee payer amount (payeeRow.settled + amount))) :
    (engine false).Yields (postTransfer amb payer payee amount) db ()
      (Action.writes (.transfer
        (transferRow amb .transferOut payer payee (-amount) (payerRow.settled + -amount))
        (transferRow amb .transferIn payee payer amount (payeeRow.settled + amount)))) := by
  have payeeStill : (Write.apply db (.setSettled payer (payerRow.settled + -amount))).accounts.get?
      payee = some payeeRow := by
    rw [Write.apply, Table.get?_modify, if_neg different, payeeFound]
  have second : Insertable (Write.apply (Write.apply (Write.apply db
      (.setSettled payer (payerRow.settled + -amount)))
      (.setSettled payee (payeeRow.settled + amount)))
      (.insertEntry (transferRow amb .transferOut payer payee (-amount)
        (payerRow.settled + -amount))))
      (transferRow amb .transferIn payee payer amount (payeeRow.settled + amount)) := by
    have earlier := (into.setSettled payer (payerRow.settled + -amount)).setSettled payee
      (payeeRow.settled + amount)
    refine { earlier with fresh := fun member => ?_, unused := ?_, target := ?_ }
    · rcases State.mem_entryIds_record.mp member with old | same
      · exact into.fresh old
      · exact distinct same.symm
    · intro key own
      cases own
    · intro id own
      cases own
  exact Engine.Yields.issue _ (exec_addSettled_of payerFound out.balance)
    (Engine.Yields.issue _ (exec_addSettled_of payeeStill into.balance)
      (Engine.Yields.issue _ (exec_insertEntry_of ((out.setSettled _ _).setSettled _ _))
        (Engine.Yields.issue _ (exec_insertEntry_of second) (Engine.Yields.done _ _) rfl) rfl) rfl) rfl

/-- **A remainder alone.** -/
theorem yields_unreversedRemainder {id : EntryId} (known : id ∈ db.entryIds) :
    (engine false).Yields (unreversedRemainder id) db (db.unreversedRemainder id) [] := by
  have present : (db.entries.find? fun entry => entry.id = id).isSome := by
    rw [List.find?_isSome]
    obtain ⟨entry, stored, same⟩ := List.mem_map.mp known
    exact ⟨entry, stored, decide_eq_true same⟩
  obtain ⟨entry, found⟩ := Option.isSome_iff_exists.mp present
  have remainder : db.unreversedRemainder id = -entry.deltaCredits - db.reversed id := by
    rw [State.unreversedRemainder, State.charged, found]
    rfl
  rw [remainder]
  exact Engine.Yields.read _ (exec_readEntry_of found)
    (Engine.Yields.read _ rfl (Engine.Yields.done _ _))

theorem Scaled.exact_unreversedRemainder (isScaled : Scaled db) {id : EntryId}
    (known : id ∈ db.entryIds) (distinct : db.entryIds.Nodup) :
    Exact (db.unreversedRemainder id) := by
  obtain ⟨entry, stored, rfl⟩ := List.mem_map.mp known
  rw [State.unreversedRemainder, State.charged_of_mem distinct stored]
  exact isScaled.exact_remainder entry stored entry.id

/-! ### Whole calls -/

/-- **What a served call leaves** are legal actions, tagged as the call says. -/
theorem serve_stores (intact : Intact db) (amb : Ambient) (call : Call) :
    ∃ locks actions, Legals none (Call.Scaled call) locks db actions ∧
      (serve amb call db).2 = Action.stores db actions ∧ ∀ action ∈ actions, Tagged call action := by
  have nothing : ∃ locks actions, Legals none (Call.Scaled call) locks db actions ∧
      db = Action.stores db actions ∧ ∀ action ∈ actions, Tagged call action :=
    ⟨[], [], trivial, rfl, fun _ member => absurd member List.not_mem_nil⟩
  cases evaluated : (engine false).eval (program (amb, call)) db [] with
  | error error =>
    rw [serve, (engine false).runSerial_of_error evaluated]
    exact nothing
  | ok outcome =>
    obtain ⟨exit, writes⟩ := outcome
    rw [serve, (engine false).runSerial_of_eval evaluated]
    cases exit with
    | rollback reply => exact nothing
    | commit reply =>
      let point : Point State Label := ⟨db, [.began (amb, call)]⟩
      have leads := @leads_program false none point (amb, call) (List.mem_singleton_self _)
      obtain ⟨locks, ends⟩ := (engine false).wp_eval (Rely.refl none) intact leads evaluated
      obtain ⟨actions, rfl, legals, tagged, _⟩ := ends point (Rely.refl none locks point) intact
      exact ⟨locks, actions, legals, rfl, tagged⟩

theorem serve_intact (intact : Intact db) (amb : Ambient) (call : Call) :
    Intact (serve amb call db).2 := by
  obtain ⟨locks, actions, legals, same, _⟩ := serve_stores intact amb call
  rw [same]
  exact legals.intact intact

end

end Meter.Postgres
