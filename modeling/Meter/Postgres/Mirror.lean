/-
**When a database mirrors the in-memory ledger.**

The two ledgers are compared up to what they cannot share: clock readings, the system account's
balance (which the database does not keep), and the order of the refunds inside one run void, which
shows in `balance_after`. `essence` is an entry without these, `Mirrors` the relation.

* `Mirrors.findKeyed`, `Mirrors.remainder`, `Mirrors.held`, ... — what the operations read is the same
  on both sides.
* `Mirrors.post`, `Mirrors.transfer`, `Mirrors.openAccount`, `Mirrors.rewriteHolds` — and so is what
  they write.
-/

import Meter.Postgres.Serial

namespace Meter.Postgres

open Meter.Lib Meter.Ledger

/-! ### Entries up to clocks and the order inside a run void -/

/-- An entry without its clock reading, and without its `balance_after` if a run void posted it. -/
def essence (entry : LedgerEntry) : LedgerEntry :=
  { entry with
    createdAt := 0
    balanceAfter :=
      if entry.idempotencyKey.any fun key => GeneratedKey key then 0 else entry.balanceAfter }

@[simp] theorem essence_id (entry : LedgerEntry) : (essence entry).id = entry.id := rfl
@[simp] theorem essence_accountId (entry : LedgerEntry) :
    (essence entry).accountId = entry.accountId := rfl
@[simp] theorem essence_pairedAccountId (entry : LedgerEntry) :
    (essence entry).pairedAccountId = entry.pairedAccountId := rfl
@[simp] theorem essence_entryType (entry : LedgerEntry) :
    (essence entry).entryType = entry.entryType := rfl
@[simp] theorem essence_deltaCredits (entry : LedgerEntry) :
    (essence entry).deltaCredits = entry.deltaCredits := rfl
@[simp] theorem essence_reversesEntryId (entry : LedgerEntry) :
    (essence entry).reversesEntryId = entry.reversesEntryId := rfl
@[simp] theorem essence_runId (entry : LedgerEntry) : (essence entry).runId = entry.runId := rfl
@[simp] theorem essence_idempotencyKey (entry : LedgerEntry) :
    (essence entry).idempotencyKey = entry.idempotencyKey := rfl

section Essence

variable {first second : List LedgerEntry}

/-- What does not depend on clocks and balances is the same on both sides. -/
theorem map_perm_of_essence {β : Type} (perm : (first.map essence).Perm (second.map essence))
    (read : LedgerEntry → β) (through : ∀ entry, read (essence entry) = read entry) :
    (first.map read).Perm (second.map read) := by
  have mapped := perm.map read
  rw [List.map_map, List.map_map] at mapped
  have same : read ∘ essence = read := funext through
  rwa [same] at mapped

/-- The same for a selection of the entries. -/
theorem filter_perm_of_essence (perm : (first.map essence).Perm (second.map essence))
    (keep : LedgerEntry → Bool) (through : ∀ entry, keep (essence entry) = keep entry) :
    ((first.filter keep).map essence).Perm ((second.filter keep).map essence) := by
  have filtered := perm.filter keep
  rw [List.filter_map, List.filter_map] at filtered
  have same : keep ∘ essence = keep := funext through
  rwa [same] at filtered

/-- An entry of one side is on the other. -/
theorem mem_of_essence (perm : (first.map essence).Perm (second.map essence)) {entry : LedgerEntry}
    (member : entry ∈ second) : ∃ other ∈ first, essence other = essence entry :=
  List.mem_map.mp (perm.mem_iff.mpr (List.mem_map_of_mem member))

/-- **The one entry with a property is found on both sides.** -/
theorem find?_of_essence (perm : (first.map essence).Perm (second.map essence))
    (keep : LedgerEntry → Bool) (through : ∀ entry, keep (essence entry) = keep entry)
    (unique : ∀ entry ∈ first, ∀ other ∈ first, keep entry = true → keep other = true →
      entry = other) :
    (first.find? keep).map essence = (second.find? keep).map essence := by
  cases found : second.find? keep with
  | none =>
    have absent : first.find? keep = none := by
      refine List.find?_eq_none.mpr fun entry member kept => ?_
      obtain ⟨other, inside, same⟩ := mem_of_essence perm.symm member
      refine List.find?_eq_none.mp found other inside ?_
      rwa [← through other, same, through entry]
    rw [absent]
  | some other =>
    obtain ⟨entry, inside, same⟩ := mem_of_essence perm (List.mem_of_find?_eq_some found)
    have kept : keep entry = true := by
      rw [← through entry, same, through other]
      exact List.find?_some found
    have present : (first.find? keep).isSome := by
      rw [List.find?_isSome]
      exact ⟨entry, inside, kept⟩
    obtain ⟨chosen, foundFirst⟩ := Option.isSome_iff_exists.mp present
    have equal : chosen = entry := unique chosen (List.mem_of_find?_eq_some foundFirst) entry inside
      (List.find?_some foundFirst) kept
    rw [foundFirst, Option.map_some, Option.map_some, equal, same]

end Essence

/-! ### The relation -/

/-- A database that mirrors the in-memory ledger, whose accounts other than the system account are
all that is traded with. -/
structure Mirrors (s db : State) : Prop where
  holds : db.holds = s.holds
  accounts : ∀ account, account ≠ systemAccount →
    db.accounts.get? account = s.accounts.get? account
  system : s.accounts.contains systemAccount = true ∧ db.accounts.contains systemAccount = true
  entries : (db.entries.map essence).Perm (s.entries.map essence)
  parents : ∀ {account row}, s.accounts.get? account = some row →
    row.account.parentId ≠ some systemAccount
  holders : ∀ {reservation hold}, s.holds.get? reservation = some hold →
    hold.account ≠ systemAccount
  owners : ∀ entry ∈ s.entries, entry.accountId ≠ systemAccount

theorem Mirrors.new : Mirrors State.new State.new where
  holds := rfl
  accounts := fun _ _ => rfl
  system := ⟨rfl, rfl⟩
  entries := List.Perm.refl _
  parents := by
    intro account row found
    rw [State.new, Table.get?_set] at found
    split at found
    · cases found
      exact fun none => by cases none
    · cases found
  holders := fun {_ _} found => by cases found
  owners := fun _ member => absurd member List.not_mem_nil

namespace Mirrors

variable {s db : State}

/-! ### What is read is the same -/

theorem contains (mirrors : Mirrors s db) (account : AccountId) :
    db.accounts.contains account = s.accounts.contains account := by
  by_cases system : account = systemAccount
  · rw [system, mirrors.system.1, mirrors.system.2]
  · rw [Table.contains, Table.contains, mirrors.accounts account system]

theorem mem_entryIds (mirrors : Mirrors s db) {id : EntryId} :
    id ∈ db.entryIds ↔ id ∈ s.entryIds :=
  (map_perm_of_essence mirrors.entries LedgerEntry.id fun _ => rfl).mem_iff

theorem held (mirrors : Mirrors s db) (account : AccountId) : db.held account = s.held account := by
  rw [State.held, State.held, mirrors.holds]

theorem find?_id (mirrors : Mirrors s db) (distinct : db.entryIds.Nodup) (id : EntryId) :
    (db.entries.find? fun entry => entry.id = id).map essence =
      (s.entries.find? fun entry => entry.id = id).map essence := by
  refine find?_of_essence mirrors.entries _ (fun _ => rfl) fun entry inside other inside' => ?_
  intro same same'
  exact List.inj_on_of_nodup_map distinct inside inside'
    ((of_decide_eq_true same).trans (of_decide_eq_true same').symm)

/-- **A used key is answered alike.** -/
theorem findKeyed (mirrors : Mirrors s db) (intact : Intact db) (account : AccountId) (key : String) :
    (db.findKeyed account key).map essence = (s.findKeyed account key).map essence := by
  refine find?_of_essence mirrors.entries _ (fun _ => rfl) fun entry inside other inside' => ?_
  intro same same'
  obtain ⟨own, keyed⟩ := of_decide_eq_true same
  obtain ⟨own', keyed'⟩ := of_decide_eq_true same'
  refine intact.keys entry inside other inside' (own.trans own'.symm) (keyed.trans keyed'.symm) ?_
  rw [keyed]
  exact Option.some_ne_none key

theorem reversed (mirrors : Mirrors s db) (id : EntryId) : db.reversed id = s.reversed id := by
  have perm := filter_perm_of_essence mirrors.entries
    (fun entry => entry.reversesEntryId = some id) fun _ => rfl
  exact (map_perm_of_essence perm LedgerEntry.deltaCredits fun _ => rfl).sum_eq

/-- **What is left of an entry is the same.** -/
theorem remainder (mirrors : Mirrors s db) (distinct : db.entryIds.Nodup) (id : EntryId) :
    db.unreversedRemainder id = s.unreversedRemainder id := by
  have charged : db.charged id = s.charged id := by
    have found := congrArg (Option.elim · 0 LedgerEntry.deltaCredits)
      (mirrors.find?_id distinct id)
    simp only [Option.elim_map] at found
    exact found
  rw [State.unreversedRemainder, State.unreversedRemainder, charged, mirrors.reversed]

/-! ### What is written is the same -/

/-- A change of the holds on both sides, which leaves their accounts alone. -/
theorem rewriteHolds (mirrors : Mirrors s db) {holds : Table ReservationId Hold}
    (holders : ∀ {reservation hold}, holds.get? reservation = some hold →
      hold.account ≠ systemAccount) :
    Mirrors { s with holds } { db with holds } :=
  { mirrors with holds := rfl, holders }

/-- A new hold on both sides. -/
theorem placeHold (mirrors : Mirrors s db) (reservation : ReservationId) {hold : Hold}
    (notSystem : hold.account ≠ systemAccount) :
    Mirrors { s with holds := s.holds.set reservation hold }
      (after db [.insertHold reservation hold]) := by
  show Mirrors _ { db with holds := db.holds.set reservation hold }
  rw [mirrors.holds]
  refine mirrors.rewriteHolds fun {other stored} found => ?_
  rw [Table.get?_set] at found
  split at found
  · cases found
    exact notSystem
  · exact mirrors.holders found

/-- The same rewriting of holds on both sides. -/
theorem mapHolds (mirrors : Mirrors s db) {change : ReservationId → Hold → Hold}
    (same : ∀ reservation hold, (change reservation hold).account = hold.account) :
    Mirrors { s with holds := s.holds.mapValues change }
      { db with holds := db.holds.mapValues change } := by
  rw [mirrors.holds]
  refine mirrors.rewriteHolds fun {reservation hold} found => ?_
  rw [Table.get?_mapValues] at found
  obtain ⟨old, foundOld, rfl⟩ := Option.map_eq_some_iff.mp found
  rw [same]
  exact mirrors.holders foundOld

/-- The same rewriting of one hold on both sides. -/
theorem modifyHold (mirrors : Mirrors s db) (reservation : ReservationId) {change : Hold → Hold}
    (same : ∀ hold, (change hold).account = hold.account) :
    Mirrors { s with holds := s.holds.modify reservation change }
      { db with holds := db.holds.modify reservation change } := by
  refine mirrors.mapHolds fun other hold => ?_
  split
  · exact same hold
  · rfl

/-- **A posting on both sides.** -/
theorem post (mirrors : Mirrors s db) {entry entry' : LedgerEntry}
    (same : essence entry' = essence entry) (notSystem : entry.accountId ≠ systemAccount)
    (balance : entry.balanceAfter = s.settled entry.accountId + entry.deltaCredits) :
    Mirrors ((s.pay systemAccount entry.accountId entry.deltaCredits).record entry)
      (after db [.setSettled entry.accountId entry.balanceAfter, .insertEntry entry']) where
  holds := mirrors.holds
  accounts := by
    intro account other
    show (db.accounts.modify entry.accountId _).get? account = _
    rw [Table.get?_modify, State.record_accounts, State.get?_pay]
    split
    · rename_i own
      rw [own, mirrors.accounts _ notSystem]
      cases found : s.accounts.get? entry.accountId with
      | none => rfl
      | some row =>
        rw [State.settled_of_get found] at balance
        rw [Option.map_some, Option.map_some, balance, flow_payee notSystem]
        rfl
    · rename_i different
      rw [mirrors.accounts account other]
      cases s.accounts.get? account with
      | none => rfl
      | some row => rw [Option.map_some, flow_other other different, AccountRow.add_eq_self]
  system := ⟨(State.contains_pay ..).trans mirrors.system.1,
    (Table.contains_mapValues _ _ _).trans mirrors.system.2⟩
  entries := by
    show ((db.entries ++ [entry']).map essence).Perm ((s.entries ++ [entry]).map essence)
    rw [List.map_append, List.map_append, List.map_singleton, List.map_singleton, same]
    exact mirrors.entries.append_right _
  parents := by
    intro account row found
    rw [State.record_accounts, State.get?_pay] at found
    obtain ⟨old, foundOld, rfl⟩ := Option.map_eq_some_iff.mp found
    have before := mirrors.parents foundOld
    exact before
  holders := mirrors.holders
  owners := by
    intro other member
    rcases List.mem_append.mp member with old | new
    · exact mirrors.owners other old
    · rw [List.mem_singleton.mp new]
      exact notSystem

/-- **A transfer on both sides.** -/
theorem transfer (mirrors : Mirrors s db) {out out' into into' : LedgerEntry}
    (sameOut : essence out' = essence out) (sameInto : essence into' = essence into)
    (notSystem : out.accountId ≠ systemAccount ∧ into.accountId ≠ systemAccount)
    (different : into.accountId ≠ out.accountId) (opposite : out.deltaCredits = -into.deltaCredits)
    (balances : out.balanceAfter = s.settled out.accountId + out.deltaCredits ∧
      into.balanceAfter = s.settled into.accountId + into.deltaCredits) :
    Mirrors (((s.pay out.accountId into.accountId into.deltaCredits).record out).record into)
      (after db [.setSettled out.accountId out.balanceAfter,
        .setSettled into.accountId into.balanceAfter, .insertEntry out', .insertEntry into']) where
  holds := mirrors.holds
  accounts := by
    intro account other
    simp only [after, List.foldl_cons, List.foldl_nil, Write.apply]
    rw [Table.get?_modify, Table.get?_modify, Table.get?_modify, if_neg different,
      State.record_accounts, State.record_accounts, State.get?_pay]
    by_cases payee : account = into.accountId
    · rw [if_pos payee, payee, mirrors.accounts _ notSystem.2]
      cases found : s.accounts.get? into.accountId with
      | none => rfl
      | some row =>
        rw [Option.map_some, Option.map_some, balances.2, State.settled_of_get found,
          flow_payee different]
        rfl
    · rw [if_neg payee]
      by_cases payer : account = out.accountId
      · rw [if_pos payer, payer, mirrors.accounts _ notSystem.1]
        cases found : s.accounts.get? out.accountId with
        | none => rfl
        | some row =>
          rw [Option.map_some, Option.map_some, balances.1, State.settled_of_get found,
            flow_payer different, opposite]
          rfl
      · rw [if_neg payer, mirrors.accounts account other]
        cases s.accounts.get? account with
        | none => rfl
        | some row => rw [Option.map_some, flow_other payer payee, AccountRow.add_eq_self]
  system := by
    refine ⟨(State.contains_pay ..).trans mirrors.system.1, ?_⟩
    refine (Table.contains_mapValues _ _ _).trans ?_
    exact (Table.contains_mapValues _ _ _).trans mirrors.system.2
  entries := by
    show ((db.entries ++ [out'] ++ [into']).map essence).Perm
      ((s.entries ++ [out] ++ [into]).map essence)
    simp only [List.map_append, List.map_singleton, sameOut, sameInto]
    exact (mirrors.entries.append_right _).append_right _
  parents := by
    intro account row found
    rw [State.record_accounts, State.record_accounts, State.get?_pay] at found
    obtain ⟨old, foundOld, rfl⟩ := Option.map_eq_some_iff.mp found
    have before := mirrors.parents foundOld
    exact before
  holders := mirrors.holders
  owners := by
    intro other member
    rcases List.mem_append.mp member with earlier | last
    · rcases List.mem_append.mp earlier with old | first
      · exact mirrors.owners other old
      · rw [List.mem_singleton.mp first]
        exact notSystem.1
    · rw [List.mem_singleton.mp last]
      exact notSystem.2

/-- **A new account on both sides.** -/
theorem openAccount (mirrors : Mirrors s db) {account : LedgerAccount}
    (notSystem : account.id ≠ systemAccount) (parent : account.parentId ≠ some systemAccount) :
    Mirrors { s with accounts := s.accounts.set account.id (AccountRow.new account) }
      (after db [.insertAccount account]) where
  holds := mirrors.holds
  accounts := by
    intro other notSystem
    show (db.accounts.set account.id (AccountRow.new account)).get? other = _
    rw [Table.get?_set, Table.get?_set, mirrors.accounts other notSystem]
  system := by
    have still : ∀ {accounts : Table AccountId AccountRow},
        accounts.contains systemAccount = true →
        (accounts.set account.id (AccountRow.new account)).contains systemAccount = true := by
      intro accounts present
      rw [Table.contains, Table.get?_set, if_neg notSystem.symm]
      exact present
    exact ⟨still mirrors.system.1, still mirrors.system.2⟩
  entries := mirrors.entries
  parents := by
    intro other row found
    rw [Table.get?_set] at found
    split at found
    · cases found
      exact parent
    · exact mirrors.parents found
  holders := mirrors.holders
  owners := mirrors.owners

end Mirrors

/-! ### The range of the columns -/

/-- Every amount of the in-memory ledger fits a `numeric(30, 5)` column. The system account's balance
is not stored. -/
structure InRange (s : State) : Prop where
  settled : ∀ {account row}, account ≠ systemAccount → s.accounts.get? account = some row →
    Fits row.settled
  amount : ∀ {reservation hold}, s.holds.get? reservation = some hold → Fits hold.amount
  entries : ∀ entry ∈ s.entries, Fits entry.deltaCredits ∧ Fits entry.balanceAfter

end Meter.Postgres
