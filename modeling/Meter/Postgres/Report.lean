/-
**What the invoice sums** (`crates/meter-store-pg/src/report.rs`).

`periodUsage` adds up the `settle` and `usage` postings of an account over a period. Corrections are
later postings of another type (`refund`), linked to the entry they take back, so the sum does not
see them.

* `billed_eq_net_add_refunds` — over a whole history the invoice is the net spend plus every linked
  refund.
* `Signed` — no refund is negative, in any interleaving, so refunds never cancel out.
* `billed_eq_net_iff` — **billed is enforced exactly while nothing was given back.**
-/

import Meter.Postgres.Safety

namespace Meter.Postgres

open Meter.Lib Meter.Ledger

/-! ### The report -/

/-- Usage summed from the ledger over a period: the basis for an invoice. -/
structure PeriodUsage where
  totalCredits : Credit
  entryCount : Nat
  deriving DecidableEq

/-- A spend posting: a settle, or a direct charge. -/
def IsSpend (entry : LedgerEntry) : Prop := entry.entryType = .settle ∨ entry.entryType = .usage

instance : DecidablePred IsSpend := fun entry =>
  inferInstanceAs (Decidable (entry.entryType = .settle ∨ entry.entryType = .usage))

/-- Total credits consumed by an account in `[start, stop)`. The bounds are bound as `timestamptz`. -/
def periodUsage (db : State) (account : AccountId) (start stop : OffsetDateTime) : PeriodUsage :=
  let rows := db.entries.filter fun entry => entry.accountId = account ∧ IsSpend entry ∧
    timestamp start ≤ entry.createdAt ∧ entry.createdAt < timestamp stop
  { totalCredits := (rows.map fun entry => -entry.deltaCredits).sum, entryCount := rows.length }

/-! ### Net spend -/

/-- The spend postings of an account. -/
def spends (db : State) (account : AccountId) : List LedgerEntry :=
  db.entries.filter fun entry => entry.accountId = account ∧ IsSpend entry

/-- What the account's spend postings were given back. -/
def refunds (db : State) (account : AccountId) : Credit :=
  ((spends db account).map fun entry => db.reversed entry.id).sum

/-- **What the ledger enforced**: the spend postings, less the refunds linked to them. -/
def netSpend (db : State) (account : AccountId) : Credit :=
  -((spends db account).map LedgerEntry.deltaCredits).sum - refunds db account

/-- The period contains the whole history. -/
def Covers (start stop : OffsetDateTime) (db : State) : Prop :=
  ∀ entry ∈ db.entries, timestamp start ≤ entry.createdAt ∧ entry.createdAt < timestamp stop

instance (start stop : OffsetDateTime) (db : State) : Decidable (Covers start stop db) :=
  inferInstanceAs (Decidable (∀ entry ∈ db.entries,
    timestamp start ≤ entry.createdAt ∧ entry.createdAt < timestamp stop))

/-- **Over a whole history the invoice is the net spend and everything that was given back.** -/
theorem billed_eq_net_add_refunds {db : State} {start stop : OffsetDateTime}
    (covers : Covers start stop db) (account : AccountId) :
    (periodUsage db account start stop).totalCredits = netSpend db account + refunds db account := by
  have rows : (db.entries.filter fun entry => entry.accountId = account ∧ IsSpend entry ∧
      timestamp start ≤ entry.createdAt ∧ entry.createdAt < timestamp stop) = spends db account := by
    refine List.filter_congr fun entry member => ?_
    rw [decide_eq_decide, and_iff_left (covers entry member)]
  show ((db.entries.filter _).map fun entry => -entry.deltaCredits).sum = _
  rw [rows, netSpend, sub_add_cancel, List.sum_neg, List.map_map]
  rfl

/-! ### Refunds are not negative -/

/-- Every posting that references another one is not negative. -/
def Signed (db : State) : Prop :=
  ∀ entry ∈ db.entries, entry.reversesEntryId ≠ none → 0 ≤ entry.deltaCredits

theorem Legal.posted_signed {focus : Option RunId} {scaled : Prop} {locks : List Lock} {db : State}
    {action : Action} (legal : Legal focus scaled locks db action) {entry : LedgerEntry}
    (posted : entry ∈ action.posted) (links : entry.reversesEntryId ≠ none) :
    0 ≤ entry.deltaCredits := by
  cases action with
  | credit credited | reverse credited =>
    obtain ⟨amount, positive, stores, _⟩ := legal
    rw [List.mem_singleton.mp posted, stores.delta]
    exact round5_nonneg positive.le
  | charge charged =>
    obtain ⟨_, _, _, _, plain⟩ := legal
    exact absurd plain (List.mem_singleton.mp posted ▸ links)
  | settle reservation settled =>
    obtain ⟨_, _, _, _, plain, _⟩ := legal
    exact absurd plain (List.mem_singleton.mp posted ▸ links)
  | transfer out into =>
    obtain ⟨_, stores⟩ := legal
    rcases List.mem_pair.mp posted with rfl | rfl
    · exact absurd stores.plain.1 links
    · exact absurd stores.plain.2.1 links
  | openAccount _ | place _ _ | release _ | extend _ _ => exact absurd posted List.not_mem_nil

/-- Every legal action posts refunds that are not negative. -/
theorem Signed.store {focus : Option RunId} {scaled : Prop} {locks : List Lock} {db : State}
    {action : Action} (legal : Legal focus scaled locks db action) (signed : Signed db) :
    Signed (Action.store db action) := by
  intro entry member links
  rw [store_entries legal, List.mem_append] at member
  rcases member with old | posted
  · exact signed entry old links
  · exact legal.posted_signed posted links

/-- **In every interleaving refunds are not negative.** -/
theorem signed_of_reaches {shares : Bool}
    {world : World Stmt State Write Lock Label (Except LedgerError Reply)}
    (reaches : (engine shares).Reaches program (fun _ _ => True) State.new world) :
    Signed world.point.db := by
  have keeps : Keeps none (fun _ _ => True) fun point => Intact point.db ∧ Signed point.db := by
    intro point label locks actions before _ _ legals _ _
    exact legals.invariant (P := fun db => Intact db ∧ Signed db) (fun db action kept legal =>
      ⟨legal.intact kept.1, kept.2.store legal⟩) before
  refine (invariant_of_reaches keeps (fun point label _ => ⟨?_, ?_⟩) (fun _ => And.left)
    (fun _ _ => id) ⟨.new, fun _ member => absurd member List.not_mem_nil⟩ reaches).2
  · rintro id resource _ ⟨_, unwatched, _⟩
    cases unwatched
  · rintro ⟨_, _, unwatched, _⟩
    cases unwatched

theorem refunds_eq_zero_iff {db : State} (signed : Signed db) (account : AccountId) :
    refunds db account = 0 ↔
      ∀ entry ∈ spends db account, ∀ refund ∈ db.linked entry.id, refund.deltaCredits = 0 := by
  have linkedNonneg : ∀ id, ∀ value ∈ (db.linked id).map LedgerEntry.deltaCredits, 0 ≤ value := by
    intro id value member
    obtain ⟨refund, linked, rfl⟩ := List.mem_map.mp member
    obtain ⟨inside, link⟩ := List.mem_filter.mp linked
    refine signed refund inside fun plain => ?_
    cases plain.symm.trans (of_decide_eq_true link)
  have reversedNonneg : ∀ value ∈ (spends db account).map fun entry => db.reversed entry.id,
      0 ≤ value := by
    intro value member
    obtain ⟨entry, _, rfl⟩ := List.mem_map.mp member
    exact List.sum_nonneg (linkedNonneg entry.id)
  constructor
  · intro zero entry spent refund linked
    have given : db.reversed entry.id = 0 := List.all_zero_of_le_zero_le_of_sum_eq_zero
      reversedNonneg zero (List.mem_map_of_mem spent)
    exact List.all_zero_of_le_zero_le_of_sum_eq_zero (linkedNonneg entry.id) given
      (List.mem_map_of_mem linked)
  · intro nothing
    refine List.sum_eq_zero (List.forall_mem_map.mpr fun entry spent => ?_)
    exact List.sum_eq_zero (List.forall_mem_map.mpr (nothing entry spent))

/-! ### Enforced and billed -/

/-- **Billed is enforced exactly while nothing was given back.** In every history of ledger calls,
interleaved in any way, and over a period that contains it: the invoice of an account is its net
spend if and only if every refund linked to one of its settle or usage entries is of nothing. -/
theorem billed_eq_net_iff {shares : Bool}
    {world : World Stmt State Write Lock Label (Except LedgerError Reply)}
    (reaches : (engine shares).Reaches program (fun _ _ => True) State.new world)
    {start stop : OffsetDateTime} (covers : Covers start stop world.point.db)
    (account : AccountId) :
    (periodUsage world.point.db account start stop).totalCredits = netSpend world.point.db account ↔
      ∀ entry ∈ spends world.point.db account, ∀ refund ∈ world.point.db.linked entry.id,
        refund.deltaCredits = 0 := by
  rw [← refunds_eq_zero_iff (signed_of_reaches reaches), billed_eq_net_add_refunds covers,
    add_eq_left]

/-- A hold settled at 30 and a charge of 5, and nothing taken back. -/
def uncorrected : List (Engine.Move Label) := [
  serially 0 (.openAccount ⟨1, .user, true, none⟩) 1,
  serially 1 (.grant ⟨1, 100, .paid, none⟩) 3,
  serially 2 (.reserve ⟨1, 11, 60, .hard, none, some 7⟩) 4,
  serially 3 (.settle ⟨11, 30⟩) 4,
  serially 4 (.charge ⟨1, 5, some 7, none⟩) 3].flatten

theorem billed_eq_net_uncorrected :
    ∃ world, (engine true).Reaches program (fun _ _ => True) State.new world ∧
      Covers 0 (10 ^ 18) world.point.db ∧ netSpend world.point.db 1 = 35 ∧
      (periodUsage world.point.db 1 0 (10 ^ 18)).totalCredits = netSpend world.point.db 1 := by
  have followed : ((engine true).followAll program (fun _ _ => true) 1 (Engine.idle State.new)
      uncorrected).any (fun world => Covers 0 (10 ^ 18) world.point.db ∧
        netSpend world.point.db 1 = 35 ∧ ∀ entry ∈ spends world.point.db 1,
          ∀ refund ∈ world.point.db.linked entry.id, refund.deltaCredits = 0) := by decide +kernel
  obtain ⟨world, result, facts⟩ := (Option.any_eq_true _ _).mp followed
  obtain ⟨covers, net, kept⟩ := of_decide_eq_true facts
  have reaches : (engine true).Reaches program (fun _ _ => True) State.new world :=
    Engine.reaches_of_follow (fun _ _ _ => trivial) result
  exact ⟨world, reaches, covers, net, (billed_eq_net_iff reaches covers 1).mpr kept⟩

/-- A charge of 5 in run 7, and the run voided. -/
def voidedRun : List (Engine.Move Label) := [
  serially 0 (.openAccount ⟨1, .user, true, none⟩) 1,
  serially 1 (.grant ⟨1, 100, .paid, none⟩) 3,
  serially 2 (.charge ⟨1, 5, some 7, none⟩) 3,
  serially 3 (.voidRun 7) 7].flatten

/-- The void gives the 5 back, and the invoice still has them. -/
theorem billed_voidedRun :
    ∃ world, (engine true).Reaches program (fun _ _ => True) State.new world ∧
      Covers 0 (10 ^ 18) world.point.db ∧ netSpend world.point.db 1 = 0 ∧
      (periodUsage world.point.db 1 0 (10 ^ 18)).totalCredits = 5 := by
  have followed : ((engine true).followAll program (fun _ _ => true) 1 (Engine.idle State.new)
      voidedRun).any (fun world => Covers 0 (10 ^ 18) world.point.db ∧
        netSpend world.point.db 1 = 0 ∧
        (periodUsage world.point.db 1 0 (10 ^ 18)).totalCredits = 5) := by decide +kernel
  obtain ⟨world, result, facts⟩ := (Option.any_eq_true _ _).mp followed
  obtain ⟨covers, net, billed⟩ := of_decide_eq_true facts
  have reaches : (engine true).Reaches program (fun _ _ => True) State.new world :=
    Engine.reaches_of_follow (fun _ _ _ => trivial) result
  exact ⟨world, reaches, covers, net, billed⟩

end Meter.Postgres
