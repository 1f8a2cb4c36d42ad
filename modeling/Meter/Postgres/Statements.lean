/-
**What becomes of a bill** (`crates/meter-store-pg/src/report.rs`).

* `grows_of_continues` — **in every interleaving the ledger is append-only**: between two reachable
  worlds, one after the other, accounts keep their terms, holds evolve and entries are appended.
* `daily_series` — the daily series splits up the invoice of its period: each posting is in one day, and
  the days add up.
* `invoice_grows` — **an invoice never shrinks, and no day of it does**: what it grows by are the spend
  postings that were appended, whatever else was.
-/

import Meter.Postgres.Balance
import Meter.Postgres.Report
import Meter.Lib.Rollup
import Mathlib.Data.List.Sort
import Mathlib.Data.String.Basic

namespace Meter.Postgres

open Meter.Lib Meter.Ledger

/-! ### Growth -/

section

variable {shares : Bool} {world world' : LedgerWorld}

/-- **Between two worlds of any interleaving, rows are kept and entries are appended.** -/
theorem grows_of_continues
    (reaches : (engine shares).Reaches program (fun _ _ => True) State.new world)
    (continues : (engine shares).Continues program (fun _ _ => True) world world') :
    Grows world.point.db world'.point.db := by
  have keeps : Keeps none (fun _ _ => True) fun point => Intact point.db := by
    intro point label locks actions before _ _ legals _ _
    exact legals.invariant (fun db action kept legal => legal.intact kept) before
  have begins := @begins_contract none (fun point => Intact point.db) fun _ _ intact => intact
  have safe : ∀ label point, (engine shares).Safe (contract none fun point => Intact point.db)
      (fun _ _ => True) label (program label) [] [] (Engine.begin point label) :=
    safe_program keeps (fun point label _ => sparesRun_none point label.2) fun _ intact => intact
  have sound := Engine.sound_world begins (fun label point _ => safe label point) .new reaches
  exact (sound.relied begins (fun label point _ => safe label point) continues).2.grows

/-- No spend posting gives anything back. -/
def Outgoing (db : State) : Prop := ∀ entry ∈ db.entries, IsSpend entry → entry.deltaCredits ≤ 0

theorem Legal.posted_outgoing {focus : Option RunId} {scaled : Prop} {locks : List Lock} {db : State}
    {action : Action} (legal : Legal focus scaled locks db action) {entry : LedgerEntry}
    (posted : entry ∈ action.posted) (spends : IsSpend entry) : entry.deltaCredits ≤ 0 := by
  have excluded : ∀ {kind}, entry.entryType = kind → kind ≠ .settle → kind ≠ .usage → False := by
    rintro kind rfl notSettle notUsage
    exact spends.elim notSettle notUsage
  cases action with
  | charge charged =>
    obtain ⟨amount, negative, stores, _⟩ := legal
    rw [List.mem_singleton.mp posted, stores.delta]
    exact round5_nonpos negative.le
  | settle reservation settled =>
    obtain ⟨amount, nonpos, stores, _⟩ := legal
    rw [List.mem_singleton.mp posted, stores.delta]
    exact round5_nonpos nonpos
  | credit credited =>
    obtain ⟨_, _, _, kinds⟩ := legal
    rw [← List.mem_singleton.mp posted] at kinds
    rcases kinds with ⟨grant, _⟩ | refund
    · exact (excluded grant (by decide) (by decide)).elim
    · exact (excluded refund (by decide) (by decide)).elim
  | reverse credited =>
    obtain ⟨_, _, _, refund, _⟩ := legal
    rw [← List.mem_singleton.mp posted] at refund
    exact (excluded refund (by decide) (by decide)).elim
  | transfer out into =>
    obtain ⟨_, stores⟩ := legal
    rcases List.mem_pair.mp posted with rfl | rfl
    · exact (excluded stores.kinds.1 (by decide) (by decide)).elim
    · exact (excluded stores.kinds.2 (by decide) (by decide)).elim
  | openAccount _ | place _ _ | release _ | extend _ _ => exact absurd posted List.not_mem_nil

theorem Outgoing.store {focus : Option RunId} {scaled : Prop} {locks : List Lock} {db : State}
    {action : Action} (legal : Legal focus scaled locks db action) (outgoing : Outgoing db) :
    Outgoing (Action.store db action) := by
  intro entry member spends
  rw [store_entries legal, List.mem_append] at member
  rcases member with old | posted
  · exact outgoing entry old spends
  · exact legal.posted_outgoing posted spends

/-- **In every interleaving spending is spending.** -/
theorem outgoing_of_reaches
    (reaches : (engine shares).Reaches program (fun _ _ => True) State.new world) :
    Outgoing world.point.db := by
  have keeps : Keeps none (fun _ _ => True) fun point => Intact point.db ∧ Outgoing point.db := by
    intro point label locks actions before _ _ legals _ _
    exact legals.invariant (P := fun db => Intact db ∧ Outgoing db) (fun db action kept legal =>
      ⟨legal.intact kept.1, kept.2.store legal⟩) before
  exact (invariant_of_reaches keeps (fun point label _ => sparesRun_none point label.2)
    (fun _ => And.left) (fun _ _ => id) ⟨.new, fun _ member => absurd member List.not_mem_nil⟩
    reaches).2

/-! ### Invoices -/

/-- The postings that an invoice sums up. -/
def billable (account : AccountId) (start stop : OffsetDateTime) (entries : List LedgerEntry) :
    List LedgerEntry :=
  entries.filter fun entry => entry.accountId = account ∧ IsSpend entry ∧
    timestamp start ≤ entry.createdAt ∧ entry.createdAt < timestamp stop

/-- What some postings come to. -/
def billed (entries : List LedgerEntry) : Credit :=
  (entries.map fun entry => -entry.deltaCredits).sum

theorem billable_append (account : AccountId) (start stop : OffsetDateTime)
    (entries posted : List LedgerEntry) : billable account start stop (entries ++ posted) =
      billable account start stop entries ++ billable account start stop posted :=
  List.filter_append _ _

theorem billed_append (entries posted : List LedgerEntry) :
    billed (entries ++ posted) = billed entries + billed posted := by
  rw [billed, List.map_append, List.sum_append]
  rfl

theorem billed_nonneg {entries : List LedgerEntry}
    (spent : ∀ entry ∈ entries, entry.deltaCredits ≤ 0) : 0 ≤ billed entries := by
  refine List.sum_nonneg fun value member => ?_
  obtain ⟨entry, inside, rfl⟩ := List.mem_map.mp member
  exact neg_nonneg.mpr (spent entry inside)

theorem Outgoing.billable {db : State} (outgoing : Outgoing db) {account : AccountId}
    {start stop : OffsetDateTime} {entry : LedgerEntry}
    (member : entry ∈ billable account start stop db.entries) : entry.deltaCredits ≤ 0 :=
  outgoing entry (List.mem_of_mem_filter member) (of_decide_eq_true (List.mem_filter.mp member).2).2.1

theorem periodUsage_billed (db : State) (account : AccountId) (start stop : OffsetDateTime) :
    periodUsage db account start stop =
      ⟨billed (billable account start stop db.entries),
        (billable account start stop db.entries).length⟩ := rfl

/-- Between two worlds of any interleaving an invoice grows by the spend postings that were appended,
and by no others: a refund of any kind leaves it alone. -/
theorem periodUsage_grows
    (reaches : (engine shares).Reaches program (fun _ _ => True) State.new world)
    (continues : (engine shares).Continues program (fun _ _ => True) world world')
    (account : AccountId) (start stop : OffsetDateTime) :
    ∃ posted, world'.point.db.entries = world.point.db.entries ++ posted ∧
      0 ≤ billed (billable account start stop posted) ∧
      periodUsage world'.point.db account start stop =
        ⟨(periodUsage world.point.db account start stop).totalCredits +
            billed (billable account start stop posted),
          (periodUsage world.point.db account start stop).entryCount +
            (billable account start stop posted).length⟩ := by
  obtain ⟨posted, grown⟩ := (grows_of_continues reaches continues).entries
  have reaches' : (engine shares).Reaches program (fun _ _ => True) State.new world' :=
    Relation.ReflTransGen.trans reaches continues
  have split := billable_append account start stop world.point.db.entries posted
  rw [grown] at split
  refine ⟨posted, grown.symm, billed_nonneg fun entry member => ?_, ?_⟩
  · exact (outgoing_of_reaches reaches').billable (split ▸ List.mem_append_right _ member)
  · rw [periodUsage_billed, periodUsage_billed, split, billed_append, List.length_append]

end

/-- A charge of 5 in run 7. -/
def billedRun : List (Engine.Move Label) := [
  serially 0 (.openAccount ⟨1, .user, true, none⟩) 1,
  serially 1 (.grant ⟨1, 100, .paid, none⟩) 3,
  serially 2 (.charge ⟨1, 5, some 7, none⟩) 3].flatten

/-- The run is voided, and another 3 are charged. -/
def voidAndCharge : List (Engine.Move Label) :=
  serially 3 (.voidRun 7) 7 ++ serially 4 (.charge ⟨1, 3, none, none⟩) 3

/-! ### The daily series -/

/-- Credits consumed on a single UTC day. -/
structure DayUsage where
  day : String
  totalCredits : Credit
  entryCount : Nat
  deriving DecidableEq

section

variable (utcDay : OffsetDateTime → String)

/-- Daily credit usage of an account in `[start, stop)`, oldest first. `utcDay` is the text of a UTC
day, as `to_char(.., 'YYYY-MM-DD')` prints it. -/
def usageByDay (db : State) (account : AccountId) (start stop : OffsetDateTime) : List DayUsage :=
  let rows := billable account start stop db.entries
  ((rows.map fun entry => utcDay entry.createdAt).dedup.insertionSort (· ≤ ·)).map fun day =>
    let own := rows.filter fun entry => utcDay entry.createdAt = day
    { day, totalCredits := billed own, entryCount := own.length }

variable {utcDay} {db : State} {account : AccountId} {start stop : OffsetDateTime}

/-- The days of a series. -/
theorem usageByDay_days : (usageByDay utcDay db account start stop).map DayUsage.day =
    ((billable account start stop db.entries).map fun entry =>
      utcDay entry.createdAt).dedup.insertionSort (· ≤ ·) := by
  rw [usageByDay, List.map_map]
  exact List.map_id _

theorem days_nodup :
    (((billable account start stop db.entries).map fun entry =>
      utcDay entry.createdAt).dedup.insertionSort (· ≤ ·)).Nodup :=
  (List.perm_insertionSort _ _).nodup_iff.mpr (List.nodup_dedup _)

theorem mem_days {day : String} :
    day ∈ ((billable account start stop db.entries).map fun entry =>
      utcDay entry.createdAt).dedup.insertionSort (· ≤ ·) ↔
        ∃ entry ∈ billable account start stop db.entries, utcDay entry.createdAt = day := by
  rw [(List.perm_insertionSort _ _).mem_iff, List.mem_dedup, List.mem_map]

/-- **The days add up to the invoice**, in credits and in postings. -/
theorem usageByDay_total :
    ⟨((usageByDay utcDay db account start stop).map DayUsage.totalCredits).sum,
      ((usageByDay utcDay db account start stop).map DayUsage.entryCount).sum⟩ =
        periodUsage db account start stop := by
  have covers : ∀ entry ∈ billable account start stop db.entries, utcDay entry.createdAt ∈
      ((billable account start stop db.entries).map fun entry =>
        utcDay entry.createdAt).dedup.insertionSort (· ≤ ·) := fun entry member =>
    mem_days.mpr ⟨entry, member, rfl⟩
  rw [periodUsage_billed, usageByDay, List.map_map, List.map_map]
  refine congrArg₂ PeriodUsage.mk ?_ ?_
  · exact sum_fibers (fun entry : LedgerEntry => utcDay entry.createdAt)
      (fun entry => -entry.deltaCredits) days_nodup covers
  · have counts := sum_fibers (fun entry : LedgerEntry => utcDay entry.createdAt) (fun _ => 1)
      days_nodup covers
    simpa [Function.comp_def] using counts

/-- **A series of a ledger**: the days are distinct and in order, each has a posting, and none is
negative. -/
structure Series (days : List DayUsage) : Prop where
  sorted : (days.map DayUsage.day).Pairwise (· < ·)
  counted : ∀ day ∈ days, 0 < day.entryCount
  nonneg : ∀ day ∈ days, 0 ≤ day.totalCredits

theorem series_usageByDay (outgoing : Outgoing db) :
    Series (usageByDay utcDay db account start stop) where
  sorted := by
    rw [usageByDay_days]
    refine ((List.pairwise_insertionSort _ _).and days_nodup).imp fun both => ?_
    exact lt_of_le_of_ne both.1 both.2
  counted := by
    intro day member
    obtain ⟨text, inside, rfl⟩ := List.mem_map.mp member
    obtain ⟨entry, chosen, same⟩ := mem_days.mp inside
    exact List.length_pos_of_mem (List.mem_filter.mpr ⟨chosen, decide_eq_true same⟩)
  nonneg := by
    intro day member
    obtain ⟨text, _, rfl⟩ := List.mem_map.mp member
    exact billed_nonneg fun entry chosen => outgoing.billable (List.mem_of_mem_filter chosen)

/-- Postings that are appended lengthen the days, and drop none. -/
theorem usageByDay_grows {db' : State} {posted : List LedgerEntry} (outgoing : Outgoing db')
    (grown : db'.entries = db.entries ++ posted) {day : DayUsage}
    (member : day ∈ usageByDay utcDay db account start stop) :
    ∃ later ∈ usageByDay utcDay db' account start stop, later.day = day.day ∧
      day.totalCredits ≤ later.totalCredits ∧ day.entryCount ≤ later.entryCount := by
  have split := billable_append account start stop db.entries posted
  rw [← grown] at split
  obtain ⟨text, inside, rfl⟩ := List.mem_map.mp member
  obtain ⟨entry, chosen, same⟩ := mem_days.mp inside
  have inside' := mem_days.mpr ⟨entry, split ▸ List.mem_append_left _ chosen, same⟩
  refine ⟨_, List.mem_map_of_mem inside', rfl, ?_, ?_⟩
  · have rest : 0 ≤ billed ((billable account start stop posted).filter fun entry =>
        utcDay entry.createdAt = text) := by
      refine billed_nonneg fun entry member => ?_
      have spent := List.mem_of_mem_filter member
      exact outgoing.billable (split ▸ List.mem_append_right _ spent)
    show billed _ ≤ billed _
    rw [split, List.filter_append, billed_append]
    exact le_add_of_nonneg_right rest
  · show List.length _ ≤ List.length _
    rw [split, List.filter_append, List.length_append]
    exact Nat.le_add_right _ _

/-- **The daily series of an account**, in every history of ledger calls, interleaved in any way: its
days are distinct and in order, none is empty or negative, and they add up to the invoice. -/
theorem daily_series {shares : Bool} {world : LedgerWorld}
    (reaches : (engine shares).Reaches program (fun _ _ => True) State.new world)
    (utcDay : OffsetDateTime → String) (account : AccountId) (start stop : OffsetDateTime) :
    let days := usageByDay utcDay world.point.db account start stop
    Series days ∧ ⟨(days.map DayUsage.totalCredits).sum, (days.map DayUsage.entryCount).sum⟩ =
      periodUsage world.point.db account start stop :=
  ⟨series_usageByDay (outgoing_of_reaches reaches), usageByDay_total⟩

/-- The first two days of 1970. -/
def earlyDay (instant : OffsetDateTime) : String :=
  if instant < 86400 * 1000000000 then "1970-01-01" else "1970-01-02"

theorem daily_series_charged : ∃ world : LedgerWorld,
    usageByDay earlyDay world.point.db 1 0 (10 ^ 18) = [⟨"1970-01-01", 5, 1⟩] ∧
    periodUsage world.point.db 1 0 (10 ^ 18) = ⟨[5].sum, [1].sum⟩ := by
  have followed : ((engine true).followAll program (fun _ _ => true) 1 (Engine.idle State.new)
      billedRun).any (fun world =>
        usageByDay earlyDay world.point.db 1 0 (10 ^ 18) = [⟨"1970-01-01", 5, 1⟩]) := by
    decide +kernel
  obtain ⟨world, result, facts⟩ := (Option.any_eq_true _ _).mp followed
  have days := of_decide_eq_true facts
  have reaches : (engine true).Reaches program (fun _ _ => True) State.new world :=
    Engine.reaches_of_follow (fun _ _ _ => trivial) result
  obtain ⟨_, total⟩ := daily_series reaches earlyDay 1 0 (10 ^ 18)
  rw [days] at total
  exact ⟨world, days, total.symm⟩

/-- **An invoice never shrinks, and no day of it does.** Between two worlds of any interleaving it grows
by the spend postings that were appended, and by no others: a refund of any kind leaves it alone. -/
theorem invoice_grows {shares : Bool} {world world' : LedgerWorld}
    (reaches : (engine shares).Reaches program (fun _ _ => True) State.new world)
    (continues : (engine shares).Continues program (fun _ _ => True) world world')
    (utcDay : OffsetDateTime → String) (account : AccountId) (start stop : OffsetDateTime) :
    ∃ posted, world'.point.db.entries = world.point.db.entries ++ posted ∧
      0 ≤ billed (billable account start stop posted) ∧
      periodUsage world'.point.db account start stop =
        ⟨(periodUsage world.point.db account start stop).totalCredits +
            billed (billable account start stop posted),
          (periodUsage world.point.db account start stop).entryCount +
            (billable account start stop posted).length⟩ ∧
      ∀ day ∈ usageByDay utcDay world.point.db account start stop,
        ∃ later ∈ usageByDay utcDay world'.point.db account start stop, later.day = day.day ∧
          day.totalCredits ≤ later.totalCredits ∧ day.entryCount ≤ later.entryCount := by
  obtain ⟨posted, grown, nonneg, total⟩ := periodUsage_grows reaches continues account start stop
  have reaches' : (engine shares).Reaches program (fun _ _ => True) State.new world' :=
    Relation.ReflTransGen.trans reaches continues
  exact ⟨posted, grown, nonneg, total, fun day member =>
    usageByDay_grows (outgoing_of_reaches reaches') grown member⟩

theorem invoice_grows_voided : ∃ world world' : LedgerWorld,
    (periodUsage world.point.db 1 0 (10 ^ 18)).totalCredits = 5 ∧
    (periodUsage world'.point.db 1 0 (10 ^ 18)).totalCredits = 8 ∧
    ∃ posted, world'.point.db.entries = world.point.db.entries ++ posted ∧
      periodUsage world'.point.db 1 0 (10 ^ 18) =
        ⟨5 + billed (billable 1 0 (10 ^ 18) posted), 1 + (billable 1 0 (10 ^ 18) posted).length⟩ ∧
      ∀ day ∈ usageByDay earlyDay world.point.db 1 0 (10 ^ 18),
        ∃ later ∈ usageByDay earlyDay world'.point.db 1 0 (10 ^ 18), later.day = day.day ∧
          day.totalCredits ≤ later.totalCredits ∧ day.entryCount ≤ later.entryCount := by
  have followed : ((engine true).followAll program (fun _ _ => true) 1 (Engine.idle State.new)
      billedRun).any (fun world => ((engine true).followAll program (fun _ _ => true) 1 world
        voidAndCharge).any fun world' => periodUsage world.point.db 1 0 (10 ^ 18) = ⟨5, 1⟩ ∧
          periodUsage world'.point.db 1 0 (10 ^ 18) = ⟨8, 2⟩) := by decide +kernel
  obtain ⟨world, result, rest⟩ := (Option.any_eq_true _ _).mp followed
  obtain ⟨world', further, facts⟩ := (Option.any_eq_true _ _).mp rest
  obtain ⟨before, after⟩ := of_decide_eq_true facts
  obtain ⟨reaches, continues⟩ := Engine.continues_of_follow
    (fun _ _ _ => trivial) result further
  obtain ⟨posted, grown, _, total, days⟩ := invoice_grows reaches continues earlyDay 1 0 (10 ^ 18)
  rw [before] at total
  refine ⟨world, world', ?_, ?_, posted, grown, total, days⟩
  · rw [before]
  · rw [after]

end

end Meter.Postgres
