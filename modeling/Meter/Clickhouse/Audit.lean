/-
**The audit log** (`crates/meter-store-ch/src/lib.rs`).

A row for each mutating request that was recorded. The time is kept in milliseconds, and bounds of a
listing are compared in milliseconds too.

* `newest_sorted`, `mem_newest` — what is listed without a limit: the rows that match, newest first.
* `listAudit_window` — **consecutive windows lose nothing and list nothing twice**: a window is the later
  part followed by the earlier one, wherever it is cut, and so is a listing of any limit.
-/

import Mathlib.Data.List.Sort
import Meter.Clickhouse.Store

namespace Meter.Clickhouse

/-! ### Rows -/

/-- A row of the table `audit`. -/
structure AuditRow where
  id : Uuid
  actor : String
  method : String
  path : String
  status : Int
  requestId : String
  createdAt : OffsetDateTime
  deriving DecidableEq

/-- One recorded mutating action, as reads return it. -/
structure AuditEntry where
  id : String
  actor : String
  method : String
  path : String
  status : Int
  requestId : String
  createdAt : OffsetDateTime
  deriving DecidableEq

def auditRowToEntry (row : AuditRow) : AuditEntry where
  id := row.id.toString
  actor := row.actor
  method := row.method
  path := row.path
  status := row.status
  requestId := row.requestId
  createdAt := row.createdAt

/-- The row that `record_audit` inserts, with the id and the time that it draws. -/
def auditRow (id : Uuid) (now : OffsetDateTime) (actor method path : String) (status : Int)
    (requestId : String) : AuditRow where
  id := id
  actor := actor
  method := method
  path := path
  status := status
  requestId := requestId
  createdAt := millis now

/-- Optional filters; those that are missing do not constrain. -/
structure AuditFilter where
  actor : Option String
  method : Option String
  since : Option OffsetDateTime
  till : Option OffsetDateTime
  deriving DecidableEq

/-- A bound in milliseconds. -/
def toMillis (time : OffsetDateTime) : Int := time.tdiv 1000000

/-- The `WHERE` clause. -/
def AuditFilter.keeps (filter : AuditFilter) (row : AuditRow) : Bool :=
  filter.actor.all (fun actor => row.actor = actor) &&
  filter.method.all (fun method => row.method = method) &&
  filter.since.all (fun since => toMillis since ≤ toMillis row.createdAt) &&
  filter.till.all (fun till => toMillis row.createdAt < toMillis till)

/-- The order of UUIDs: by their second half, then by the first. -/
def uuidRank (uuid : Uuid) : Nat :=
  uuid.bits.toNat % 2 ^ 64 * 2 ^ 64 + uuid.bits.toNat / 2 ^ 64

/-- `ORDER BY created_at DESC, id DESC`. -/
def AuditRow.Newer (first second : AuditRow) : Prop :=
  second.createdAt < first.createdAt ∨
    second.createdAt = first.createdAt ∧ uuidRank second.id ≤ uuidRank first.id

instance : DecidableRel AuditRow.Newer := fun first second => by
  unfold AuditRow.Newer
  infer_instance

/-- The rows that match, newest first. -/
def newest (filter : AuditFilter) (table : List AuditRow) : List AuditRow :=
  (table.filter filter.keeps).insertionSort AuditRow.Newer

/-- The most recent entries that match. -/
def listAudit (limit : Int) (filter : AuditFilter) (table : List AuditRow) : List AuditEntry :=
  ((newest filter table).take limit.toNat).map auditRowToEntry

/-! ### The order -/

theorem uuidRank_injective : Function.Injective uuidRank := by
  rintro ⟨first⟩ ⟨second⟩ same
  unfold uuidRank at same
  have bound := first.isLt
  have bound' := second.isLt
  have equal : first.toNat = second.toNat := by
    simp only at same
    omega
  exact congrArg Uuid.mk (BitVec.eq_of_toNat_eq equal)

theorem newer_total (first second : AuditRow) : first.Newer second ∨ second.Newer first := by
  rcases lt_trichotomy first.createdAt second.createdAt with earlier | same | later
  · exact .inr (.inl earlier)
  · rcases le_total (uuidRank first.id) (uuidRank second.id) with less | more
    · exact .inr (.inr ⟨same, less⟩)
    · exact .inl (.inr ⟨same.symm, more⟩)
  · exact .inl (.inl later)

theorem newer_trans {first second third : AuditRow} (newer : first.Newer second)
    (newer' : second.Newer third) : first.Newer third := by
  rcases newer with later | ⟨same, more⟩
  · rcases newer' with later' | ⟨same', _⟩
    · exact .inl (later'.trans later)
    · exact .inl (same' ▸ later)
  · rcases newer' with later' | ⟨same', more'⟩
    · exact .inl (same ▸ later')
    · exact .inr ⟨same'.trans same, more'.trans more⟩

/-- Two rows that are newer than each other have the same id. -/
theorem id_eq_of_newer {first second : AuditRow} (newer : first.Newer second)
    (newer' : second.Newer first) : first.id = second.id := by
  rcases newer with later | ⟨same, more⟩
  · rcases newer' with later' | ⟨same', _⟩
    · exact absurd later' later.asymm
    · exact absurd same' later.ne'
  · rcases newer' with later' | ⟨_, more'⟩
    · exact absurd same later'.ne'
    · exact uuidRank_injective (le_antisymm more' more)

section

variable {filter : AuditFilter} {table : List AuditRow}

theorem newest_sorted : (newest filter table).Pairwise AuditRow.Newer := by
  have total : Std.Total AuditRow.Newer := ⟨newer_total⟩
  have trans : IsTrans AuditRow AuditRow.Newer := ⟨fun _ _ _ => newer_trans⟩
  exact List.pairwise_insertionSort _ _

theorem newest_perm : (newest filter table).Perm (table.filter filter.keeps) :=
  List.perm_insertionSort _ _

theorem mem_newest {row : AuditRow} :
    row ∈ newest filter table ↔ row ∈ table ∧ filter.keeps row = true := by
  rw [newest_perm.mem_iff, List.mem_filter]

/-- **A sorted list of the rows that match is the listing**, if no two rows have the same id. -/
theorem newest_unique (distinct : (table.map AuditRow.id).Nodup) {rows : List AuditRow}
    (sorted : rows.Pairwise AuditRow.Newer) (same : rows.Perm (table.filter filter.keeps)) :
    newest filter table = rows := by
  refine List.Perm.eq_of_pairwise (fun first second inside inside' newer newer' => ?_) newest_sorted
    sorted (newest_perm.trans same.symm)
  have stored := (mem_newest.mp inside).1
  have stored' := (List.mem_filter.mp (same.mem_iff.mp inside')).1
  exact List.inj_on_of_nodup_map distinct stored stored' (id_eq_of_newer newer newer')

end

/-! ### Windows -/

/-- The filter with a window of time. -/
def AuditFilter.within (filter : AuditFilter) (since till : Option OffsetDateTime) : AuditFilter :=
  { filter with since, till }

section

variable {filter : AuditFilter} {table : List AuditRow} {since till : Option OffsetDateTime}
variable {cut : OffsetDateTime}

theorem keeps_later {row : AuditRow} (starts : ∀ start ∈ since, toMillis start ≤ toMillis cut) :
    (filter.within (some cut) till).keeps row = true ↔
      (filter.within since till).keeps row = true ∧ toMillis cut ≤ toMillis row.createdAt := by
  unfold AuditFilter.keeps AuditFilter.within
  cases since with
  | none =>
    simp only [Option.all_some, Option.all_none, Bool.and_eq_true, decide_eq_true_eq, and_true]
    exact and_right_comm
  | some start =>
    have before := starts start rfl
    simp only [Option.all_some, Bool.and_eq_true, decide_eq_true_eq]
    constructor
    · rintro ⟨⟨own, later⟩, ends⟩
      exact ⟨⟨⟨own, before.trans later⟩, ends⟩, later⟩
    · rintro ⟨⟨⟨own, _⟩, ends⟩, later⟩
      exact ⟨⟨own, later⟩, ends⟩

theorem keeps_earlier {row : AuditRow} (ends : ∀ stop ∈ till, toMillis cut ≤ toMillis stop) :
    (filter.within since (some cut)).keeps row = true ↔
      (filter.within since till).keeps row = true ∧ toMillis row.createdAt < toMillis cut := by
  unfold AuditFilter.keeps AuditFilter.within
  cases till with
  | none => simp
  | some stop =>
    have after := ends stop rfl
    simp only [Option.all_some, Bool.and_eq_true, decide_eq_true_eq]
    constructor
    · rintro ⟨own, earlier⟩
      exact ⟨⟨own, earlier.trans_le after⟩, earlier⟩
    · rintro ⟨⟨own, _⟩, earlier⟩
      exact ⟨own, earlier⟩

/-- A window is the later part, followed by the earlier one. -/
theorem newest_window (distinct : (table.map AuditRow.id).Nodup)
    (starts : ∀ start ∈ since, toMillis start ≤ toMillis cut)
    (ends : ∀ stop ∈ till, toMillis cut ≤ toMillis stop) :
    newest (filter.within since till) table =
      newest (filter.within (some cut) till) table ++ newest (filter.within since (some cut)) table := by
  refine newest_unique distinct ?_ ?_
  · refine List.pairwise_append.mpr ⟨newest_sorted, newest_sorted, fun first later second earlier => ?_⟩
    have after := ((keeps_later starts).mp (mem_newest.mp later).2).2
    have before := ((keeps_earlier ends).mp (mem_newest.mp earlier).2).2
    left
    by_contra notNewer
    have ordered : toMillis first.createdAt ≤ toMillis second.createdAt :=
      Int.tdiv_le_tdiv (by norm_num) (not_lt.mp notNewer)
    exact absurd before (after.trans ordered).not_gt
  · have later : table.filter (filter.within (some cut) till).keeps =
        (table.filter (filter.within since till).keeps).filter fun row =>
          toMillis cut ≤ toMillis row.createdAt := by
      rw [List.filter_filter]
      refine List.filter_congr fun row _ => Bool.eq_iff_iff.mpr ?_
      rw [keeps_later starts]
      simp [and_comm]
    have earlier : table.filter (filter.within since (some cut)).keeps =
        (table.filter (filter.within since till).keeps).filter fun row =>
          !decide (toMillis cut ≤ toMillis row.createdAt) := by
      rw [List.filter_filter]
      refine List.filter_congr fun row _ => Bool.eq_iff_iff.mpr ?_
      rw [keeps_earlier ends]
      simp [and_comm]
    refine (newest_perm.append newest_perm).trans ?_
    rw [later, earlier]
    exact List.filter_append_perm _ _

/-- The first pieces of two lists are enough for the first pieces of both. -/
theorem take_append_take {α : Type} (first second : List α) (count : Nat) :
    (first.take count ++ second.take count).take count = (first ++ second).take count := by
  rw [List.take_append, List.take_append, List.take_take, List.take_take, List.length_take]
  by_cases short : first.length ≤ count
  · rw [min_eq_right short, min_self, min_eq_left (Nat.sub_le _ _)]
  · have none : count - min count first.length = 0 := by omega
    have none' : count - first.length = 0 := by omega
    simp [none, none']

/-- **Consecutive windows lose nothing and list nothing twice.** -/
theorem listAudit_window (distinct : (table.map AuditRow.id).Nodup)
    (starts : ∀ start ∈ since, toMillis start ≤ toMillis cut)
    (ends : ∀ stop ∈ till, toMillis cut ≤ toMillis stop) (limit : Int) :
    listAudit limit (filter.within since till) table =
      (listAudit limit (filter.within (some cut) till) table ++
        listAudit limit (filter.within since (some cut)) table).take limit.toNat := by
  unfold listAudit
  rw [newest_window distinct starts ends, ← List.map_append, ← List.map_take, take_append_take]

end

/-- No constraint. -/
def anyEntry : AuditFilter := ⟨none, none, none, none⟩

/-- Two rows, a second apart. -/
def sampleAudit : List AuditRow :=
  [auditRow ⟨1⟩ 1000000000 "ana" "POST" "/v1/usage" 200 "first",
    auditRow ⟨2⟩ 2000000000 "system" "POST" "/v1/leases" 404 "second"]

theorem listAudit_window_sample : listAudit 10 (anyEntry.within none none) sampleAudit =
    (listAudit 10 (anyEntry.within (some 1500000000) none) sampleAudit ++
      listAudit 10 (anyEntry.within none (some 1500000000)) sampleAudit).take 10 :=
  listAudit_window (by decide) (by simp) (by simp) 10

end Meter.Clickhouse
