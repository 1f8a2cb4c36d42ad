/-
**The audit log, listed and exported** (`crates/meter-api/src/routes/audit.rs`,
`apps/dashboard/lib/meter/csv.ts`).

The engine lists the newest rows that match a query, and the dashboard writes them into a file of
comma-separated values.

* `reads_auditToCsv` — **whatever is in the cells, the file is read back** as the headers and one row for
  each entry.
* `audit_export` — a file of a query has the newest rows of the log that match it, cell by cell.
-/

import Meter.Api.Usage
import Meter.Clickhouse.Audit
import Meter.Lib.Csv

namespace Meter.Dashboard

open Meter.Lib.Csv
open Meter.Api (ApiError)
open Meter.Clickhouse (AuditRow AuditEntry AuditFilter auditRowToEntry listAudit newest)

/-! ### The listing -/

/-- The text form of instants (RFC 3339). -/
structure TimeFormat where
  parse : String → Option OffsetDateTime
  print : OffsetDateTime → String

/-- The parameters of `GET /v1/audit`. -/
structure AuditQuery where
  limit : Int := 100
  actor : Option String
  method : Option String
  since : Option String
  till : Option String

/-- Parse an optional bound. -/
def parseBound (format : TimeFormat) (value : Option String) (field : String) :
    Except ApiError (Option OffsetDateTime) :=
  match value with
  | none => .ok none
  | some raw => match format.parse raw with
    | some time => .ok (some time)
    | none => .error (.unprocessable ("invalid " ++ field ++ ": " ++ raw))

def AuditQuery.filter (format : TimeFormat) (query : AuditQuery) : Except ApiError AuditFilter := do
  let since ← parseBound format query.since "since"
  let till ← parseBound format query.till "until"
  return { actor := query.actor, method := query.method, since, till }

/-- `GET /v1/audit`, from the table as the store answers it. -/
def list (format : TimeFormat) (query : AuditQuery) (stored : Except String (List AuditRow)) :
    Except ApiError (List AuditEntry) := do
  let limit := max 1 (min 1000 query.limit)
  let filter ← query.filter format
  match stored with
  | .error error => .error (.status 500 "internal" ("audit: " ++ error))
  | .ok table => return listAudit limit filter table

/-! ### The file -/

/-- The comma, the double quote, and the two ends of a line. -/
def csvMarks : Marks Char where
  comma := ','
  quote := Char.ofNat 34
  newline := Char.ofNat 10
  carriage := Char.ofNat 13
  distinct := by decide

def auditHeaders : List String := ["time", "actor", "method", "path", "status", "request_id"]

/-- A cell, in quotes only if it has a comma, a quote or an end of a line in it. -/
def csvCell (value : String) : List Char := csvMarks.cell value.toList

/-- The cells of an entry. -/
def auditCells (format : TimeFormat) (entry : AuditEntry) : List String :=
  [format.print entry.createdAt, entry.actor, entry.method, entry.path, toString entry.status,
    entry.requestId]

/-- A header, and one line for each entry. -/
def auditToCsv (format : TimeFormat) (entries : List AuditEntry) : String :=
  let rows := entries.map fun entry =>
    List.intercalate [','] ((auditCells format entry).map csvCell)
  String.ofList (List.intercalate [Char.ofNat 10]
    (List.intercalate [','] (auditHeaders.map String.toList) :: rows))

/-- What a reader of the file finds. -/
def readCsv (file : String) : Option (List (List String)) :=
  (csvMarks.read file.toList).map fun rows => rows.map fun row => row.map String.ofList

/-! ### Reading it back -/

theorem auditToCsv_eq (format : TimeFormat) (entries : List AuditEntry) :
    (auditToCsv format entries).toList = csvMarks.document
      ((auditHeaders :: entries.map (auditCells format)).map fun row => row.map String.toList) := by
  have headers : csvMarks.row (auditHeaders.map String.toList) =
      List.intercalate [','] (auditHeaders.map String.toList) := by decide +kernel
  unfold auditToCsv Marks.document
  rw [String.toList_ofList, List.map_cons, List.map_cons, headers, List.map_map, List.map_map]
  rfl

/-- **Whatever is in the cells, the file is read back.** -/
theorem reads_auditToCsv (format : TimeFormat) (entries : List AuditEntry) :
    readCsv (auditToCsv format entries) =
      some (auditHeaders :: entries.map (auditCells format)) := by
  have lasting : ∀ row ∈ (auditHeaders :: entries.map (auditCells format)).map
      (fun row => row.map String.toList), Lasting row := by
    intro row listed
    obtain ⟨cells, inside, rfl⟩ := List.mem_map.mp listed
    rcases List.mem_cons.mp inside with rfl | inside
    · exact ⟨by decide, by decide⟩
    · obtain ⟨entry, _, rfl⟩ := List.mem_map.mp inside
      exact ⟨by simp [auditCells], by simp [auditCells]⟩
  unfold readCsv
  rw [auditToCsv_eq, read_document lasting, Option.map_some, List.map_map]
  congr 1
  refine (List.map_congr_left fun row _ => ?_).trans (List.map_id _)
  simp

/-- **A file of a query** has the newest rows of the log that match it, and nothing else. -/
theorem audit_export (format : TimeFormat) (query : AuditQuery) (table : List AuditRow) :
    (list format query (.ok table)).map (fun entries => readCsv (auditToCsv format entries)) =
      (query.filter format).map fun filter => some (auditHeaders ::
        ((newest filter table).take (max 1 (min 1000 query.limit)).toNat).map fun row =>
          auditCells format (auditRowToEntry row)) := by
  unfold list
  cases query.filter format with
  | error error => rfl
  | ok filter =>
    show Except.ok (readCsv (auditToCsv format (listAudit _ filter table))) = .ok _
    rw [reads_auditToCsv, listAudit, List.map_map]
    rfl

end Meter.Dashboard
