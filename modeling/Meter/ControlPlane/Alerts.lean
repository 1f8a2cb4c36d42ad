/-
**Budget alerts** (`apps/control-plane/src/alerts/evaluate.ts`, `engine/client.ts`).

A budget rule names an engine account, a credit limit and a rolling window. An evaluation asks the
engine to classify the account's usage, and raises a notification if the status is more severe than
the one stored with the rule.

* `isEscalation` — the comparison. It reads both statuses out of a plain record, so that a name that
  every object inherits has no rank (`Inherited`).
* `EvaluableRule.notification` — what is raised.
-/

import Meter.Core
import Meter.Lib.Json

namespace Meter.ControlPlane

open Meter.Lib

/-! ### Calls -/

/-- What comes of a call that changes the database: it may also be performed and its answer lost. -/
inductive Fate where
  | done
  | refused
  | lost
  deriving DecidableEq

/-! ### Statuses -/

/-- What the engine classifies a budget as. The response is decoded with exactly these literals. -/
inductive Level where
  | ok
  | warning
  | exceeded
  deriving DecidableEq

def Level.text : Level → String
  | .ok => "ok"
  | .warning => "warning"
  | .exceeded => "exceeded"

/-- How severe a status is. -/
def Level.rank : Level → Nat
  | .ok => 0
  | .warning => 1
  | .exceeded => 2

/-- The decoded response of the engine. -/
structure BudgetStatus where
  usedCredits : String
  limitCredits : String
  remainingCredits : String
  ratio : String
  status : Level
  deriving DecidableEq

/-- The properties that a record inherits from `Object.prototype`. Looking one up finds something
that is not a number. -/
def Inherited (name : String) : Prop :=
  name ∈ ["__defineGetter__", "__defineSetter__", "__lookupGetter__", "__lookupSetter__",
    "__proto__", "constructor", "hasOwnProperty", "isPrototypeOf", "propertyIsEnumerable",
    "toLocaleString", "toString", "valueOf"]

instance : DecidablePred Inherited := fun name => inferInstanceAs (Decidable (name ∈ _))

/-- `SEVERITY_RANK[status] ?? 0`, if that is a number. -/
def severityRank (status : String) : Option Nat :=
  if status = "ok" then some 0
  else if status = "warning" then some 1
  else if status = "exceeded" then some 2
  else if Inherited status then none
  else some 0

@[simp] theorem severityRank_text (level : Level) : severityRank level.text = some level.rank := by
  cases level with
  | ok | warning | exceeded => decide

def isEscalation (current previous : String) : Bool :=
  match severityRank current, severityRank previous with
  | some rank, some rank' => rank' < rank
  | _, _ => false

theorem isEscalation_text (current previous : Level) :
    isEscalation current.text previous.text = decide (previous.rank < current.rank) := by
  rw [isEscalation, severityRank_text, severityRank_text]

/-! ### Rules and notifications -/

/-- An alert rule with everything required to evaluate a budget against the engine. -/
structure EvaluableRule where
  id : Uuid
  orgId : OrgId
  name : String
  accountId : AccountId
  creditLimit : String
  windowDays : Int
  lastStatus : Option String

/-- The status that an evaluation compares with. -/
def EvaluableRule.previous (rule : EvaluableRule) : String := rule.lastStatus.getD "ok"

structure NewNotification where
  orgId : OrgId
  type : String
  severity : String
  title : String
  body : Option String
  data : Option Json

/-- `NOTIFICATION_SEVERITY[status] ?? "warning"`. -/
def notificationSeverity : Level → String
  | .warning => "warning"
  | .exceeded => "critical"
  | .ok => "warning"

/-- The notification that `raise` creates. -/
def EvaluableRule.notification (rule : EvaluableRule) (budget : BudgetStatus) :
    NewNotification where
  orgId := rule.orgId
  type := "budget"
  severity := notificationSeverity budget.status
  title := rule.name ++ ": budget " ++ budget.status.text
  body := some ("Account " ++ rule.accountId.toString ++ " used " ++ budget.usedCredits ++ " of " ++
    budget.limitCredits ++ " credits (" ++ budget.ratio ++ ").")
  data := some (.object [("accountId", .string rule.accountId.toString),
    ("status", .string budget.status.text), ("ratio", .string budget.ratio),
    ("used", .string budget.usedCredits), ("limit", .string budget.limitCredits)])

end Meter.ControlPlane
