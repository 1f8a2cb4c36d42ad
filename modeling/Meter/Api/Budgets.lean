/-
**The status of a budget** (`crates/meter-api/src/routes/budgets.rs`,
`crates/meter-store-pg/src/config.rs`).

* `budgetStatus` — the route: a limit, given or configured, against what the ledger bills for a period.
  The control plane asks it with a limit (`controlPlane_budgetStatus`).
* `budget_setBudget`, `budgetStatus_setBudget` — a configured budget is the one that was set last, and
  is answered as if its limit were given.
* `budget_worsens` — **within a period a budget never recovers**: while any ledger calls run, in any
  interleaving, neither the use nor the ratio nor the status goes back, whatever is refunded or voided.
-/

import Meter.Api.Usage
import Meter.ControlPlane.Confinement
import Meter.Postgres.Statements
import Meter.Pricing.Rounding

namespace Meter.Api

open Meter.Lib Meter.Pricing
open Meter.ControlPlane (BudgetStatus Level classify)
open Meter.Postgres (DbError LedgerWorld engine program periodUsage)

/-! ### Configured budgets -/

/-- A stored spend limit for an account over a recurring period. -/
structure BudgetRecord where
  accountId : AccountId
  limitCredits : Decimal
  period : String

/-- The `budgets` table, by its primary key. -/
abbrev Budgets := Table AccountId BudgetRecord

/-- Upsert the current budget of an account. -/
def setBudget (budget : BudgetRecord) (budgets : Budgets) : Except DbError Budgets := do
  let limitCredits ← Postgres.numeric budget.limitCredits
  return budgets.set budget.accountId { budget with limitCredits }

/-- The current budget of an account, if one is set. -/
def Budgets.budget (budgets : Budgets) (account : AccountId) : Option BudgetRecord :=
  budgets.get? account

/-- **A configured budget is the one that was set last**, with its limit as the column stores it. -/
theorem budget_setBudget {budget : BudgetRecord} {budgets budgets' : Budgets}
    (set : setBudget budget budgets = .ok budgets') (account : AccountId) :
    budgets'.budget account = if account = budget.accountId
      then some { budget with limitCredits := Postgres.round5 budget.limitCredits }
      else budgets.budget account := by
  unfold setBudget Postgres.numeric at set
  split at set
  · cases set
    exact Table.get?_set _ _ _ _
  · cases set

/-! ### The route -/

/-- The period, and a limit that overrides the configured one. -/
structure BudgetQuery where
  start : OffsetDateTime
  stop : OffsetDateTime
  limit : Option String

section

variable (env : ControlPlane.Env) (budgets : Budgets)

/-- The explicit limit, else the account's configured budget. -/
def budgetLimit (account : AccountId) : Option String → Except ApiError Decimal
  | some value => match env.parseDecimal value with
    | some limit => .ok limit
    | none => .error (.unprocessable "invalid limit")
  | none => match budgets.budget account with
    | some budget => .ok budget.limitCredits
    | none => .error (.unprocessable "limit required: no budget configured for this account")

def budgetStatus (ledger : Ledger.State) (account : AccountId) (query : BudgetQuery) :
    Except ApiError BudgetStatus := do
  let limit ← budgetLimit env budgets account query.limit
  let used := (periodUsage ledger account query.start query.stop).totalCredits
  let (ratio, status) := classify used limit
  return {
    usedCredits := env.showDecimal used
    limitCredits := env.showDecimal limit
    remainingCredits := env.showDecimal (limit - used)
    ratio := env.showDecimal ratio
    status }

/-- **What the control plane asks is this route**, with a limit. -/
theorem controlPlane_budgetStatus (ledger : Ledger.State) (query : ControlPlane.BudgetQuery) :
    ControlPlane.budgetStatus env ledger query =
      if query.start.Plain ∧ query.stop.Plain then
        (budgetStatus env budgets ledger query.accountId
          ⟨query.start.instant, query.stop.instant, some query.limit⟩).toOption
      else none := by
  unfold ControlPlane.budgetStatus budgetStatus budgetLimit
  refine if_congr Iff.rfl ?_ rfl
  dsimp only
  cases env.parseDecimal query.limit <;> rfl

/-- **A budget that was set is answered as if its limit were given**, as the column stores it. -/
theorem budgetStatus_setBudget {budgets' : Budgets} {budget : BudgetRecord} {limit : String}
    (set : setBudget budget budgets = .ok budgets')
    (parsed : env.parseDecimal limit = some (Postgres.round5 budget.limitCredits))
    (ledger : Ledger.State) (start stop : OffsetDateTime) :
    budgetStatus env budgets' ledger budget.accountId ⟨start, stop, none⟩ =
      budgetStatus env budgets ledger budget.accountId ⟨start, stop, some limit⟩ := by
  have configured := budget_setBudget set budget.accountId
  rw [if_pos rfl] at configured
  simp only [budgetStatus, budgetLimit, configured, parsed]

end

/-! ### Over time -/

theorem rank_le_exceeded (level : Level) : level.rank ≤ Level.exceeded.rank := by
  cases level <;> decide

/-- **The more is used, the worse.** -/
theorem classify_mono {used used' : ℚ} (more : used ≤ used') (limit : ℚ) :
    (classify used limit).1 ≤ (classify used' limit).1 ∧
      (classify used limit).2.rank ≤ (classify used' limit).2.rank := by
  unfold classify
  by_cases none : limit ≤ 0
  · rw [if_pos none, if_pos none]
    exact ⟨le_rfl, le_rfl⟩
  · rw [if_neg none, if_neg none]
    have ratio : roundDp (used / limit) 4 ≤ roundDp (used' / limit) 4 :=
      roundDp_mono (div_le_div_of_nonneg_right more (le_of_not_ge none)) 4
    dsimp only
    by_cases spent : limit ≤ used
    · rw [if_pos spent, if_pos (spent.trans more)]
      exact ⟨ratio, le_rfl⟩
    · rw [if_neg spent]
      by_cases spent' : limit ≤ used'
      · rw [if_pos spent']
        exact ⟨by split <;> exact ratio, rank_le_exceeded _⟩
      · rw [if_neg spent']
        by_cases near : limit * (8 / 10) ≤ used
        · rw [if_pos near, if_pos (near.trans more)]
          exact ⟨ratio, le_rfl⟩
        · rw [if_neg near]
          split
          · exact ⟨ratio, Nat.zero_le _⟩
          · exact ⟨ratio, le_rfl⟩

/-- The credits that an account used in a period, as a budget's status counts them. -/
def usedIn (world : LedgerWorld) (account : AccountId) (query : BudgetQuery) : Decimal :=
  (periodUsage world.point.db account query.start query.stop).totalCredits

/-- **Within a period a budget never recovers.** -/
theorem budget_worsens (env : ControlPlane.Env) (budgets : Budgets) {shares : Bool}
    {world world' : LedgerWorld}
    (reaches : (engine shares).Reaches program (fun _ _ => True) Ledger.State.new world)
    (continues : (engine shares).Continues program (fun _ _ => True) world world')
    {account : AccountId} {query : BudgetQuery} {status : BudgetStatus}
    (answered : budgetStatus env budgets world.point.db account query = .ok status) :
    ∃ limit status', budgetLimit env budgets account query.limit = .ok limit ∧
      budgetStatus env budgets world'.point.db account query = .ok status' ∧
      status.limitCredits = env.showDecimal limit ∧ status'.limitCredits = env.showDecimal limit ∧
      status.usedCredits = env.showDecimal (usedIn world account query) ∧
      status'.usedCredits = env.showDecimal (usedIn world' account query) ∧
      usedIn world account query ≤ usedIn world' account query ∧
      status.ratio = env.showDecimal (classify (usedIn world account query) limit).1 ∧
      status'.ratio = env.showDecimal (classify (usedIn world' account query) limit).1 ∧
      (classify (usedIn world account query) limit).1 ≤
        (classify (usedIn world' account query) limit).1 ∧
      status.status.rank ≤ status'.status.rank := by
  obtain ⟨posted, _, nonneg, grown⟩ :=
    Postgres.periodUsage_grows reaches continues account query.start query.stop
  have more : usedIn world account query ≤ usedIn world' account query := by
    rw [usedIn, usedIn, grown]
    exact le_add_of_nonneg_right nonneg
  unfold budgetStatus at answered ⊢
  cases limited : budgetLimit env budgets account query.limit with
  | error error =>
    rw [limited] at answered
    cases answered
  | ok limit =>
    rw [limited] at answered
    cases answered
    obtain ⟨ratios, ranks⟩ := classify_mono more limit
    exact ⟨limit, _, rfl, rfl, rfl, rfl, rfl, rfl, more, rfl, rfl, ratios, ranks⟩

/-- A configured budget of 6. -/
def sixCredits : Budgets := Table.empty.set 1 ⟨1, 6, "monthly"⟩

/-- 5 of 6 are used; then the run is voided and 3 more are charged. -/
theorem budget_worsens_voided : ∃ (world world' : LedgerWorld) (status status' : BudgetStatus),
    budgetStatus ControlPlane.plainEnv sixCredits world.point.db 1 ⟨0, 10 ^ 18, none⟩ = .ok status ∧
    status.status = .warning ∧
    budgetStatus ControlPlane.plainEnv sixCredits world'.point.db 1 ⟨0, 10 ^ 18, none⟩ = .ok status' ∧
    status.status.rank ≤ status'.status.rank := by
  have followed : ((engine true).followAll program (fun _ _ => true) 1
      (Engine.idle Ledger.State.new) Postgres.billedRun).any (fun world =>
        ((engine true).followAll program (fun _ _ => true) 1 world Postgres.voidAndCharge).any
          fun _ => (budgetStatus ControlPlane.plainEnv sixCredits world.point.db 1
            ⟨0, 10 ^ 18, none⟩).toOption.map BudgetStatus.status = some .warning) := by
    decide +kernel
  obtain ⟨world, result, rest⟩ := (Option.any_eq_true _ _).mp followed
  obtain ⟨world', further, facts⟩ := (Option.any_eq_true _ _).mp rest
  obtain ⟨reaches, continues⟩ := Engine.continues_of_follow (fun _ _ _ => trivial) result further
  have warns := of_decide_eq_true facts
  cases answered : budgetStatus ControlPlane.plainEnv sixCredits world.point.db 1 ⟨0, 10 ^ 18, none⟩ with
  | error error =>
    rw [answered] at warns
    cases warns
  | ok status =>
    rw [answered] at warns
    obtain ⟨_, status', _, later, _, _, _, _, _, _, _, _, worse⟩ :=
      budget_worsens ControlPlane.plainEnv sixCredits reaches continues answered
    exact ⟨world, world', status, status', answered, Option.some.inj warns, later, worse⟩

end Meter.Api
