/-
**The program of an evaluation, turn by turn** (`alerts/evaluate.ts`, `processRule`).

`Escalation` gives two evaluations of a rule phases, with one call in each. Here `processRule` is cut
into the same phases.

* `Left` — what is left of the program in a phase.
* `trace_turn` — **in every phase the program makes the statements of one turn, and the turn does what
  they do**, in any world that the other evaluation has left.
* `run_traces` — under every order of turns, two programs are as far as the phases say, and the
  statements that they have made give the answers, the notifications and the stored status.
* `evaluableRules_read` — the rules that an evaluation reads are rows with their last status.
-/

import Meter.ControlPlane.Deliveries
import Meter.ControlPlane.Escalation

namespace Meter.ControlPlane

open Meter.Lib Meter.Lib.Server

/-! ### What statements do -/

/-- What came of the call that a statement is. A call whose answer is lost is not heard of. -/
def Fates.Heard (fates : Fates) : Event Stmt → Prop
  | ⟨_, .budget _, answer⟩ => fates.answer = answer.isSome
  | ⟨_, .insert .notifications _, answer⟩ => fates.insert = .done ↔ answer.isSome
  | ⟨_, .update .alertRules _ _, answer⟩ => fates.update = .done ↔ answer.isSome
  | _ => True

/-- What a statement does to what the evaluations share: the answers of the engine, the raised
notifications and the status of the rule. -/
def Alerting.hear (fates : Fates) (world : Alerting) : Event Stmt → Alerting
  | ⟨_, .budget _, some budget⟩ => { world with answers := world.answers ++ [budget] }
  | ⟨_, .insert .notifications values, _⟩ =>
    if fates.insert = .refused then world else { world with raised := world.raised ++ [values] }
  | ⟨_, .update .alertRules _ (.lastStatus status), _⟩ =>
    if fates.update = .refused then world
    else { world with rule := { world.rule with lastStatus := some status } }
  | _ => world

section

variable {env : Env} {now : Date} {rule : EvaluableRule} {fates : Fates} {world : Alerting}
  {event : Event Stmt} {events : List (Event Stmt)}

theorem Alerting.hear_insert (fates : Fates) (world : Alerting) (values : NewNotification)
    (answer : Option (Row .notifications)) :
    world.hear fates ⟨_, .insert .notifications values, answer⟩ =
      if fates.insert = .refused then world
      else { world with raised := world.raised ++ [values] } := rfl

theorem Alerting.hear_update (fates : Fates) (world : Alerting) (keep : Row .alertRules → Bool)
    (status : String)
    (answer : Option (List (Row .alertRules))) :
    world.hear fates ⟨_, .update .alertRules keep (.lastStatus status), answer⟩ =
      if fates.update = .refused then world
      else { world with rule := { world.rule with lastStatus := some status } } := rfl

/-- Deliveries do nothing to it. -/
theorem Alerting.hear_logging (logging : Logging event) : world.hear fates event = world := by
  obtain ⟨_, statement, answer⟩ := event
  cases statement with
  | insert table values =>
    obtain rfl : table = .webhookDeliveries := logging
    rfl
  | update table keep change => exact logging.elim
  | budget query => exact logging.elim
  | _ => rfl

theorem Alerting.foldl_hear_logging (logging : ∀ event ∈ events, Logging event) :
    events.foldl (Alerting.hear fates) world = world := by
  induction events with
  | nil => rfl
  | cons event events ih =>
    rw [List.foldl_cons, Alerting.hear_logging (logging event List.mem_cons_self)]
    exact ih fun other member => logging other (List.mem_cons_of_mem _ member)

/-- What the engine has answered stays, and nothing depends on where the evaluations are. -/
theorem Alerting.hear_keeps (fates : Fates) (world : Alerting) (event : Event Stmt) :
    world.answers <+: (world.hear fates event).answers ∧
      ∀ phase, { world with phase }.hear fates event = { world.hear fates event with phase } := by
  obtain ⟨_, statement, answer⟩ := event
  cases statement with
  | budget query =>
    cases answer with
    | none => exact ⟨List.prefix_rfl, fun _ => rfl⟩
    | some budget => exact ⟨List.prefix_append _ _, fun _ => rfl⟩
  | insert table values =>
    cases table with
    | notifications =>
      have same := fun world : Alerting => world.hear_insert fates values answer
      by_cases refused : fates.insert = .refused
      · simp only [if_pos refused] at same
        rw [same]
        exact ⟨List.prefix_rfl, fun _ => same _⟩
      · simp only [if_neg refused] at same
        rw [same]
        exact ⟨List.prefix_rfl, fun _ => same _⟩
    | _ => exact ⟨List.prefix_rfl, fun _ => rfl⟩
  | update table keep change =>
    cases change with
    | lastStatus status =>
      have same := fun world : Alerting => world.hear_update fates keep status answer
      by_cases refused : fates.update = .refused
      · simp only [if_pos refused] at same
        rw [same]
        exact ⟨List.prefix_rfl, fun _ => same _⟩
      · simp only [if_neg refused] at same
        rw [same]
        exact ⟨List.prefix_rfl, fun _ => same _⟩
    | _ => exact ⟨List.prefix_rfl, fun _ => rfl⟩
  | _ => exact ⟨List.prefix_rfl, fun _ => rfl⟩

/-! ### The phases of the program -/

/-- `processRule`, once the engine has answered. -/
def announce (env : Env) (rule : EvaluableRule) (budget : BudgetStatus) :
    Prog Stmt (Option Nat) := do
  if isEscalation budget.status.text rule.previous then
    match ← (createNotification env (rule.notification budget)).run with
    | .error _ => return some 0
    | .ok notification =>
      let some _ ← dispatchForNotification env notification | return none
      persist rule budget 1
  else persist rule budget 0

/-- **What is left of `processRule`** in a phase. A window that no `Date` can start is a defect, and
the program makes no call. -/
inductive Left (env : Env) (now : Date) (rule : EvaluableRule) : Phase → Prog Stmt (Option Nat) → Prop
  | fetching {start : Date} : Date.ofMillis (now.millis - rule.windowDays * dayMs) = some start →
      Left env now rule (.fetching rule) (processRule env rule now)
  | raising (budget : BudgetStatus) :
      Left env now rule (.raising rule budget) (announce env rule budget)
  | storing (budget : BudgetStatus) (raised : Nat) :
      Left env now rule (.storing budget) (persist rule budget raised)
  | finished (result : Option Nat) : Left env now rule .finished (.done result)

theorem processRule_announce {start : Date}
    (found : Date.ofMillis (now.millis - rule.windowDays * dayMs) = some start) :
    processRule env rule now = .stmt (.budget ⟨rule.accountId, rule.creditLimit, start, now⟩)
      fun answer => answer.elim (.done (some 0)) (announce env rule) := by
  unfold processRule
  rw [found]
  refine congrArg (Prog.stmt _) (funext fun answer => ?_)
  cases answer <;> rfl

/-- A dispatch makes statements of deliveries, and never fails. -/
theorem trace_dispatch {notification : Notification} {outcome : Option Unit}
    (trace : (dispatchForNotification env notification).Trace events outcome) :
    outcome = some () ∧ ∀ event ∈ events, Logging event := by
  obtain ⟨listing, listed, rest, list, after, rfl⟩ := trace_bind.mp trace
  rcases trace_exceptBind.mp list with ⟨error, failing, rfl⟩ | ⟨_, org, more, parsing, selecting, rfl⟩
  · obtain ⟨rfl, _⟩ := trace_column.mp failing
    obtain ⟨rfl, rfl⟩ := after
    exact ⟨rfl, fun event member => absurd member List.not_mem_nil⟩
  · obtain ⟨rfl, _⟩ := trace_column.mp parsing
    obtain ⟨before, one, rfl⟩ := trace_exceptMap.mp selecting
    obtain ⟨answer, rfl, rfl⟩ := trace_query.mp one
    cases answer with
    | none =>
      obtain ⟨rfl, rfl⟩ := after
      refine ⟨rfl, fun event member => ?_⟩
      obtain rfl := List.mem_singleton.mp member
      trivial
    | some rows =>
      obtain ⟨turning, turns, rest, taken, concurrent, rfl⟩ := trace_bind.mp after
      obtain rfl := trace_issue.mp taken
      obtain ⟨delivering, delivered, ending, interleaved, ⟨rfl, rfl⟩, rfl⟩ := trace_bind.mp concurrent
      cases delivered with
      | none =>
        refine absurd interleaved (interleave_completes fun program member events ended => ?_)
        obtain ⟨hook, _, rfl⟩ := List.mem_map.mp member
        cases (trace_deliver ended).1
      | some results =>
        obtain ⟨parts, traces, _, shuffled⟩ := trace_interleave interleaved
        obtain ⟨_, _, _, _, _, logging⟩ := trace_deliveries traces
        refine ⟨rfl, fun event member => ?_⟩
        rcases List.mem_append.mp member with listing | member
        · obtain rfl := List.mem_singleton.mp listing
          trivial
        · rw [List.append_nil] at member
          rcases List.mem_append.mp member with turning | delivering
          · obtain rfl := List.mem_singleton.mp turning
            trivial
          · exact logging event (shuffled.mem_iff.mp delivering)

/-! ### Turns -/

/-- The answers of the engine are those of a timeline. -/
def Alerting.OnTime (world : Alerting) (timeline : Nat → BudgetStatus) : Prop :=
  ∀ n budget, world.answers[n]? = some budget → timeline n = budget

/-- A turn goes to a phase, and does what some statements do, wherever the other evaluation is. -/
def Takes (phase : Phase) (made : List (Event Stmt)) (phase' : Phase) : Prop :=
  ∀ (timeline : Nat → BudgetStatus) (fates : Side → Fates) (world : Alerting) (side : Side),
    world.phase side = phase → (∀ event ∈ made, (fates side).Heard event) →
    (made.foldl (Alerting.hear (fates side)) world).OnTime timeline →
    step timeline fates world side =
      (made.foldl (Alerting.hear (fates side)) world).go side phase'

theorem takes_fetching {query : BudgetQuery} {answer : Option BudgetStatus} :
    Takes (.fetching rule) [⟨_, .budget query, answer⟩]
      (answer.elim .finished (Phase.raising rule)) := by
  intro timeline fates world side phase heard onTime
  have heard := heard _ List.mem_cons_self
  cases answer with
  | none =>
    have fails : (fates side).answer = false := heard
    simp only [step, phase, fails]
    rfl
  | some budget =>
    have answers : (fates side).answer = true := heard
    have current : timeline world.answers.length = budget :=
      onTime _ _ (List.getElem?_concat_length ..)
    simp only [step, phase, answers, if_true, current]
    rfl

theorem takes_raising {budget : BudgetStatus} {deliveries : List (Event Stmt)}
    {answer : Option NotificationRow} (escalates : isEscalation budget.status.text rule.previous = true)
    (logging : ∀ event ∈ deliveries, Logging event) :
    Takes (.raising rule budget)
      (⟨_, .insert .notifications (rule.notification budget), answer⟩ :: deliveries)
      (answer.elim .finished fun _ => .storing budget) := by
  intro timeline fates world side phase heard _
  have heard : (fates side).insert = .done ↔ answer.isSome := heard _ List.mem_cons_self
  rw [List.foldl_cons, Alerting.foldl_hear_logging logging, Alerting.hear_insert]
  simp only [step, phase, escalates, if_true]
  cases fate : (fates side).insert with
  | done =>
    obtain ⟨row, rfl⟩ := Option.isSome_iff_exists.mp (heard.mp fate)
    rfl
  | refused | lost =>
    cases answer with
    | none => rfl
    | some row =>
      rw [fate] at heard
      cases heard.mpr rfl

theorem takes_passing {budget : BudgetStatus}
    (quiet : isEscalation budget.status.text rule.previous = false) :
    Takes (.raising rule budget) [] (.storing budget) := by
  intro timeline fates world side phase _ _
  simp only [step, phase, quiet]
  rfl

theorem takes_storing {budget : BudgetStatus} {keep : AlertRuleRow → Bool}
    {answer : Option (List AlertRuleRow)} :
    Takes (.storing budget)
      [⟨_, .update .alertRules keep (.lastStatus budget.status.text), answer⟩] .finished := by
  intro timeline fates world side phase _ _
  rw [List.foldl_cons, List.foldl_nil, Alerting.hear_update]
  simp only [step, phase]
  cases (fates side).update with
  | done | refused | lost => rfl

theorem takes_finished : Takes .finished [] .finished := by
  intro timeline fates world side phase _ _
  simp only [step, phase]
  exact (congrArg (fun phases => { world with phase := phases }) (Function.update_eq_self_iff.mpr
    phase.symm)).symm

/-- **What is left of the program makes the statements of one turn.** -/
theorem trace_turn {phase : Phase} {program : Prog Stmt (Option Nat)} {outcome : Option Nat}
    (left : Left env now rule phase program) (trace : program.Trace events outcome) :
    ∃ made rest phase' program', events = made ++ rest ∧ Takes phase made phase' ∧
      Left env now rule phase' program' ∧ program'.Trace rest outcome := by
  cases left with
  | fetching found =>
    rw [processRule_announce found] at trace
    obtain ⟨answer, rest, rfl, trace⟩ := trace
    refine ⟨[_], rest, _, _, rfl, takes_fetching, ?_, trace⟩
    cases answer with
    | none => exact .finished _
    | some budget => exact .raising budget
  | raising budget =>
    unfold announce at trace
    split at trace
    · rename_i escalates
      obtain ⟨inserting, answer, rest, inserted, after, rfl⟩ := trace_bind.mp trace
      obtain ⟨before, one, rfl⟩ := trace_exceptMap.mp inserted
      obtain ⟨answer, rfl, rfl⟩ := trace_query.mp one
      cases answer with
      | none =>
        exact ⟨[_], rest, _, _, rfl, takes_raising escalates (List.forall_mem_nil _),
          .finished _, after⟩
      | some row =>
        obtain ⟨delivering, delivered, storing, dispatch, after, rfl⟩ := trace_bind.mp after
        obtain ⟨rfl, logging⟩ := trace_dispatch dispatch
        exact ⟨_ :: delivering, storing, _, _, rfl, takes_raising escalates logging,
          .storing budget 1, after⟩
    · rename_i quiet
      exact ⟨[], events, _, _, rfl, takes_passing (Bool.eq_false_of_not_eq_true quiet),
        .storing budget 0, trace⟩
  | storing budget raised =>
    obtain ⟨storing, answer, rest, stored, after, rfl⟩ := trace_bind.mp trace
    have made : ∃ rows, storing = [⟨_, .update .alertRules (fun row => row.id = rule.id)
        (.lastStatus budget.status.text), rows⟩] := by
      rcases trace_exceptBind.mp stored with ⟨_, failing, _⟩ | ⟨_, _, _, updating, ⟨rfl, _⟩, rfl⟩
      · obtain ⟨rows, made, _⟩ := trace_query.mp failing
        exact ⟨rows, made⟩
      · obtain ⟨rows, rfl, _⟩ := trace_query.mp updating
        exact ⟨rows, rfl⟩
    obtain ⟨rows, rfl⟩ := made
    cases answer with
    | error error => exact ⟨[_], rest, _, _, rfl, takes_storing, .finished _, after⟩
    | ok value => exact ⟨[_], rest, _, _, rfl, takes_storing, .finished _, after⟩
  | finished result => exact ⟨[], events, _, _, rfl, takes_finished, .finished result, trace⟩

/-! ### Two programs under an order of turns -/

/-- The statements of one evaluation. -/
def ofSide (made : List (Side × Event Stmt)) (side : Side) : List (Event Stmt) :=
  (made.filter fun entry => entry.1 = side).map Prod.snd

/-- What the statements of both evaluations do. -/
def Alerting.hears (fates : Side → Fates) (world : Alerting) (made : List (Side × Event Stmt)) :
    Alerting :=
  made.foldl (fun world entry => world.hear (fates entry.1) entry.2) world

theorem ofSide_append (side : Side) (first : List (Event Stmt)) (made : List (Side × Event Stmt)) :
    ofSide (first.map (side, ·) ++ made) side = first ++ ofSide made side := by
  rw [ofSide, List.filter_append, List.map_append]
  refine congrArg (· ++ ofSide made side) ?_
  rw [List.filter_eq_self.mpr, List.map_map]
  · exact List.map_id first
  · intro entry member
    obtain ⟨event, _, rfl⟩ := List.mem_map.mp member
    exact decide_eq_true rfl

theorem ofSide_other {side other : Side} (different : other ≠ side) (first : List (Event Stmt))
    (made : List (Side × Event Stmt)) :
    ofSide (first.map (side, ·) ++ made) other = ofSide made other := by
  rw [ofSide, List.filter_append, List.filter_eq_nil_iff.mpr]
  · rfl
  intro entry member
  obtain ⟨event, _, rfl⟩ := List.mem_map.mp member
  exact fun same => different (of_decide_eq_true same).symm

variable {fates : Side → Fates}

theorem Alerting.hears_keeps (world : Alerting) (made : List (Side × Event Stmt)) :
    world.answers <+: (world.hears fates made).answers ∧
      ∀ phase, { world with phase }.hears fates made = { world.hears fates made with phase } := by
  induction made generalizing world with
  | nil => exact ⟨List.prefix_rfl, fun _ => rfl⟩
  | cons entry made ih =>
    obtain ⟨answers, same⟩ := world.hear_keeps (fates entry.1) entry.2
    obtain ⟨more, rest⟩ := ih (world.hear (fates entry.1) entry.2)
    refine ⟨answers.trans more, fun phase => ?_⟩
    refine Eq.trans ?_ (rest phase)
    rw [Alerting.hears, List.foldl_cons, same]
    rfl

theorem Alerting.hears_append (world : Alerting) (side : Side) (first : List (Event Stmt))
    (made : List (Side × Event Stmt)) : world.hears fates (first.map (side, ·) ++ made) =
      (first.foldl (Alerting.hear (fates side)) world).hears fates made := by
  rw [Alerting.hears, List.foldl_append, List.foldl_map]
  rfl

theorem Alerting.OnTime.of_prefix {earlier later : Alerting} {timeline : Nat → BudgetStatus}
    (onTime : later.OnTime timeline) (grows : earlier.answers <+: later.answers) :
    earlier.OnTime timeline := by
  intro n budget found
  obtain ⟨more, same⟩ := grows
  have inside := (List.getElem?_eq_some_iff.mp found).1
  refine onTime n budget ?_
  rw [← same, List.getElem?_append_left inside, found]

theorem Alerting.foldl_hear_phase (fates : Fates) (world : Alerting) (events : List (Event Stmt)) :
    (events.foldl (Alerting.hear fates) world).phase = world.phase := by
  induction events generalizing world with
  | nil => rfl
  | cons event events ih =>
    have same := congrArg Alerting.phase ((world.hear_keeps fates event).2 world.phase)
    exact (ih _).trans same

/-- Each program is where its phase says, makes some more statements, and hears of them. -/
structure Underway (env : Env) (fates : Side → Fates) (clock : Side → Date)
    (rules : Side → EvaluableRule) (outcome : Side → Option Nat) (phase : Side → Phase)
    (events : Side → List (Event Stmt)) : Prop where
  left : ∀ side, ∃ program, Left env (clock side) (rules side) (phase side) program ∧
    program.Trace (events side) (outcome side)
  heard : ∀ side, ∀ event ∈ events side, (fates side).Heard event

variable {clock : Side → Date} {rules : Side → EvaluableRule} {outcome : Side → Option Nat}
  {phase : Side → Phase} {rest : Side → List (Event Stmt)}

/-- One program makes the statements of its turn. -/
theorem Underway.turn (underway : Underway env fates clock rules outcome phase rest) (side : Side) :
    ∃ made after phase', rest side = made ++ after ∧ Takes (phase side) made phase' ∧
      (∀ event ∈ made, (fates side).Heard event) ∧
      Underway env fates clock rules outcome (Function.update phase side phase')
        (Function.update rest side after) := by
  obtain ⟨program, left, trace⟩ := underway.left side
  obtain ⟨made, after, phase', program', same, takes, left', trace'⟩ := trace_turn left trace
  refine ⟨made, after, phase', same, takes, fun event member => ?_, fun other => ?_, fun other => ?_⟩
  · exact underway.heard side event (same ▸ List.mem_append_left _ member)
  · by_cases own : other = side
    · subst own
      rw [Function.update_self, Function.update_self]
      exact ⟨program', left', trace'⟩
    · rw [Function.update_of_ne own, Function.update_of_ne own]
      exact underway.left other
  · by_cases own : other = side
    · subst own
      rw [Function.update_self]
      exact fun event member => underway.heard other event (same ▸ List.mem_append_right _ member)
    · rw [Function.update_of_ne own]
      exact underway.heard other

/-- **Two programs under an order of turns**: each has made the statements that its phase says, and
together these give the answers, the raised notifications and the status of the rule. -/
theorem run_traces (turns : List Side)
    (underway : Underway env fates clock rules outcome world.phase rest) :
    ∃ (made : List (Side × Event Stmt)) (rest' : Side → List (Event Stmt)) (phase : Side → Phase),
      (∀ side, rest side = ofSide made side ++ rest' side) ∧
      Underway env fates clock rules outcome phase rest' ∧
      ∀ timeline, (world.hears fates made).OnTime timeline →
        run timeline fates world turns = { world.hears fates made with phase } := by
  induction turns generalizing world rest with
  | nil => exact ⟨[], rest, world.phase, fun _ => rfl, underway, fun _ _ => rfl⟩
  | cons side turns ih =>
    obtain ⟨first, after, phase', made, takes, heard, underway⟩ := underway.turn side
    let earlier := first.foldl (Alerting.hear (fates side)) world
    have unmoved : earlier.phase = world.phase := world.foldl_hear_phase (fates side) first
    rw [← unmoved] at underway
    obtain ⟨later, last, phase, splits, underway, runs⟩ := @ih (earlier.go side phase') _ underway
    refine ⟨first.map (side, ·) ++ later, last, phase, fun other => ?_, underway,
      fun timeline onTime => ?_⟩
    · have split := splits other
      by_cases own : other = side
      · subst own
        rw [Function.update_self] at split
        rw [ofSide_append, List.append_assoc, ← split, made]
      · rw [Function.update_of_ne own] at split
        rw [ofSide_other own, split]
    · rw [Alerting.hears_append] at onTime ⊢
      obtain ⟨answers, moved⟩ := earlier.hears_keeps later
      have stepped : step timeline fates world side = earlier.go side phase' :=
        takes timeline fates world side rfl heard (onTime.of_prefix answers)
      have ran := runs timeline (by rw [Alerting.go, moved]; exact onTime)
      rw [run, List.foldl_cons, stepped]
      refine ran.trans ?_
      rw [Alerting.go, moved]

end

/-! ### Reading -/

/-- **What an evaluation reads**: rules of the organization, with the status stored at the time. -/
theorem evaluableRules_read {env : Env} {nature : Nature} {orgId : String} {world : World}
    {rules : List EvaluableRule}
    (read : ((machine env nature).run (evaluableRules env orgId) world).1 = .ok rules)
    {rule : EvaluableRule} (member : rule ∈ rules) :
    ∃ row ∈ world.db .alertRules, toEvaluable row = some rule := by
  obtain ⟨events, trace, follows⟩ := (machine env nature).run_trace (evaluableRules env orgId) world
  rw [read] at trace
  generalize ((machine env nature).run (evaluableRules env orgId) world).2 = last at follows
  rcases trace_exceptBind.mp trace with ⟨_, _, failed⟩ | ⟨_, org, rest, parsing, selecting, rfl⟩
  · cases failed
  obtain ⟨rfl, _⟩ := trace_column.mp parsing
  rcases trace_exceptBind.mp selecting with ⟨_, _, failed⟩ | ⟨_, rows, _, one, ⟨rfl, same⟩, rfl⟩
  · cases failed
  cases same
  obtain ⟨answer, rfl, answered⟩ := trace_query.mp one
  obtain ⟨selected, _⟩ := follows
  cases answer with
  | none => cases answered
  | some found =>
    cases answered
    change Draw.read _ _ = some rows at selected
    unfold Draw.read at selected
    split at selected
    · cases selected
      obtain ⟨row, inside, evaluable⟩ := List.mem_filterMap.mp member
      have arranged := ((nature world.draws).arrange_perm _).mem_iff.mp (List.mem_of_mem_filter inside)
      exact ⟨row, List.mem_of_mem_filter arranged, evaluable⟩
    · cases selected

end Meter.ControlPlane
