/-
**Two evaluations of one budget rule, call by call.**

An evaluation reads the rule with its last status, asks the engine, inserts a notification if the
status escalated, and writes the status back. The scheduler and a request may evaluate the same rule
at the same time, and any call may fail. Between the insert and the write the webhooks are
delivered, which neither touches the rule nor fails the evaluation.

* `step`, `run` — the calls of both evaluations, under an explicit order of turns and with a fate for
  every call. A turn of an evaluation that has no notification to insert passes. That these are the
  calls of `Routes.processRule` is shown in `Evaluation` (`trace_turn`, `run_traces`).
* `escalations` — what should be announced: the strict increases of severity along the answers
  (`escalations_text`).
* `one_alert_per_escalation_iff` — **the condition**: an order of turns announces every escalation
  once, whatever the statuses are, if and only if no due notification is refused and the two
  evaluations do not overlap.
* `overlap_announces_twice` — both evaluations have read the rule before one writes it.
-/

import Meter.ControlPlane.Alerts
import Meter.Lib.Race
import Mathlib.Logic.Function.Basic

namespace Meter.ControlPlane

open Meter.Lib Meter.Lib.Server

/-! ### The calls -/

/-- What comes of the calls of one evaluation. A read that fails, fails. -/
structure Fates where
  read : Bool
  answer : Bool
  insert : Fate
  update : Fate

/-- The evaluation hears from the engine. -/
def Fates.Answered (fates : Fates) : Prop := fates.read = true ∧ fates.answer = true

instance : DecidablePred Fates.Answered := fun _ => instDecidableAnd

/-- What an evaluation does next. -/
inductive Phase where
  | reading
  | fetching (rule : EvaluableRule)
  | raising (rule : EvaluableRule) (budget : BudgetStatus)
  | storing (budget : BudgetStatus)
  | finished

/-- The row of the rule, what the engine has answered so far, what was raised, and where the two
evaluations are. -/
structure Alerting where
  rule : EvaluableRule
  answers : List BudgetStatus
  raised : List NewNotification
  phase : Side → Phase

def Alerting.start (rule : EvaluableRule) : Alerting := ⟨rule, [], [], fun _ => .reading⟩

def Alerting.go (world : Alerting) (side : Side) (phase : Phase) : Alerting :=
  { world with phase := Function.update world.phase side phase }

/-- `createNotification`. -/
def Alerting.raise (world : Alerting) (rule : EvaluableRule) (budget : BudgetStatus) : Alerting :=
  { world with raised := world.raised ++ [rule.notification budget] }

/-- `setAlertRuleStatus`: unconditional. -/
def Alerting.setStatus (world : Alerting) (budget : BudgetStatus) : Alerting :=
  { world with rule := { world.rule with lastStatus := some budget.status.text } }

/-- The next call of one evaluation (`evaluableRules`, then `processRule`). A call that fails ends
it. -/
def step (timeline : Nat → BudgetStatus) (fates : Side → Fates) (world : Alerting) (side : Side) :
    Alerting :=
  match world.phase side with
  | .reading =>
    if (fates side).read then world.go side (.fetching world.rule) else world.go side .finished
  | .fetching rule =>
    if (fates side).answer then
      let budget := timeline world.answers.length
      { world with answers := world.answers ++ [budget] }.go side (.raising rule budget)
    else world.go side .finished
  | .raising rule budget =>
    if isEscalation budget.status.text rule.previous then
      match (fates side).insert with
      | .done => (world.raise rule budget).go side (.storing budget)
      | .refused => world.go side .finished
      | .lost => (world.raise rule budget).go side .finished
    else world.go side (.storing budget)
  | .storing budget =>
    match (fates side).update with
    | .refused => world.go side .finished
    | .done | .lost => (world.setStatus budget).go side .finished
  | .finished => world

def run (timeline : Nat → BudgetStatus) (fates : Side → Fates) (world : Alerting)
    (turns : List Side) : Alerting :=
  turns.foldl (step timeline fates) world

/-! ### What should happen -/

/-- The strict increases of severity along some statuses. -/
def escalations (previous : String) : List BudgetStatus → Nat
  | [] => 0
  | budget :: rest => (if isEscalation budget.status.text previous then 1 else 0) +
      escalations budget.status.text rest

/-- The strict increases of rank along some levels. -/
def increases (previous : Level) : List Level → Nat
  | [] => 0
  | level :: rest => (if previous.rank < level.rank then 1 else 0) + increases level rest

/-- **From a status that the engine answers, an escalation is an increase of rank.** -/
theorem escalations_text (previous : Level) (answers : List BudgetStatus) :
    escalations previous.text answers = increases previous (answers.map BudgetStatus.status) := by
  induction answers generalizing previous with
  | nil => rfl
  | cons budget rest ih =>
    rw [escalations, isEscalation_text, ih, List.map_cons, increases]
    simp only [decide_eq_true_eq]

/-- The last of some statuses. -/
def latest (previous : String) (answers : List BudgetStatus) : String :=
  (answers.getLast?.map fun budget => budget.status.text).getD previous

/-- Every escalation is announced once, whatever the statuses are. -/
def Announces (fates : Side → Fates) (turns : List Side) : Prop :=
  ∀ (rule : EvaluableRule) (last : Option Level) (timeline : Nat → BudgetStatus),
    rule.lastStatus = last.map Level.text →
    (run timeline fates (.start rule) turns).raised.length =
      escalations rule.previous (run timeline fates (.start rule) turns).answers

/-- One evaluation makes all its calls before the other one makes its first. -/
def Serial (turns : List Side) (side : Side) : Prop := [side, side, side, side] <+: turns

/-- **The condition**: no evaluation that is answered has its insert refused, and if both are
answered, one has stored its status before the other one reads the rule. -/
structure Orderly (fates : Side → Fates) (turns : List Side) : Prop where
  inserts : ∀ side, (fates side).Answered → (fates side).insert ≠ .refused
  serial : (∀ side, (fates side).Answered) →
    ∃ side, Serial turns side ∧ (fates side).insert = .done ∧ (fates side).update ≠ .refused

/-- Both evaluations have ended: each has had its four turns. -/
def Complete (turns : List Side) : Prop := ∀ side, 4 ≤ turns.count side

/-! ### Turns -/

section

variable {timeline : Nat → BudgetStatus} {fates : Side → Fates} {world : Alerting}

@[simp] theorem Alerting.go_self (world : Alerting) (side : Side) (phase : Phase) :
    (world.go side phase).phase side = phase := Function.update_self ..

@[simp] theorem Alerting.go_other (world : Alerting) (side : Side) (phase : Phase) :
    (world.go side phase).phase side.other = world.phase side.other := by
  refine Function.update_of_ne ?_ ..
  cases side with
  | first | second => decide

theorem side_cases (last side : Side) : side = last ∨ side = last.other := by
  cases last <;> cases side <;> decide

theorem side_sum (weight : Side → Nat) (side : Side) :
    weight .first + weight .second = weight side + weight side.other := by
  cases side with
  | first => rfl
  | second => exact Nat.add_comm _ _

/-- What a turn can do. -/
inductive Turn (timeline : Nat → BudgetStatus) (fates : Side → Fates) (side : Side)
    (world : Alerting) : Alerting → Prop
  | read : world.phase side = .reading → (fates side).read = true →
      Turn timeline fates side world (world.go side (.fetching world.rule))
  | readFails : world.phase side = .reading → (fates side).read = false →
      Turn timeline fates side world (world.go side .finished)
  | answer {rule : EvaluableRule} : world.phase side = .fetching rule →
      (fates side).answer = true → Turn timeline fates side world
        ({ world with answers := world.answers ++ [timeline world.answers.length] }.go side
          (.raising rule (timeline world.answers.length)))
  | answerFails {rule : EvaluableRule} : world.phase side = .fetching rule →
      (fates side).answer = false → Turn timeline fates side world (world.go side .finished)
  | raise {rule : EvaluableRule} {budget : BudgetStatus} : world.phase side = .raising rule budget →
      isEscalation budget.status.text rule.previous = true → (fates side).insert = .done →
      Turn timeline fates side world ((world.raise rule budget).go side (.storing budget))
  | raiseLost {rule : EvaluableRule} {budget : BudgetStatus} :
      world.phase side = .raising rule budget →
      isEscalation budget.status.text rule.previous = true → (fates side).insert = .lost →
      Turn timeline fates side world ((world.raise rule budget).go side .finished)
  | raiseFails {rule : EvaluableRule} {budget : BudgetStatus} :
      world.phase side = .raising rule budget →
      isEscalation budget.status.text rule.previous = true → (fates side).insert = .refused →
      Turn timeline fates side world (world.go side .finished)
  | pass {rule : EvaluableRule} {budget : BudgetStatus} : world.phase side = .raising rule budget →
      isEscalation budget.status.text rule.previous = false →
      Turn timeline fates side world (world.go side (.storing budget))
  | store {budget : BudgetStatus} : world.phase side = .storing budget →
      (fates side).update ≠ .refused →
      Turn timeline fates side world ((world.setStatus budget).go side .finished)
  | storeFails {budget : BudgetStatus} : world.phase side = .storing budget →
      (fates side).update = .refused → Turn timeline fates side world (world.go side .finished)
  | finished : world.phase side = .finished → Turn timeline fates side world world

theorem step_turn (timeline : Nat → BudgetStatus) (fates : Side → Fates) (world : Alerting)
    (side : Side) : Turn timeline fates side world (step timeline fates world side) := by
  unfold step
  split
  all_goals rename_i phase
  · split
    · exact .read phase ‹_›
    · exact .readFails phase (Bool.eq_false_of_not_eq_true ‹_›)
  · split
    · exact .answer phase ‹_›
    · exact .answerFails phase (Bool.eq_false_of_not_eq_true ‹_›)
  · split
    · rename_i escalates
      split
      all_goals rename_i fate
      · exact .raise phase escalates fate
      · exact .raiseFails phase escalates fate
      · exact .raiseLost phase escalates fate
    · exact .pass phase (Bool.eq_false_of_not_eq_true ‹_›)
  · split
    all_goals rename_i fate
    · exact .storeFails phase fate
    · exact .store phase (by rw [fate]; decide)
    · exact .store phase (by rw [fate]; decide)
  · exact .finished phase

/-- The turns that an evaluation has left. -/
def Phase.left : Phase → Nat
  | .reading => 4
  | .fetching _ => 3
  | .raising _ _ => 2
  | .storing _ => 1
  | .finished => 0

/-- A turn takes an evaluation one call further, or ends it. -/
theorem Turn.left {side : Side} {world' : Alerting} (turn : Turn timeline fates side world world') :
    world'.phase side = .finished ∨ (world'.phase side).left + 1 = (world.phase side).left := by
  cases turn with
  | read phase _ | answer phase _ | raise phase _ _ | pass phase _ =>
    refine Or.inr ?_
    rw [Alerting.go_self, phase]
    rfl
  | readFails _ _ | answerFails _ _ | raiseLost _ _ _ | raiseFails _ _ _ | store _ _
  | storeFails _ _ => exact Or.inl (Alerting.go_self ..)
  | finished phase => exact Or.inl phase

/-- A turn of one evaluation does not move the other one. -/
theorem Turn.other {side : Side} {world' : Alerting}
    (turn : Turn timeline fates side world world') :
    world'.phase side.other = world.phase side.other := by
  cases turn with
  | finished _ => rfl
  | _ => exact Alerting.go_other ..

theorem run_snoc (turns : List Side) (side : Side) :
    run timeline fates world (turns ++ [side]) =
      step timeline fates (run timeline fates world turns) side :=
  List.foldl_concat ..

/-- An evaluation is finished, or has made one call in every turn. -/
theorem left_run (rule : EvaluableRule) (turns : List Side) (side : Side) :
    (run timeline fates (.start rule) turns).phase side = .finished ∨
      ((run timeline fates (.start rule) turns).phase side).left + turns.count side = 4 := by
  induction turns using List.reverseRecOn with
  | nil => exact Or.inr rfl
  | append_singleton turns last ih =>
    have turn := step_turn timeline fates (run timeline fates (.start rule) turns) last
    rw [run_snoc, List.count_append]
    rcases side_cases last side with rfl | rfl
    · rw [List.count_singleton_self]
      rcases turn.left, ih with ⟨finished | fewer, finished' | taken⟩
      · exact Or.inl finished
      · exact Or.inl finished
      · rw [finished'] at fewer
        cases fewer
      · exact Or.inr (by omega)
    · rw [turn.other, List.count_singleton, if_neg (by cases last <;> decide)]
      exact ih

theorem over_of_complete {turns : List Side} (complete : Complete turns) (rule : EvaluableRule)
    (side : Side) : (run timeline fates (.start rule) turns).phase side = .finished := by
  rcases left_run rule turns side with finished | left
  · exact finished
  · have four := complete side
    cases phase : (run timeline fates (.start rule) turns).phase side with
    | finished => rfl
    | reading | fetching _ | raising _ _ | storing _ =>
      rw [phase, Phase.left] at left
      omega

/-- What the calls made so far say about the fates. -/
def Phase.Earned (fates : Fates) : Phase → Prop
  | .reading | .finished => True
  | .fetching _ => fates.read = true
  | .raising _ _ | .storing _ => fates.Answered

theorem Turn.earned {side : Side} {world' : Alerting}
    (turn : Turn timeline fates side world world')
    (earned : ∀ side, (world.phase side).Earned (fates side)) (any : Side) :
    (world'.phase any).Earned (fates any) := by
  rcases side_cases side any with rfl | rfl
  · have before := earned any
    cases turn with
    | read _ reads =>
      rw [Alerting.go_self]
      exact reads
    | answer phase answers =>
      rw [phase] at before
      rw [Alerting.go_self]
      exact ⟨before, answers⟩
    | raise phase _ _ | pass phase _ =>
      rw [phase] at before
      rw [Alerting.go_self]
      exact before
    | finished phase => exact before
    | _ =>
      rw [Alerting.go_self]
      trivial
  · rw [turn.other]
    exact earned side.other

/-! ### Evaluations that do not overlap -/

theorem escalations_snoc (previous : String) (answers : List BudgetStatus)
    (budget : BudgetStatus) : escalations previous (answers ++ [budget]) =
      escalations previous answers +
        if isEscalation budget.status.text (latest previous answers) then 1 else 0 := by
  induction answers generalizing previous with
  | nil => exact Nat.add_comm _ _
  | cons head rest ih =>
    have same : latest previous (head :: rest) = latest head.status.text rest := by
      rw [latest, latest, List.getLast?_cons]
      cases rest.getLast? with
      | none | some _ => rfl
    rw [List.cons_append, escalations, escalations, ih, same, Nat.add_assoc]

/-- A notification that is about to be inserted. -/
def Phase.due : Phase → Nat
  | .raising rule budget => if isEscalation budget.status.text rule.previous then 1 else 0
  | .reading | .fetching _ | .storing _ | .finished => 0

/-- An evaluation that has not been answered yet knows the last answer: in the rule's row, or in its
copy of it. -/
def Phase.Knows (known : EvaluableRule) (status : String) : Phase → Prop
  | .reading => known.previous = status
  | .fetching rule => rule.previous = status
  | .raising _ _ | .storing _ | .finished => True

/-- An evaluation that is still to be answered. -/
def Phase.Waiting : Phase → Prop
  | .reading | .fetching _ => True
  | .raising _ _ | .storing _ | .finished => False

/-- **The invariant of an orderly run**: every escalation has been announced or is due, and whoever
waits for an answer knows the last one and is alone. -/
structure Keeping (fates : Side → Fates) (origin : String) (world : Alerting) : Prop where
  earned : ∀ side, (world.phase side).Earned (fates side)
  count : world.raised.length + ((world.phase .first).due + (world.phase .second).due) =
    escalations origin world.answers
  knows : ∀ side, (fates side).Answered →
    (world.phase side).Knows world.rule (latest origin world.answers)
  alone : ∀ side, (fates side).Answered → (world.phase side).Waiting →
    (fates side.other).Answered → world.phase side.other = .finished

theorem other_other (side : Side) : side.other.other = side := by
  cases side with
  | first | second => rfl

/-- What is left to show about the evaluation whose turn it is, if the other one does not wait. -/
theorem Keeping.of_side {origin : String} {side : Side}
    (earned : ∀ side, (world.phase side).Earned (fates side))
    (count : world.raised.length + ((world.phase side).due + (world.phase side.other).due) =
      escalations origin world.answers)
    (knows : (world.phase side).Knows world.rule (latest origin world.answers))
    (alone : (world.phase side).Waiting → (fates side.other).Answered →
      world.phase side.other = .finished)
    (calm : (fates side.other).Answered → ¬ (world.phase side.other).Waiting) :
    Keeping fates origin world := by
  refine ⟨earned, ?_, fun any answered => ?_, fun any answered waiting => ?_⟩
  · rw [side_sum (fun any => (world.phase any).due) side]
    exact count
  · rcases side_cases side any with rfl | rfl
    · exact knows
    · have still := calm answered
      cases phase : world.phase side.other with
      | reading | fetching _ =>
        rw [phase] at still
        exact absurd trivial still
      | raising _ _ | storing _ | finished => trivial
  · rcases side_cases side any with rfl | rfl
    · exact alone waiting
    · exact absurd waiting (calm answered)

/-- An evaluation that is never answered changes nothing but its own phase. -/
theorem Turn.mute {side : Side} {world' : Alerting} (turn : Turn timeline fates side world world')
    (earned : (world.phase side).Earned (fates side)) (unanswered : ¬ (fates side).Answered) :
    world'.rule = world.rule ∧ world'.answers = world.answers ∧ world'.raised = world.raised ∧
      (world'.phase side).due = (world.phase side).due := by
  cases turn with
  | read phase _ | readFails phase _ | answerFails phase _ =>
    refine ⟨rfl, rfl, rfl, ?_⟩
    rw [Alerting.go_self, phase]
    rfl
  | answer phase answers =>
    rw [phase] at earned
    exact absurd ⟨earned, answers⟩ unanswered
  | raise phase _ _ | raiseLost phase _ _ | raiseFails phase _ _ | pass phase _ | store phase _
  | storeFails phase _ =>
    rw [phase] at earned
    exact absurd earned unanswered
  | finished _ => exact ⟨rfl, rfl, rfl, rfl⟩

/-- **Every turn of an orderly run keeps the invariant.** -/
theorem Turn.keeping {origin : String} {side : Side} {world' : Alerting}
    (inserts : ∀ side, (fates side).Answered → (fates side).insert ≠ .refused)
    (turn : Turn timeline fates side world world') (keeping : Keeping fates origin world) :
    Keeping fates origin world' := by
  have earned := turn.earned keeping.earned
  have count := keeping.count
  rw [side_sum (fun any => (world.phase any).due) side] at count
  by_cases answered : (fates side).Answered
  swap
  · obtain ⟨sameRule, sameAnswers, sameRaised, sameDue⟩ := turn.mute (keeping.earned side) answered
    refine ⟨earned, ?_, fun any heard => ?_, fun any heard waiting heard' => ?_⟩
    · rw [side_sum (fun any => (world'.phase any).due) side, sameRaised, sameDue, turn.other, sameAnswers]
      exact count
    · rcases side_cases side any with rfl | rfl
      · exact absurd heard answered
      · rw [turn.other, sameRule, sameAnswers]
        exact keeping.knows _ heard
    · rcases side_cases side any with rfl | rfl
      · exact absurd heard answered
      · rw [other_other] at heard'
        exact absurd heard' answered
  by_cases ended : world.phase side = .finished
  · cases turn with
    | finished _ => exact keeping
    | read phase _ | readFails phase _ | answer phase _ | answerFails phase _ | raise phase _ _
    | raiseLost phase _ _ | raiseFails phase _ _ | pass phase _ | store phase _
    | storeFails phase _ => cases ended.symm.trans phase
  -- The other evaluation does not wait for an answer now.
  have calm : (fates side.other).Answered → ¬ (world'.phase side.other).Waiting := by
    intro heard waiting
    rw [turn.other] at waiting
    have finished := keeping.alone side.other heard waiting
    rw [other_other] at finished
    exact ended (finished answered)
  have knows := keeping.knows side answered
  cases turn with
  | read phase _ =>
    rw [phase] at count knows
    refine .of_side earned ?_ ?_ (fun _ heard => ?_) calm
    · rw [Alerting.go_self, Alerting.go_other]
      exact count
    · rw [Alerting.go_self]
      exact knows
    · rw [Alerting.go_other]
      exact keeping.alone side answered (by rw [phase]; trivial) heard
  | answer phase _ =>
    rw [phase] at count knows
    refine .of_side earned ?_ ?_ ?_ calm
    · rw [Alerting.go_self, Alerting.go_other]
      show world.raised.length + ((if _ then 1 else 0) + (world.phase side.other).due) =
        escalations origin (world.answers ++ [_])
      rw [escalations_snoc, ← count, ← (knows : _ = _)]
      show _ = world.raised.length + (0 + (world.phase side.other).due) + _
      omega
    · rw [Alerting.go_self]
      trivial
    · rw [Alerting.go_self]
      exact fun waiting => waiting.elim
  | raise phase escalates _ | raiseLost phase escalates _ =>
    rw [phase, Phase.due, if_pos escalates] at count
    refine .of_side earned ?_ ?_ ?_ calm
    · rw [Alerting.go_self, Alerting.go_other]
      show (world.raised ++ [_]).length + (0 + _) = _
      rw [List.length_append, List.length_singleton, Nat.zero_add, Nat.add_assoc]
      exact count
    · rw [Alerting.go_self]
      trivial
    · rw [Alerting.go_self]
      exact fun waiting => waiting.elim
  | raiseFails _ _ refused => exact absurd refused (inserts side answered)
  | pass phase steady =>
    rw [phase, Phase.due, steady] at count
    refine .of_side earned ?_ ?_ ?_ calm
    · rw [Alerting.go_self, Alerting.go_other]
      exact count
    · rw [Alerting.go_self]
      trivial
    · rw [Alerting.go_self]
      exact fun waiting => waiting.elim
  | store phase _ | storeFails phase _ =>
    rw [phase] at count
    refine .of_side earned ?_ ?_ ?_ calm
    · rw [Alerting.go_self, Alerting.go_other]
      exact count
    · rw [Alerting.go_self]
      trivial
    · rw [Alerting.go_self]
      exact fun waiting => waiting.elim
  | readFails _ fails =>
    rw [answered.1] at fails
    cases fails
  | answerFails _ fails =>
    rw [answered.2] at fails
    cases fails
  | finished phase => exact absurd phase ended

theorem Keeping.run {origin : String} (turns : List Side)
    (inserts : ∀ side, (fates side).Answered → (fates side).insert ≠ .refused)
    (keeping : Keeping fates origin world) :
    Keeping fates origin (run timeline fates world turns) := by
  induction turns using List.reverseRecOn with
  | nil => exact keeping
  | append_singleton turns side ih =>
    rw [run_snoc]
    exact (step_turn ..).keeping inserts ih

/-- Nothing is due when both evaluations are finished. -/
theorem Keeping.announced {origin : String} (keeping : Keeping fates origin world)
    (finished : ∀ side, world.phase side = .finished) :
    world.raised.length = escalations origin world.answers := by
  have count := keeping.count
  rw [finished, finished] at count
  exact count

/-- If at most one evaluation is answered, any order of turns will do. -/
theorem keeping_start {rule : EvaluableRule} {mute : Side} (unanswered : ¬ (fates mute).Answered) :
    Keeping fates rule.previous (.start rule) := by
  refine ⟨fun _ => trivial, rfl, fun _ _ => rfl, fun side heard _ heard' => ?_⟩
  rcases side_cases side mute with rfl | rfl
  · exact absurd heard unanswered
  · exact absurd heard' unanswered

/-- The four turns of an evaluation whose calls succeed. -/
theorem run_serial {rule : EvaluableRule} {side : Side} (answered : (fates side).Answered)
    (inserted : (fates side).insert = .done) (updated : (fates side).update ≠ .refused) :
    run timeline fates (.start rule) [side, side, side, side] =
      Alerting.go { rule := { rule with lastStatus := some (timeline 0).status.text }
                    answers := [timeline 0]
                    raised := if isEscalation (timeline 0).status.text rule.previous then
                      [rule.notification (timeline 0)] else []
                    phase := fun _ => .reading } side .finished := by
  cases escalates : isEscalation (timeline 0).status.text rule.previous with
  | true | false =>
    cases update : (fates side).update with
    | refused => exact absurd update updated
    | done | lost =>
      simp [run, step, Alerting.start, Alerting.go, Alerting.raise, Alerting.setStatus,
        answered.1, answered.2, inserted, escalates, update]

theorem keeping_serial {rule : EvaluableRule} {side : Side} (answered : (fates side).Answered)
    (inserted : (fates side).insert = .done) (updated : (fates side).update ≠ .refused) :
    Keeping fates rule.previous
      (run timeline fates (.start rule) [side, side, side, side]) := by
  rw [run_serial answered inserted updated]
  refine ⟨fun any => ?_, ?_, fun any _ => ?_, fun any _ waiting _ => ?_⟩
  · rcases side_cases side any with rfl | rfl
    · rw [Alerting.go_self]
      trivial
    · rw [Alerting.go_other]
      trivial
  · rw [side_sum (fun any => Phase.due (Alerting.phase _ any)) side, Alerting.go_self, Alerting.go_other]
    show List.length (if _ then _ else _) = (if _ then 1 else 0) + 0
    split
    · rfl
    · rfl
  · rcases side_cases side any with rfl | rfl
    · rw [Alerting.go_self]
      trivial
    · rw [Alerting.go_other]
      rfl
  · rcases side_cases side any with rfl | rfl
    · rw [Alerting.go_self] at waiting
      exact waiting.elim
    · rw [other_other, Alerting.go_self]

/-- **An orderly run announces every escalation once.** -/
theorem announces_of_orderly {turns : List Side} (complete : Complete turns)
    (orderly : Orderly fates turns) : Announces fates turns := by
  intro rule last timeline _
  have keeping : Keeping fates rule.previous (run timeline fates (.start rule) turns) := by
    by_cases both : ∀ side, (fates side).Answered
    · obtain ⟨side, ⟨rest, rfl⟩, inserted, updated⟩ := orderly.serial both
      rw [run, List.foldl_append]
      exact (keeping_serial (both side) inserted updated).run rest orderly.inserts
    · obtain ⟨mute, unanswered⟩ := not_forall.mp both
      exact (keeping_start unanswered).run turns orderly.inserts
  exact keeping.announced (over_of_complete complete rule)

/-! ### A refused notification is lost -/

/-- What an evaluation adds to the answers. -/
def Phase.heard (fates : Fates) : Phase → Nat
  | .reading | .fetching _ => 0
  | .raising _ _ | .storing _ => 1
  | .finished => if fates.Answered then 1 else 0

/-- What an evaluation may have announced. -/
def Phase.spoken (fates : Fates) : Phase → Nat
  | .reading | .fetching _ | .raising _ _ => 0
  | .storing _ | .finished => if fates.Answered ∧ fates.insert ≠ .refused then 1 else 0

/-- **Whatever the statuses are**: the answers follow the time line, one for each evaluation that is
answered, and each of these announces at most one of them. -/
structure Bounded (timeline : Nat → BudgetStatus) (fates : Side → Fates) (world : Alerting) :
    Prop where
  earned : ∀ side, (world.phase side).Earned (fates side)
  answers : world.answers = (List.range world.answers.length).map timeline
  heard : world.answers.length = (world.phase .first).heard (fates .first) +
    (world.phase .second).heard (fates .second)
  spoken : world.raised.length ≤ (world.phase .first).spoken (fates .first) +
    (world.phase .second).spoken (fates .second)

theorem Turn.heard {side : Side} {world' : Alerting} (turn : Turn timeline fates side world world')
    (earned : (world.phase side).Earned (fates side)) :
    world'.answers.length + (world.phase side).heard (fates side) =
      world.answers.length + (world'.phase side).heard (fates side) := by
  cases turn with
  | read phase _ =>
    rw [Alerting.go_self, phase]
    rfl
  | answer phase _ =>
    rw [Alerting.go_self, phase]
    show (world.answers ++ [_]).length = _
    rw [List.length_append]
    rfl
  | raise phase _ _ | pass phase _ =>
    rw [Alerting.go_self, phase]
    rfl
  | raiseLost phase _ _ | raiseFails phase _ _ | store phase _ | storeFails phase _ =>
    have answered : (fates side).Answered := by
      rw [phase] at earned
      exact earned
    rw [Alerting.go_self, phase, Phase.heard, Phase.heard, if_pos answered]
    rfl
  | readFails phase fails =>
    rw [Alerting.go_self, phase, Phase.heard, Phase.heard, if_neg (by simp [Fates.Answered, fails])]
    rfl
  | answerFails phase fails =>
    rw [Alerting.go_self, phase, Phase.heard, Phase.heard, if_neg (by simp [Fates.Answered, fails])]
    rfl
  | finished phase => rfl

theorem Turn.spoken {side : Side} {world' : Alerting}
    (turn : Turn timeline fates side world world')
    (earned : (world.phase side).Earned (fates side)) :
    world'.raised.length + (world.phase side).spoken (fates side) ≤
      world.raised.length + (world'.phase side).spoken (fates side) := by
  cases turn with
  | raise phase _ inserted | raiseLost phase _ inserted =>
    have answered : (fates side).Answered := by
      rw [phase] at earned
      exact earned
    rw [Alerting.go_self, phase, Phase.spoken, Phase.spoken,
      if_pos ⟨answered, by rw [inserted]; decide⟩]
    show (world.raised ++ [_]).length ≤ _
    rw [List.length_append]
    exact le_rfl
  | store phase _ | storeFails phase _ =>
    rw [Alerting.go_self, phase]
    exact le_rfl
  | finished phase => exact le_rfl
  | read phase _ | readFails phase _ | answer phase _ | answerFails phase _ | raiseFails phase _ _
  | pass phase _ =>
    rw [phase]
    exact Nat.le_add_right _ _

theorem Turn.bounded {side : Side} {world' : Alerting}
    (turn : Turn timeline fates side world world') (bounded : Bounded timeline fates world) :
    Bounded timeline fates world' := by
  have heard := bounded.heard
  have spoken := bounded.spoken
  rw [side_sum (fun any => (world.phase any).heard (fates any)) side] at heard
  rw [side_sum (fun any => (world.phase any).spoken (fates any)) side] at spoken
  have heard' := turn.heard (bounded.earned side)
  have spoken' := turn.spoken (bounded.earned side)
  refine ⟨turn.earned bounded.earned, ?_, ?_, ?_⟩
  · cases turn with
    | answer _ _ =>
      show world.answers ++ [_] = (List.range (world.answers ++ [_]).length).map timeline
      rw [List.length_append, List.length_singleton, List.range_succ, List.map_append,
        ← bounded.answers]
      rfl
    | _ => exact bounded.answers
  · rw [side_sum (fun any => (world'.phase any).heard (fates any)) side, turn.other]
    omega
  · rw [side_sum (fun any => (world'.phase any).spoken (fates any)) side, turn.other]
    omega

theorem bounded_run (rule : EvaluableRule) (turns : List Side) :
    Bounded timeline fates (run timeline fates (.start rule) turns) := by
  induction turns using List.reverseRecOn with
  | nil => exact ⟨fun _ => trivial, rfl, rfl, Nat.zero_le _⟩
  | append_singleton turns side ih =>
    rw [run_snoc]
    exact (step_turn ..).bounded ih

/-- A status of a time line, with no amounts. -/
def bare (level : Level) : BudgetStatus := ⟨"", "", "", "", level⟩

/-- A rule that was never evaluated. -/
def unevaluated : EvaluableRule := ⟨.nil, ⟨.nil⟩, "", ⟨.nil⟩, "", 30, none⟩

/-- First a warning, then the limit is exceeded. -/
def rising : Nat → BudgetStatus
  | 0 => bare .warning
  | _ + 1 => bare .exceeded

theorem inserts_of_announces {turns : List Side} (complete : Complete turns)
    (announces : Announces fates turns) (side : Side) (answered : (fates side).Answered) :
    (fates side).insert ≠ .refused := by
  intro refused
  have finished : ∀ side, (run rising fates (.start unevaluated) turns).phase side = .finished :=
    over_of_complete complete unevaluated
  have bounded : Bounded rising fates (run rising fates (.start unevaluated) turns) :=
    bounded_run unevaluated turns
  have all := announces unevaluated none rising rfl
  generalize run rising fates (.start unevaluated) turns = world at finished bounded all
  have heard := bounded.heard
  have spoken := bounded.spoken
  rw [side_sum (fun any => (world.phase any).heard (fates any)) side, finished, finished, Phase.heard,
    Phase.heard, if_pos answered] at heard
  rw [side_sum (fun any => (world.phase any).spoken (fates any)) side, finished, finished, Phase.spoken,
    Phase.spoken, if_neg fun both => both.2 refused] at spoken
  rw [bounded.answers] at all
  by_cases answered' : (fates side.other).Answered
  · -- Two escalations, and one evaluation to announce them.
    rw [heard, if_pos answered'] at all
    have two : escalations unevaluated.previous ((List.range (1 + 1)).map rising) = 2 := by decide
    rw [two] at all
    split at spoken
    · omega
    · omega
  · rw [heard, if_neg answered'] at all
    have one : escalations unevaluated.previous ((List.range (1 + 0)).map rising) = 1 := by decide
    rw [one] at all
    rw [if_neg fun both => answered' both.1] at spoken
    omega

/-! ### An overlap announces twice -/

/-- The status stays at a warning. -/
def steady : Nat → BudgetStatus := fun _ => bare .warning

/-- An evaluation that compares with the status from before both of them. -/
def Phase.Stale (fates : Fates) (known : EvaluableRule) : Phase → Prop
  | .reading => known.previous = "ok"
  | .fetching rule => rule.previous = "ok"
  | .raising rule budget => rule.previous = "ok" ∧ budget = bare .warning
  | .storing _ => fates.insert = .done
  | .finished => True

/-- What an evaluation has announced. -/
def Phase.said : Phase → Nat
  | .reading | .fetching _ | .raising _ _ => 0
  | .storing _ | .finished => 1

/-- **The invariant of an overlap**: both evaluations announce. -/
structure Repeating (fates : Side → Fates) (world : Alerting) : Prop where
  stale : ∀ side, (world.phase side).Stale (fates side) world.rule
  count : world.raised.length = (world.phase .first).said + (world.phase .second).said
  answers : ∀ budget ∈ world.answers, budget = bare .warning

theorem Repeating.of_side (side : Side)
    (stale : (world.phase side).Stale (fates side) world.rule)
    (stale' : (world.phase side.other).Stale (fates side.other) world.rule)
    (count : world.raised.length = (world.phase side).said + (world.phase side.other).said)
    (answers : ∀ budget ∈ world.answers, budget = bare .warning) : Repeating fates world := by
  refine ⟨fun any => ?_, ?_, answers⟩
  · rcases side_cases side any with rfl | rfl
    · exact stale
    · exact stale'
  · rw [side_sum (fun any => (world.phase any).said) side]
    exact count

/-- A turn keeps the invariant if nothing is stored before the other evaluation has read the rule. -/
theorem Turn.repeating {side : Side} {world' : Alerting}
    (turn : Turn steady fates side world world') (answered : (fates side).Answered)
    (inserts : (fates side).insert ≠ .refused)
    (unstored : ∀ budget, world.phase side = .storing budget → (fates side).insert = .done →
      world.phase side.other = .reading → (fates side).update = .refused)
    (repeating : Repeating fates world) : Repeating fates world' := by
  have stale := repeating.stale side
  have stale' := repeating.stale side.other
  have count := repeating.count
  rw [side_sum (fun any => (world.phase any).said) side] at count
  have escalates : isEscalation (bare .warning).status.text "ok" = true := by decide
  cases turn with
  | read phase _ =>
    rw [phase] at stale count
    refine .of_side side ?_ ?_ ?_ repeating.answers
    · rw [Alerting.go_self]
      exact stale
    · rw [Alerting.go_other]
      exact stale'
    · rw [Alerting.go_self, Alerting.go_other]
      exact count
  | answer phase _ =>
    rw [phase] at stale count
    refine .of_side side ?_ ?_ ?_ fun budget member => ?_
    · rw [Alerting.go_self]
      exact ⟨stale, rfl⟩
    · rw [Alerting.go_other]
      exact stale'
    · rw [Alerting.go_self, Alerting.go_other]
      exact count
    · rcases List.mem_append.mp member with old | new
      · exact repeating.answers budget old
      · exact List.mem_singleton.mp new
  | raise phase _ inserted | raiseLost phase _ inserted =>
    rw [phase] at count
    refine .of_side side ?_ ?_ ?_ repeating.answers
    · rw [Alerting.go_self]
      first | exact inserted | trivial
    · rw [Alerting.go_other]
      exact stale'
    · rw [Alerting.go_self, Alerting.go_other]
      show (world.raised ++ [_]).length = _
      rw [List.length_append, List.length_singleton, count]
      show 0 + (world.phase side.other).said + 1 = 1 + (world.phase side.other).said
      omega
  | pass phase steady =>
    rw [phase] at stale
    rw [stale.1, stale.2, escalates] at steady
    cases steady
  | store phase updated =>
    rw [phase] at stale count
    refine .of_side side ?_ ?_ ?_ repeating.answers
    · rw [Alerting.go_self]
      trivial
    · rw [Alerting.go_other]
      show (world.phase side.other).Stale _ _
      cases other : world.phase side.other with
      | reading => exact absurd (unstored _ phase stale other) updated
      | finished => trivial
      | fetching _ | raising _ _ | storing _ =>
        rw [other] at stale'
        exact stale'
    · rw [Alerting.go_self, Alerting.go_other]
      exact count
  | storeFails phase _ =>
    rw [phase] at count
    refine .of_side side ?_ ?_ ?_ repeating.answers
    · rw [Alerting.go_self]
      trivial
    · rw [Alerting.go_other]
      exact stale'
    · rw [Alerting.go_self, Alerting.go_other]
      exact count
  | raiseFails _ _ refused => exact absurd refused inserts
  | readFails _ fails =>
    rw [answered.1] at fails
    cases fails
  | answerFails _ fails =>
    rw [answered.2] at fails
    cases fails
  | finished _ => exact repeating

/-- Turns of one evaluation only. -/
theorem eq_replicate_of_count {turns : List Side} {side : Side}
    (none : turns.count side.other = 0) : turns = List.replicate (turns.count side) side := by
  have all : ∀ turn ∈ turns, turn = side := by
    intro turn member
    rcases side_cases side turn with rfl | rfl
    · rfl
    · exact absurd member (List.count_eq_zero.mp none)
  have same := List.eq_replicate_of_mem all
  rw [List.count_eq_length.mpr fun turn member => (all turn member).symm]
  exact same

/-- **No order of turns but a serial one keeps the second evaluation from announcing again.** -/
theorem repeating_run {turns : List Side} (answered : ∀ side, (fates side).Answered)
    (inserts : ∀ side, (fates side).insert ≠ .refused)
    (unstored : ∀ side, Serial turns side → (fates side).insert = .done →
      (fates side).update = .refused) (earlier : List Side) (start : earlier <+: turns) :
    Repeating fates (run steady fates (.start unevaluated) earlier) := by
  induction earlier using List.reverseRecOn with
  | nil =>
    refine ⟨fun _ => rfl, rfl, fun budget member => ?_⟩
    cases member
  | append_singleton earlier side ih =>
    have repeating := ih ((List.prefix_append _ _).trans start)
    rw [run_snoc]
    refine (step_turn ..).repeating (answered side) (inserts side)
      (fun budget storing inserted reading => ?_) repeating
    have three : earlier.count side = 3 := by
      rcases left_run unevaluated earlier side with finished | left
      · cases storing.symm.trans finished
      · rw [storing, Phase.left] at left
        omega
    have none : earlier.count side.other = 0 := by
      rcases left_run unevaluated earlier side.other with finished | left
      · cases reading.symm.trans finished
      · rw [reading, Phase.left] at left
        omega
    rw [eq_replicate_of_count none, three] at start
    exact unstored side start inserted

/-- A status that stays escalates at most once. -/
theorem escalations_steady {answers : List BudgetStatus}
    (steady : ∀ budget ∈ answers, budget = bare .warning) :
    escalations "ok" answers ≤ 1 := by
  have none : ∀ answers : List BudgetStatus, (∀ budget ∈ answers, budget = bare .warning) →
      escalations (bare .warning).status.text answers = 0 := by
    intro answers steady
    induction answers with
    | nil => rfl
    | cons budget rest ih =>
      obtain ⟨rfl, later⟩ := List.forall_mem_cons.mp steady
      rw [escalations, ih later]
      decide
  cases answers with
  | nil => exact Nat.zero_le _
  | cons budget rest =>
    obtain ⟨rfl, later⟩ := List.forall_mem_cons.mp steady
    rw [escalations, none rest later]
    decide

theorem serial_of_announces {turns : List Side} (complete : Complete turns)
    (announces : Announces fates turns) (answered : ∀ side, (fates side).Answered) :
    ∃ side, Serial turns side ∧ (fates side).insert = .done ∧ (fates side).update ≠ .refused := by
  by_contra never
  have inserts := fun side => inserts_of_announces complete announces side (answered side)
  have repeating : Repeating fates (run steady fates (.start unevaluated) turns) := by
    refine repeating_run answered inserts (fun side serial inserted => ?_) turns
      (List.prefix_refl _)
    by_contra updated
    exact never ⟨side, serial, inserted, updated⟩
  have count := repeating.count
  rw [over_of_complete complete, over_of_complete complete] at count
  have once : escalations unevaluated.previous _ ≤ 1 := escalations_steady repeating.answers
  rw [← announces unevaluated none steady rfl, count] at once
  exact absurd once (by decide)

/-- **One alert per escalation, if and only if the evaluations are orderly.** Whatever the statuses
are, the notifications raised are as many as the strict increases of severity along the engine's
answers, exactly if no evaluation that is answered has its notification refused, and, if both are
answered, one of them has made all its calls and stored its status before the other one reads the
rule. -/
theorem one_alert_per_escalation_iff {turns : List Side} (complete : Complete turns)
    (fates : Side → Fates) : Announces fates turns ↔ Orderly fates turns :=
  ⟨fun announces => ⟨inserts_of_announces complete announces,
    serial_of_announces complete announces⟩, announces_of_orderly complete⟩

end

/-- Every call succeeds. -/
def smooth : Side → Fates := fun _ => ⟨true, true, .done, .done⟩

/-- The scheduler evaluates the rule, and then the request does. -/
theorem one_alert_per_escalation_iff_apart :
    Complete (List.replicate 4 .first ++ List.replicate 4 .second) ∧
      Announces smooth (List.replicate 4 .first ++ List.replicate 4 .second) := by
  have complete : Complete (List.replicate 4 .first ++ List.replicate 4 .second) := by
    intro side
    cases side with
    | first | second => decide
  refine ⟨complete, (one_alert_per_escalation_iff complete smooth).mpr ⟨fun _ _ => ?_, fun _ => ?_⟩⟩
  · exact (by decide : Fate.done ≠ .refused)
  · exact ⟨.first, List.prefix_append _ _, rfl, by decide⟩

/-- Both evaluations read the rule before one of them writes it. -/
def overlapping : List Side :=
  [.first, .second, .first, .first, .first, .second, .second, .second]

/-- **An overlap**: no call fails, the status is a warning from the first answer on, and it is
announced twice. -/
theorem overlap_announces_twice : Complete overlapping ∧
    (run steady smooth (.start unevaluated) overlapping).answers =
      [bare .warning, bare .warning] ∧
    (run steady smooth (.start unevaluated) overlapping).raised.length = 2 ∧
    escalations unevaluated.previous
      (run steady smooth (.start unevaluated) overlapping).answers = 1 := by
  refine ⟨fun side => ?_, rfl, rfl, by decide⟩
  cases side with
  | first | second => decide

end Meter.ControlPlane
