/-
**What a program does: the statements that it makes, with their answers.**

A trace of a program is one way it can go, whatever the statements answer. It says nothing about
states, so traces of a program can be read off its text, and a run on a machine is one of them.

* `trace_bind` — a trace of a sequence is a trace of each part, one after the other.
* `trace_interleave` — **a trace of programs that run concurrently is a trace of each of them, in
  some order.**
* `Machine.run_trace` — a run is a trace that the machine follows; `Machine.Follows.log` and
  `Machine.Follows.sum` add up what its statements add to a log, and to a quantity.
-/

import Mathlib.Algebra.BigOperators.Group.List.Basic
import Meter.Lib.Discipline

namespace Meter.Lib

variable {Stmt : Type → Type} {S α β γ : Type}

/-- A statement and its answer. -/
abbrev Event (Stmt : Type → Type) : Type 1 := (β : Type) × Stmt β × β

/-- The program can make these statements, if they are answered like this, and end with a result. -/
def Prog.Trace : Prog Stmt α → List (Event Stmt) → α → Prop
  | .done value, events, result => events = [] ∧ value = result
  | .stmt statement next, events, result =>
    ∃ answer rest, events = ⟨_, statement, answer⟩ :: rest ∧ Trace (next answer) rest result

/-! ### Sequences -/

/-- **A trace of a sequence**: a trace of the first program, then one of the second. -/
theorem trace_bind {program : Prog Stmt α} {rest : α → Prog Stmt β} {events : List (Event Stmt)}
    {result : β} : (program.bind rest).Trace events result ↔ ∃ first middle second,
      program.Trace first middle ∧ (rest middle).Trace second result ∧ events = first ++ second := by
  induction program generalizing events with
  | done value =>
    constructor
    · intro trace
      exact ⟨[], value, events, ⟨rfl, rfl⟩, trace, rfl⟩
    · rintro ⟨_, _, second, ⟨rfl, rfl⟩, trace, rfl⟩
      exact trace
  | stmt statement next ih =>
    constructor
    · rintro ⟨answer, more, rfl, trace⟩
      obtain ⟨first, middle, second, one, other, rfl⟩ := (ih answer).mp trace
      exact ⟨_, middle, second, ⟨answer, first, rfl, one⟩, other, rfl⟩
    · rintro ⟨_, middle, second, ⟨answer, first, rfl, one⟩, other, rfl⟩
      exact ⟨answer, _, rfl, (ih answer).mpr ⟨first, middle, second, one, other, rfl⟩⟩

/-- A trace of one statement. -/
theorem trace_issue {statement : Stmt α} {events : List (Event Stmt)} {result : α} :
    (Prog.issue statement).Trace events result ↔ events = [⟨_, statement, result⟩] := by
  constructor
  · rintro ⟨answer, _, rfl, rfl, rfl⟩
    rfl
  · rintro rfl
    exact ⟨result, [], rfl, rfl, rfl⟩

variable {ε : Type}

/-- A trace of a sequence of programs that may fail. -/
theorem trace_exceptBind {program : ExceptT ε (Prog Stmt) α} {rest : α → ExceptT ε (Prog Stmt) β}
    {events : List (Event Stmt)} {outcome : Except ε β} :
    Prog.Trace (program >>= rest).run events outcome ↔
      (∃ error, Prog.Trace program.run events (.error error) ∧ outcome = .error error) ∨
        ∃ first value second, Prog.Trace program.run first (.ok value) ∧
          Prog.Trace (rest value).run second outcome ∧ events = first ++ second := by
  refine (trace_bind : Prog.Trace (Prog.bind program.run _) events outcome ↔ _).trans ?_
  constructor
  · rintro ⟨first, middle, second, one, other, rfl⟩
    cases middle with
    | error error =>
      obtain ⟨rfl, rfl⟩ := other
      exact Or.inl ⟨error, (List.append_nil first).symm ▸ one, rfl⟩
    | ok value => exact Or.inr ⟨first, value, second, one, other, rfl⟩
  · rintro (⟨error, one, rfl⟩ | ⟨first, value, second, one, other, rfl⟩)
    · exact ⟨events, .error error, [], one, ⟨rfl, rfl⟩, (List.append_nil events).symm⟩
    · exact ⟨first, .ok value, second, one, other, rfl⟩

/-- A computation on the result of a program that may fail. -/
theorem trace_exceptMap {program : ExceptT ε (Prog Stmt) α} {f : α → β}
    {events : List (Event Stmt)} {outcome : Except ε β} :
    Prog.Trace (f <$> program).run events outcome ↔
      ∃ before, Prog.Trace program.run events before ∧ outcome = before.map f := by
  refine (trace_bind : Prog.Trace (Prog.bind program.run _) events outcome ↔ _).trans ?_
  constructor
  · rintro ⟨first, middle, second, one, other, rfl⟩
    cases middle with
    | error error =>
      obtain ⟨rfl, rfl⟩ := other
      exact ⟨.error error, (List.append_nil first).symm ▸ one, rfl⟩
    | ok value =>
      obtain ⟨rfl, rfl⟩ := other
      exact ⟨.ok value, (List.append_nil first).symm ▸ one, rfl⟩
  · rintro ⟨before, one, rfl⟩
    refine ⟨events, before, [], one, ?_, (List.append_nil events).symm⟩
    cases before <;> exact ⟨rfl, rfl⟩

/-! ### Concurrent programs -/

/-- A trace of every program, with its result. -/
def Traces (programs : List (Prog Stmt (Option α))) (parts : List (List (Event Stmt) × α)) : Prop :=
  List.Forall₂ (fun program part => program.Trace part.1 (some part.2)) programs parts

theorem trace_inTurn {programs : List (Prog Stmt (Option α))} {events : List (Event Stmt)}
    {results : List α} (trace : (inTurn programs).Trace events (some results)) :
    ∃ parts, Traces programs parts ∧ results = parts.map Prod.snd ∧
      events = parts.flatMap Prod.fst := by
  induction programs generalizing events results with
  | nil =>
    obtain ⟨rfl, same⟩ := trace
    cases same
    exact ⟨[], .nil, rfl, rfl⟩
  | cons program programs ih =>
    obtain ⟨first, middle, second, one, others, rfl⟩ := trace_bind.mp trace
    cases middle with
    | none => cases others.2
    | some value =>
      obtain ⟨more, answers, last, rest, ⟨rfl, same⟩, rfl⟩ := trace_bind.mp others
      cases answers with
      | none => cases same
      | some answers =>
        cases same
        obtain ⟨parts, traces, rfl, rfl⟩ := ih rest
        exact ⟨(first, value) :: parts, .cons one traces, rfl, by simp⟩

/-- The traces before one of the programs made a statement. -/
theorem Traces.of_set {programs : List (Prog Stmt (Option α))} {turn : Nat} {statement : Stmt β}
    {next : β → Prog Stmt (Option α)} (found : programs[turn]? = some (.stmt statement next))
    {answer : β} {parts : List (List (Event Stmt) × α)}
    (traces : Traces (programs.set turn (next answer)) parts) :
    ∃ parts', Traces programs parts' ∧ parts'.map Prod.snd = parts.map Prod.snd ∧
      (⟨_, statement, answer⟩ :: parts.flatMap Prod.fst).Perm (parts'.flatMap Prod.fst) := by
  induction programs generalizing turn parts with
  | nil => cases found
  | cons program programs ih =>
    cases turn with
    | zero =>
      cases found
      cases traces with
      | @cons _ part _ parts one traces =>
        exact ⟨(⟨_, statement, answer⟩ :: part.1, part.2) :: parts,
          .cons ⟨answer, part.1, rfl, one⟩ traces, rfl, .refl _⟩
    | succ turn =>
      cases traces with
      | @cons _ part _ parts one traces =>
        obtain ⟨parts', traces', results, shuffled⟩ := ih found traces
        refine ⟨part :: parts', .cons one traces', congrArg (part.2 :: ·) results, ?_⟩
        rw [List.flatMap_cons, List.flatMap_cons]
        exact List.perm_middle.symm.trans (shuffled.append_left part.1)

/-- **A trace of concurrent programs is a trace of each of them, in some order.** -/
theorem trace_interleave {turns : List Nat} {programs : List (Prog Stmt (Option α))}
    {events : List (Event Stmt)} {results : List α}
    (trace : (interleave turns programs).Trace events (some results)) :
    ∃ parts, Traces programs parts ∧ results = parts.map Prod.snd ∧
      events.Perm (parts.flatMap Prod.fst) := by
  induction turns generalizing programs events with
  | nil =>
    obtain ⟨parts, traces, results, rfl⟩ := trace_inTurn trace
    exact ⟨parts, traces, results, .refl _⟩
  | cons turn turns ih =>
    unfold interleave at trace
    split at trace
    · exact ih trace
    · exact ih trace
    · cases trace.2
    · rename_i statement next found
      obtain ⟨answer, rest, rfl, trace⟩ := trace
      obtain ⟨parts, traces, rfl, shuffled⟩ := ih trace
      obtain ⟨parts', traces', results, shuffled'⟩ := traces.of_set found
      exact ⟨parts', traces', results.symm, (shuffled.cons _).trans shuffled'⟩

/-- Programs that never end with nothing do not when they run in turn. -/
theorem inTurn_completes {programs : List (Prog Stmt (Option α))}
    (completes : ∀ program ∈ programs, ∀ events, ¬ program.Trace events none)
    {events : List (Event Stmt)} : ¬ (inTurn programs).Trace events none := by
  induction programs generalizing events with
  | nil => exact fun trace => by cases trace.2
  | cons program programs ih =>
    intro trace
    obtain ⟨first, middle, second, one, others, rfl⟩ := trace_bind.mp trace
    cases middle with
    | none => exact completes program List.mem_cons_self first one
    | some value =>
      obtain ⟨more, answers, last, rest, ⟨rfl, same⟩, rfl⟩ := trace_bind.mp others
      cases answers with
      | none => exact ih (fun other member => completes other (List.mem_cons_of_mem _ member)) rest
      | some answers => cases same

/-- **Programs that never end with nothing do not when they run concurrently.** -/
theorem interleave_completes {turns : List Nat} {programs : List (Prog Stmt (Option α))}
    (completes : ∀ program ∈ programs, ∀ events, ¬ program.Trace events none)
    {events : List (Event Stmt)} : ¬ (interleave turns programs).Trace events none := by
  induction turns generalizing programs events with
  | nil => exact inTurn_completes completes
  | cons turn turns ih =>
    unfold interleave
    split
    · exact ih completes
    · exact ih completes
    · rename_i found
      exact absurd ⟨rfl, rfl⟩ (completes _ (List.mem_of_getElem? found) [])
    · rename_i statement next found
      rintro ⟨answer, rest, rfl, trace⟩
      refine ih (fun program member more ended => ?_) trace
      rcases List.mem_or_eq_of_mem_set member with other | rfl
      · exact completes program other more ended
      · exact completes _ (List.mem_of_getElem? found) _ ⟨answer, more, rfl, ended⟩

/-! ### Runs -/

namespace Machine

variable {M : Machine Stmt S}

theorem run_bind (program : Prog Stmt α) (rest : α → Prog Stmt β) (s : S) :
    M.run (program.bind rest) s = M.run (rest (M.run program s).1) (M.run program s).2 := by
  induction program generalizing s with
  | done result => rfl
  | stmt statement next ih => exact ih _ _

variable (M) in
/-- The machine answers like this, and leads from one state to the other. -/
def Follows : List (Event Stmt) → S → S → Prop
  | [], s, s' => s = s'
  | ⟨_, statement, answer⟩ :: rest, s, s' =>
    (M.exec statement s).1 = answer ∧ Follows rest (M.exec statement s).2 s'

/-- **A run is a trace that the machine follows.** -/
theorem run_trace (program : Prog Stmt α) (s : S) : ∃ events,
    program.Trace events (M.run program s).1 ∧ M.Follows events s (M.run program s).2 := by
  induction program generalizing s with
  | done result => exact ⟨[], ⟨rfl, rfl⟩, rfl⟩
  | stmt statement next ih =>
    obtain ⟨events, trace, follows⟩ := ih (M.exec statement s).1 (M.exec statement s).2
    exact ⟨⟨_, statement, _⟩ :: events, ⟨_, events, rfl, trace⟩, rfl, follows⟩

/-- **A log grows by what the statements add to it.** -/
theorem Follows.log (log : S → List γ) (adds : Event Stmt → List γ → Prop)
    (grows : ∀ {β : Type} (statement : Stmt β) (s : S), ∃ new,
      adds ⟨β, statement, (M.exec statement s).1⟩ new ∧ log (M.exec statement s).2 = log s ++ new)
    {events : List (Event Stmt)} {s s' : S} (follows : M.Follows events s s') :
    ∃ news : List (List γ), List.Forall₂ adds events news ∧ log s' = log s ++ news.flatten := by
  induction events generalizing s with
  | nil =>
    subst follows
    exact ⟨[], .nil, by simp⟩
  | cons event events ih =>
    obtain ⟨β, statement, answer⟩ := event
    obtain ⟨rfl, follows⟩ := follows
    obtain ⟨new, added, grown⟩ := grows statement s
    obtain ⟨news, addeds, last⟩ := ih follows
    exact ⟨new :: news, .cons added addeds, by rw [last, grown, List.flatten_cons, List.append_assoc]⟩

/-- **A quantity grows by what the statements add to it.** -/
theorem Follows.sum {A : Type} [AddMonoid A] (quantity : S → A) (adds : Event Stmt → A)
    (grows : ∀ {β : Type} (statement : Stmt β) (s : S), quantity (M.exec statement s).2 =
      quantity s + adds ⟨β, statement, (M.exec statement s).1⟩)
    {events : List (Event Stmt)} {s s' : S} (follows : M.Follows events s s') :
    quantity s' = quantity s + (events.map adds).sum := by
  induction events generalizing s with
  | nil =>
    subst follows
    simp
  | cons event events ih =>
    obtain ⟨β, statement, answer⟩ := event
    obtain ⟨rfl, follows⟩ := follows
    rw [ih follows, grows, List.map_cons, List.sum_cons, add_assoc]

end Machine

end Meter.Lib
