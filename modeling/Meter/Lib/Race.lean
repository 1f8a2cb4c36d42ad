/-
**Requests against a server, one atomic call at a time.**

A request is a program of calls, and a `Server` says what a call may answer and which state it may
leave. Every call is atomic, but the calls of one request are not: a request can be cut off between
two of its calls, and two requests can be interleaved.

* `Server.Calls` — what a request still has to do after some calls. `Serves` is a request that ran
  to its answer, alone, and `Cut` one that stopped after any number of calls.
* `Runs` — requests one after another, each with the state it found.
* `Server.Race` — two requests under an explicit list of turns.
* `Server.Assures` — **the rely-guarantee rule**: what a request ends with as long as the other one
  only does what is relied on. `race_assures` pairs two of them.
* `Server.Turns` — any number of requests, which start, make calls and are cut off at any time.
  `Turns.request` is the rule for one among them, and `Pool.follow` runs a written-out schedule.
-/

import Meter.Lib.Transaction

namespace Meter.Lib

/-! ### One request after another -/

/-- Requests one after another, each with the state it found. -/
inductive Runs {R S : Type} (Served : R → S → S → Prop) (start : S) : List (R × S) → S → Prop
  | nil : Runs Served start [] start
  | snoc {steps : List (R × S)} {s s' : S} (request : R) : Runs Served start steps s →
      Served request s s' → Runs Served start (steps ++ [(request, s)]) s'

/-- Computed requests, one after another. -/
theorem runs_of_foldlM {I R S : Type} {Served : R → S → S → Prop} {start : S}
    (serve : I → R → S → Option S)
    (served : ∀ input request s s', serve input request s = some s' → Served request s s')
    {script : List (I × R)} {run last : List (R × S) × S} (runs : Runs Served start run.1 run.2)
    (computed : script.foldlM (fun (run : List (R × S) × S) step =>
      (serve step.1 step.2 run.2).map fun s' => (run.1 ++ [(step.2, run.2)], s')) run = some last) :
    Runs Served start last.1 last.2 ∧
      last.1.map Prod.fst = run.1.map Prod.fst ++ script.map Prod.snd := by
  induction script generalizing run with
  | nil =>
    cases computed
    exact ⟨runs, (List.append_nil _).symm⟩
  | cons step rest ih =>
    rw [List.foldlM_cons] at computed
    obtain ⟨next, stepped, computed⟩ := Option.bind_eq_some_iff.mp computed
    obtain ⟨s', one, rfl⟩ := Option.map_eq_some_iff.mp stepped
    obtain ⟨runs', attempts⟩ := ih (.snoc step.2 runs (served _ _ _ _ one)) computed
    refine ⟨runs', attempts.trans ?_⟩
    rw [List.map_append, List.map_singleton, List.append_assoc]
    rfl

/-- Computed requests whose replies are part of the run. -/
theorem runs_of_replies {I R S : Type} {Served : R → S → S → Prop} {start : S}
    (serve : I → S → Option (R × S))
    (served : ∀ input s request s', serve input s = some (request, s') → Served request s s')
    {inputs : List I} {run last : List (R × S) × S} (runs : Runs Served start run.1 run.2)
    (computed : inputs.foldlM (fun (run : List (R × S) × S) input =>
      (serve input run.2).map fun out => (run.1 ++ [(out.1, run.2)], out.2)) run = some last) :
    Runs Served start last.1 last.2 := by
  induction inputs generalizing run with
  | nil =>
    cases computed
    exact runs
  | cons input rest ih =>
    rw [List.foldlM_cons] at computed
    obtain ⟨next, stepped, computed⟩ := Option.bind_eq_some_iff.mp computed
    obtain ⟨⟨request, s'⟩, one, rfl⟩ := Option.map_eq_some_iff.mp stepped
    exact ih (.snoc request runs (served _ _ _ _ one)) computed

/-- Requests that are served by a function, one after another. -/
theorem runs_of_foldl {I R S : Type} {Served : R → S → S → Prop} {start : S} (serve : I → S → R × S)
    (served : ∀ input s, Served (serve input s).1 s (serve input s).2) (inputs : List I)
    {run : List (R × S) × S} (runs : Runs Served start run.1 run.2) :
    Runs Served start
      (inputs.foldl (fun (run : List (R × S) × S) input =>
        (run.1 ++ [((serve input run.2).1, run.2)], (serve input run.2).2)) run).1
      (inputs.foldl (fun (run : List (R × S) × S) input =>
        (run.1 ++ [((serve input run.2).1, run.2)], (serve input run.2).2)) run).2 := by
  induction inputs generalizing run with
  | nil => exact runs
  | cons input rest ih => exact ih (.snoc _ runs (served input _))

/-- Every request of a run, with the state it found and the state it left. -/
def transitions {R S : Type} : List (R × S) → S → List (R × S × S)
  | [], _ => []
  | (request, s) :: rest, last =>
    (request, s, (rest.head?.map Prod.snd).getD last) :: transitions rest last

theorem transitions_snoc {R S : Type} (steps : List (R × S)) (request : R) (s s' : S) :
    transitions (steps ++ [(request, s)]) s' = transitions steps s ++ [(request, s, s')] := by
  induction steps with
  | nil => rfl
  | cons step rest ih =>
    rw [List.cons_append, transitions, transitions, ih]
    cases rest with
    | nil => rfl
    | cons next rest => rfl

theorem mem_of_transitions {R S : Type} {steps : List (R × S)} {last : S} {past : R × S × S}
    (member : past ∈ transitions steps last) : (past.1, past.2.1) ∈ steps := by
  induction steps with
  | nil => exact absurd member List.not_mem_nil
  | cons step rest ih =>
    rcases List.mem_cons.mp member with rfl | later
    · exact List.mem_cons_self
    · exact List.mem_cons_of_mem _ (ih later)

/-- What a call may answer, and the state it may leave. -/
structure Server (Stmt : Type → Type) (S : Type) where
  perform : {β : Type} → Stmt β → S → β → S → Prop

namespace Server

variable {Stmt : Type → Type} {S : Type} {α β : Type} (V : Server Stmt S)

/-! ### One request -/

/-- What remains of a request after some of its calls, and the state then. -/
inductive Calls : Nat → Prog Stmt α → S → Prog Stmt α → S → Prop
  | none (program : Prog Stmt α) (s : S) : Calls 0 program s program s
  | call {γ : Type} {statement : Stmt γ} {next : γ → Prog Stmt α} {s middle s' : S} {answer : γ}
      {count : Nat} {rest : Prog Stmt α} : V.perform statement s answer middle →
      Calls count (next answer) middle rest s' →
      Calls (count + 1) (.stmt statement next) s rest s'

/-- A request that runs alone to its answer. -/
def Serves (program : Prog Stmt α) (s : S) (reply : α) (s' : S) : Prop :=
  ∃ count, V.Calls count program s (.done reply) s'

/-- A request that runs alone and stops after some of its calls. -/
def Cut (program : Prog Stmt α) (s s' : S) : Prop := ∃ count rest, V.Calls count program s rest s'

variable {V}

theorem Calls.zero_inv {program rest : Prog Stmt α} {s s' : S}
    (calls : V.Calls 0 program s rest s') : rest = program ∧ s' = s := by
  cases calls
  exact ⟨rfl, rfl⟩

theorem Calls.succ_inv {γ : Type} {statement : Stmt γ} {next : γ → Prog Stmt α}
    {rest : Prog Stmt α} {s s' : S} {count : Nat}
    (calls : V.Calls (count + 1) (.stmt statement next) s rest s') :
    ∃ answer middle, V.perform statement s answer middle ∧
      V.Calls count (next answer) middle rest s' := by
  cases calls with
  | call performed later => exact ⟨_, _, performed, later⟩

/-- **What every call keeps, a request keeps.** -/
theorem Calls.keeps (Kept : S → Prop) (kept : ∀ {γ : Type} (statement : Stmt γ) s answer s',
      V.perform statement s answer s' → Kept s → Kept s') {count : Nat} {program rest : Prog Stmt α}
    {s s' : S} (calls : V.Calls count program s rest s') (before : Kept s) : Kept s' := by
  induction calls with
  | none program s => exact before
  | call performed _ ih => exact ih (kept _ _ _ _ performed before)

theorem Serves.cut {program : Prog Stmt α} {s s' : S} {reply : α}
    (serves : V.Serves program s reply s') : V.Cut program s s' := by
  obtain ⟨count, calls⟩ := serves
  exact ⟨count, _, calls⟩

@[simp] theorem serves_done {result reply : α} {s s' : S} :
    V.Serves (.done result) s reply s' ↔ reply = result ∧ s' = s := by
  constructor
  · rintro ⟨count, calls⟩
    cases calls
    exact ⟨rfl, rfl⟩
  · rintro ⟨rfl, rfl⟩
    exact ⟨0, .none _ _⟩

theorem serves_stmt {γ : Type} {statement : Stmt γ} {next : γ → Prog Stmt α} {reply : α}
    {s s' : S} : V.Serves (.stmt statement next) s reply s' ↔
      ∃ answer middle, V.perform statement s answer middle ∧
        V.Serves (next answer) middle reply s' := by
  constructor
  · rintro ⟨count, calls⟩
    cases calls with
    | call performed rest => exact ⟨_, _, performed, _, rest⟩
  · rintro ⟨answer, middle, performed, count, rest⟩
    exact ⟨count + 1, .call performed rest⟩

/-- Run a request alone, with a function that answers its calls. -/
def runWith (exec : {γ : Type} → Stmt γ → S → γ × S) : Prog Stmt α → S → α × S
  | .done reply, s => (reply, s)
  | .stmt statement next, s =>
    runWith exec (next (exec statement s).1) (exec statement s).2

/-- **A computed run is a run.** -/
theorem serves_runWith {exec : {γ : Type} → Stmt γ → S → γ × S}
    (performs : ∀ {γ : Type} (statement : Stmt γ) s,
      V.perform statement s (exec statement s).1 (exec statement s).2)
    (program : Prog Stmt α) (s : S) :
    V.Serves program s (runWith exec program s).1 (runWith exec program s).2 := by
  induction program generalizing s with
  | done reply => exact serves_done.mpr ⟨rfl, rfl⟩
  | stmt statement next ih => exact serves_stmt.mpr ⟨_, _, performs statement s, ih _ _⟩

theorem serves_bind {γ : Type} {program : Prog Stmt γ} {rest : γ → Prog Stmt α} {reply : α}
    {s s' : S} (serves : V.Serves (program.bind rest) s reply s') :
    ∃ answer middle, V.Serves program s answer middle ∧
      V.Serves (rest answer) middle reply s' := by
  induction program generalizing s with
  | done result => exact ⟨result, s, serves_done.mpr ⟨rfl, rfl⟩, serves⟩
  | stmt statement next ih =>
    obtain ⟨answer, middle, performed, later⟩ := serves_stmt.mp serves
    obtain ⟨answer', middle', first, second⟩ := ih answer later
    exact ⟨answer', middle', serves_stmt.mpr ⟨answer, middle, performed, first⟩, second⟩

@[simp] theorem cut_done {result : α} {s s' : S} : V.Cut (.done result) s s' ↔ s' = s := by
  constructor
  · rintro ⟨count, rest, calls⟩
    cases calls
    rfl
  · rintro rfl
    exact ⟨0, _, .none _ _⟩

theorem cut_stmt {γ : Type} {statement : Stmt γ} {next : γ → Prog Stmt α} {s s' : S} :
    V.Cut (.stmt statement next) s s' ↔ s' = s ∨
      ∃ answer middle, V.perform statement s answer middle ∧ V.Cut (next answer) middle s' := by
  constructor
  · rintro ⟨count, rest, calls⟩
    cases calls with
    | none => exact Or.inl rfl
    | call performed later => exact Or.inr ⟨_, _, performed, _, _, later⟩
  · rintro (rfl | ⟨answer, middle, performed, count, rest, later⟩)
    · exact ⟨0, _, .none _ _⟩
    · exact ⟨count + 1, rest, .call performed later⟩

/-! ### Two requests -/

/-- Whose turn it is. -/
inductive Side where
  | first
  | second
  deriving DecidableEq

/-- The other request. -/
def Side.other : Side → Side
  | .first => .second
  | .second => .first

variable (V)

/-- What remains of two requests after some turns, and the state then. -/
inductive Race : List Side → Prog Stmt α → Prog Stmt β → S → Prog Stmt α → Prog Stmt β → S → Prop
  | none (left : Prog Stmt α) (right : Prog Stmt β) (s : S) : Race [] left right s left right s
  | first {γ : Type} {statement : Stmt γ} {next : γ → Prog Stmt α} {right right' : Prog Stmt β}
      {left' : Prog Stmt α} {s middle s' : S} {answer : γ} {turns : List Side} :
      V.perform statement s answer middle →
      Race turns (next answer) right middle left' right' s' →
      Race (.first :: turns) (.stmt statement next) right s left' right' s'
  | second {γ : Type} {statement : Stmt γ} {next : γ → Prog Stmt β} {left left' : Prog Stmt α}
      {right' : Prog Stmt β} {s middle s' : S} {answer : γ} {turns : List Side} :
      V.perform statement s answer middle →
      Race turns left (next answer) middle left' right' s' →
      Race (.second :: turns) left (.stmt statement next) s left' right' s'

/-- Two requests that both ran to their answers. -/
def Finishes (turns : List Side) (left : Prog Stmt α) (right : Prog Stmt β) (s : S) (reply : α)
    (reply' : β) (s' : S) : Prop :=
  V.Race turns left right s (.done reply) (.done reply') s'

variable {V}

theorem Race.nil_inv {left left' : Prog Stmt α} {right right' : Prog Stmt β} {s s' : S}
    (race : V.Race [] left right s left' right' s') : left' = left ∧ right' = right ∧ s' = s := by
  cases race
  exact ⟨rfl, rfl, rfl⟩

theorem Race.first_inv {γ : Type} {statement : Stmt γ} {next : γ → Prog Stmt α} {turns : List Side}
    {left' : Prog Stmt α} {right right' : Prog Stmt β} {s s' : S}
    (race : V.Race (.first :: turns) (.stmt statement next) right s left' right' s') :
    ∃ answer middle, V.perform statement s answer middle ∧
      V.Race turns (next answer) right middle left' right' s' := by
  cases race with
  | first performed rest => exact ⟨_, _, performed, rest⟩

theorem Race.second_inv {γ : Type} {statement : Stmt γ} {next : γ → Prog Stmt β}
    {turns : List Side} {left left' : Prog Stmt α} {right' : Prog Stmt β} {s s' : S}
    (race : V.Race (.second :: turns) left (.stmt statement next) s left' right' s') :
    ∃ answer middle, V.perform statement s answer middle ∧
      V.Race turns left (next answer) middle left' right' s' := by
  cases race with
  | second performed rest => exact ⟨_, _, performed, rest⟩

/-- When the second request is over, the first one runs alone. -/
theorem Race.calls {turns : List Side} {left left' : Prog Stmt α} {result : β}
    {right' : Prog Stmt β} {s s' : S} (race : V.Race turns left (.done result) s left' right' s') :
    ∃ count, V.Calls count left s left' s' := by
  generalize isRight : (.done result : Prog Stmt β) = right at race
  induction race with
  | none left right s => exact ⟨0, .none _ _⟩
  | first performed _ ih =>
    obtain ⟨count, calls⟩ := ih isRight
    exact ⟨count + 1, .call performed calls⟩
  | second performed _ _ => cases isRight

/-- A race has a middle. -/
theorem Race.split {turns later : List Side} {left left' : Prog Stmt α} {right right' : Prog Stmt β}
    {s s' : S} (race : V.Race (turns ++ later) left right s left' right' s') :
    ∃ middleLeft middleRight middle, V.Race turns left right s middleLeft middleRight middle ∧
      V.Race later middleLeft middleRight middle left' right' s' := by
  induction turns generalizing left right s with
  | nil => exact ⟨left, right, s, .none _ _ _, race⟩
  | cons side turns ih =>
    cases race with
    | first performed rest =>
      obtain ⟨_, _, _, early, late⟩ := ih rest
      exact ⟨_, _, _, .first performed early, late⟩
    | second performed rest =>
      obtain ⟨_, _, _, early, late⟩ := ih rest
      exact ⟨_, _, _, .second performed early, late⟩

/-- Seen from the other side. -/
theorem Race.swap {turns : List Side} {left left' : Prog Stmt α} {right right' : Prog Stmt β}
    {s s' : S} (race : V.Race turns left right s left' right' s') :
    V.Race (turns.map Side.other) right left s right' left' s' := by
  induction race with
  | none left right s => exact .none _ _ _
  | first performed _ ih => exact .second performed ih
  | second performed _ ih => exact .first performed ih

/-- Turns of one request only are its calls. -/
theorem Race.alone {count : Nat} {left left' : Prog Stmt α} {right right' : Prog Stmt β} {s s' : S}
    (race : V.Race (List.replicate count .first) left right s left' right' s') :
    V.Calls count left s left' s' ∧ right' = right := by
  induction count generalizing left s with
  | zero =>
    cases race
    exact ⟨.none _ _, rfl⟩
  | succ count ih =>
    cases race with
    | first performed rest =>
      obtain ⟨calls, same⟩ := ih rest
      exact ⟨.call performed calls, same⟩

/-- Turns start with some of one request, up to the first of the other. -/
theorem turns_split (turns : List Side) : (∃ count, turns = List.replicate count .first) ∨
    ∃ count later, turns = List.replicate count .first ++ .second :: later := by
  induction turns with
  | nil => exact Or.inl ⟨0, rfl⟩
  | cons side turns ih =>
    cases side with
    | second => exact Or.inr ⟨0, turns, rfl⟩
    | first =>
      rcases ih with ⟨count, rfl⟩ | ⟨count, later, rfl⟩
      · exact Or.inl ⟨count + 1, rfl⟩
      · exact Or.inr ⟨count + 1, later, rfl⟩

theorem replicate_other_prefix {count : Nat} {turns : List Side} {side : Side} :
    List.replicate count side.other <+: turns.map Side.other ↔
      List.replicate count side <+: turns := by
  have back : Side.other ∘ Side.other = id := by
    funext side
    cases side <;> rfl
  constructor
  · intro start
    have mapped := start.map Side.other
    rw [List.map_replicate, List.map_map, back, List.map_id] at mapped
    rwa [show side.other.other = side from congrFun back side] at mapped
  · intro start
    have mapped := start.map Side.other
    rwa [List.map_replicate] at mapped

/-! ### Rely and guarantee -/

section Assures

variable (V) (Rely Guarantee : S → S → Prop)

/-- What a program ends with, and what each of its calls does, while others only do what is relied
on. -/
def Assures : Prog Stmt α → (α → S → Prop) → S → Prop
  | .done result, post, s => ∀ s', Rely s s' → post result s'
  | .stmt statement next, post, s => ∀ s', Rely s s' → ∀ answer after,
      V.perform statement s' answer after →
      Guarantee s' after ∧ Assures (next answer) post after

variable {V Rely Guarantee}

/-- What others do in between does not matter. -/
theorem Assures.rely (trans : ∀ first second third, Rely first second → Rely second third →
      Rely first third) {program : Prog Stmt α} {post : α → S → Prop} {s s' : S}
    (assures : V.Assures Rely Guarantee program post s) (relied : Rely s s') :
    V.Assures Rely Guarantee program post s' := by
  cases program with
  | done result => exact fun after relied' => assures after (trans _ _ _ relied relied')
  | stmt statement next => exact fun after relied' => assures after (trans _ _ _ relied relied')

/-- Others doing less, and a weaker end. -/
theorem Assures.imp {Rely' Guarantee' : S → S → Prop} {program : Prog Stmt α}
    {post post' : α → S → Prop} {s : S} (assures : V.Assures Rely Guarantee program post s)
    (less : ∀ s s', Rely' s s' → Rely s s') (more : ∀ s s', Guarantee s s' → Guarantee' s s')
    (weaker : ∀ reply s', post reply s' → post' reply s') :
    V.Assures Rely' Guarantee' program post' s := by
  induction program generalizing s with
  | done result => exact fun s' relied => weaker result s' (assures s' (less _ _ relied))
  | stmt statement next ih =>
    intro s' relied answer after performed
    obtain ⟨guaranteed, rest⟩ := assures s' (less _ _ relied) answer after performed
    exact ⟨more _ _ guaranteed, ih answer rest⟩

/-- While nobody else does anything, a request is served alone. -/
theorem Assures.serves {program : Prog Stmt α} {post : α → S → Prop} {s : S}
    (assures : V.Assures Eq Guarantee program post s) :
    V.Assures Eq Guarantee program (V.Serves program s) s := by
  have general : ∀ {program' : Prog Stmt α} {s' : S},
      (∀ reply last, V.Serves program' s' reply last → V.Serves program s reply last) →
      V.Assures Eq Guarantee program' post s' →
      V.Assures Eq Guarantee program' (V.Serves program s) s' := by
    intro program'
    induction program' with
    | done result =>
      rintro s' extends' _ _ rfl
      exact extends' result s' (serves_done.mpr ⟨rfl, rfl⟩)
    | stmt statement next ih =>
      rintro s' extends' assures _ rfl answer after performed
      obtain ⟨guaranteed, rest⟩ := assures s' rfl answer after performed
      refine ⟨guaranteed, ih answer (fun reply last serves => ?_) rest⟩
      exact extends' reply last (serves_stmt.mpr ⟨answer, after, performed, serves⟩)
  exact general (fun _ _ => id) assures

/-- A request that changes nothing ends where it began. -/
theorem Assures.unchanged {program : Prog Stmt α} {post : α → S → Prop} {s : S}
    (assures : V.Assures Eq Eq program post s) :
    V.Assures Eq Eq program (fun _ s' => s' = s) s := by
  induction program with
  | done result =>
    rintro _ rfl
    rfl
  | stmt statement next ih =>
    rintro _ rfl answer after performed
    obtain ⟨rfl, rest⟩ := assures s rfl answer after performed
    exact ⟨rfl, ih answer rest⟩

/-- After some of its own calls a request still assures its end. -/
theorem Calls.assures (refl : ∀ s, Rely s s) {count : Nat} {program rest : Prog Stmt α}
    {post : α → S → Prop} {s s' : S} (calls : V.Calls count program s rest s')
    (assures : V.Assures Rely Guarantee program post s) :
    V.Assures Rely Guarantee rest post s' := by
  induction calls with
  | none program s => exact assures
  | call performed _ ih => exact ih (assures _ (refl _) _ _ performed).2

/-- What some calls of a request did. -/
theorem Calls.guarantees (refl : ∀ s, Rely s s) (refl' : ∀ s, Guarantee s s)
    (trans' : ∀ first second third, Guarantee first second → Guarantee second third →
      Guarantee first third) {count : Nat} {program rest : Prog Stmt α} {post : α → S → Prop}
    {s s' : S} (calls : V.Calls count program s rest s')
    (assures : V.Assures Rely Guarantee program post s) : Guarantee s s' := by
  induction calls with
  | none program s => exact refl' s
  | call performed _ ih =>
    obtain ⟨guaranteed, rest⟩ := assures _ (refl _) _ _ performed
    exact trans' _ _ _ guaranteed (ih rest)

end Assures

section Pair

variable {Rely Rely' : S → S → Prop}

/-- **Two requests that rely on what the other guarantees.** -/
theorem race_assures (refl : ∀ s, Rely s s) (refl' : ∀ s, Rely' s s)
    (trans : ∀ first second third, Rely first second → Rely second third → Rely first third)
    (trans' : ∀ first second third, Rely' first second → Rely' second third → Rely' first third)
    {turns : List Side} {left left' : Prog Stmt α} {right right' : Prog Stmt β} {s s' : S}
    {post : α → S → Prop} {post' : β → S → Prop}
    (race : V.Race turns left right s left' right' s')
    (assures : V.Assures Rely Rely' left post s) (assures' : V.Assures Rely' Rely right post' s) :
    V.Assures Rely Rely' left' post s' ∧ V.Assures Rely' Rely right' post' s' := by
  induction race with
  | none left right s => exact ⟨assures, assures'⟩
  | first performed _ ih =>
    obtain ⟨guaranteed, rest⟩ := assures _ (refl _) _ _ performed
    exact ih rest (assures'.rely trans' guaranteed)
  | second performed _ ih =>
    obtain ⟨guaranteed, rest⟩ := assures' _ (refl' _) _ _ performed
    exact ih (assures.rely trans guaranteed) rest

/-- **When both have answered, both ends hold.** -/
theorem finishes_assures (refl : ∀ s, Rely s s) (refl' : ∀ s, Rely' s s)
    (trans : ∀ first second third, Rely first second → Rely second third → Rely first third)
    (trans' : ∀ first second third, Rely' first second → Rely' second third → Rely' first third)
    {turns : List Side} {left : Prog Stmt α} {right : Prog Stmt β} {s s' : S} {reply : α}
    {reply' : β} {post : α → S → Prop} {post' : β → S → Prop}
    (finishes : V.Finishes turns left right s reply reply' s')
    (assures : V.Assures Rely Rely' left post s) (assures' : V.Assures Rely' Rely right post' s) :
    post reply s' ∧ post' reply' s' := by
  obtain ⟨done, done'⟩ := race_assures refl refl' trans trans' finishes assures assures'
  exact ⟨done _ (refl _), done' _ (refl' _)⟩

/-- Two requests that change nothing. -/
theorem finishes_unchanged {turns : List Side} {left : Prog Stmt α} {right : Prog Stmt β} {s s' : S}
    {reply : α} {reply' : β} {post : α → S → Prop} {post' : β → S → Prop}
    (finishes : V.Finishes turns left right s reply reply' s')
    (assures : V.Assures Eq Eq left post s) (assures' : V.Assures Eq Eq right post' s) : s' = s :=
  (finishes_assures (fun _ => rfl) (fun _ => rfl) (fun _ _ _ => Eq.trans) (fun _ _ _ => Eq.trans)
    finishes assures.unchanged assures').1

end Pair

/-! ### Any number of requests -/

variable (V) in
/-- The same server, as long as the calls are allowed. -/
def only (Allowed : {γ : Type} → Stmt γ → S → Prop) : Server Stmt S where
  perform statement s answer s' := Allowed statement s ∧ V.perform statement s answer s'

/-- Requests in progress, each with the type of its answer, and the state. A request that was cut off
is gone. -/
structure Pool (Stmt : Type → Type) (S : Type) where
  tasks : List (Option (Σ α : Type, Prog Stmt α))
  state : S

/-- A request more. -/
def Pool.start (pool : Pool Stmt S) (program : Prog Stmt α) : Pool Stmt S :=
  { pool with tasks := pool.tasks ++ [some ⟨α, program⟩] }

variable (V) (Starts : (Σ α : Type, Prog Stmt α) → Prop)

/-- A request starts, or one in progress makes a call or is cut off. -/
inductive Turn : Pool Stmt S → Pool Stmt S → Prop
  | start {pool : Pool Stmt S} {γ : Type} {program : Prog Stmt γ} : Starts ⟨γ, program⟩ →
      Turn pool (pool.start program)
  | call {pool : Pool Stmt S} {index : Nat} {γ δ : Type} {statement : Stmt γ}
      {next : γ → Prog Stmt δ} {answer : γ} {s' : S} :
      pool.tasks[index]? = some (some ⟨δ, .stmt statement next⟩) →
      V.perform statement pool.state answer s' →
      Turn pool ⟨pool.tasks.set index (some ⟨δ, next answer⟩), s'⟩
  | cut {pool : Pool Stmt S} {index : Nat} :
      Turn pool { pool with tasks := pool.tasks.set index none }

/-- Any number of turns. -/
def Turns : Pool Stmt S → Pool Stmt S → Prop := Relation.ReflTransGen (V.Turn Starts)

section Pool

variable {V Starts} {Inv : S → Prop} {Rely : S → S → Prop}

/-- The invariant holds, and every request in progress relies on what all of them guarantee. -/
def Pool.Assured (V : Server Stmt S) (Inv : S → Prop) (Rely : S → S → Prop)
    (pool : Pool Stmt S) : Prop :=
  Inv pool.state ∧ ∀ task ∈ pool.tasks, ∀ request, task = some request →
    V.Assures Rely Rely request.2 (fun _ _ => True) pool.state

/-- **One turn keeps the invariant and what is relied on.** -/
theorem Turn.assured (refl : ∀ s, Rely s s)
    (trans : ∀ first second third, Rely first second → Rely second third → Rely first third)
    (kept : ∀ s s', Inv s → Rely s s' → Inv s')
    (starts : ∀ request s, Starts request → Inv s →
      V.Assures Rely Rely request.2 (fun _ _ => True) s)
    {pool pool' : Pool Stmt S} (turn : V.Turn Starts pool pool')
    (assured : pool.Assured V Inv Rely) :
    Rely pool.state pool'.state ∧ pool'.Assured V Inv Rely := by
  obtain ⟨holds, tasks⟩ := assured
  cases turn with
  | @start γ program begins =>
    refine ⟨refl _, holds, fun task inside request isTask => ?_⟩
    rcases List.mem_append.mp inside with before | isNew
    · exact tasks task before request isTask
    · rw [List.mem_singleton.mp isNew] at isTask
      cases isTask
      exact starts _ _ begins holds
  | @call index γ δ statement next answer s' isCalling performed =>
    have member := List.mem_of_getElem? isCalling
    obtain ⟨guaranteed, rest⟩ := tasks _ member _ rfl pool.state (refl _) answer s' performed
    refine ⟨guaranteed, kept _ _ holds guaranteed, fun task inside request isTask => ?_⟩
    rcases List.mem_or_eq_of_mem_set inside with before | rfl
    · exact (tasks task before request isTask).rely trans guaranteed
    · cases isTask
      exact rest
  | @cut index =>
    refine ⟨refl _, holds, fun task inside request isTask => ?_⟩
    rcases List.mem_or_eq_of_mem_set inside with before | rfl
    · exact tasks task before request isTask
    · cases isTask

/-- **Any number of turns keep the invariant and what is relied on.** -/
theorem Turns.assured (refl : ∀ s, Rely s s)
    (trans : ∀ first second third, Rely first second → Rely second third → Rely first third)
    (kept : ∀ s s', Inv s → Rely s s' → Inv s')
    (starts : ∀ request s, Starts request → Inv s →
      V.Assures Rely Rely request.2 (fun _ _ => True) s)
    {pool pool' : Pool Stmt S} (turns : V.Turns Starts pool pool')
    (assured : pool.Assured V Inv Rely) :
    Rely pool.state pool'.state ∧ pool'.Assured V Inv Rely := by
  induction turns with
  | refl => exact ⟨refl _, assured⟩
  | tail _ turn ih =>
    obtain ⟨earlier, assured'⟩ := ih
    obtain ⟨later, assured''⟩ := turn.assured refl trans kept starts assured'
    exact ⟨trans _ _ _ earlier later, assured''⟩

/-- **A request among many**: unless it was cut off, it still assures its end. -/
theorem Turns.request (refl : ∀ s, Rely s s)
    (trans : ∀ first second third, Rely first second → Rely second third → Rely first third)
    (kept : ∀ s s', Inv s → Rely s s' → Inv s')
    (starts : ∀ request s, Starts request → Inv s →
      V.Assures Rely Rely request.2 (fun _ _ => True) s)
    {pool pool' : Pool Stmt S} (turns : V.Turns Starts pool pool')
    (assured : pool.Assured V Inv Rely) {index : Nat} {program : Prog Stmt α}
    {post : α → S → Prop} (isProgram : pool.tasks[index]? = some (some ⟨α, program⟩))
    (assures : V.Assures Rely Rely program post pool.state) :
    pool'.tasks[index]? = some none ∨ ∃ program',
      pool'.tasks[index]? = some (some ⟨α, program'⟩) ∧
      V.Assures Rely Rely program' post pool'.state := by
  induction turns with
  | refl => exact Or.inr ⟨program, isProgram, assures⟩
  | @tail middle last earlier turn ih =>
    have assured' := (Turns.assured refl trans kept starts earlier assured).2
    have later := (turn.assured refl trans kept starts assured').1
    cases turn with
    | @start γ program' begins =>
      have same : ∀ {task}, middle.tasks[index]? = some task →
          (middle.start program').tasks[index]? = some task := fun isTask => by
        rw [← isTask]
        exact List.getElem?_append_left (List.getElem?_eq_some_iff.mp isTask).1
      rcases ih with gone | ⟨program', isProgram', assures'⟩
      · exact Or.inl (same gone)
      · exact Or.inr ⟨program', same isProgram', assures'⟩
    | @call other γ δ statement next answer s' isCalling performed =>
      rw [List.getElem?_set]
      by_cases same : other = index
      · subst same
        rcases ih with gone | ⟨program', isProgram', assures'⟩
        · cases gone.symm.trans isCalling
        · cases isProgram'.symm.trans isCalling
          have bound := (List.getElem?_eq_some_iff.mp isCalling).1
          refine Or.inr ⟨next answer, by simp [bound], ?_⟩
          exact (assures' middle.state (refl _) answer s' performed).2
      · rw [if_neg same]
        rcases ih with gone | ⟨program', isProgram', assures'⟩
        · exact Or.inl gone
        · exact Or.inr ⟨program', isProgram', assures'.rely trans later⟩
    | @cut other =>
      rw [List.getElem?_set]
      by_cases same : other = index
      · subst same
        have bound : other < middle.tasks.length := by
          rcases ih with gone | ⟨program', isProgram', _⟩
          · exact (List.getElem?_eq_some_iff.mp gone).1
          · exact (List.getElem?_eq_some_iff.mp isProgram').1
        exact Or.inl (by simp [bound])
      · rw [if_neg same]
        exact ih

/-- Nothing is assured of a request that is not cut off but the type of its answer. -/
theorem Turns.typed {pool pool' : Pool Stmt S} (turns : V.Turns Starts pool pool') {index : Nat}
    {program : Prog Stmt α} (isProgram : pool.tasks[index]? = some (some ⟨α, program⟩)) :
    pool'.tasks[index]? = some none ∨
      ∃ program' : Prog Stmt α, pool'.tasks[index]? = some (some ⟨α, program'⟩) := by
  have nothing : ∀ {γ : Type} (program : Prog Stmt γ) (s : S),
      V.Assures (fun _ _ => True) (fun _ _ => True) program (fun _ _ => True) s := by
    intro γ program
    induction program with
    | done result => exact fun _ _ _ => trivial
    | stmt statement next ih => exact fun _ _ _ answer after _ => ⟨trivial, ih answer after⟩
  have assured : pool.Assured V (fun _ => True) fun _ _ => True :=
    ⟨trivial, fun _ _ request _ => nothing request.2 _⟩
  rcases Turns.request (fun _ => trivial) (fun _ _ _ _ _ => trivial) (fun _ _ _ _ => trivial)
    (fun request s _ _ => nothing request.2 s) turns assured isProgram (nothing program _) with
    gone | ⟨program', isProgram', _⟩
  · exact Or.inl gone
  · exact Or.inr ⟨program', isProgram'⟩

end Pool

/-! ### Computed turns -/

/-- A written-out turn. -/
inductive Move (Stmt : Type → Type) where
  | start (request : Σ α : Type, Prog Stmt α)
  | call (index : Nat)
  | cut (index : Nat)

section Follow

variable (exec : {γ : Type} → Stmt γ → S → Option (γ × S))

/-- The pool after a written-out turn. -/
def Pool.follow (pool : Pool Stmt S) : Move Stmt → Option (Pool Stmt S)
  | .start request => some (pool.start request.2)
  | .call index => match pool.tasks[index]? with
    | some (some ⟨γ, .stmt statement next⟩) => (exec statement pool.state).map fun result =>
      ⟨pool.tasks.set index (some ⟨γ, next result.1⟩), result.2⟩
    | _ => none
  | .cut index => some { pool with tasks := pool.tasks.set index none }

/-- The request at an index has answered. -/
def Pool.answered (pool : Pool Stmt S) (index : Nat) : Bool :=
  match pool.tasks[index]? with
  | some (some ⟨_, .done _⟩) => true
  | _ => false

variable {V Starts exec}

theorem Turns.reply {pool pool' : Pool Stmt S} (turns : V.Turns Starts pool pool') {index : Nat}
    {program : Prog Stmt α} (isProgram : pool.tasks[index]? = some (some ⟨α, program⟩))
    (answered : pool'.answered index = true) :
    ∃ reply : α, pool'.tasks[index]? = some (some ⟨α, .done reply⟩) := by
  unfold Pool.answered at answered
  rcases turns.typed isProgram with gone | ⟨program', isProgram'⟩
  · rw [gone] at answered
    cases answered
  · cases program' with
    | done reply => exact ⟨reply, isProgram'⟩
    | stmt statement next =>
      rw [isProgram'] at answered
      cases answered

end Follow

end Server

end Meter.Lib
