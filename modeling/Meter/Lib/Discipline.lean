/-
**Programs that keep to a discipline, and what two worlds can tell apart.**

A `Machine` says what each statement answers and which state it leaves, so a program runs to one
result. A `Discipline` says which statements are allowed in a state, and which states may come later:
whatever an allowed statement leads to.

* `Discipline.Abides` — from a state, every statement of a program is allowed when it is issued,
  whatever is relied on happens in between, and the result satisfies a condition. `abides_bind` and
  `abides_exceptBind` are the rules of sequencing, `Abides.run` is soundness.
* `interleave` — programs that run concurrently under a list of turns. If each of them abides whatever
  allowed statements come in between (`Steady`), so do all of them together (`steady_interleave`),
  and each keeps its result (`abides_interleave`).
* `Machine.session` — one request after another. `Machine.Each.invariant` is the rule for one session.
* `Twin` — two states between which no allowed statement distinguishes. **A program that abides from
  both of them has the same result** (`Twin.run`), and a session the same answers (`Twin.session`).
-/

import Meter.Lib.Transaction

namespace Meter.Lib

variable {Stmt : Type → Type} {S R α β ε : Type}

/-! ### Machines -/

/-- Sequencing of programs is associative. -/
instance : LawfulMonad (Prog Stmt) := LawfulMonad.mk' _
  (fun program => by
    induction program with
    | done result => rfl
    | stmt statement next ih => exact congrArg _ (funext ih))
  (fun _ _ => rfl)
  (fun program _ _ => by
    induction program with
    | done result => rfl
    | stmt statement next ih => exact congrArg _ (funext ih))

/-- What a statement answers, and the state it leaves. -/
structure Machine (Stmt : Type → Type) (S : Type) where
  exec : {β : Type} → Stmt β → S → β × S

namespace Machine

variable (M : Machine Stmt S)

def run : Prog Stmt α → S → α × S
  | .done result, s => (result, s)
  | .stmt statement next, s => run (next (M.exec statement s).1) (M.exec statement s).2

/-- Requests one after another: the answers, and the last state. -/
def session (serve : R → Prog Stmt α) : List R → S → List α × S
  | [], s => ([], s)
  | request :: rest, s =>
    let served := M.run (serve request) s
    let later := session serve rest served.2
    (served.1 :: later.1, later.2)

/-- A condition holds of every request and the state that it finds. -/
def Each (serve : R → Prog Stmt α) (P : R → S → Prop) : List R → S → Prop
  | [], _ => True
  | request :: rest, s => P request s ∧ Each serve P rest (M.run (serve request) s).2

variable {M} {serve : R → Prog Stmt α} {P : R → S → Prop}

/-- **An invariant that every request keeps holds after every session.** -/
theorem Each.invariant {Inv : S → Prop}
    (keeps : ∀ request s, P request s → Inv s → Inv (M.run (serve request) s).2)
    {requests : List R} {s : S} (each : M.Each serve P requests s) (inv : Inv s) :
    Inv (M.session serve requests s).2 := by
  induction requests generalizing s with
  | nil => exact inv
  | cons request rest ih => exact ih each.2 (keeps request s each.1 inv)

/-- The state that the first requests of a session leave. -/
def reached (M : Machine Stmt S) (serve : R → Prog Stmt α) (requests : List R) (s : S) (k : Nat) : S :=
  (M.session serve (requests.take k) s).2

theorem reached_succ {requests : List R} {request : R} {k : Nat} (found : requests[k]? = some request)
    (s : S) : M.reached serve requests s (k + 1) =
      (M.run (serve request) (M.reached serve requests s k)).2 := by
  induction requests generalizing k s with
  | nil => cases found
  | cons first rest ih =>
    cases k with
    | zero =>
      cases found
      rfl
    | succ k => exact ih found _

/-- Every answer of a session is given in the state that the requests before it leave. -/
theorem answer_of_session {requests : List R} {k : Nat} {s : S} {answer : α}
    (answered : (M.session serve requests s).1[k]? = some answer) : ∃ request,
      requests[k]? = some request ∧
        answer = (M.run (serve request) (M.reached serve requests s k)).1 := by
  induction requests generalizing k s with
  | nil => cases answered
  | cons first rest ih =>
    cases k with
    | zero =>
      cases answered
      exact ⟨first, rfl, rfl⟩
    | succ k => exact ih answered

end Machine

/-! ### Disciplines -/

/-- Which statements are allowed in a state, and which states may come later. -/
structure Discipline (M : Machine Stmt S) where
  Allowed : {β : Type} → Stmt β → S → Prop
  Later : S → S → Prop
  refl : ∀ s, Later s s
  trans : ∀ {first second third}, Later first second → Later second third → Later first third
  later : ∀ {β} {statement : Stmt β} {s}, Allowed statement s → Later s (M.exec statement s).2

namespace Discipline

variable {M : Machine Stmt S} (D : Discipline M) {rely : S → S → Prop}

/-- Every statement of a program is allowed when it is issued, and the result satisfies `Q`. Before
every statement, and before the result is used, what is relied on may happen. -/
def Abides (rely : S → S → Prop) : Prog Stmt α → (α → S → Prop) → S → Prop
  | .done result, Q, s => ∀ s', rely s s' → Q result s'
  | .stmt statement next, Q, s => ∀ s', rely s s' → D.Allowed statement s' ∧
      Abides rely (next (M.exec statement s').1) Q (M.exec statement s').2

/-- Allowed, whatever allowed statements of others come in between. -/
def Steady (program : Prog Stmt α) (s : S) : Prop :=
  D.Abides D.Later program (fun _ _ => True) s

variable {D} {program : Prog Stmt α} {Q Q' : α → S → Prop} {s : S}

theorem Abides.mono (abides : D.Abides rely program Q s) (weaker : ∀ result s, Q result s → Q' result s) :
    D.Abides rely program Q' s := by
  induction program generalizing s with
  | done result => exact fun s' relied => weaker _ _ (abides s' relied)
  | stmt statement next ih => exact fun s' relied => ⟨(abides s' relied).1, ih _ (abides s' relied).2⟩

/-- A program that tolerates more may rely on more. -/
theorem Abides.tighten {rely' : S → S → Prop} (abides : D.Abides rely program Q s)
    (fewer : ∀ s s', rely' s s' → rely s s') : D.Abides rely' program Q s := by
  induction program generalizing s with
  | done result => exact fun s' relied => abides s' (fewer _ _ relied)
  | stmt statement next ih =>
    exact fun s' relied => ⟨(abides s' (fewer _ _ relied)).1, ih _ (abides s' (fewer _ _ relied)).2⟩

/-- A condition on later states may be assumed. -/
theorem Steady.later (steady : D.Steady program s) {s' : S} (later : D.Later s s') :
    D.Steady program s' := by
  cases program with
  | done result => exact fun _ _ => trivial
  | stmt statement next => exact fun s'' later' => steady s'' (D.trans later later')

/-- What tolerates others abides on its own. -/
theorem Abides.alone (abides : D.Abides D.Later program Q s) : D.Abides Eq program Q s :=
  abides.tighten fun s _ same => same ▸ D.refl s

/-- **Sequencing.** -/
theorem abides_bind {rest : α → Prog Stmt β} {Q : β → S → Prop} (refl : ∀ s, rely s s)
    (abides : D.Abides rely program (fun result s' => D.Abides rely (rest result) Q s') s) :
    D.Abides rely (program.bind rest) Q s := by
  induction program generalizing s with
  | done result => exact abides s (refl s)
  | stmt statement next ih => exact fun s' relied => ⟨(abides s' relied).1, ih _ (abides s' relied).2⟩

/-- A computation on the result. -/
theorem Abides.map {rest : α → Prog Stmt β} {Q : β → S → Prop} (f : α → β)
    (computes : ∀ result, rest result = .done (f result))
    (abides : D.Abides rely program (fun result => Q (f result)) s) :
    D.Abides rely (program.bind rest) Q s := by
  induction program generalizing s with
  | done result =>
    show D.Abides rely (rest result) Q s
    rw [computes]
    exact abides
  | stmt statement next ih => exact fun s' relied => ⟨(abides s' relied).1, ih _ (abides s' relied).2⟩

/-- What a program leads to is later than where it began. -/
theorem Abides.and_later {origin : S} (within : ∀ s s', rely s s' → D.Later s s')
    (later : D.Later origin s) (abides : D.Abides rely program Q s) :
    D.Abides rely program (fun result s' => Q result s' ∧ D.Later origin s') s := by
  induction program generalizing s with
  | done result => exact fun s' relied => ⟨abides s' relied, D.trans later (within _ _ relied)⟩
  | stmt statement next ih =>
    intro s' relied
    obtain ⟨allowed, rest⟩ := abides s' relied
    exact ⟨allowed, ih _ (D.trans (D.trans later (within _ _ relied)) (D.later allowed)) rest⟩

/-- What may happen in between: nothing, or at most what allowed statements lead to. -/
structure Relies (D : Discipline M) (rely : S → S → Prop) : Prop where
  refl : ∀ s, rely s s
  within : ∀ s s', rely s s' → D.Later s s'

theorem relies_eq : D.Relies Eq := ⟨fun _ => rfl, fun s _ same => same ▸ D.refl s⟩

theorem relies_later : D.Relies D.Later := ⟨D.refl, fun _ _ => id⟩

/-- **Sequencing with an intermediate condition.** -/
theorem Abides.seq {rest : α → Prog Stmt β} {Q₁ : α → S → Prop} {Q : β → S → Prop}
    (relies : D.Relies rely) (first : D.Abides rely program Q₁ s)
    (after : ∀ result s', D.Later s s' → Q₁ result s' → D.Abides rely (rest result) Q s') :
    D.Abides rely (program.bind rest) Q s :=
  abides_bind relies.refl ((first.and_later relies.within (D.refl s)).mono
    fun result s' reached => after result s' reached.2 reached.1)

/-- A program and one that is steady wherever the first one can lead. -/
theorem Steady.seq {rest : α → Prog Stmt β} (steady : D.Steady program s)
    (after : ∀ result s', D.Later s s' → D.Steady (rest result) s') :
    D.Steady (program.bind rest) s :=
  Abides.seq relies_later steady fun result s' later _ => after result s' later

/-- A program that may fail abides, and what it answers satisfies `Q`. -/
def Succeeds (D : Discipline M) (rely : S → S → Prop) (program : ExceptT ε (Prog Stmt) α)
    (Q : α → S → Prop) (s : S) : Prop :=
  D.Abides rely program.run (fun outcome s' => ∀ result, outcome = .ok result → Q result s') s

theorem Succeeds.mono {program : ExceptT ε (Prog Stmt) α} (succeeds : D.Succeeds rely program Q s)
    (weaker : ∀ result s, Q result s → Q' result s) : D.Succeeds rely program Q' s :=
  Abides.mono succeeds fun _ _ holds result same => weaker _ _ (holds result same)

theorem Succeeds.steady {program : ExceptT ε (Prog Stmt) α} (succeeds : D.Succeeds D.Later program Q s) :
    D.Steady program.run s := Abides.mono succeeds fun _ _ _ => trivial

theorem succeeds_pure {result : α} (holds : ∀ s', rely s s' → Q result s') :
    D.Succeeds rely (pure result : ExceptT ε (Prog Stmt) α) Q s := by
  intro s' relied other same
  cases same
  exact holds s' relied

theorem succeeds_throw (error : ε) :
    D.Succeeds rely (throw error : ExceptT ε (Prog Stmt) α) Q s := nofun

/-- **Sequencing of programs that may fail.** -/
theorem Succeeds.seq {program : ExceptT ε (Prog Stmt) α} {rest : α → ExceptT ε (Prog Stmt) β}
    {Q₁ : α → S → Prop} {Q : β → S → Prop} (relies : D.Relies rely)
    (first : D.Succeeds rely program Q₁ s)
    (after : ∀ result s', D.Later s s' → Q₁ result s' → D.Succeeds rely (rest result) Q s') :
    D.Succeeds rely (program >>= rest) Q s := by
  refine Abides.seq relies first fun outcome s' later holds => ?_
  cases outcome with
  | error error => exact nofun
  | ok result => exact after result s' later (holds result rfl)

/-- The same, where nothing of the first result matters. -/
theorem Succeeds.next {program : ExceptT ε (Prog Stmt) α} {rest : α → ExceptT ε (Prog Stmt) β}
    {Q : β → S → Prop} (relies : D.Relies rely)
    (first : D.Succeeds rely program (fun _ _ => True) s)
    (after : ∀ result s', D.Later s s' → D.Succeeds rely (rest result) Q s') :
    D.Succeeds rely (program >>= rest) Q s :=
  first.seq relies fun result s' later _ => after result s' later

theorem Succeeds.map {program : ExceptT ε (Prog Stmt) α} {f : α → β} {Q : β → S → Prop}
    (succeeds : D.Succeeds rely program (fun result => Q (f result)) s) :
    D.Succeeds rely (f <$> program) Q s := by
  refine Abides.map (Except.map f) (fun outcome => ?_) (Abides.mono succeeds fun outcome s' holds => ?_)
  · cases outcome <;> rfl
  · intro result same
    cases outcome with
    | error error => cases same
    | ok value =>
      cases same
      exact holds value rfl

/-- **Soundness**: a program that abides leads to a later state, with its condition. -/
theorem Abides.run (abides : D.Abides Eq program Q s) :
    Q (M.run program s).1 (M.run program s).2 ∧ D.Later s (M.run program s).2 := by
  induction program generalizing s with
  | done result => exact ⟨abides s rfl, D.refl s⟩
  | stmt statement next ih =>
    obtain ⟨allowed, rest⟩ := abides s rfl
    obtain ⟨holds, later⟩ := ih _ rest
    exact ⟨holds, D.trans (D.later allowed) later⟩

/-- **Later requests find later states.** -/
theorem later_reached {serve : R → Prog Stmt α} {requests : List R}
    (later : ∀ request ∈ requests, ∀ s, D.Later s (M.run (serve request) s).2) {j k : Nat}
    (order : j ≤ k) (s : S) :
    D.Later (M.reached serve requests s j) (M.reached serve requests s k) := by
  induction order with
  | refl => exact D.refl _
  | @step k _ ih =>
    refine D.trans ih ?_
    cases found : requests[k]? with
    | none =>
      have short := List.getElem?_eq_none_iff.mp found
      rw [Machine.reached, Machine.reached, List.take_of_length_le short,
        List.take_of_length_le (Nat.le_succ_of_le short)]
      exact D.refl _
    | some request =>
      rw [Machine.reached_succ found]
      exact later request (List.mem_of_getElem? found) _

/-- The condition may refer to the run itself. -/
theorem Abides.and_run (abides : D.Abides Eq program Q s) :
    D.Abides Eq program (fun result s' => Q result s' ∧ M.run program s = (result, s')) s := by
  induction program generalizing s with
  | done result =>
    rintro _ rfl
    exact ⟨abides s rfl, rfl⟩
  | stmt statement next ih =>
    rintro _ rfl
    obtain ⟨allowed, rest⟩ := abides s rfl
    exact ⟨allowed, ih _ rest⟩

end Discipline

/-! ### Concurrent programs -/

/-- Programs one after another. One that ends with nothing ends them all. -/
def inTurn : List (Prog Stmt (Option α)) → Prog Stmt (Option (List α))
  | [] => .done (some [])
  | program :: rest => program.bind fun
    | none => .done none
    | some result => (inTurn rest).bind fun results => .done (results.map (result :: ·))

/-- Programs that run concurrently: whose turn it is makes one statement. When all turns are taken,
the rest is run in turn. -/
def interleave : List Nat → List (Prog Stmt (Option α)) → Prog Stmt (Option (List α))
  | [], programs => inTurn programs
  | turn :: turns, programs =>
    match programs[turn]? with
    | none | some (.done (some _)) => interleave turns programs
    | some (.done none) => .done none
    | some (.stmt statement next) =>
      .stmt statement fun answer => interleave turns (programs.set turn (next answer))

namespace Discipline

variable {M : Machine Stmt S} {D : Discipline M} {s : S}

theorem steady_done (result : α) : D.Steady (.done result : Prog Stmt α) s := fun _ _ => trivial

theorem steady_inTurn {programs : List (Prog Stmt (Option α))}
    (steady : ∀ program ∈ programs, D.Steady program s) : D.Steady (inTurn programs) s := by
  induction programs generalizing s with
  | nil => exact steady_done _
  | cons program rest ih =>
    refine (steady program List.mem_cons_self).seq fun answer s' later => ?_
    cases answer with
    | none => exact steady_done _
    | some result =>
      refine Steady.seq (ih fun program member => ?_) fun results _ _ => steady_done _
      exact (steady program (List.mem_cons_of_mem _ member)).later later

/-- **Programs that tolerate each other may run concurrently**, under every list of turns. -/
theorem steady_interleave {turns : List Nat} {programs : List (Prog Stmt (Option α))}
    (steady : ∀ program ∈ programs, D.Steady program s) : D.Steady (interleave turns programs) s := by
  induction turns generalizing programs s with
  | nil => exact steady_inTurn steady
  | cons turn turns ih =>
    unfold interleave
    split
    · exact ih steady
    · exact ih steady
    · exact steady_done _
    · rename_i statement next found
      have one := steady _ (List.mem_of_getElem? found)
      refine fun s' later => ⟨(one s' later).1, ih fun program member => ?_⟩
      rcases List.mem_or_eq_of_mem_set member with other | rfl
      · exact (steady program other).later (D.trans later (D.later (one s' later).1))
      · exact (one s' later).2

/-! ### Results of concurrent programs -/

/-- What may happen before a program starts. -/
theorem Abides.later {program : Prog Stmt α} {Q : α → S → Prop}
    (abides : D.Abides D.Later program Q s) {s' : S} (later : D.Later s s') :
    D.Abides D.Later program Q s' := by
  cases program with
  | done result => exact fun last later' => abides last (D.trans later later')
  | stmt statement next => exact fun last later' => abides last (D.trans later later')

/-- Where every statement is allowed, every program keeps to the discipline. -/
theorem abides_of_allowed (allowed : ∀ {β : Type} (statement : Stmt β) s, D.Allowed statement s)
    (program : Prog Stmt α) (rely : S → S → Prop) (s : S) :
    D.Abides rely program (fun _ _ => True) s := by
  induction program generalizing s with
  | done result => exact fun _ _ => trivial
  | stmt statement next ih => exact fun s' _ => ⟨allowed statement s', ih _ _⟩

section

variable {Q : Nat → α → S → Prop} (stable : ∀ i value s s', D.Later s s' → Q i value s → Q i value s')
include stable

theorem abides_inTurn {programs : List (Prog Stmt (Option α))}
    (abides : ∀ i program, programs[i]? = some program → D.Abides D.Later program
      (fun result s' => ∀ value, result = some value → Q i value s') s) :
    D.Abides D.Later (inTurn programs) (fun results s' => ∀ values, results = some values →
      ∀ i value, values[i]? = some value → Q i value s') s := by
  induction programs generalizing Q s with
  | nil =>
    rintro s' _ _ ⟨⟩ i value found
    cases found
  | cons program rest ih =>
    refine (abides 0 program rfl).seq relies_later fun answer s' later holds => ?_
    cases answer with
    | none => exact fun _ _ => nofun
    | some result =>
      refine (ih (fun i => stable (i + 1)) fun i other found =>
        (abides (i + 1) other found).later later).seq relies_later fun results s'' later' reached => ?_
      rintro s₃ later₃ values same i value found
      cases results with
      | none => cases same
      | some results =>
        cases same
        cases i with
        | zero =>
          cases found
          exact stable 0 _ _ _ (D.trans later' later₃) (holds _ rfl)
        | succ i => exact stable (i + 1) _ _ _ later₃ (reached results rfl i value found)

/-- **What each program achieves, whatever the others do, they achieve together**, under every list
of turns. -/
theorem abides_interleave {turns : List Nat} {programs : List (Prog Stmt (Option α))}
    (abides : ∀ i program, programs[i]? = some program → D.Abides D.Later program
      (fun result s' => ∀ value, result = some value → Q i value s') s) :
    D.Abides D.Later (interleave turns programs) (fun results s' => ∀ values, results = some values →
      ∀ i value, values[i]? = some value → Q i value s') s := by
  induction turns generalizing programs s with
  | nil => exact abides_inTurn stable abides
  | cons turn turns ih =>
    unfold interleave
    split
    · exact ih abides
    · exact ih abides
    · exact fun _ _ => nofun
    · rename_i statement next found
      have one := abides turn _ found
      refine fun s' later => ⟨(one s' later).1, ih fun i program member => ?_⟩
      by_cases same : turn = i
      · subst same
        rw [List.getElem?_set_self (List.getElem?_eq_some_iff.mp found).1] at member
        cases member
        exact (one s' later).2
      · rw [List.getElem?_set_ne same] at member
        exact (abides i program member).later (D.trans later (D.later (one s' later).1))

end

/-- What one of them achieves, where every statement is allowed. -/
theorem abides_turn (allowed : ∀ {β : Type} (statement : Stmt β) s, D.Allowed statement s)
    {Q : α → S → Prop} (stable : ∀ value s s', D.Later s s' → Q value s → Q value s')
    (turns : List Nat) {programs : List (Prog Stmt (Option α))} {i : Nat} {program : Prog Stmt (Option α)}
    (found : programs[i]? = some program) (abides : D.Abides D.Later program
      (fun result s' => ∀ value, result = some value → Q value s') s) :
    D.Abides D.Later (interleave turns programs) (fun results s' => ∀ values, results = some values →
      ∀ value, values[i]? = some value → Q value s') s := by
  refine (abides_interleave (Q := fun j value s' => j = i → Q value s')
    (fun j value s s' later holds same => stable value s s' later (holds same)) fun j other found' => ?_).mono
      fun results s' holds values same value answered => holds values same i value answered rfl
  by_cases same : j = i
  · subst same
    cases found.symm.trans found'
    exact abides.mono fun result s' holds value answer _ => holds value answer
  · exact (abides_of_allowed allowed other _ _).mono fun _ _ _ _ _ equal => absurd equal same

end Discipline

/-! ### Two worlds -/

/-- Two states, in which an allowed statement answers the same and leaves two such states again. -/
structure Twin {M : Machine Stmt S} (D : Discipline M) where
  Same : S → S → Prop
  exec : ∀ {β} {statement : Stmt β} {s s'}, Same s s' → D.Allowed statement s →
    D.Allowed statement s' → (M.exec statement s).1 = (M.exec statement s').1 ∧
      Same (M.exec statement s).2 (M.exec statement s').2

namespace Twin

variable {M : Machine Stmt S} {D : Discipline M} (T : Twin D) {s s' : S}

/-- **A program that abides in both worlds has the same result in both.** -/
theorem run {program : Prog Stmt α} {Q Q' : α → S → Prop} (same : T.Same s s')
    (abides : D.Abides Eq program Q s) (abides' : D.Abides Eq program Q' s') :
    (M.run program s).1 = (M.run program s').1 ∧
      T.Same (M.run program s).2 (M.run program s').2 := by
  induction program generalizing s s' with
  | done result => exact ⟨rfl, same⟩
  | stmt statement next ih =>
    obtain ⟨allowed, rest⟩ := abides s rfl
    obtain ⟨allowed', rest'⟩ := abides' s' rfl
    obtain ⟨answers, after⟩ := T.exec same allowed allowed'
    rw [← answers] at rest'
    have both := ih _ after rest rest'
    rw [Machine.run, Machine.run, ← answers]
    exact both

/-- **A session has the same answers in both worlds**, if its requests abide where their condition
holds and the condition cannot tell the worlds apart. -/
theorem session {serve : R → Prog Stmt α} {P : R → S → Prop}
    (abides : ∀ request s s', T.Same s s' → P request s →
      D.Abides Eq (serve request) (fun _ _ => True) s ∧
        D.Abides Eq (serve request) (fun _ _ => True) s')
    {requests : List R} (same : T.Same s s') (each : M.Each serve P requests s) :
    (M.session serve requests s).1 = (M.session serve requests s').1 ∧
      T.Same (M.session serve requests s).2 (M.session serve requests s').2 := by
  induction requests generalizing s s' with
  | nil => exact ⟨rfl, same⟩
  | cons request rest ih =>
    obtain ⟨one, other⟩ := abides request s s' same each.1
    obtain ⟨answers, after⟩ := T.run same one other
    obtain ⟨later, last⟩ := ih after each.2
    refine ⟨?_, last⟩
    show _ :: _ = _ :: _
    rw [answers, later]

end Twin

end Meter.Lib
