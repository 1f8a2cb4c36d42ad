/-
**Transactions under READ COMMITTED, one statement at a time.**

A transaction is a program of statements (`Prog`). An `Engine` says what a statement does to a
database, which locks it needs first, and which locks exclude each other. A statement sees the
latest committed database under the transaction's own writes (`Engine.view`), keeps its locks until
the transaction ends, and the writes become visible to others at commit only. A transaction may
also be aborted at any point, without effect: a statement that fails, a deadlock, a timeout.

* `Engine.runSerial` — a transaction that runs alone; `Engine.eval` gives its writes, and
  `Engine.Yields` what a part of it does on the database it sees.
* `Engine.Step` — any number of them, in any interleaving.
* `Engine.wp` — what must hold before a program so that its result satisfies a condition under
  interference, with the rules of sequencing, consequence and framing (`wp_bind`, `wp_mono`, `wp_stable`).
* `Engine.outline` — the same with an assertion before every statement (`asserted`).
* `Engine.sound` — **the rely-guarantee rule.** `Rely locks` bounds what others may commit while
  some locks are held. If every program is `Safe` — from any point, under any interference that
  its locks allow, it commits only what keeps the invariant and what others rely on — then every
  reachable point satisfies the invariant, and all that happens between two reachable worlds is
  relied on (`Sound.relied`).
* `Engine.follow` — a written-out schedule, for concrete interleavings (`reaches_of_follow`).
* `Untorn` — when two reads of a changing database answer as one would (`Untorn.read`).
-/

import Mathlib.Data.List.Chain
import Mathlib.Logic.Function.Basic
import Mathlib.Logic.Relation

namespace Meter.Lib

/-! ### Programs -/

/-- A program that issues statements and ends with a result. -/
inductive Prog (Stmt : Type → Type) (α : Type) : Type 1 where
  | done (result : α)
  | stmt {β : Type} (statement : Stmt β) (next : β → Prog Stmt α)

namespace Prog

variable {Stmt : Type → Type} {α β : Type}

/-- Run one program, then another on its result. -/
def bind : Prog Stmt α → (α → Prog Stmt β) → Prog Stmt β
  | done result, rest => rest result
  | stmt statement next, rest => stmt statement fun answer => (next answer).bind rest

instance : Monad (Prog Stmt) where
  pure := done
  bind := bind

/-- A program of one statement. -/
def issue (statement : Stmt α) : Prog Stmt α := stmt statement done

end Prog

/-- How a transaction ends, and what it answers. -/
inductive Exit (Reply : Type) where
  | commit (reply : Reply)
  | rollback (reply : Reply)

/-! ### Engines -/

/-- What statements do, and which locks they need. -/
structure Engine (Stmt : Type → Type) (Db Write Lock Error : Type) where
  apply : Db → Write → Db
  exec : {β : Type} → Stmt β → Db → Except Error (β × List Write)
  locks : {β : Type} → Stmt β → Db → List Lock
  conflict : Lock → Lock → Prop
  conflict_symm : ∀ first second, conflict first second → conflict second first

/-- A transaction that began or committed. -/
inductive Happened (Label : Type) where
  | began (label : Label)
  | committed (label : Label)

/-- The committed database, and what has happened so far. -/
structure Point (Db Label : Type) where
  db : Db
  log : List (Happened Label)

/-- A running transaction. -/
structure Session (Stmt : Type → Type) (Write Lock Label Reply : Type) where
  label : Label
  program : Prog Stmt (Exit Reply)
  writes : List Write
  locks : List Lock

/-- What a transaction that is about to commit answers. -/
def Session.answer {Stmt : Type → Type} {Write Lock Label Reply : Type}
    (session : Session Stmt Write Lock Label Reply) : Option Reply :=
  match session.program with
  | .done (.commit reply) => some reply
  | _ => none

/-- The committed point and the running transactions. -/
structure World (Stmt : Type → Type) (Db Write Lock Label Reply : Type) where
  point : Point Db Label
  live : Nat → Option (Session Stmt Write Lock Label Reply)

/-- An invariant of committed points, and what a holder of locks may rely on. -/
structure Contract (Db Lock Label : Type) where
  Inv : Point Db Label → Prop
  Rely : List Lock → Point Db Label → Point Db Label → Prop
  refl : ∀ locks point, Rely locks point point
  trans : ∀ {locks first second third}, Rely locks first second → Rely locks second third →
    Rely locks first third

namespace Engine

variable {Stmt : Type → Type} {Db Write Lock Error Label Reply : Type}
  (E : Engine Stmt Db Write Lock Error)

/-- A database under some writes. -/
def view (db : Db) (writes : List Write) : Db := writes.foldl E.apply db

@[simp] theorem view_nil (db : Db) : E.view db [] = db := rfl

theorem view_append (db : Db) (first second : List Write) :
    E.view db (first ++ second) = E.view (E.view db first) second := List.foldl_append

/-- No lock of one list conflicts with one of the other. -/
def Compatible (first second : List Lock) : Prop :=
  ∀ lock ∈ first, ∀ other ∈ second, ¬ E.conflict lock other

theorem Compatible.symm {first second : List Lock} (compatible : E.Compatible first second) :
    E.Compatible second first := fun lock member other member' conflict =>
  compatible other member' lock member (E.conflict_symm _ _ conflict)

/-! ### One transaction alone -/

/-- Run a transaction alone. A failed statement rolls it back. -/
def runSerial (fault : Error → Reply) : Prog Stmt (Exit Reply) → Db → List Write → Reply × Db
  | .done (.commit reply), db, writes => (reply, E.view db writes)
  | .done (.rollback reply), db, _ => (reply, db)
  | .stmt statement next, db, writes => match E.exec statement (E.view db writes) with
    | .error error => (fault error, db)
    | .ok (answer, more) => runSerial fault (next answer) db (writes ++ more)

/-- The result of a program that runs alone, with the writes it leaves. -/
def eval {α : Type} : Prog Stmt α → Db → List Write → Except Error (α × List Write)
  | .done result, _, writes => .ok (result, writes)
  | .stmt statement next, db, writes => match E.exec statement (E.view db writes) with
    | .error error => .error error
    | .ok (answer, more) => eval (next answer) db (writes ++ more)

section Eval

variable {α β : Type} {db : Db}

theorem eval_issue {statement : Stmt β} {next : β → Prog Stmt α} {writes more : List Write}
    {answer : β} (result : E.exec statement (E.view db writes) = .ok (answer, more)) :
    E.eval (Prog.issue statement >>= next) db writes =
      E.eval (next answer) db (writes ++ more) := by
  show E.eval (.stmt statement next) db writes = _
  rw [eval, result]

theorem eval_bind {program : Prog Stmt β} {next : β → Prog Stmt α} {result : β} :
    ∀ {writes writes'}, E.eval program db writes = .ok (result, writes') →
      E.eval (program >>= next) db writes = E.eval (next result) db writes' := by
  induction program with
  | done value =>
    rintro writes writes' ⟨⟩
    rfl
  | stmt statement rest ih =>
    intro writes writes' evaluated
    show E.eval (.stmt statement fun answer => rest answer >>= next) db writes = _
    rw [eval] at evaluated ⊢
    cases executed : E.exec statement (E.view db writes) with
    | error error =>
      rw [executed] at evaluated
      cases evaluated
    | ok outcome =>
      rw [executed] at evaluated
      exact ih outcome.1 evaluated

theorem runSerial_of_eval {fault : Error → Reply} {program : Prog Stmt (Exit Reply)}
    {exit : Exit Reply} : ∀ {writes writes'}, E.eval program db writes = .ok (exit, writes') →
      E.runSerial fault program db writes = match exit with
        | .commit reply => (reply, E.view db writes')
        | .rollback reply => (reply, db) := by
  induction program with
  | done value =>
    rintro writes writes' ⟨⟩
    cases exit <;> rfl
  | stmt statement rest ih =>
    intro writes writes' evaluated
    rw [eval] at evaluated
    rw [runSerial]
    cases executed : E.exec statement (E.view db writes) with
    | error error =>
      rw [executed] at evaluated
      cases evaluated
    | ok outcome =>
      rw [executed] at evaluated
      exact ih outcome.1 evaluated

/-- A program whose statement fails is rolled back. -/
theorem runSerial_of_error {fault : Error → Reply} {program : Prog Stmt (Exit Reply)}
    {error : Error} : ∀ {writes}, E.eval program db writes = .error error →
      E.runSerial fault program db writes = (fault error, db) := by
  induction program with
  | done value =>
    intro writes evaluated
    cases evaluated
  | stmt statement rest ih =>
    intro writes evaluated
    rw [eval] at evaluated
    rw [runSerial]
    cases executed : E.exec statement (E.view db writes) with
    | error other =>
      rw [executed] at evaluated
      cases evaluated
      rfl
    | ok outcome =>
      rw [executed] at evaluated
      exact ih outcome.1 evaluated

/-- **One statement of a transaction that runs alone**: it fails and nothing happened, or the rest
runs on what it answered. -/
theorem runSerial_issue {fault : Error → Reply} {Q : Reply × Db → Prop} {statement : Stmt β}
    {next : β → Prog Stmt (Exit Reply)} {writes : List Write}
    (failed : ∀ error, E.exec statement (E.view db writes) = .error error → Q (fault error, db))
    (executed : ∀ answer more, E.exec statement (E.view db writes) = .ok (answer, more) →
      Q (E.runSerial fault (next answer) db (writes ++ more))) :
    Q (E.runSerial fault (.stmt statement next) db writes) := by
  rw [runSerial]
  cases result : E.exec statement (E.view db writes) with
  | error error => exact failed error result
  | ok outcome => exact executed outcome.1 outcome.2 result

/-- What a program that runs alone does on the database it sees: its result, and the writes it
adds. -/
def Yields (program : Prog Stmt α) (db : Db) (result : α) (more : List Write) : Prop :=
  ∀ base writes, E.view base writes = db → E.eval program base writes = .ok (result, writes ++ more)

theorem Yields.done (result : α) : E.Yields (.done result) db result [] := by
  intro base writes _
  rw [eval, List.append_nil]

/-- One statement, then the rest. -/
theorem Yields.issue {statement : Stmt β} {next : β → Prog Stmt α} {answer : β} {result : α}
    {first second more : List Write} (executed : E.exec statement db = .ok (answer, first))
    (rest : E.Yields (next answer) (E.view db first) result second) (total : first ++ second = more) :
    E.Yields (Prog.issue statement >>= next) db result more := by
  rintro base writes rfl
  rw [E.eval_issue executed, rest base (writes ++ first) (E.view_append _ _ _), List.append_assoc,
    total]

/-- One statement that writes nothing, then the rest. -/
theorem Yields.read {statement : Stmt β} {next : β → Prog Stmt α} {answer : β} {result : α}
    {more : List Write} (executed : E.exec statement db = .ok (answer, []))
    (rest : E.Yields (next answer) db result more) :
    E.Yields (Prog.issue statement >>= next) db result more :=
  Yields.issue E executed rest (List.nil_append _)

/-- One program, then another. -/
theorem Yields.bind {program : Prog Stmt β} {next : β → Prog Stmt α} {answer : β} {result : α}
    {first second more : List Write} (earlier : E.Yields program db answer first)
    (rest : E.Yields (next answer) (E.view db first) result second) (total : first ++ second = more) :
    E.Yields (program >>= next) db result more := by
  rintro base writes rfl
  rw [E.eval_bind (earlier base writes rfl), rest base (writes ++ first) (E.view_append _ _ _),
    List.append_assoc, total]

theorem runSerial_of_yields {fault : Error → Reply} {program : Prog Stmt (Exit Reply)}
    {exit : Exit Reply} {more : List Write} : E.Yields program db exit more →
      E.runSerial fault program db [] = match exit with
        | .commit reply => (reply, E.view db more)
        | .rollback reply => (reply, db) :=
  fun yields => E.runSerial_of_eval (yields db [] rfl)

end Eval

/-! ### Many transactions -/

/-- The point after a transaction begins. -/
def begin (point : Point Db Label) (label : Label) : Point Db Label :=
  { point with log := point.log ++ [.began label] }

/-- The point after a transaction commits. -/
def commit (point : Point Db Label) (label : Label) (writes : List Write) : Point Db Label :=
  ⟨E.view point.db writes, point.log ++ [.committed label]⟩

/-- One step of the world: a transaction begins, executes a statement whose locks nobody else
excludes, commits, or is aborted. -/
inductive Step (program : Label → Prog Stmt (Exit Reply)) (admits : Point Db Label → Label → Prop) :
    World Stmt Db Write Lock Label Reply → World Stmt Db Write Lock Label Reply → Prop
  | start {world} (i : Nat) (label : Label) : world.live i = none →
      Step program admits world ⟨begin world.point label,
        Function.update world.live i (some ⟨label, program label, [], []⟩)⟩
  | exec {world} (i : Nat) {label : Label} {β : Type} {statement : Stmt β}
      {next : β → Prog Stmt (Exit Reply)} {writes more : List Write} {locks : List Lock}
      {answer : β} : world.live i = some ⟨label, .stmt statement next, writes, locks⟩ →
      (∀ j other, j ≠ i → world.live j = some other →
        E.Compatible (E.locks statement (E.view world.point.db writes)) other.locks) →
      E.exec statement (E.view world.point.db writes) = .ok (answer, more) →
      Step program admits world ⟨world.point, Function.update world.live i
        (some ⟨label, next answer, writes ++ more,
          locks ++ E.locks statement (E.view world.point.db writes)⟩)⟩
  | commit {world} (i : Nat) {label : Label} {reply : Reply} {writes : List Write}
      {locks : List Lock} : world.live i = some ⟨label, .done (.commit reply), writes, locks⟩ →
      admits world.point label →
      Step program admits world ⟨E.commit world.point label writes,
        Function.update world.live i none⟩
  | abort {world} (i : Nat) :
      Step program admits world ⟨world.point, Function.update world.live i none⟩

/-- A world with no transaction running. -/
def idle (db : Db) : World Stmt Db Write Lock Label Reply := ⟨⟨db, []⟩, fun _ => none⟩

/-- A world that some interleaving leads to. -/
def Reaches (program : Label → Prog Stmt (Exit Reply)) (admits : Point Db Label → Label → Prop)
    (db : Db) (world : World Stmt Db Write Lock Label Reply) : Prop :=
  Relation.ReflTransGen (E.Step program admits) (idle db) world

/-- **What a step does to a running transaction**: nothing, or one of its statements on the
committed database, which stays. -/
theorem Step.session {program : Label → Prog Stmt (Exit Reply)}
    {admits : Point Db Label → Label → Prop} {world world' : World Stmt Db Write Lock Label Reply}
    (step : E.Step program admits world world') {i : Nat}
    {session : Session Stmt Write Lock Label Reply} (running : world.live i = some session)
    (still : (world'.live i).isSome = true) : world'.live i = some session ∨
      world'.point = world.point ∧ ∃ (β : Type) (statement : Stmt β)
        (next : β → Prog Stmt (Exit Reply)) (answer : β) (more : List Write),
        session.program = .stmt statement next ∧
        E.exec statement (E.view world.point.db session.writes) = .ok (answer, more) ∧
        world'.live i = some ⟨session.label, next answer, session.writes ++ more,
          session.locks ++ E.locks statement (E.view world.point.db session.writes)⟩ := by
  cases step with
  | start j label vacant =>
    refine Or.inl ((Function.update_of_ne ?_ _ _).trans running)
    rintro rfl
    rw [running] at vacant
    cases vacant
  | @exec j label β statement next writes more locks answer executing _ result =>
    by_cases own : i = j
    · subst own
      cases running.symm.trans executing
      exact Or.inr ⟨rfl, β, statement, next, answer, more, rfl, result, Function.update_self _ _ _⟩
    · exact Or.inl ((Function.update_of_ne own _ _).trans running)
  | commit j _ _ | abort j =>
    by_cases own : i = j
    · subst own
      dsimp only at still
      rw [Function.update_self] at still
      cases still
    · exact Or.inl ((Function.update_of_ne own _ _).trans running)

/-! ### Programs under interference -/

section Wp

variable (rely : List Lock → Point Db Label → Point Db Label → Prop) (inv : Point Db Label → Prop)

/-- What must hold before a program so that its result satisfies a condition, whatever others
commit between its statements within `rely`. A condition speaks of the locks held, of the writes
pending and of the last committed point seen. -/
def wp {α : Type} : Prog Stmt α → (α → List Lock → List Write → Point Db Label → Prop) →
    List Lock → List Write → Point Db Label → Prop
  | .done result, post, locks, writes, point => post result locks writes point
  | .stmt statement next, post, locks, writes, point => ∀ point', rely locks point point' →
      inv point' → ∀ answer more,
      E.exec statement (E.view point'.db writes) = .ok (answer, more) →
      wp (next answer) post (locks ++ E.locks statement (E.view point'.db writes))
        (writes ++ more) point'

variable {rely inv} {α β : Type}

/-- **Sequencing.** -/
theorem wp_bind {program : Prog Stmt α} {rest : α → Prog Stmt β}
    {post : β → List Lock → List Write → Point Db Label → Prop} :
    ∀ {locks writes point}, E.wp rely inv program
      (fun result => E.wp rely inv (rest result) post) locks writes point →
      E.wp rely inv (program >>= rest) post locks writes point := by
  induction program with
  | done result => exact fun holds => holds
  | stmt statement next ih =>
    intro locks writes point holds point' further kept answer more result
    exact ih answer (holds point' further kept answer more result)

/-- **Consequence**: a stronger invariant, a weaker condition. -/
theorem wp_mono {inv' : Point Db Label → Prop} (stronger : ∀ point, inv' point → inv point)
    {program : Prog Stmt α} {post post' : α → List Lock → List Write → Point Db Label → Prop}
    (weaker : ∀ result locks writes point, post result locks writes point →
      post' result locks writes point) :
    ∀ {locks writes point}, E.wp rely inv program post locks writes point →
      E.wp rely inv' program post' locks writes point := by
  induction program with
  | done result => exact fun holds => weaker _ _ _ _ holds
  | stmt statement next ih =>
    intro locks writes point holds point' further kept answer more result
    exact ih answer (holds point' further (stronger _ kept) answer more result)

/-- A condition that interference keeps, before a program as after it. -/
theorem wp_rely (trans : ∀ locks first second third, rely locks first second →
      rely locks second third → rely locks first third)
    {program : Prog Stmt α} {post : α → List Lock → List Write → Point Db Label → Prop}
    (stable : ∀ result locks writes point point', post result locks writes point →
      rely locks point point' → post result locks writes point')
    {locks : List Lock} {writes : List Write} {point point' : Point Db Label}
    (holds : E.wp rely inv program post locks writes point) (further : rely locks point point') :
    E.wp rely inv program post locks writes point' := by
  cases program with
  | done result => exact stable _ _ _ _ _ holds further
  | stmt statement next => exact fun later rest => holds later (trans _ _ _ _ further rest)

/-- What interference keeps holds at the end as at the start. -/
theorem wp_stable {P : Point Db Label → Prop}
    (stable : ∀ locks point point', rely locks point point' → P point → P point')
    {program : Prog Stmt α} {post : α → List Lock → List Write → Point Db Label → Prop} :
    ∀ {locks writes point}, E.wp rely inv program post locks writes point → P point →
      E.wp rely inv program (fun result locks writes point =>
        post result locks writes point ∧ P point) locks writes point := by
  induction program with
  | done result => exact fun holds start => ⟨holds, start⟩
  | stmt statement next ih =>
    intro locks writes point holds start point' further kept answer more result
    exact ih answer (holds point' further kept answer more result)
      (stable locks point point' further start)

/-- A program that runs alone meets its condition. -/
theorem wp_eval (refl : ∀ locks point, rely locks point point) {program : Prog Stmt α}
    {post : α → List Lock → List Write → Point Db Label → Prop} {point : Point Db Label}
    (kept : inv point) {result : α} {writes' : List Write} :
    ∀ {locks writes}, E.wp rely inv program post locks writes point →
      E.eval program point.db writes = .ok (result, writes') →
      ∃ locks', post result locks' writes' point := by
  induction program with
  | done value =>
    rintro locks writes holds ⟨⟩
    exact ⟨locks, holds⟩
  | stmt statement next ih =>
    intro locks writes holds evaluated
    rw [eval] at evaluated
    cases executed : E.exec statement (E.view point.db writes) with
    | error error =>
      rw [executed] at evaluated
      cases evaluated
    | ok outcome =>
      rw [executed] at evaluated
      exact ih outcome.1 (holds point (refl locks point) kept outcome.1 outcome.2 executed) evaluated

variable (rely inv) in
/-- The condition on how a transaction ends: what it commits, whenever it does, meets a goal. -/
def Committing (goal : List Lock → List Write → Point Db Label → Prop) :
    Exit Reply → List Lock → List Write → Point Db Label → Prop
  | .rollback _, _, _, _ => True
  | .commit _, locks, writes, point => ∀ point', rely locks point point' → inv point' →
      goal locks writes point'

variable (rely inv) in
/-- The same with an assertion before every statement. -/
def outline {α : Type} (check : {β : Type} → Stmt β → List Lock → List Write → Point Db Label → Prop) :
    Prog Stmt α → (α → List Lock → List Write → Point Db Label → Prop) →
    List Lock → List Write → Point Db Label → Prop
  | .done result, post, locks, writes, point => post result locks writes point
  | .stmt statement next, post, locks, writes, point => ∀ point', rely locks point point' →
      inv point' → check statement locks writes point' ∧ ∀ answer more,
      E.exec statement (E.view point'.db writes) = .ok (answer, more) →
      outline check (next answer) post (locks ++ E.locks statement (E.view point'.db writes))
        (writes ++ more) point'

section Outline

variable {check : {β : Type} → Stmt β → List Lock → List Write → Point Db Label → Prop}

/-- **Sequencing** of asserted programs. -/
theorem outline_bind {program : Prog Stmt α} {rest : α → Prog Stmt β}
    {post : β → List Lock → List Write → Point Db Label → Prop} :
    ∀ {locks writes point}, E.outline rely inv check program
      (fun result => E.outline rely inv check (rest result) post) locks writes point →
      E.outline rely inv check (program >>= rest) post locks writes point := by
  induction program with
  | done result => exact fun holds => holds
  | stmt statement next ih =>
    intro locks writes point holds point' further kept
    obtain ⟨here, later⟩ := holds point' further kept
    exact ⟨here, fun answer more result => ih answer (later answer more result)⟩

/-- A weaker condition at the end. -/
theorem outline_mono {program : Prog Stmt α}
    {post post' : α → List Lock → List Write → Point Db Label → Prop}
    (weaker : ∀ result locks writes point, post result locks writes point →
      post' result locks writes point) :
    ∀ {locks writes point}, E.outline rely inv check program post locks writes point →
      E.outline rely inv check program post' locks writes point := by
  induction program with
  | done result => exact fun holds => weaker _ _ _ _ holds
  | stmt statement next ih =>
    intro locks writes point holds point' further kept
    obtain ⟨here, later⟩ := holds point' further kept
    exact ⟨here, fun answer more result => ih answer (later answer more result)⟩

/-- A stronger invariant. -/
theorem outline_anti {inv' : Point Db Label → Prop} (stronger : ∀ point, inv' point → inv point)
    {program : Prog Stmt α} {post : α → List Lock → List Write → Point Db Label → Prop} :
    ∀ {locks writes point}, E.outline rely inv check program post locks writes point →
      E.outline rely inv' check program post locks writes point := by
  induction program with
  | done result => exact fun holds => holds
  | stmt statement next ih =>
    intro locks writes point holds point' further kept
    obtain ⟨here, later⟩ := holds point' further (stronger _ kept)
    exact ⟨here, fun answer more result => ih answer (later answer more result)⟩

end Outline

end Wp

/-! ### The rely-guarantee rule -/

/-- What a transaction owes when it commits some writes. -/
def Owes (contract : Contract Db Lock Label) (admits : Point Db Label → Label → Prop)
    (label : Label) (locks : List Lock) (writes : List Write) (point : Point Db Label) : Prop :=
  admits point label → contract.Inv (E.commit point label writes) ∧
    ∀ others, E.Compatible locks others →
      contract.Rely others point (E.commit point label writes)

/-- A program that keeps its contract, whatever others commit between its statements. -/
def Safe (contract : Contract Db Lock Label) (admits : Point Db Label → Label → Prop)
    (label : Label) (program : Prog Stmt (Exit Reply)) : List Lock → List Write →
    Point Db Label → Prop :=
  E.wp contract.Rely contract.Inv program
    (Committing contract.Rely contract.Inv (E.Owes contract admits label))

variable {E}

/-- Safety survives what others may do. -/
theorem Safe.mono {contract : Contract Db Lock Label} {admits : Point Db Label → Label → Prop}
    {label : Label} {program : Prog Stmt (Exit Reply)} {locks : List Lock} {writes : List Write}
    {point point' : Point Db Label} (safe : E.Safe contract admits label program locks writes point)
    (rely : contract.Rely locks point point') :
    E.Safe contract admits label program locks writes point' := by
  have trans : ∀ locks first second third, contract.Rely locks first second →
      contract.Rely locks second third → contract.Rely locks first third :=
    fun _ _ _ _ => contract.trans
  refine E.wp_rely trans (fun exit locks writes point point' holds further => ?_) safe rely
  cases exit with
  | rollback _ => trivial
  | commit _ => exact fun later rest => holds later (contract.trans further rest)

variable (E) in
/-- What holds of every reachable world. -/
structure Sound (contract : Contract Db Lock Label) (admits : Point Db Label → Label → Prop)
    (world : World Stmt Db Write Lock Label Reply) : Prop where
  inv : contract.Inv world.point
  safe : ∀ i session, world.live i = some session →
    E.Safe contract admits session.label session.program session.locks session.writes world.point
  apart : ∀ i j first second, i ≠ j → world.live i = some first → world.live j = some second →
    E.Compatible first.locks second.locks

section Sound

variable {contract : Contract Db Lock Label} {admits : Point Db Label → Label → Prop}
  {program : Label → Prog Stmt (Exit Reply)}
  {world world' : World Stmt Db Write Lock Label Reply}

/-- A session after one session changed: that one, or another as it was. -/
theorem live_update {live : Nat → Option (Session Stmt Write Lock Label Reply)} {i j : Nat}
    {value : Option (Session Stmt Write Lock Label Reply)}
    {session : Session Stmt Write Lock Label Reply}
    (found : Function.update live i value j = some session) :
    (j = i ∧ value = some session) ∨ (j ≠ i ∧ live j = some session) := by
  by_cases same : j = i
  · subst same
    rw [Function.update_self] at found
    exact Or.inl ⟨rfl, found⟩
  · rw [Function.update_of_ne same] at found
    exact Or.inr ⟨same, found⟩

/-- Locks stay apart when one session changes to locks compatible with all others. -/
theorem Sound.apart_update (sound : E.Sound contract admits world) {i : Nat}
    {value : Option (Session Stmt Write Lock Label Reply)}
    (fits : ∀ session, value = some session → ∀ j other, j ≠ i → world.live j = some other →
      E.Compatible session.locks other.locks) :
    ∀ j k first second, j ≠ k → Function.update world.live i value j = some first →
      Function.update world.live i value k = some second →
      E.Compatible first.locks second.locks := by
  intro j k first second different foundFirst foundSecond
  rcases live_update foundFirst with ⟨rfl, isFirst⟩ | ⟨notFirst, oldFirst⟩
  · rcases live_update foundSecond with ⟨rfl, _⟩ | ⟨notSecond, oldSecond⟩
    · exact absurd rfl different
    · exact fits first isFirst k second notSecond oldSecond
  · rcases live_update foundSecond with ⟨rfl, isSecond⟩ | ⟨_, oldSecond⟩
    · exact Compatible.symm E (fits second isSecond j first notFirst oldFirst)
    · exact sound.apart j k first second different oldFirst oldSecond

/-- **Every step keeps the world sound.** -/
theorem Sound.step
    (begins : ∀ label point, contract.Inv point → contract.Inv (begin point label) ∧
      ∀ locks, contract.Rely locks point (begin point label))
    (safe : ∀ label point, contract.Inv (begin point label) →
      E.Safe contract admits label (program label) [] [] (begin point label))
    (sound : E.Sound contract admits world) (step : E.Step program admits world world') :
    E.Sound contract admits world' := by
  cases step with
  | start i label vacant =>
    obtain ⟨inv, rely⟩ := begins label world.point sound.inv
    refine ⟨inv, fun j session found => ?_, sound.apart_update ?_⟩
    · rcases live_update found with ⟨rfl, same⟩ | ⟨_, old⟩
      · cases same
        exact safe label _ inv
      · exact (sound.safe j session old).mono (rely _)
    · rintro session ⟨⟩ j other _ _
      exact fun _ member => absurd member List.not_mem_nil
  | exec i running granted result =>
    refine ⟨sound.inv, fun j session found => ?_, sound.apart_update ?_⟩
    · rcases live_update found with ⟨rfl, same⟩ | ⟨_, old⟩
      · cases same
        exact sound.safe j _ running world.point (contract.refl _ _) sound.inv _ _ result
      · exact sound.safe j session old
    · rintro session ⟨⟩ j other different found lock member
      rcases List.mem_append.mp member with old | new
      · exact sound.apart i j _ other (Ne.symm different) running found lock old
      · exact granted j other different found lock new
  | commit i running admitted =>
    obtain ⟨inv, guarantee⟩ := sound.safe i _ running world.point (contract.refl _ _) sound.inv
      admitted
    refine ⟨inv, fun j session found => ?_, sound.apart_update fun _ same => by cases same⟩
    rcases live_update found with ⟨_, same⟩ | ⟨different, old⟩
    · cases same
    · refine (sound.safe j session old).mono (guarantee _ ?_)
      exact sound.apart i j _ session (Ne.symm different) running old
  | abort i =>
    refine ⟨sound.inv, fun j session found => ?_, sound.apart_update fun _ same => by cases same⟩
    rcases live_update found with ⟨_, same⟩ | ⟨_, old⟩
    · cases same
    · exact sound.safe j session old

/-- If every program is safe, every reachable world is sound. -/
theorem sound_world
    (begins : ∀ label point, contract.Inv point → contract.Inv (begin point label) ∧
      ∀ locks, contract.Rely locks point (begin point label))
    (safe : ∀ label point, contract.Inv (begin point label) →
      E.Safe contract admits label (program label) [] [] (begin point label))
    {db : Db} (start : contract.Inv ⟨db, []⟩) (reaches : E.Reaches program admits db world) :
    E.Sound contract admits world := by
  induction reaches with
  | refl =>
    refine ⟨start, fun _ _ found => ?_, fun _ _ _ _ _ found => ?_⟩
    · cases found
    · cases found
  | tail _ step ih => exact ih.step begins safe step

/-- A world that further steps lead to. -/
def Continues (program : Label → Prog Stmt (Exit Reply)) (admits : Point Db Label → Label → Prop)
    (world world' : World Stmt Db Write Lock Label Reply) : Prop :=
  Relation.ReflTransGen (E.Step program admits) world world'

/-- **From a sound world on, all that happens is what everybody may rely on.** -/
theorem Sound.relied
    (begins : ∀ label point, contract.Inv point → contract.Inv (begin point label) ∧
      ∀ locks, contract.Rely locks point (begin point label))
    (safe : ∀ label point, contract.Inv (begin point label) →
      E.Safe contract admits label (program label) [] [] (begin point label))
    (sound : E.Sound contract admits world) (continues : E.Continues program admits world world') :
    contract.Rely [] world.point world'.point := by
  suffices E.Sound contract admits world' ∧ contract.Rely [] world.point world'.point from this.2
  induction continues with
  | refl => exact ⟨sound, contract.refl _ _⟩
  | tail _ step ih =>
    obtain ⟨before, earlier⟩ := ih
    refine ⟨before.step begins safe step, contract.trans earlier ?_⟩
    cases step with
    | start i label vacant => exact (begins label _ before.inv).2 []
    | exec i running granted result => exact contract.refl _ _
    | commit i running admitted =>
      obtain ⟨_, guarantee⟩ := before.safe i _ running _ (contract.refl _ _) before.inv admitted
      exact guarantee [] fun _ _ _ absent => absurd absent List.not_mem_nil
    | abort i => exact contract.refl _ _

/-- **The rely-guarantee rule**: if every program is safe, every reachable point satisfies the
invariant. -/
theorem sound
    (begins : ∀ label point, contract.Inv point → contract.Inv (begin point label) ∧
      ∀ locks, contract.Rely locks point (begin point label))
    (safe : ∀ label point, contract.Inv (begin point label) →
      E.Safe contract admits label (program label) [] [] (begin point label))
    {db : Db} (start : contract.Inv ⟨db, []⟩) (reaches : E.Reaches program admits db world) :
    contract.Inv world.point := by
  exact (sound_world begins safe start reaches).inv

section Asserted

variable {check : Label → {β : Type} → Stmt β → List Lock → List Write → Point Db Label → Prop}
  (begins : ∀ label point, contract.Inv point → contract.Inv (begin point label) ∧
    ∀ locks, contract.Rely locks point (begin point label))
  (safe : ∀ label point, contract.Inv (begin point label) →
    E.Safe contract admits label (program label) [] [] (begin point label))
  (outlined : ∀ label point, contract.Inv (begin point label) →
    E.outline contract.Rely contract.Inv (check label) (program label) (fun _ _ _ _ => True) [] []
      (begin point label))
  {db : Db} (start : contract.Inv ⟨db, []⟩)

include begins safe outlined start

/-- Every running transaction is asserted from the last point that it has seen. -/
theorem outlined_world (reaches : E.Reaches program admits db world) :
    ∀ i session, world.live i = some session → ∃ point, contract.Inv point ∧
      contract.Rely session.locks point world.point ∧
      E.outline contract.Rely contract.Inv (check session.label) session.program
        (fun _ _ _ _ => True) session.locks session.writes point := by
  induction reaches with
  | refl => exact fun _ _ found => by cases found
  | @tail world world' reaches step ih =>
    have before := sound_world begins safe start reaches
    cases step with
    | start j label vacant =>
      obtain ⟨inv, rely⟩ := begins label world.point before.inv
      intro k session found
      rcases live_update found with ⟨rfl, same⟩ | ⟨_, old⟩
      · cases same
        exact ⟨_, inv, contract.refl _ _, outlined label _ inv⟩
      · obtain ⟨point, kept, earlier, rest⟩ := ih k session old
        exact ⟨point, kept, contract.trans earlier (rely _), rest⟩
    | exec j executing granted result =>
      intro k session found
      rcases live_update found with ⟨rfl, same⟩ | ⟨_, old⟩
      · cases same
        obtain ⟨point, _, earlier, rest⟩ := ih k _ executing
        exact ⟨world.point, before.inv, contract.refl _ _,
          (rest world.point earlier before.inv).2 _ _ result⟩
      · exact ih k session old
    | commit j committing admitted =>
      intro k session found
      rcases live_update found with ⟨_, same⟩ | ⟨different, old⟩
      · cases same
      · obtain ⟨point, kept, earlier, rest⟩ := ih k session old
        obtain ⟨_, guarantee⟩ := before.safe j _ committing world.point (contract.refl _ _)
          before.inv admitted
        exact ⟨point, kept, contract.trans earlier
          (guarantee _ (before.apart j k _ session (Ne.symm different) committing old)), rest⟩
    | abort j =>
      intro k session found
      rcases live_update found with ⟨_, same⟩ | ⟨_, old⟩
      · cases same
      · exact ih k session old

/-- **The assertion rule**: if every program is safe and asserted, the assertion holds before the
next statement of every running transaction. -/
theorem asserted (reaches : E.Reaches program admits db world) {i : Nat}
    {label : Label} {β : Type} {statement : Stmt β} {next : β → Prog Stmt (Exit Reply)}
    {writes : List Write} {locks : List Lock}
    (running : world.live i = some ⟨label, .stmt statement next, writes, locks⟩) :
    check label statement locks writes world.point := by
  obtain ⟨point, _, earlier, rest⟩ :=
    outlined_world begins safe outlined start reaches i _ running
  exact (rest world.point earlier (sound_world begins safe start reaches).inv).1

end Asserted

end Sound

/-! ### Schedules -/

/-- One step of a written-out schedule. -/
inductive Move (Label : Type) where
  | start (i : Nat) (label : Label)
  | exec (i : Nat)
  | commit (i : Nat)

section Schedule

variable [DecidableRel E.conflict]

variable (E) in
/-- Follow one step of a schedule, with fewer than `bound` transactions at a time. A commit must pass
a check. -/
def follow (program : Label → Prog Stmt (Exit Reply)) (check : Point Db Label → Label → Bool)
    (bound : Nat) (world : World Stmt Db Write Lock Label Reply) :
    Move Label → Option (World Stmt Db Write Lock Label Reply)
  | .start i label => if i < bound ∧ (world.live i).isNone then
      some ⟨begin world.point label,
        Function.update world.live i (some ⟨label, program label, [], []⟩)⟩
    else none
  | .exec i => match world.live i with
    | some ⟨label, .stmt statement next, writes, locks⟩ =>
      let view := E.view world.point.db writes
      if ∀ j < bound, j ≠ i → ∀ other ∈ world.live j, ∀ lock ∈ E.locks statement view,
          ∀ lock' ∈ other.locks, ¬ E.conflict lock lock' then
        match E.exec statement view with
        | .ok (answer, more) => some ⟨world.point, Function.update world.live i (some
            ⟨label, next answer, writes ++ more, locks ++ E.locks statement view⟩)⟩
        | .error _ => none
      else none
    | _ => none
  | .commit i => match world.live i with
    | some ⟨label, .done (.commit _), writes, _⟩ => if check world.point label then
        some ⟨E.commit world.point label writes, Function.update world.live i none⟩
      else none
    | _ => none

variable (E) in
/-- Follow a whole schedule. -/
def followAll (program : Label → Prog Stmt (Exit Reply)) (check : Point Db Label → Label → Bool)
    (bound : Nat) (world : World Stmt Db Write Lock Label Reply) (moves : List (Move Label)) :
    Option (World Stmt Db Write Lock Label Reply) :=
  moves.foldlM (E.follow program check bound) world

variable {program : Label → Prog Stmt (Exit Reply)} {admits : Point Db Label → Label → Prop}
  {check : Point Db Label → Label → Bool} {bound : Nat}
  {world world' : World Stmt Db Write Lock Label Reply}

/-- A followed step is a step, and leaves the sessions beyond the bound empty. -/
theorem step_of_follow (checked : ∀ point label, check point label = true → admits point label)
    (beyond : ∀ j, bound ≤ j → world.live j = none) {move : Move Label}
    (result : E.follow program check bound world move = some world') :
    E.Step program admits world world' ∧ ∀ j, bound ≤ j → world'.live j = none := by
  have inside : ∀ {i session}, world.live i = some session → i < bound := by
    intro i session found
    by_contra outside
    rw [beyond i (Nat.le_of_not_lt outside)] at found
    cases found
  have kept : ∀ {i} (value : Option (Session Stmt Write Lock Label Reply)), i < bound →
      ∀ j, bound ≤ j → Function.update world.live i value j = none := by
    intro i value within j outside
    rw [Function.update_of_ne (by omega)]
    exact beyond j outside
  cases move with
  | start i label =>
    rw [follow] at result
    split at result
    · rename_i vacant
      cases result
      exact ⟨.start i label (Option.isNone_iff_eq_none.mp vacant.2), kept _ vacant.1⟩
    · cases result
  | exec i =>
    rw [follow] at result
    split at result
    · rename_i label β statement next writes locks running
      simp only at result
      split at result
      · rename_i compatible
        split at result
        · rename_i answer more executed
          cases result
          refine ⟨.exec i running (fun j other different found => ?_) executed,
            kept _ (inside running)⟩
          exact compatible j (inside found) different other found
        · cases result
      · cases result
    · cases result
  | commit i =>
    rw [follow] at result
    split at result
    · rename_i label reply writes locks running
      split at result
      · rename_i passes
        cases result
        exact ⟨.commit i running (checked _ _ passes), kept _ (inside running)⟩
      · cases result
    · cases result

/-- A schedule that can be followed, from any world with no session beyond the bound. -/
theorem steps_of_followAll (checked : ∀ point label, check point label = true → admits point label)
    {moves : List (Move Label)} : ∀ {first : World Stmt Db Write Lock Label Reply},
      (∀ j, bound ≤ j → first.live j = none) →
      E.followAll program check bound first moves = some world →
      Relation.ReflTransGen (E.Step program admits) first world ∧
        ∀ j, bound ≤ j → world.live j = none := by
  induction moves with
  | nil =>
    rintro first beyond ⟨⟩
    exact ⟨.refl, beyond⟩
  | cons move moves ih =>
    intro first beyond result
    obtain ⟨second, followed, rest⟩ := Option.bind_eq_some_iff.mp result
    obtain ⟨step, beyond'⟩ := step_of_follow checked beyond followed
    obtain ⟨steps, last⟩ := ih beyond' rest
    exact ⟨steps.head step, last⟩

/-- **A schedule that can be followed is an interleaving.** -/
theorem reaches_of_follow (checked : ∀ point label, check point label = true → admits point label)
    {db : Db} {moves : List (Move Label)}
    (result : E.followAll program check bound (idle db) moves = some world) :
    E.Reaches program admits db world :=
  (steps_of_followAll checked (fun _ _ => rfl) result).1

/-- A schedule in two parts. -/
theorem continues_of_follow (checked : ∀ point label, check point label = true → admits point label)
    {db : Db} {moves more : List (Move Label)} {world' : World Stmt Db Write Lock Label Reply}
    (result : E.followAll program check bound (idle db) moves = some world)
    (further : E.followAll program check bound world more = some world') :
    E.Reaches program admits db world ∧ E.Continues program admits world world' := by
  obtain ⟨reaches, beyond⟩ := steps_of_followAll checked (fun _ _ => rfl) result
  exact ⟨reaches, (steps_of_followAll checked beyond further).1⟩

variable (E) in
/-- The worlds along a schedule. -/
def follows (program : Label → Prog Stmt (Exit Reply)) (check : Point Db Label → Label → Bool)
    (bound : Nat) : World Stmt Db Write Lock Label Reply → List (Move Label) →
    Option (List (World Stmt Db Write Lock Label Reply))
  | world, [] => some [world]
  | world, move :: moves => (E.follow program check bound world move).bind fun next =>
      (follows program check bound next moves).map (world :: ·)

/-- **The worlds along a schedule are the steps of an interleaving.** -/
theorem isChain_of_follows (checked : ∀ point label, check point label = true → admits point label)
    {moves : List (Move Label)} : ∀ {world : World Stmt Db Write Lock Label Reply} {worlds},
      (∀ j, bound ≤ j → world.live j = none) →
      E.follows program check bound world moves = some worlds →
      worlds.IsChain (E.Step program admits) ∧ worlds.head? = some world := by
  induction moves with
  | nil =>
    rintro world worlds _ ⟨⟩
    exact ⟨List.isChain_singleton _, rfl⟩
  | cons move moves ih =>
    intro world worlds beyond result
    obtain ⟨next, followed, rest⟩ := Option.bind_eq_some_iff.mp result
    obtain ⟨later, followed', rfl⟩ := Option.map_eq_some_iff.mp rest
    obtain ⟨step, beyond'⟩ := step_of_follow checked beyond followed
    obtain ⟨chain, head⟩ := ih beyond' followed'
    refine ⟨?_, rfl⟩
    cases later with
    | nil => cases head
    | cons first later =>
      cases head
      exact List.isChain_cons_cons.mpr ⟨step, chain⟩

end Schedule

end Engine

/-! ### Two reads -/

section Untorn

variable {α β γ : Type}

/-- Along successive databases, once what is read first has changed, what is read second no longer
does. -/
def Untorn (first : α → β) (second : α → γ) : List α → Prop
  | [] => True
  | db :: rest =>
    (∀ next ∈ rest.head?, first next ≠ first db → ∀ later ∈ rest, second later = second db) ∧
      Untorn first second rest

instance Untorn.decidable [DecidableEq β] [DecidableEq γ] (first : α → β) (second : α → γ) :
    (dbs : List α) → Decidable (Untorn first second dbs)
  | [] => isTrue trivial
  | db :: rest =>
    have := Untorn.decidable first second rest
    inferInstanceAs (Decidable ((∀ next ∈ rest.head?, first next ≠ first db →
      ∀ later ∈ rest, second later = second db) ∧ Untorn first second rest))

/-- **Two reads at the ends answer as one would in between.** -/
theorem Untorn.read {first : α → β} {second : α → γ} {dbs : List α} :
    ∀ {start finish : α}, Untorn first second dbs → dbs.head? = some start →
      dbs.getLast? = some finish → ∃ db ∈ dbs, first db = first start ∧ second db = second finish := by
  induction dbs with
  | nil => exact fun _ absent => by cases absent
  | cons db rest ih =>
    rintro start finish ⟨frozen, untorn⟩ ⟨⟩ last
    cases rest with
    | nil =>
      cases last
      exact ⟨db, List.mem_cons_self, rfl, rfl⟩
    | cons next rest =>
      rw [List.getLast?_cons_cons] at last
      by_cases same : first next = first db
      · obtain ⟨found, member, seen, kept⟩ := ih untorn rfl last
        exact ⟨found, List.mem_cons_of_mem _ member, seen.trans same, kept⟩
      · have kept := frozen next rfl same finish (List.mem_of_getLast? last)
        exact ⟨db, List.mem_cons_self, rfl, kept.symm⟩

end Untorn

end Meter.Lib
