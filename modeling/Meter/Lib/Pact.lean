/-
**Commits that a running transaction would object to.**

The contracts of `Meter.Lib.Transaction` promise the same to every holder of some locks. Here what a
transaction may rely on depends on the transaction too, and a commit may be one that some running
transaction has to be spared.

* `Prog.Every` — a condition on every statement that a program can issue.
* `Engine.PermittedStep` — a step that commits nothing while a running transaction objects.
* `Engine.pact_sound` — **the rule**: if every program honours the pact, whenever nobody objects to
  its commit, then every point that permitted steps reach satisfies the invariant.
* `Engine.followPermitted` — a written-out schedule whose commits are permitted.
-/

import Meter.Lib.Transaction

namespace Meter.Lib

/-! ### Every statement of a program -/

/-- A condition on every statement that a program can issue. -/
def Prog.Every {Stmt : Type → Type} {α : Type} (P : {β : Type} → Stmt β → Prop) :
    Prog Stmt α → Prop
  | .done _ => True
  | .stmt statement next => P statement ∧ ∀ answer, Every P (next answer)

theorem Prog.every_bind {Stmt : Type → Type} {α β : Type} {P : {γ : Type} → Stmt γ → Prop}
    {program : Prog Stmt α} {rest : α → Prog Stmt β} (first : program.Every P)
    (then_ : ∀ result, (rest result).Every P) : (program >>= rest).Every P := by
  induction program with
  | done result => exact then_ result
  | stmt statement next ih => exact ⟨first.1, fun answer => ih answer (first.2 answer)⟩

theorem Prog.every_issue {Stmt : Type → Type} {α β : Type} {P : {γ : Type} → Stmt γ → Prop}
    {statement : Stmt α} {rest : α → Prog Stmt β} (first : P statement)
    (then_ : ∀ answer, (rest answer).Every P) : (Prog.issue statement >>= rest).Every P :=
  ⟨first, then_⟩

/-- An invariant, and what each transaction may rely on while it holds some locks. -/
structure Pact (Db Lock Label : Type) where
  Inv : Point Db Label → Prop
  Rely : Label → List Lock → Point Db Label → Point Db Label → Prop
  refl : ∀ label locks point, Rely label locks point point
  trans : ∀ {label locks first second third}, Rely label locks first second →
    Rely label locks second third → Rely label locks first third

namespace Engine

variable {Stmt : Type → Type} {Db Write Lock Error Label Reply : Type}
  (E : Engine Stmt Db Write Lock Error)

/-! ### More rules for programs under interference -/

section Wp

variable {rely rely' : List Lock → Point Db Label → Point Db Label → Prop}
  {inv inv' : Point Db Label → Prop} {α : Type}
  {post post' : α → List Lock → List Write → Point Db Label → Prop}

/-- Less interference, and a stronger invariant. -/
theorem wp_anti (fewer : ∀ locks point point', rely' locks point point' → rely locks point point')
    (stronger : ∀ point, inv' point → inv point) {program : Prog Stmt α} :
    ∀ {locks writes point}, E.wp rely inv program post locks writes point →
      E.wp rely' inv' program post locks writes point := by
  induction program with
  | done result => exact fun holds => holds
  | stmt statement next ih =>
    intro locks writes point holds point' further kept answer more result
    exact ih answer (holds point' (fewer _ _ _ further) (stronger _ kept) answer more result)

/-- **Conjunction.** -/
theorem wp_and {program : Prog Stmt α} : ∀ {locks writes point},
    E.wp rely inv program post locks writes point →
    E.wp rely inv program post' locks writes point →
    E.wp rely inv program (fun result locks writes point => post result locks writes point ∧
      post' result locks writes point) locks writes point := by
  induction program with
  | done result => exact fun first second => ⟨first, second⟩
  | stmt statement next ih =>
    intro locks writes point first second point' further kept answer more result
    exact ih answer (first point' further kept answer more result)
      (second point' further kept answer more result)

/-- A fact about locks and writes that every statement keeps, if it is one the program may issue. -/
theorem wp_every {P : {β : Type} → Stmt β → Prop} {Q : List Lock → List Write → Prop}
    (keeps : ∀ {β : Type} (statement : Stmt β) db answer more locks writes, P statement →
      E.exec statement (E.view db writes) = .ok (answer, more) → Q locks writes →
      Q (locks ++ E.locks statement (E.view db writes)) (writes ++ more))
    {program : Prog Stmt α} (every : program.Every P) :
    ∀ {locks writes point}, Q locks writes →
      E.wp rely inv program (fun _ locks writes _ => Q locks writes) locks writes point := by
  induction program with
  | done result => exact fun holds => holds
  | stmt statement next ih =>
    intro locks writes point holds point' _ _ answer more result
    exact ih answer (every.2 answer) (keeps statement _ answer more _ _ every.1 result holds)

end Wp

/-! ### Permitted steps -/

/-- A step that commits nothing while a running transaction objects. `permits` sees the point, the
transaction that commits, and another one with its locks. -/
def PermittedStep (program : Label → Prog Stmt (Exit Reply))
    (admits : Point Db Label → Label → Prop)
    (permits : Point Db Label → Label → Label → List Lock → Prop)
    (world world' : World Stmt Db Write Lock Label Reply) : Prop :=
  E.Step program admits world world' ∧ ∀ i label reply writes locks,
    world.live i = some ⟨label, .done (.commit reply), writes, locks⟩ →
    world' = ⟨E.commit world.point label writes, Function.update world.live i none⟩ →
    ∀ j other, j ≠ i → world.live j = some other →
      permits world.point label other.label other.locks

/-- What a transaction owes when it commits some writes to which nobody objects. -/
def Honours (pact : Pact Db Lock Label) (admits : Point Db Label → Label → Prop)
    (permits : Point Db Label → Label → Label → List Lock → Prop)
    (label : Label) (locks : List Lock) (writes : List Write) (point : Point Db Label) : Prop :=
  admits point label → pact.Inv (E.commit point label writes) ∧
    ∀ other others, E.Compatible locks others → permits point label other others →
      pact.Rely other others point (E.commit point label writes)

/-- A program that honours the pact, whatever others commit between its statements. -/
def Honest (pact : Pact Db Lock Label) (admits : Point Db Label → Label → Prop)
    (permits : Point Db Label → Label → Label → List Lock → Prop)
    (label : Label) (program : Prog Stmt (Exit Reply)) : List Lock → List Write →
    Point Db Label → Prop :=
  E.wp (pact.Rely label) pact.Inv program
    (Committing (pact.Rely label) pact.Inv (E.Honours pact admits permits label))

variable {E}

section Pact

variable {pact : Pact Db Lock Label} {admits : Point Db Label → Label → Prop}
  {permits : Point Db Label → Label → Label → List Lock → Prop}
  {program : Label → Prog Stmt (Exit Reply)} {db : Db}
  {world : World Stmt Db Write Lock Label Reply}

theorem Honest.mono {label : Label} {program : Prog Stmt (Exit Reply)} {locks : List Lock}
    {writes : List Write} {point point' : Point Db Label}
    (honest : E.Honest pact admits permits label program locks writes point)
    (rely : pact.Rely label locks point point') :
    E.Honest pact admits permits label program locks writes point' := by
  have trans : ∀ locks first second third, pact.Rely label locks first second →
      pact.Rely label locks second third → pact.Rely label locks first third :=
    fun _ _ _ _ => pact.trans
  refine E.wp_rely trans (fun exit locks writes point point' holds further => ?_) honest rely
  cases exit with
  | rollback _ => trivial
  | commit _ => exact fun later rest => holds later (pact.trans further rest)

theorem reaches_of_permitted
    (steps : Relation.ReflTransGen (E.PermittedStep program admits permits) (idle db) world) :
    E.Reaches program admits db world :=
  Relation.ReflTransGen.mono (fun _ _ => And.left) _ _ steps

/-- In every interleaving, the locks of two transactions are apart. -/
theorem apart_of_reaches (reaches : E.Reaches program admits db world) :
    ∀ i j first second, i ≠ j → world.live i = some first → world.live j = some second →
      E.Compatible first.locks second.locks := by
  let trivially : Contract Db Lock Label :=
    ⟨fun _ => True, fun _ _ _ => True, fun _ _ => trivial, fun _ _ => trivial⟩
  have safe : ∀ {label : Label} {program : Prog Stmt (Exit Reply)} {locks writes point},
      E.Safe trivially admits label program locks writes point := by
    intro label program
    induction program with
    | done exit =>
      intro locks writes point
      cases exit with
      | rollback _ => trivial
      | commit _ => exact fun _ _ _ _ => ⟨trivial, fun _ _ => trivial⟩
    | stmt statement next ih => exact fun _ _ _ answer _ _ => ih answer
  exact (sound_world (fun _ _ _ => ⟨trivial, fun _ => trivial⟩) (fun _ _ _ => safe)
    (show trivially.Inv ⟨db, []⟩ from trivial) reaches).apart

/-- **The rule of pacts**: if every program is honest, then after permitted steps the invariant
holds, and every running transaction is still honest. -/
theorem pact_sound
    (begins : ∀ label point, pact.Inv point → pact.Inv (begin point label) ∧
      ∀ other locks, pact.Rely other locks point (begin point label))
    (honest : ∀ label point, pact.Inv (begin point label) →
      E.Honest pact admits permits label (program label) [] [] (begin point label))
    (start : pact.Inv ⟨db, []⟩)
    (steps : Relation.ReflTransGen (E.PermittedStep program admits permits) (idle db) world) :
    pact.Inv world.point ∧ ∀ i session, world.live i = some session →
      E.Honest pact admits permits session.label session.program session.locks session.writes
        world.point := by
  induction steps with
  | refl => exact ⟨start, fun _ _ found => by cases found⟩
  | tail earlier step ih =>
    obtain ⟨inv, safe⟩ := ih
    have apart := apart_of_reaches (reaches_of_permitted earlier)
    obtain ⟨step, permitted⟩ := step
    cases step with
    | start i label vacant =>
      obtain ⟨inv', rely⟩ := begins label _ inv
      refine ⟨inv', fun j session found => ?_⟩
      rcases live_update found with ⟨rfl, same⟩ | ⟨_, old⟩
      · cases same
        exact honest label _ inv'
      · exact (safe j session old).mono (rely _ _)
    | exec i running granted result =>
      refine ⟨inv, fun j session found => ?_⟩
      rcases live_update found with ⟨rfl, same⟩ | ⟨_, old⟩
      · cases same
        exact safe j _ running _ (pact.refl _ _ _) inv _ _ result
      · exact safe j session old
    | commit i running admitted =>
      obtain ⟨inv', guarantee⟩ := safe i _ running _ (pact.refl _ _ _) inv admitted
      refine ⟨inv', fun j session found => ?_⟩
      rcases live_update found with ⟨_, same⟩ | ⟨different, old⟩
      · cases same
      · refine (safe j session old).mono (guarantee _ _ ?_ ?_)
        · exact apart i j _ session (Ne.symm different) running old
        · exact permitted i _ _ _ _ running rfl j session different old
    | abort i =>
      refine ⟨inv, fun j session found => ?_⟩
      rcases live_update found with ⟨_, same⟩ | ⟨_, old⟩
      · cases same
      · exact safe j session old

/-! ### Permitted schedules -/

variable [DecidableRel E.conflict]

variable (E) in
/-- Follow one step of a schedule. A commit must pass a check against every other transaction. -/
def followPermitted (program : Label → Prog Stmt (Exit Reply))
    (check : Point Db Label → Label → Bool)
    (permit : Point Db Label → Label → Label → List Lock → Bool) (bound : Nat)
    (world : World Stmt Db Write Lock Label Reply) :
    Move Label → Option (World Stmt Db Write Lock Label Reply)
  | .commit i => if ∀ session ∈ world.live i, ∀ j < bound, j ≠ i → ∀ other ∈ world.live j,
        permit world.point session.label other.label other.locks = true then
      E.follow program check bound world (.commit i)
    else none
  | move => E.follow program check bound world move

variable {check : Point Db Label → Label → Bool}
  {permit : Point Db Label → Label → Label → List Lock → Bool} {bound : Nat}
  {world' : World Stmt Db Write Lock Label Reply}

/-- A followed step that ends a transaction commits it. -/
theorem commit_of_follow {move : Move Label}
    (result : E.follow program check bound world move = some world') {i : Nat}
    {session : Session Stmt Write Lock Label Reply} (running : world.live i = some session)
    (ended : world'.live i = none) : move = .commit i := by
  cases move with
  | start j label =>
    rw [follow] at result
    split at result
    · rename_i vacant
      cases result
      by_cases same : i = j
      · subst same
        rw [running] at vacant
        cases vacant.2
      · exact absurd (((Function.update_of_ne same _ _).symm.trans ended).symm.trans running)
          (by simp)
    · cases result
  | exec j =>
    rw [follow] at result
    split at result
    · simp only at result
      split at result
      · split at result
        · cases result
          by_cases same : i = j
          · subst same
            exact absurd ((Function.update_self _ _ _).symm.trans ended) (by simp)
          · exact absurd (((Function.update_of_ne same _ _).symm.trans ended).symm.trans running)
              (by simp)
        · cases result
      · cases result
    · cases result
  | commit j =>
    rw [follow] at result
    split at result
    · split at result
      · cases result
        by_cases same : i = j
        · rw [same]
        · exact absurd (((Function.update_of_ne same _ _).symm.trans ended).symm.trans running)
            (by simp)
      · cases result
    · cases result

/-- **A permitted schedule that can be followed takes permitted steps.** -/
theorem permitted_of_follow
    (checked : ∀ point label, check point label = true → admits point label)
    (permitted : ∀ point label other locks, permit point label other locks = true →
      permits point label other locks) {moves : List (Move Label)} :
    ∀ {first : World Stmt Db Write Lock Label Reply}, (∀ j, bound ≤ j → first.live j = none) →
      moves.foldlM (E.followPermitted program check permit bound) first = some world →
      Relation.ReflTransGen (E.PermittedStep program admits permits) first world := by
  induction moves with
  | nil =>
    rintro first _ ⟨⟩
    exact .refl
  | cons move moves ih =>
    intro first beyond result
    obtain ⟨second, followed, rest⟩ := Option.bind_eq_some_iff.mp result
    have plain : E.follow program check bound first move = some second := by
      cases move with
      | commit i =>
        rw [followPermitted] at followed
        split at followed
        · exact followed
        · cases followed
      | start i label => exact followed
      | exec i => exact followed
    obtain ⟨step, beyond'⟩ := step_of_follow checked beyond plain
    refine (ih beyond' rest).head ⟨step, fun i label reply writes locks running ends j other
      different found => ?_⟩
    have ended : second.live i = none := by
      rw [ends]
      exact Function.update_self _ _ _
    cases commit_of_follow plain running ended
    rw [followPermitted] at followed
    split at followed
    · rename_i passes
      refine permitted _ _ _ _ (passes _ running j ?_ different other found)
      by_contra outside
      rw [beyond j (Nat.le_of_not_lt outside)] at found
      cases found
    · cases followed

end Pact

end Engine

end Meter.Lib
