/-
**Layers around programs that run concurrently.**

A layer makes statements of its own before and after those of the program that it is around. A machine
with layers is `Transparent` if they leave alone what the bare programs work on.

* `Wraps` — a program in layers, and the bare one. `Wraps.bind`, `wraps_inTurn` are the rules of
  sequencing.
* `Transparent.run` — in layers a program does what it does without them.
* `Transparent.interleave` — **so do programs that run concurrently**: what is served in layers could be
  served without them, at another list of turns.
-/

import Mathlib.Data.Option.Basic
import Meter.Lib.Trace

namespace Meter.Lib

variable {Own Stmt : Type → Type} {α β : Type}

/-- A statement of a layer, or one of the program inside. -/
inductive Around (Own Stmt : Type → Type) (γ : Type) where
  | own (statement : Own γ)
  | bare (statement : Stmt γ)

/-- A program without layers. -/
def Prog.lift : Prog Stmt α → Prog (Around Own Stmt) α
  | .done result => .done result
  | .stmt statement next => .stmt (.bare statement) fun answer => lift (next answer)

/-- **A program in layers**, the bare one, and what their results have to do with each other. -/
inductive Wraps (Fits : α → β → Prop) : Prog (Around Own Stmt) α → Prog Stmt β → Prop
  | done {result : α} {result' : β} : Fits result result' → Wraps Fits (.done result) (.done result')
  | bare {γ : Type} {statement : Stmt γ} {next : γ → Prog (Around Own Stmt) α} {next' : γ → Prog Stmt β} :
      (∀ answer, Wraps Fits (next answer) (next' answer)) →
        Wraps Fits (.stmt (.bare statement) next) (.stmt statement next')
  | own {γ : Type} {statement : Own γ} {next : γ → Prog (Around Own Stmt) α} {program : Prog Stmt β} :
      (∀ answer, Wraps Fits (next answer) program) → Wraps Fits (.stmt (.own statement) next) program

/-! ### Sequences -/

section

variable {γ δ : Type} {Fits : α → β → Prop} {Fits' : γ → δ → Prop}

theorem wraps_lift (program : Prog Stmt α) :
    Wraps Eq (program.lift : Prog (Around Own Stmt) α) program := by
  induction program with
  | done result => exact .done rfl
  | stmt statement next ih => exact .bare ih

theorem Wraps.bind {layered : Prog (Around Own Stmt) α} {program : Prog Stmt β}
    (first : Wraps Fits layered program) {rest : α → Prog (Around Own Stmt) γ}
    {rest' : β → Prog Stmt δ} (second : ∀ result result', Fits result result' →
      Wraps Fits' (rest result) (rest' result')) :
    Wraps Fits' (layered.bind rest) (program.bind rest') := by
  induction first with
  | done fits => exact second _ _ fits
  | bare _ ih => exact .bare ih
  | own _ ih => exact .own ih

/-- A program of layers only. -/
def Owned : Prog (Around Own Stmt) α → Prop
  | .done _ => True
  | .stmt (.own _) next => ∀ answer, Owned (next answer)
  | .stmt (.bare _) _ => False

theorem Owned.bind {layer : Prog (Around Own Stmt) α} {rest : α → Prog (Around Own Stmt) γ}
    (owned : Owned layer) (owned' : ∀ result, Owned (rest result)) : Owned (layer.bind rest) := by
  induction layer with
  | done result => exact owned' result
  | stmt statement next ih =>
    cases statement with
    | own statement => exact fun answer => ih answer (owned answer)
    | bare statement => exact owned.elim

/-- Layers that come before a program. -/
theorem Wraps.before {layer : Prog (Around Own Stmt) α} (owned : Owned layer)
    {rest : α → Prog (Around Own Stmt) γ} {program : Prog Stmt δ}
    (second : ∀ result, Wraps Fits' (rest result) program) :
    Wraps Fits' (layer.bind rest) program := by
  induction layer with
  | done result => exact second result
  | stmt statement next ih =>
    cases statement with
    | own statement => exact .own fun answer => ih answer (owned answer)
    | bare statement => exact owned.elim

/-- Layers that come after a program. -/
theorem Wraps.after {layered : Prog (Around Own Stmt) α} {program : Prog Stmt δ} {Fits : α → δ → Prop}
    (first : Wraps Fits layered program) {rest : α → Prog (Around Own Stmt) γ}
    (second : ∀ result result', Fits result result' → Wraps Fits' (rest result) (.done result')) :
    Wraps Fits' (layered.bind rest) program := by
  induction first with
  | done fits => exact second _ _ fits
  | bare _ ih => exact .bare ih
  | own _ ih => exact .own ih

/-- Programs one after the other. -/
theorem wraps_inTurn {layered : List (Prog (Around Own Stmt) (Option α))}
    {programs : List (Prog Stmt (Option β))}
    (wraps : List.Forall₂ (Wraps (Option.Rel Fits)) layered programs) :
    Wraps (Option.Rel (List.Forall₂ Fits)) (inTurn layered) (inTurn programs) := by
  induction wraps with
  | nil => exact .done (.some .nil)
  | cons first _ ih =>
    refine first.bind fun result result' fits => ?_
    cases fits with
    | none => exact .done .none
    | some fits =>
      refine ih.bind fun results results' others => .done ?_
      cases others with
      | none => exact .none
      | some others => exact .some (.cons fits others)

end

/-! ### Lists of programs -/

section

universe u v

variable {A : Type u} {B : Type v} {R : A → B → Prop} {first : List A} {second : List B}

theorem forall₂_found (all : List.Forall₂ R first second) {turn : Nat} {a : A}
    (found : first[turn]? = some a) : ∃ b, second[turn]? = some b ∧ R a b := by
  induction all generalizing turn with
  | nil => cases found
  | @cons _ b _ _ one _ ih =>
    cases turn with
    | zero =>
      cases found
      exact ⟨b, rfl, one⟩
    | succ turn => exact ih found

theorem forall₂_set (all : List.Forall₂ R first second) (turn : Nat) {a : A} {b : B} (one : R a b) :
    List.Forall₂ R (first.set turn a) (second.set turn b) := by
  induction all generalizing turn with
  | nil => exact .nil
  | cons other others ih =>
    cases turn with
    | zero => exact .cons one others
    | succ turn => exact .cons other (ih turn)

/-- The first list goes on, the second one does not. -/
theorem forall₂_set_left (all : List.Forall₂ R first second) {turn : Nat} {a : A} {b : B}
    (found : second[turn]? = some b) (one : R a b) : List.Forall₂ R (first.set turn a) second := by
  induction all generalizing turn with
  | nil => exact .nil
  | cons other others ih =>
    cases turn with
    | zero =>
      cases found
      exact .cons one others
    | succ turn => exact .cons other (ih found)

end

/-! ### Turns -/

section

variable {turn : Nat} {turns : List Nat} {programs : List (Prog Stmt (Option α))}

theorem interleave_none (found : programs[turn]? = none) :
    interleave (turn :: turns) programs = interleave turns programs := by
  conv_lhs => unfold interleave
  rw [found]

theorem interleave_ended {result : α} (found : programs[turn]? = some (.done (some result))) :
    interleave (turn :: turns) programs = interleave turns programs := by
  conv_lhs => unfold interleave
  rw [found]

theorem interleave_failed (found : programs[turn]? = some (.done none)) :
    interleave (turn :: turns) programs = .done none := by
  unfold interleave
  rw [found]

theorem interleave_stmt {γ : Type} {statement : Stmt γ} {next : γ → Prog Stmt (Option α)}
    (found : programs[turn]? = some (.stmt statement next)) :
    interleave (turn :: turns) programs =
      .stmt statement fun answer => interleave turns (programs.set turn (next answer)) := by
  conv_lhs => unfold interleave
  rw [found]

end

/-! ### Runs -/

/-- A machine on which layers do not touch what the bare programs work on. -/
structure Transparent {S T : Type} (M : Machine (Around Own Stmt) S) (N : Machine Stmt T)
    (inner : S → T) : Prop where
  bare : ∀ {γ : Type} (statement : Stmt γ) (s : S), (M.exec (.bare statement) s).1 =
    (N.exec statement (inner s)).1 ∧ inner (M.exec (.bare statement) s).2 =
      (N.exec statement (inner s)).2
  own : ∀ {γ : Type} (statement : Own γ) (s : S), inner (M.exec (.own statement) s).2 = inner s

namespace Transparent

variable {S T : Type} {M : Machine (Around Own Stmt) S} {N : Machine Stmt T} {inner : S → T}
variable {Fits : α → β → Prop}

/-- **In layers a program does what it does without them.** -/
theorem run (transparent : Transparent M N inner) {layered : Prog (Around Own Stmt) α}
    {program : Prog Stmt β} (wraps : Wraps Fits layered program) (s : S) :
    Fits (M.run layered s).1 (N.run program (inner s)).1 ∧
      inner (M.run layered s).2 = (N.run program (inner s)).2 := by
  induction wraps generalizing s with
  | done fits => exact ⟨fits, rfl⟩
  | @bare γ statement next next' _ ih =>
    obtain ⟨same, left⟩ := transparent.bare statement s
    have later := ih (M.exec (.bare statement) s).1 (M.exec (.bare statement) s).2
    rw [left] at later
    show Fits _ (N.run (next' _) _).1 ∧ _ = (N.run (next' _) _).2
    rw [← same]
    exact later
  | @own γ statement next program _ ih =>
    have later := ih (M.exec (.own statement) s).1 (M.exec (.own statement) s).2
    rw [transparent.own statement s] at later
    exact later

/-- **Programs that run concurrently do in layers what they do without them**, at the turns at which
they make bare statements. -/
theorem interleave (transparent : Transparent M N inner) (turns : List Nat)
    {layered : List (Prog (Around Own Stmt) (Option α))} {programs : List (Prog Stmt (Option β))}
    (wraps : List.Forall₂ (Wraps (Option.Rel Fits)) layered programs) (s : S) : ∃ turns',
      Option.Rel (List.Forall₂ Fits) (M.run (Lib.interleave turns layered) s).1
        (N.run (Lib.interleave turns' programs) (inner s)).1 ∧
      inner (M.run (Lib.interleave turns layered) s).2 =
        (N.run (Lib.interleave turns' programs) (inner s)).2 := by
  induction turns generalizing layered programs s with
  | nil => exact ⟨[], transparent.run (wraps_inTurn wraps) s⟩
  | cons turn turns ih =>
    cases found : layered[turn]? with
    | none =>
      rw [interleave_none found]
      exact ih wraps s
    | some program =>
      obtain ⟨bare, isBare, wrapped⟩ := forall₂_found wraps found
      cases wrapped with
      | @done result result' fits =>
        cases fits with
        | none =>
          refine ⟨[turn], ?_⟩
          rw [interleave_failed found, interleave_failed isBare]
          exact ⟨.none, rfl⟩
        | some _ =>
          rw [interleave_ended found]
          exact ih wraps s
      | @bare γ statement next next' both =>
        obtain ⟨same, left⟩ := transparent.bare statement s
        obtain ⟨turns', later⟩ := ih (forall₂_set wraps turn (both (M.exec (.bare statement) s).1))
          (M.exec (.bare statement) s).2
        refine ⟨turn :: turns', ?_⟩
        rw [interleave_stmt found, interleave_stmt isBare]
        show Option.Rel _ _ (N.run (Lib.interleave _ (programs.set turn (next' _))) _).1 ∧
          _ = (N.run (Lib.interleave _ (programs.set turn (next' _))) _).2
        rw [← same, ← left]
        exact later
      | @own γ statement next program both =>
        obtain ⟨turns', later⟩ :=
          ih (forall₂_set_left wraps isBare (both (M.exec (.own statement) s).1))
            (M.exec (.own statement) s).2
        rw [transparent.own statement s] at later
        rw [interleave_stmt found]
        exact ⟨turns', later⟩

end Transparent

end Meter.Lib
