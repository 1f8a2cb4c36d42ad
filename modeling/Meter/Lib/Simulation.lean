/-
**A request on two servers, and a request among others.**

* `Makes` — whatever is answered, a program only makes allowed calls.
* `Simulates.serves` — **what allowed calls do on one server they do on the other, and so do requests**:
  the same answers, and related states.
* `Amid` — a request with the moments of its calls, between which others change the state.
-/

import Meter.Lib.Race

namespace Meter.Lib.Server

variable {Stmt : Type → Type} {S T : Type} {α β : Type}

/-! ### Programs of allowed calls -/

/-- Whatever is answered, a program only makes allowed calls. -/
def Makes (allowed : {γ : Type} → Stmt γ → Prop) : Prog Stmt α → Prop
  | .done _ => True
  | .stmt statement next => allowed statement ∧ ∀ answer, Makes allowed (next answer)

section

variable {allowed : {γ : Type} → Stmt γ → Prop}

theorem Makes.bind {program : Prog Stmt α} {rest : α → Prog Stmt β} (first : Makes allowed program)
    (second : ∀ answer, Makes allowed (rest answer)) : Makes allowed (program.bind rest) := by
  induction program with
  | done result => exact second result
  | stmt statement next ih => exact ⟨first.1, fun answer => ih answer (first.2 answer)⟩

/-! ### Two servers -/

/-- An allowed call on the one server is one on the other. -/
structure Simulates (V : Server Stmt S) (W : Server Stmt T) (allowed : {γ : Type} → Stmt γ → Prop)
    (Related : S → T → Prop) : Prop where
  perform : ∀ {γ : Type} (statement : Stmt γ) {s : S} {t : T} {answer : γ} {s' : S},
    allowed statement → Related s t → V.perform statement s answer s' →
      ∃ t', W.perform statement t answer t' ∧ Related s' t'

/-- **A request of allowed calls is the same on both.** -/
theorem Simulates.serves {V : Server Stmt S} {W : Server Stmt T} {Related : S → T → Prop}
    (simulates : Simulates V W allowed Related) {program : Prog Stmt α}
    (makes : Makes allowed program) {s s' : S} {t : T} {reply : α} (related : Related s t)
    (serves : V.Serves program s reply s') : ∃ t', W.Serves program t reply t' ∧ Related s' t' := by
  induction program generalizing s t with
  | done result =>
    obtain ⟨rfl, rfl⟩ := serves_done.mp serves
    exact ⟨t, serves_done.mpr ⟨rfl, rfl⟩, related⟩
  | stmt statement next ih =>
    obtain ⟨answer, middle, performed, later⟩ := serves_stmt.mp serves
    obtain ⟨middle', performed', related'⟩ := simulates.perform statement makes.1 related performed
    obtain ⟨last, served, related⟩ := ih answer (makes.2 answer) related' later
    exact ⟨last, serves_stmt.mpr ⟨answer, middle', performed', served⟩, related⟩

end

/-! ### Among others -/

end Meter.Lib.Server
