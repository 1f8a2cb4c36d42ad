/-
**Every transaction keeps its contract.**

`contract` pairs an invariant of committed points with `Rely`. A transaction that lands
(`Meter.Postgres.Programs`, `Meter.Postgres.Voiding`) owes two things at its commit: the invariant,
and the frame of everybody else. `invariant_of_reaches` reduces an invariant of all interleavings to
what legal actions do to it (`Keeps`).
-/

import Meter.Postgres.Voiding

namespace Meter.Postgres

open Meter.Lib Meter.Ledger

/-- The amounts of a call have five decimals. -/
def Call.Scaled : Call → Prop
  | .grant req => Exact req.amount
  | .refund req => Exact req.amount
  | .reserve req => Exact req.amount
  | .settle req => Exact req.actual
  | .charge req => Exact req.amount
  | .openLease req => Exact req.amount
  | .openAccount _ | .balance _ | .reverseCharge _ | .void _ | .voidExpiredHolds _ | .extendHold _ _
  | .voidRun _ | .closeLease _ | .entries _ => True

instance (call : Call) : Decidable (Call.Scaled call) :=
  match call with
  | .grant req => inferInstanceAs (Decidable (Exact req.amount))
  | .refund req => inferInstanceAs (Decidable (Exact req.amount))
  | .reserve req => inferInstanceAs (Decidable (Exact req.amount))
  | .settle req => inferInstanceAs (Decidable (Exact req.actual))
  | .charge req => inferInstanceAs (Decidable (Exact req.amount))
  | .openLease req => inferInstanceAs (Decidable (Exact req.amount))
  | .openAccount _ | .balance _ | .reverseCharge _ | .void _ | .voidExpiredHolds _ | .extendHold _ _
  | .voidRun _ | .closeLease _ | .entries _ => isTrue trivial

section

variable {shares : Bool} {focus : Option RunId} {point : Point State Label}

/-- **Every call lands.** -/
theorem leads_program (label : Label) (began : .began label ∈ point.log) :
    Leads shares focus (program label)
      (Ends focus (Lands focus (Call.Scaled label.2) label.2)) [] [] point := by
  obtain ⟨amb, call⟩ := label
  cases call with
  | openAccount req => exact leads_replying (leads_openAccount amb req)
  | balance account => exact leads_replying (leads_balance account)
  | grant req => exact leads_replying (leads_grant amb req id)
  | refund req => exact leads_replying (leads_refund amb req id)
  | reserve req => exact leads_replying (leads_reserve req id)
  | settle req => exact leads_replying (leads_settle amb req id)
  | charge req => exact leads_replying (leads_charge amb req id)
  | reverseCharge req => exact leads_replying (leads_reverseCharge amb req)
  | void reservation => exact leads_replying (leads_void reservation)
  | voidExpiredHolds now => exact leads_replying (leads_voidExpiredHolds amb now)
  | extendHold reservation expiresAt => exact leads_replying (leads_extendHold reservation expiresAt)
  | voidRun run => exact leads_replying (leads_voidRun amb run began)
  | openLease req => exact leads_replying (leads_openLease amb req id)
  | closeLease lease => exact leads_replying (leads_closeLease amb lease)
  | entries account => exact leads_replying (leads_entries account)

variable (focus) in
/-- An invariant, with what a holder of locks may rely on. -/
def contract (Inv : Point State Label → Prop) : Contract State Lock Label where
  Inv := Inv
  Rely := Rely focus
  refl := Rely.refl focus
  trans := Rely.trans

/-- A call that leaves the refunds of the watched run alone, and adds nothing to it once a void of it
has begun. -/
def SparesRun (focus : Option RunId) (point : Point State Label) (call : Call) : Prop :=
  (∀ id resource, Call.links call = some id → ¬ Guards focus point.db id resource) ∧
    (Closed focus point.log → Call.tag call ≠ focus)

/-- With no run watched there is nothing to spare. -/
theorem sparesRun_none (point : Point State Label) (call : Call) : SparesRun none point call := by
  refine ⟨?_, ?_⟩
  · rintro id resource _ ⟨_, unwatched, _⟩
    cases unwatched
  · rintro ⟨_, _, unwatched, _⟩
    cases unwatched

theorem spares_of_tagged {closed : Prop} {db : State} {call : Call} {action : Action}
    (tagged : Tagged call action)
    (unlinked : ∀ id resource, Call.links call = some id → ¬ Guards focus db id resource)
    (untagged : closed → Call.tag call ≠ focus) : Spares focus closed db action := by
  cases action with
  | credit entry => exact fun id resource link => unlinked id resource (tagged ▸ link)
  | charge entry => exact fun isClosed same => untagged isClosed (tagged ▸ same)
  | place reservation hold => exact fun isClosed same => untagged isClosed (tagged ▸ same)
  | openAccount _ | settle _ _ | reverse _ | transfer _ _ | release _ | extend _ _ => trivial

theorem spared_of_tagged {closed : Prop} {db : State} {call : Call} {actions : List Action}
    (tagged : ∀ action ∈ actions, Tagged call action)
    (few : actions.length ≤ 1 ∨ Call.links call = none ∧ Call.tag call = none)
    (unlinked : ∀ id resource, Call.links call = some id → ¬ Guards focus db id resource)
    (untagged : closed → Call.tag call ≠ focus) : Spared focus closed db actions := by
  induction actions generalizing db with
  | nil => trivial
  | cons action actions ih =>
    refine ⟨spares_of_tagged (tagged action List.mem_cons_self) unlinked untagged, ?_⟩
    rcases few with short | plain
    · rw [List.length_eq_zero_iff.mp (Nat.le_zero.mp (Nat.le_of_succ_le_succ short))]
      trivial
    · refine ih (fun other inside => tagged other (List.mem_cons_of_mem _ inside)) (Or.inr plain) ?_
      intro id resource link
      rw [plain.1] at link
      cases link

/-- What legal, sparing actions of an admitted call do to an invariant. -/
def Keeps (focus : Option RunId) (admits : Point State Label → Label → Prop)
    (Inv : Point State Label → Prop) : Prop :=
  ∀ {point : Point State Label} {label : Label} {locks : List Lock} {actions : List Action},
    Inv point → admits point label → .began label ∈ point.log →
    Legals focus (Call.Scaled label.2) locks point.db actions →
    Spared focus (Closed focus point.log) point.db actions →
    (∀ run, label.2 = .voidRun run → focus = some run →
      Cleared run (Action.stores point.db actions)) →
    Inv ⟨Action.stores point.db actions, point.log ++ [.committed label]⟩

variable {admits : Point State Label → Label → Prop} {Inv : Point State Label → Prop}

/-- What a landed transaction owes. -/
theorem owes_of_lands (keeps : Keeps focus admits Inv)
    (spares : ∀ point label, admits point label → SparesRun focus point label.2) {label : Label}
    {locks : List Lock} {writes : List Write} (began : .began label ∈ point.log) (inv : Inv point)
    (lands : Lands focus (Call.Scaled label.2) label.2 locks writes point) :
    (engine shares).Owes (contract focus Inv) admits label locks writes point := by
  intro admitted
  obtain ⟨actions, rfl, legals, tagged, few, clears⟩ := lands
  obtain ⟨unlinked, untagged⟩ := spares point label admitted
  have spared : Spared focus (Closed focus point.log) point.db actions :=
    spared_of_tagged tagged few unlinked untagged
  refine ⟨keeps inv admitted began legals spared clears, fun others compatible => ?_⟩
  exact ⟨List.prefix_append _ _, frame_of_legals compatible legals spared⟩

/-- A transaction that begins changes nothing that others rely on. -/
theorem begins_contract (begins : ∀ label point, Inv point → Inv (Engine.begin point label)) :
    ∀ label point, (contract focus Inv).Inv point →
      (contract focus Inv).Inv (Engine.begin point label) ∧
      ∀ locks, (contract focus Inv).Rely locks point (Engine.begin point label) :=
  fun label point inv => ⟨begins label point inv, fun _ => ⟨List.prefix_append _ _, .refl _ _ _ _⟩⟩

/-- **Every program keeps its contract.** -/
theorem safe_program (keeps : Keeps focus admits Inv)
    (spares : ∀ point label, admits point label → SparesRun focus point label.2)
    (intact : ∀ point, Inv point → Intact point.db) (label : Label) (point : Point State Label) :
    (engine shares).Safe (contract focus Inv) admits label (program label) [] []
      (Engine.begin point label) := by
  have began : .began label ∈ (Engine.begin point label).log := by simp [Engine.begin]
  have logged : ∀ locks point point', Rely focus locks point point' →
      .began label ∈ point.log → .began label ∈ point'.log :=
    fun _ _ _ rely => fun member => rely.1.subset member
  refine Engine.wp_mono _ intact ?_ (Engine.wp_stable _ logged (leads_program label began) began)
  rintro exit locks writes last ⟨ends, begun⟩
  cases exit with
  | rollback _ => trivial
  | commit _ =>
    intro point' rely inv'
    exact owes_of_lands keeps spares (rely.1.subset begun) inv' (ends point' rely (intact _ inv'))

/-- **An invariant of every interleaving.** -/
theorem invariant_of_reaches (keeps : Keeps focus admits Inv)
    (spares : ∀ point label, admits point label → SparesRun focus point label.2)
    (intact : ∀ point, Inv point → Intact point.db)
    (begins : ∀ label point, Inv point → Inv (Engine.begin point label)) (start : Inv ⟨State.new, []⟩)
    {world : World Stmt State Write Lock Label (Except LedgerError Reply)}
    (reaches : (engine shares).Reaches program admits State.new world) : Inv world.point := by
  show (contract focus Inv).Inv world.point
  exact Engine.sound (begins_contract begins)
    (fun label point _ => safe_program keeps spares intact label point) start reaches

end

/-- The moves of a transaction that runs alone. -/
def serially (n : Nat) (call : Call) (statements : Nat) : List (Engine.Move Label) :=
  .start 0 (numbered n, call) :: List.replicate statements (.exec 0) ++ [.commit 0]

end Meter.Postgres
