/-
**The keys of a run void are free when it needs them.**

`void_run` posts its refunds under keys of its own making, and does not look them up first. A ledger
whose callers keep away from such keys (`Call.OwnKeys`) satisfies `VoidKeys`: an entry under a
generated key refunds a target of which nothing is left. So a target with something left has an
unused key (`VoidKeys.unused`), and no two targets share one (`runRefunds_key`).
-/

import Meter.Ledger.Reversal
import Meter.Ledger.VoidRun

namespace Meter.Ledger

open Meter.Lib

/-- The keys of a call do not look like those of a run void. -/
def Call.OwnKeys : Call → Prop
  | .grant req => ∀ key, req.idempotencyKey = some key → ¬ GeneratedKey key
  | .refund req => ∀ key, req.idempotencyKey = some key → ¬ GeneratedKey key
  | .charge req => ∀ key, req.idempotencyKey = some key → ¬ GeneratedKey key
  | .reverseCharge req => ¬ GeneratedKey req.idempotencyKey
  | .openAccount _ | .balance _ | .reserve _ | .settle _ | .void _ | .voidExpiredHolds _
  | .extendHold _ _ | .voidRun _ | .openLease _ | .closeLease _ | .entries _ => True

/-- An entry under a generated key is a refund of a run void, and nothing is left of its target. -/
def VoidKeys (s : State) : Prop :=
  ∀ entry ∈ s.entries, ∀ key, entry.idempotencyKey = some key → GeneratedKey key →
    ∃ run, ∃ target ∈ s.entries, RunVoids s run target entry ∧
      s.unreversedRemainder target.id ≤ 0

theorem VoidKeys.new : VoidKeys State.new := fun _ member => absurd member List.not_mem_nil

/-! ### Every call keeps it -/

/-- The refund of a target is one in every later state. -/
theorem RunVoids.mono {s s' : State} {run : RunId} {target entry : LedgerEntry}
    (kept : ∀ {reservation hold}, s.holds.get? reservation = some hold →
      ∃ hold', s'.holds.get? reservation = some hold' ∧ hold'.runId = hold.runId)
    (voids : RunVoids s run target entry) : RunVoids s' run target entry := by
  rcases voids with charge | ⟨kind, reservation, hold, own, found, tagged, key⟩
  · exact Or.inl charge
  · obtain ⟨hold', found', same⟩ := kept found
    exact Or.inr ⟨kind, reservation, hold', own, found', same.trans tagged, key⟩

theorem VoidKeys.apply {s : State} (keys : VoidKeys s) {action : Action}
    (enabled : action.Enabled s)
    (plain : ∀ entry ∈ action.posted, ∀ key, entry.idempotencyKey = some key → ¬ GeneratedKey key) :
    VoidKeys (action.apply s) := by
  intro entry member key own generated
  rw [Action.apply_entries, List.mem_append] at member
  rcases member with old | new
  · obtain ⟨run, target, stored, voids, spent⟩ := keys entry old key own generated
    refine ⟨run, target, ?_, voids.mono fun {reservation hold} found => ?_, ?_⟩
    · rw [Action.apply_entries]
      exact List.mem_append_left _ stored
    · obtain ⟨hold', found', evolves, _⟩ := hold_apply enabled.fits found
      exact ⟨hold', found', evolves.runId⟩
    · exact (remainder_apply_le enabled (List.mem_map_of_mem stored)).trans spent
  · exact absurd generated (plain entry new key own)

/-- The keys of what a call posts are its own. -/
theorem Call.OwnKeys.posted {call : Call} (ownKeys : call.OwnKeys) (other : ∀ run, call ≠ .voidRun run)
    {s : State} {action : Action} (enabled : action.Enabled s) (permitted : call.Permits action) :
    ∀ entry ∈ action.posted, ∀ key, entry.idempotencyKey = some key → ¬ GeneratedKey key := by
  intro entry member key own
  cases action with
  | openAccount _ | place _ _ | release _ | extend _ _ => exact absurd member List.not_mem_nil
  | settle reservation settled =>
    rw [List.mem_singleton.mp member, enabled.2.2.2.2.1] at own
    cases own
  | transfer out into =>
    obtain ⟨_, _, outKey, intoKey⟩ := enabled.plain
    rcases List.mem_pair.mp member with rfl | rfl
    · rw [outKey] at own
      cases own
    · rw [intoKey] at own
      cases own
  | credit credited =>
    rw [List.mem_singleton.mp member] at own
    cases call with
    | grant req =>
      rw [permitted.2.2] at own
      exact ownKeys key own
    | refund req =>
      rw [permitted.2.2] at own
      exact ownKeys key own
    | _ => exact permitted.elim
  | charge charged =>
    rw [List.mem_singleton.mp member] at own
    cases call with
    | charge req =>
      rw [permitted.2.2] at own
      exact ownKeys key own
    | _ => exact permitted.elim
  | reverse refund =>
    rw [List.mem_singleton.mp member] at own
    cases call with
    | reverseCharge req =>
      rw [permitted.2.2, Option.some.injEq] at own
      exact own ▸ ownKeys
    | voidRun run => exact absurd rfl (other run)
    | _ => exact permitted.elim

theorem VoidKeys.path {call : Call} (ownKeys : call.OwnKeys) (other : ∀ run, call ≠ .voidRun run)
    {s s' : State} {actions : List Action} (path : Path s actions s')
    (permitted : ∀ action ∈ actions, call.Permits action) (keys : VoidKeys s) : VoidKeys s' := by
  induction path with
  | nil s => exact keys
  | cons action enabled _ ih =>
    refine ih (fun later inside => permitted later (List.mem_cons_of_mem _ inside))
      (keys.apply enabled ?_)
    exact ownKeys.posted other enabled (permitted action List.mem_cons_self)

section Void

variable {amb : Ambient} {s : State} {run : RunId}

/-- **What a refund of a run void is for**: the target, under a key made from it. -/
theorem runVoids_of_refund (wf : s.WellFormed) {refund : RunRefund}
    (member : refund ∈ runRefunds amb run s) : ∃ target ∈ s.entries, target.id = refund.1 ∧
      ∀ delta, RunVoids s run target (refund.2.entry amb (.reversal refund.1) delta 0) := by
  rcases List.mem_append.mp member with settled | charge
  · obtain ⟨reservation, hold, id, inside, _, link, rfl⟩ := mem_memberRefunds.mp settled
    obtain ⟨found, tagged⟩ := mem_runMembers.mp inside
    obtain ⟨entry, stored, rfl, kind, own, _⟩ := wf.settleLink found link
    exact ⟨entry, stored, rfl, fun _ => Or.inr ⟨kind, reservation, hold, own, found, tagged, rfl⟩⟩
  · obtain ⟨entry, inside, rfl⟩ := List.mem_map.mp charge
    obtain ⟨stored, tagged, kind⟩ := mem_runCharges.mp inside
    exact ⟨entry, stored, rfl, fun _ => Or.inl ⟨kind, tagged, rfl⟩⟩

/-- **One key, one target.** -/
theorem RunVoids.target_eq (wf : s.WellFormed) {run' : RunId} {target target' entry entry' : LedgerEntry}
    (stored : target ∈ s.entries) (stored' : target' ∈ s.entries)
    (voids : RunVoids s run target entry) (voids' : RunVoids s run' target' entry')
    (same : entry.idempotencyKey = entry'.idempotencyKey) : target.id = target'.id := by
  rcases voids with ⟨_, _, key⟩ | ⟨kind, reservation, hold, own, found, _, key⟩
  · rcases voids' with ⟨_, _, key'⟩ | ⟨_, _, _, _, _, _, key'⟩
    · rw [key, key', Option.some.injEq] at same
      exact (runVoidChargeRefundKey_injective same).2
    · rw [key, key', Option.some.injEq] at same
      exact absurd same.symm (runVoidRefundKey_ne _ _ _ _)
  · rcases voids' with ⟨_, _, key'⟩ | ⟨kind', reservation', hold', own', found', _, key'⟩
    · rw [key, key', Option.some.injEq] at same
      exact absurd same (runVoidRefundKey_ne _ _ _ _)
    · rw [key, key', Option.some.injEq] at same
      obtain ⟨_, rfl⟩ := runVoidRefundKey_injective same
      -- a reservation has one hold, and the hold one settle entry
      have settleOf : ∀ {target : LedgerEntry}, target ∈ s.entries → target.entryType = .settle →
          target.reservationId = some reservation → hold.settleEntry = some target.id := by
        intro target stored kind own
        obtain ⟨reservation', hold', own', found', link⟩ := wf.settleHold target stored kind
        rw [own, Option.some.injEq] at own'
        subst own'
        rw [found, Option.some.injEq] at found'
        rw [found', link]
      have link := settleOf stored kind own
      rw [settleOf stored' kind' own', Option.some.injEq] at link
      exact link.symm

/-- A key of a run void is generated. -/
theorem RunVoids.generated {target entry : LedgerEntry} (voids : RunVoids s run target entry) :
    ∃ key, entry.idempotencyKey = some key ∧ GeneratedKey key := by
  rcases voids with ⟨_, _, key⟩ | ⟨_, _, _, _, _, _, key⟩
  · exact ⟨_, key, generatedKey_runVoidChargeRefundKey _ _⟩
  · exact ⟨_, key, generatedKey_runVoidRefundKey _ _⟩

/-- **The key of a target with something left is unused.** -/
theorem VoidKeys.unused (wf : s.WellFormed) (keys : VoidKeys s) {refund : RunRefund}
    (member : refund ∈ runRefunds amb run s) (due : 0 < s.unreversedRemainder refund.1) :
    ∀ entry ∈ s.entries, entry.idempotencyKey ≠ refund.2.idempotencyKey := by
  intro entry inside same
  obtain ⟨target, stored, isTarget, voids⟩ := runVoids_of_refund wf member
  obtain ⟨key, own, generated⟩ := (voids 0).generated
  obtain ⟨run', target', stored', voids', spent⟩ := keys entry inside key (same.trans own) generated
  rw [← isTarget, (voids 0).target_eq wf stored stored' voids' same.symm] at due
  exact absurd due (not_lt.mpr spent)

/-- **No two targets share a key.** -/
theorem runRefunds_key (wf : s.WellFormed) {first second : RunRefund}
    (firstIn : first ∈ runRefunds amb run s) (secondIn : second ∈ runRefunds amb run s)
    (same : first.2.idempotencyKey = second.2.idempotencyKey) : first.1 = second.1 := by
  obtain ⟨target, stored, isTarget, voids⟩ := runVoids_of_refund wf firstIn
  obtain ⟨target', stored', isTarget', voids'⟩ := runVoids_of_refund wf secondIn
  rw [← isTarget, ← isTarget']
  exact (voids 0).target_eq wf stored stored' (voids' 0) same

/-- **A run void keeps it**: of what it refunds nothing is left. -/
theorem VoidKeys.voidRun (wf : s.WellFormed) (keys : VoidKeys s) {next : State × RunVoidSummary}
    (progress : VoidProgress amb (flow systemAccount) s (openMembers (runMembers amb run s))
      (runRefunds amb run s) next) : VoidKeys next.1 := by
  obtain ⟨posted, entries, same⟩ := progress.entries
  have kept : ∀ {reservation hold}, s.holds.get? reservation = some hold →
      ∃ hold', next.1.holds.get? reservation = some hold' ∧ hold'.runId = hold.runId := by
    intro reservation hold found
    rw [progress.holds, Table.get?_mapValues, found]
    refine ⟨_, rfl, ?_⟩
    split <;> rfl
  have remainder : ∀ target ∈ s.entries, next.1.unreversedRemainder target.id =
      s.unreversedRemainder target.id -
        if target.id ∈ (runRefunds amb run s).map Prod.fst then s.owed target.id else 0 :=
    fun target stored => progress.remainder (fun _ inside => (entry_of_refund wf inside).1)
      (runRefunds_nodup wf) (List.mem_map_of_mem stored)
  have stays : ∀ target ∈ s.entries, target ∈ next.1.entries := fun target stored => by
    rw [entries]
    exact List.mem_append_left _ stored
  intro entry member key own generated
  rw [entries, List.mem_append] at member
  rcases member with old | new
  · obtain ⟨run', target, stored, voids, spent⟩ := keys entry old key own generated
    refine ⟨run', target, stays target stored, voids.mono kept, ?_⟩
    rw [remainder target stored]
    refine (sub_le_self _ ?_).trans spent
    split
    · exact le_max_left _ _
    · exact le_rfl
  · have inside := List.mem_map_of_mem (f := LedgerEntry.unbalanced) new
    rw [same] at inside
    obtain ⟨refund, due, equal⟩ := List.mem_map.mp inside
    have considered := (List.mem_filter.mp due).1
    obtain ⟨target, stored, isTarget, voids⟩ := runVoids_of_refund wf considered
    have voids' : RunVoids s run target entry := by
      have unbalanced : RunVoids s run target entry.unbalanced := by
        rw [← equal]
        exact voids _
      exact unbalanced
    refine ⟨run, target, stays target stored, voids'.mono kept, ?_⟩
    rw [remainder target stored, if_pos (isTarget ▸ List.mem_map_of_mem considered)]
    exact sub_nonpos.mpr (le_max_right _ _)

end Void

end Meter.Ledger
