/-
**Who is repaid when a run is voided.**

`unreversed_remainder` subtracts every entry that references a charge, whichever account it credited.
A refund by hand may reference any entry, so a charge can be reversed in full without its payer having
seen any of it; a run void then finds nothing left to refund.

* `State.repaid`, `State.diverted` — what the refunds of an entry credited to its own account, and
  to others. A run void adds to the first only (`diverted_voidRun`).
* `made_whole_iff` — **the exact condition**: a run void makes the payers whole if and only if, for
  each entry of the run, nothing was diverted or its payer had been repaid in full before.
* `credit_note_diverts` — a credit note to another account, and a payer who gets nothing back.
-/

import Meter.Ledger.Reversal
import Meter.Ledger.VoidRun

namespace Meter.Ledger

open Meter.Lib

namespace State

/-- What the refunds of an entry credited to its own account. -/
def repaid (s : State) (entry : LedgerEntry) : Credit :=
  linkedSum (s.entries.filter fun other => other.accountId = entry.accountId) entry.id

/-- What the refunds of an entry credited to other accounts. -/
def diverted (s : State) (entry : LedgerEntry) : Credit :=
  linkedSum (s.entries.filter fun other => ¬ other.accountId = entry.accountId) entry.id

/-- Every refund of an entry credited its own account. -/
def Undiverted (s : State) (entry : LedgerEntry) : Prop :=
  ∀ other ∈ s.linked entry.id, other.accountId = entry.accountId

end State

/-- Every entry of the run was repaid to the account that it was charged to. -/
def MakesWhole (run : RunId) (s : State) : Prop :=
  ∀ entry ∈ runEntries run s, -entry.deltaCredits ≤ s.repaid entry

instance (run : RunId) (s : State) : Decidable (MakesWhole run s) :=
  inferInstanceAs (Decidable (∀ entry ∈ runEntries run s, -entry.deltaCredits ≤ s.repaid entry))

/-! ### Sums over refunds -/

/-- A sum over refunds, split by any property of theirs. -/
theorem linkedSum_split (entries : List LedgerEntry) (keep : LedgerEntry → Prop) [DecidablePred keep]
    (id : EntryId) : linkedSum (entries.filter fun entry => keep entry) id +
      linkedSum (entries.filter fun entry => ¬ keep entry) id = linkedSum entries id := by
  induction entries with
  | nil => simp [linkedSum]
  | cons entry rest ih =>
    rw [← List.singleton_append, linkedSum_append, ← ih, List.filter_append, List.filter_append,
      linkedSum_append, linkedSum_append]
    by_cases kept : keep entry
    · simp [kept, linkedSum, add_assoc]
    · simp [kept, linkedSum, add_left_comm]

/-- A sum of positive refunds is zero only if there are none. -/
theorem linkedSum_eq_zero {entries : List LedgerEntry}
    (links : ∀ entry ∈ entries, entry.reversesEntryId = none ∨ 0 < entry.deltaCredits)
    {id : EntryId} : linkedSum entries id = 0 ↔
      ∀ entry ∈ entries, entry.reversesEntryId ≠ some id := by
  induction entries with
  | nil => simp [linkedSum]
  | cons entry rest ih =>
    have rest' := fun other inside => links other (List.mem_cons_of_mem entry inside)
    have nonneg := linkedSum_nonneg rest' id
    rw [← List.singleton_append, linkedSum_append, linkedSum_singleton]
    rcases links entry List.mem_cons_self with unlinked | positive
    · simp [unlinked, ih rest']
    · by_cases same : entry.reversesEntryId = some id
      · rw [if_pos same]
        refine ⟨fun zero => absurd zero (add_pos_of_pos_of_nonneg positive nonneg).ne', ?_⟩
        exact fun all => absurd same (all entry List.mem_cons_self)
      · simp [same, ih rest']

theorem Path.posted_links {s s' : State} {actions : List Action} (path : Path s actions s') :
    ∀ entry ∈ actions.flatMap Action.posted,
      entry.reversesEntryId = none ∨ 0 < entry.deltaCredits := by
  induction path with
  | nil s => exact fun _ member => absurd member List.not_mem_nil
  | cons action enabled _ ih =>
    intro entry member
    rw [List.flatMap_cons, List.mem_append] at member
    rcases member with here | later
    · exact Ledger.posted_links enabled here
    · exact ih entry later

/-- **Every refund adds credits.** -/
theorem History.links {events : List Event} {s : State} (history : History State.new events s) :
    ∀ entry ∈ s.entries, entry.reversesEntryId = none ∨ 0 < entry.deltaCredits := by
  obtain ⟨steps, path, _⟩ := history.path .new
  intro entry stored
  rw [path.entries] at stored
  exact path.posted_links entry stored

namespace State

variable {s : State} {entry : LedgerEntry}

theorem repaid_add_diverted (s : State) (entry : LedgerEntry) :
    s.repaid entry + s.diverted entry = s.reversed entry.id :=
  linkedSum_split s.entries (fun other => other.accountId = entry.accountId) entry.id

/-- What is left of an entry, by whom its refunds went to. -/
theorem remainder_eq (distinct : s.entryIds.Nodup) (stored : entry ∈ s.entries) :
    s.unreversedRemainder entry.id =
      -entry.deltaCredits - (s.repaid entry + s.diverted entry) := by
  rw [unreversedRemainder, charged_of_mem distinct stored, repaid_add_diverted]

theorem diverted_nonneg
    (links : ∀ other ∈ s.entries, other.reversesEntryId = none ∨ 0 < other.deltaCredits)
    (entry : LedgerEntry) : 0 ≤ s.diverted entry :=
  linkedSum_nonneg (fun other inside => links other (List.mem_filter.mp inside).1) entry.id

theorem diverted_eq_zero
    (links : ∀ other ∈ s.entries, other.reversesEntryId = none ∨ 0 < other.deltaCredits) :
    s.diverted entry = 0 ↔ s.Undiverted entry := by
  rw [diverted, linkedSum_eq_zero fun other inside => links other (List.mem_filter.mp inside).1]
  simp only [Undiverted, linked, List.mem_filter, decide_eq_true_eq]
  constructor
  · rintro apart other ⟨stored, references⟩
    by_contra foreign
    exact apart other ⟨stored, foreign⟩ references
  · rintro own other ⟨stored, foreign⟩ references
    exact foreign (own other ⟨stored, references⟩)

end State

/-! ### Run voids -/

section Voids

variable {amb : Ambient} {s : State} {run : RunId} {next : State × RunVoidSummary}

/-- **A run void diverts nothing.** -/
theorem diverted_voidRun (wf : s.WellFormed)
    (progress : VoidProgress amb (flow systemAccount) s (openMembers (runMembers amb run s))
      (runRefunds amb run s) next) {entry : LedgerEntry} (stored : entry ∈ s.entries) :
    next.1.diverted entry = s.diverted entry := by
  obtain ⟨posted, entries, same⟩ := progress.entries
  have none : linkedSum (posted.filter fun other => ¬ other.accountId = entry.accountId)
      entry.id = 0 := by
    refine List.sum_eq_zero fun delta member => ?_
    obtain ⟨other, inside, rfl⟩ := List.mem_map.mp member
    obtain ⟨kept, references⟩ := List.mem_filter.mp inside
    obtain ⟨member', foreign⟩ := List.mem_filter.mp kept
    obtain ⟨target, inRun, links, account⟩ := VoidProgress.target wf same member'
    have isEntry : target = entry := List.inj_on_of_nodup_map wf.entryIds
      (mem_runEntries.mp inRun).1 stored
      (Option.some.inj (links.symm.trans (of_decide_eq_true references)))
    rw [isEntry] at account
    exact absurd account.symm (of_decide_eq_true foreign)
  rw [State.diverted, entries, List.filter_append, linkedSum_append, none, add_zero]
  rfl

/-- The entries of a run are the same after it was voided. -/
theorem runEntries_voidRun (wf : s.WellFormed)
    (progress : VoidProgress amb (flow systemAccount) s (openMembers (runMembers amb run s))
      (runRefunds amb run s) next) {entry : LedgerEntry} :
    entry ∈ runEntries run next.1 ↔ entry ∈ runEntries run s := by
  refine ⟨progress.runEntries_subset wf, fun member => ?_⟩
  obtain ⟨posted, entries, _⟩ := progress.entries
  obtain ⟨stored, kinds⟩ := mem_runEntries.mp member
  refine mem_runEntries.mpr ⟨?_, ?_⟩
  · rw [entries]
    exact List.mem_append_left _ stored
  · rcases kinds with charge | ⟨kind, reservation, hold, own, found, tagged⟩
    · exact Or.inl charge
    · refine Or.inr ⟨kind, reservation, _, own, by rw [progress.hold, found, Option.map_some], ?_⟩
      split
      · exact tagged
      · exact tagged

/-- **One entry of a voided run.** -/
theorem repaid_voidRun_iff (wf : s.WellFormed)
    (links : ∀ other ∈ s.entries, other.reversesEntryId = none ∨ 0 < other.deltaCredits)
    (progress : VoidProgress amb (flow systemAccount) s (openMembers (runMembers amb run s))
      (runRefunds amb run s) next) (distinct : next.1.entryIds.Nodup) {entry : LedgerEntry}
    (member : entry ∈ runEntries run s) : -entry.deltaCredits ≤ next.1.repaid entry ↔
      s.Undiverted entry ∨ -entry.deltaCredits ≤ s.repaid entry := by
  have stored := (mem_runEntries.mp member).1
  have stored' := (mem_runEntries.mp ((runEntries_voidRun wf progress).mpr member)).1
  obtain ⟨refund, inside, same, _⟩ := @refund_of_entry amb _ _ wf _ member
  have after := progress.remainder (fun _ inside => (entry_of_refund wf inside).1)
    (runRefunds_nodup wf) (List.mem_map_of_mem stored)
  rw [if_pos (List.mem_map.mpr ⟨refund, inside, same⟩), State.remainder_eq distinct stored',
    State.remainder_eq wf.entryIds stored, diverted_voidRun wf progress stored] at after
  rw [← State.diverted_eq_zero links]
  have nonneg := State.diverted_nonneg links entry
  by_cases positive : 0 < s.unreversedRemainder entry.id
  · -- the rest is refunded now, so the payer misses exactly what was diverted
    rw [State.owed_of_pos positive, State.remainder_eq wf.entryIds stored] at after
    rw [State.remainder_eq wf.entryIds stored] at positive
    constructor
    · intro whole
      exact Or.inl (by linarith)
    · rintro (none | before)
      · linarith
      · linarith
  · rw [State.owed_of_nonpos positive] at after
    rw [State.remainder_eq wf.entryIds stored] at positive
    constructor
    · intro whole
      exact Or.inr (by linarith)
    · rintro (none | before)
      · linarith
      · linarith

end Voids

/-- **A voided run makes each payer whole** if and only if every entry of the run had all its refunds
credited to its own account, or was repaid there in full before. -/
theorem made_whole_iff {events : List Event} {s : State} (history : History State.new events s)
    {amb : Ambient} (fresh : amb.Fresh s) (run : RunId) :
    ∃ summary s', voidRun amb run s = some (.ok summary, s') ∧
      (MakesWhole run s' ↔ ∀ entry ∈ runEntries run s,
        s.Undiverted entry ∨ -entry.deltaCredits ≤ s.repaid entry) := by
  have wf := history.wellFormed .new
  obtain ⟨⟨s', summary⟩, result, progress⟩ := voidRun_progress wf amb run
  obtain ⟨actions, path, _⟩ := (voidRun_refines wf fresh run).follows _ _ result
  have each := fun entry (member : entry ∈ runEntries run s) =>
    repaid_voidRun_iff wf history.links progress (wf.path path).entryIds member
  refine ⟨summary, s', result, fun whole entry member => ?_, fun each' entry member => ?_⟩
  · exact (each entry member).mp (whole entry ((runEntries_voidRun wf progress).mpr member))
  · have before := (runEntries_voidRun wf progress).mp member
    exact (each entry before).mpr (each' entry before)

/-- A charge of a run on one account, and a credit note that references it and credits another
account. -/
def creditNoteCalls (account : AccountId) : List (Ambient × Call) :=
  [.openAccount ⟨1, .user, false, none⟩, .openAccount ⟨1, .user, false, none⟩,
    .charge ⟨1, 5, some 7, none⟩, .refund ⟨account, 5, some 1006, none⟩].zipIdx.map fun call =>
      (numbered call.2, call.1)

/-- **A credit note can leave a payer with nothing**: it went to the second account, and the run void
of the charge refunds nothing to the first. -/
theorem credit_note_diverts : ∃ events s summary s', History State.new events s ∧
    voidRun (numbered 4) 7 s = some (.ok summary, s') ∧ summary.chargesRefunded = 0 ∧
    ¬ MakesWhole 7 s' := by
  have computed : (replay State.new (creditNoteCalls 2)).any (fun result =>
      (voidRun (numbered 4) 7 result.2).any fun voided =>
        voided.1.toOption.any (fun summary => decide (summary.chargesRefunded = 0)) &&
          decide (¬ MakesWhole 7 voided.2)) = true := by
    decide +kernel
  obtain ⟨⟨events, s⟩, replayed, rest⟩ := (Option.any_eq_true _ _).mp computed
  obtain ⟨⟨reply, s'⟩, voided, facts⟩ := (Option.any_eq_true _ _).mp rest
  obtain ⟨isSummary, short⟩ := Bool.and_eq_true_iff.mp facts
  obtain ⟨summary, isOk, none⟩ := (Option.any_eq_true _ _).mp isSummary
  cases reply with
  | error _ => cases isOk
  | ok _ =>
    cases isOk
    exact ⟨events, s, summary, s', (run_of_replay replayed).history, voided,
      of_decide_eq_true none, of_decide_eq_true short⟩

/-- The same with a credit note to the payer. -/
theorem made_whole_iff_sample : ∃ events s summary s', History State.new events s ∧
    runEntries 7 s ≠ [] ∧ voidRun (numbered 4) 7 s = some (.ok summary, s') ∧
    MakesWhole 7 s' := by
  have computed : (replay State.new (creditNoteCalls 1)).any (fun result =>
      decide ((numbered 4).Fresh result.2 ∧ runEntries 7 result.2 ≠ [] ∧
        ∀ entry ∈ runEntries 7 result.2, -entry.deltaCredits ≤ result.2.repaid entry)) = true := by
    decide +kernel
  obtain ⟨⟨events, s⟩, replayed, facts⟩ := (Option.any_eq_true _ _).mp computed
  obtain ⟨fresh, nonempty, repaid⟩ := of_decide_eq_true facts
  have history := (run_of_replay replayed).history
  obtain ⟨summary, s', voided, whole⟩ := made_whole_iff history fresh 7
  exact ⟨events, s, summary, s', history, nonempty, voided,
    whole.mpr fun entry member => Or.inr (repaid entry member)⟩

end Meter.Ledger
