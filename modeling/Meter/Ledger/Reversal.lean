/-
**An entry is refunded in full at most once.**

`reverse_charge` and `void_run` refund the remainder of an entry, whatever keys they use and whoever
refunded some of it by hand before. After such a refund nothing remains (`remainder_reverse`), and a
remainder never grows (`remainder_apply_le`): so no second one follows, in this call or in any later
one (`Path.reversals_nodup`).
-/

import Meter.Ledger.Run

namespace Meter.Ledger

open Meter.Lib

/-- The calls that refund remainders. -/
def Call.reverses : Call → Bool
  | .reverseCharge _ | .voidRun _ => true
  | _ => false

/-- The entries a call appended. -/
def Event.posted (event : Event) : List LedgerEntry :=
  event.after.entries.drop event.before.entries.length

/-- The refunds that `reverse_charge` and `void_run` posted in a run. -/
def automaticRefunds (events : List Event) : List LedgerEntry :=
  (events.filter fun event => event.call.reverses).flatMap Event.posted

/-- The refunds of remainders among some actions. -/
def reversals (actions : List Action) : List LedgerEntry :=
  actions.filterMap fun
    | .reverse entry => some entry
    | _ => none

/-! ### Remainders only fall -/

/-- A posted entry that references another adds credits. -/
theorem posted_links {s : State} {action : Action} (enabled : action.Enabled s)
    {entry : LedgerEntry} (member : entry ∈ action.posted) :
    entry.reversesEntryId = none ∨ 0 < entry.deltaCredits := by
  cases action with
  | credit credited =>
    rw [List.mem_singleton.mp member]
    exact Or.inr enabled.2.2.1
  | charge charged =>
    rw [List.mem_singleton.mp member]
    exact Or.inl enabled.2.2.2.2
  | settle reservation settled =>
    rw [List.mem_singleton.mp member]
    exact Or.inl enabled.2.2.2.1
  | reverse refund =>
    rw [List.mem_singleton.mp member]
    exact Or.inr enabled.2.2.1
  | transfer out into =>
    rcases List.mem_pair.mp member with rfl | rfl
    · exact Or.inl enabled.plain.1
    · exact Or.inl enabled.plain.2.1
  | openAccount _ | place _ _ | release _ | extend _ _ => exact absurd member List.not_mem_nil

/-- Entries that add credits wherever they reference one. -/
theorem linkedSum_nonneg {posted : List LedgerEntry}
    (links : ∀ entry ∈ posted, entry.reversesEntryId = none ∨ 0 < entry.deltaCredits)
    (id : EntryId) : 0 ≤ linkedSum posted id := by
  refine List.sum_nonneg fun delta member => ?_
  obtain ⟨entry, inside, rfl⟩ := List.mem_map.mp member
  obtain ⟨stored, linked⟩ := List.mem_filter.mp inside
  rcases links entry stored with unlinked | positive
  · simp [unlinked] at linked
  · exact positive.le

/-- **A remainder never grows.** -/
theorem remainder_apply_le {s : State} {action : Action} (enabled : action.Enabled s)
    {id : EntryId} (known : id ∈ s.entryIds) :
    (action.apply s).unreversedRemainder id ≤ s.unreversedRemainder id := by
  rw [State.unreversedRemainder_append (Action.apply_entries s action) known]
  exact sub_le_self _ (linkedSum_nonneg (fun _ => posted_links enabled) id)

/-- **A refund of the remainder leaves none.** -/
theorem remainder_reverse {s : State} {refund target : LedgerEntry} (stored : target ∈ s.entries)
    (links : refund.reversesEntryId = some target.id)
    (exact : refund.deltaCredits = s.unreversedRemainder target.id) :
    ((Action.reverse refund).apply s).unreversedRemainder target.id = 0 := by
  have known : target.id ∈ s.entryIds := List.mem_map_of_mem stored
  rw [Action.apply, State.unreversedRemainder_record, if_pos links, exact,
    State.unreversedRemainder_congr (State.pay_entries _ _ _ _), sub_self]
  exact known

theorem known_apply {s : State} {id : EntryId} (known : id ∈ s.entryIds) (action : Action) :
    id ∈ (action.apply s).entryIds := by
  rw [State.entryIds, Action.apply_entries, List.map_append]
  exact List.mem_append_left _ known

/-- An entry with nothing left is not refunded again. -/
theorem Path.unrefunded {s s' : State} {actions : List Action} (path : Path s actions s')
    (wf : s.WellFormed) {id : EntryId} (known : id ∈ s.entryIds)
    (spent : s.unreversedRemainder id ≤ 0) :
    ∀ refund ∈ reversals actions, refund.reversesEntryId ≠ some id := by
  induction path with
  | nil s => exact fun _ member => absurd member List.not_mem_nil
  | cons action enabled _ ih =>
    have rest := ih (wf.apply enabled) (known_apply known action)
      ((remainder_apply_le enabled known).trans spent)
    cases action with
    | reverse refund =>
      intro other member
      rcases List.mem_cons.mp member with rfl | member
      · obtain ⟨_, _, positive, target, _, links, _, exact, _⟩ := enabled
        rw [links, Ne, Option.some.injEq]
        rintro rfl
        rw [exact] at positive
        exact absurd positive (not_lt.mpr spent)
      · exact rest other member
    | _ => exact rest

/-- **No entry is refunded twice along a path.** -/
theorem Path.reversals_nodup {s s' : State} {actions : List Action} (path : Path s actions s')
    (wf : s.WellFormed) : ((reversals actions).map LedgerEntry.reversesEntryId).Nodup := by
  induction path with
  | nil s => exact List.nodup_nil
  | cons action enabled path ih =>
    have rest := ih (wf.apply enabled)
    cases action with
    | reverse refund =>
      have original := enabled
      obtain ⟨_, _, _, target, stored, links, _, exact, _⟩ := enabled
      refine List.nodup_cons.mpr ⟨fun member => ?_, rest⟩
      obtain ⟨other, inside, same⟩ := List.mem_map.mp member
      refine path.unrefunded (wf.apply original)
        (known_apply (List.mem_map_of_mem stored) _) ?_ other inside (same.trans links)
      exact (remainder_reverse stored links exact).le
    | _ => exact rest

/-! ### One call -/

/-- An action of a reversing call is a refund of a remainder or a release. -/
theorem Call.reverses_permits {call : Call} {action : Action} (permitted : call.Permits action) :
    (call.reverses = true → (∃ entry, action = .reverse entry) ∨ ∃ rs, action = .release rs) ∧
      (call.reverses = false → ∀ entry, action ≠ .reverse entry) := by
  cases call <;> cases action <;> first
    | exact permitted.elim
    | simp [reverses]

/-- **Each refund of a reversing call** brings the refunds of its target up to what was charged,
and not before: read at the point of the entry list where it was appended. -/
theorem Path.reversal_exact {s s' : State} {actions : List Action} (path : Path s actions s')
    (wf : s.WellFormed) {call : Call} (reverses : call.reverses = true)
    (permitted : ∀ action ∈ actions, call.Permits action) :
    ∀ earlier refund later, actions.flatMap Action.posted = earlier ++ refund :: later →
      ∃ target ∈ s.entries ++ earlier, refund.reversesEntryId = some target.id ∧
        linkedSum (s.entries ++ earlier) target.id < -target.deltaCredits ∧
        linkedSum (s.entries ++ earlier ++ [refund]) target.id = -target.deltaCredits := by
  induction path with
  | nil s =>
    intro earlier refund later split
    exact absurd split.symm (by simp)
  | @cons s _ action actions enabled _ ih =>
    intro earlier refund later split
    have rest := ih (wf.apply enabled)
      fun other inside => permitted other (List.mem_cons_of_mem _ inside)
    rw [Action.apply_entries] at rest
    rw [List.flatMap_cons] at split
    rcases (Call.reverses_permits (permitted action List.mem_cons_self)).1 reverses with
      ⟨entry, rfl⟩ | ⟨rs, rfl⟩
    · cases earlier with
      | nil =>
        cases (List.cons.inj split).1
        obtain ⟨_, _, positive, target, stored, links, _, exact, _⟩ := enabled
        have charged := State.charged_of_mem wf.entryIds stored
        rw [State.unreversedRemainder, charged, State.reversed_eq] at exact
        rw [exact] at positive
        refine ⟨target, List.mem_append_left _ stored, links, ?_, ?_⟩
        · rw [List.append_nil]
          linarith
        · rw [List.append_nil, linkedSum_append, linkedSum_singleton, if_pos links, exact]
          ring
      | cons first earlier =>
        obtain ⟨same, tail⟩ := List.cons.inj split
        cases same
        have found := rest earlier refund later tail
        rwa [Action.posted, List.append_assoc] at found
    · rw [Action.posted, List.append_nil] at rest
      exact rest earlier refund later split

/-! ### Whole runs -/

theorem Event.posted_eq {event : Event} {actions : List Action}
    (path : Path event.before actions event.after) :
    event.posted = actions.flatMap Action.posted := by
  rw [Event.posted, path.entries, List.drop_left]

/-- **What calls of one kind posted**, read off a path: the actions of those calls post what is picked
from them, and nothing is picked from other actions. -/
theorem postedBy_eq {kind : Call → Bool} {pick : Action → Option LedgerEntry}
    (picks : ∀ {call action}, call.Permits action → kind call = true →
      action.posted = (pick action).toList)
    (skips : ∀ {call action}, call.Permits action → kind call = false → pick action = none)
    {events : List Event} {steps : List (List Action)}
    (each : List.Forall₂ (fun event actions => event.before.WellFormed ∧
      Path event.before actions event.after ∧ ∀ action ∈ actions, event.call.Permits action)
      events steps) :
    (events.filter fun event => kind event.call).flatMap Event.posted =
      steps.flatten.filterMap pick := by
  induction each with
  | nil => rfl
  | @cons event actions events steps head _ ih =>
    obtain ⟨_, path, permitted⟩ := head
    rw [List.flatten_cons, List.filterMap_append, ← ih]
    cases isKind : kind event.call with
    | true =>
      rw [List.filter_cons, if_pos isKind, List.flatMap_cons, Event.posted_eq path,
        List.filterMap_eq_flatMap_toList pick actions]
      refine congrArg (· ++ _) (List.flatMap_congr fun action member => ?_)
      exact picks (permitted action member) isKind
    | false =>
      rw [List.filter_cons, if_neg (by rw [isKind]; decide), List.filterMap_eq_nil_iff.mpr]
      · rfl
      · exact fun action member => skips (permitted action member) isKind

/-- The automatic refunds of a run are the reversals of its path. -/
theorem automaticRefunds_eq {events : List Event} {steps : List (List Action)}
    (each : List.Forall₂ (fun event actions => event.before.WellFormed ∧
      Path event.before actions event.after ∧ ∀ action ∈ actions, event.call.Permits action)
      events steps) : automaticRefunds events = reversals steps.flatten := by
  refine postedBy_eq (fun permitted reverses => ?_) (fun permitted spares => ?_) each
  · rcases (Call.reverses_permits permitted).1 reverses with ⟨entry, rfl⟩ | ⟨rs, rfl⟩
    · rfl
    · rfl
  · rename_i action
    have other := (Call.reverses_permits permitted).2 spares
    cases action with
    | reverse entry => exact absurd rfl (other entry)
    | _ => rfl

/-- **Remainder reversal never double-refunds.** Whenever `reverse_charge` or `void_run` appends a
refund, it references an entry whose linked refunds did not yet reach its magnitude, and then sum
to exactly its magnitude; and over the whole run no entry gets a second automatic refund. -/
theorem reversal_never_double_refunds {events : List Event} {s : State}
    (history : History State.new events s) :
    (∀ event ∈ events, event.call.reverses = true →
      event.after.entries = event.before.entries ++ event.posted ∧
      ∀ earlier refund later, event.posted = earlier ++ refund :: later →
        ∃ charge ∈ event.before.entries ++ earlier, refund.reversesEntryId = some charge.id ∧
          linkedSum (event.before.entries ++ earlier) charge.id < |charge.deltaCredits| ∧
          linkedSum (event.before.entries ++ earlier ++ [refund]) charge.id =
            -charge.deltaCredits) ∧
    ((automaticRefunds events).map LedgerEntry.reversesEntryId).Nodup := by
  obtain ⟨steps, path, each⟩ := history.path .new
  refine ⟨fun event member reverses => ?_, ?_⟩
  · obtain ⟨before, after, amb, earlier, occurs, _⟩ := history.split member
    have wf := earlier.wellFormed .new
    obtain ⟨actions, inner, permitted⟩ := occurs.path wf
    refine ⟨?_, fun earlier refund later split => ?_⟩
    · rw [Event.posted_eq inner, inner.entries]
    · rw [Event.posted_eq inner] at split
      obtain ⟨charge, stored, links, below, full⟩ :=
        inner.reversal_exact wf reverses permitted earlier refund later split
      exact ⟨charge, stored, links, below.trans_le (neg_le_abs _), full⟩
  · rw [automaticRefunds_eq each]
    exact path.reversals_nodup .new

/-- The script, then its run voided, then its charge reversed under another key. -/
def reversingCalls : List (Ambient × Call) :=
  sampleCalls ++ [(numbered 7, .voidRun 7), (numbered 8, .reverseCharge ⟨1, 1012, none, "again"⟩)]

/-- The run void refunds the settle and what is left of the charge; the reversal then does
nothing. -/
theorem reversal_never_double_refunds_sample : ∃ events s, History State.new events s ∧
    (automaticRefunds events).map (fun entry => (entry.reversesEntryId, entry.deltaCredits)) =
      [(some 1009, 40), (some 1012, 3)] ∧
    ((automaticRefunds events).map LedgerEntry.reversesEntryId).Nodup := by
  have played : (replay State.new reversingCalls).map (fun result =>
      (automaticRefunds result.1).map fun entry => (entry.reversesEntryId, entry.deltaCredits)) =
        some [(some 1009, 40), (some 1012, 3)] := by decide +kernel
  obtain ⟨⟨events, s⟩, found, refunds⟩ := Option.map_eq_some_iff.mp played
  have history := (run_of_replay found).history
  exact ⟨events, s, history, refunds, (reversal_never_double_refunds history).2⟩

end Meter.Ledger
