/-
**The life of a hold.**

* `Path.hold` — along any path a hold keeps its account, amount and run, and once it has left
  `open` it keeps its status and its settle entry too.
* `State.WellFormed.settles_of_settled`, `settles_of_unsettled` — a settled hold has exactly one
  settle entry, the one it names; any other reservation has none.

`hold_life_cycle` puts the two together over histories.
-/

import Meter.Ledger.Run

namespace Meter.Ledger

open Meter.Lib

/-- The settle entries that carry a reservation. -/
def State.settles (s : State) (reservation : ReservationId) : List LedgerEntry :=
  s.entries.filter fun entry =>
    entry.entryType = .settle ∧ entry.reservationId = some reservation

theorem State.mem_settles {s : State} {reservation : ReservationId} {entry : LedgerEntry} :
    entry ∈ s.settles reservation ↔
      entry ∈ s.entries ∧ entry.entryType = .settle ∧ entry.reservationId = some reservation := by
  rw [settles, List.mem_filter, decide_eq_true_eq]

/-- **A hold along a path.** -/
theorem Path.hold {s s' : State} {actions : List Action} (path : Path s actions s')
    {reservation : ReservationId} {hold : Hold} (found : s.holds.get? reservation = some hold) :
    ∃ new, s'.holds.get? reservation = some new ∧ HoldEvolves hold new := by
  induction path generalizing hold with
  | nil s => exact ⟨hold, found, .refl hold⟩
  | cons action enabled _ ih =>
    obtain ⟨middle, foundMiddle, earlier, _⟩ := hold_apply enabled.fits found
    obtain ⟨new, foundNew, later⟩ := ih foundMiddle
    exact ⟨new, foundNew, earlier.trans later⟩

namespace State.WellFormed

variable {s : State} {reservation : ReservationId}

/-- A settle entry names a settled hold, which names it back. -/
theorem hold_of_settles (wf : s.WellFormed) {entry : LedgerEntry}
    (member : entry ∈ s.settles reservation) : ∃ hold, s.holds.get? reservation = some hold ∧
      hold.status = .settled ∧ hold.settleEntry = some entry.id := by
  obtain ⟨stored, kind, own⟩ := State.mem_settles.mp member
  obtain ⟨reservation', hold, own', found, link⟩ := wf.settleHold entry stored kind
  rw [own, Option.some.injEq] at own'
  subst own'
  exact ⟨hold, found, (wf.settledIff found).mpr ⟨_, link⟩, link⟩

/-- **A settled hold has one settle entry**, on its own account. -/
theorem settles_of_settled (wf : s.WellFormed) {hold : Hold}
    (found : s.holds.get? reservation = some hold) (status : hold.status = .settled) :
    ∃ entry, hold.settleEntry = some entry.id ∧ entry.accountId = hold.account ∧
      s.settles reservation = [entry] := by
  obtain ⟨id, link⟩ := (wf.settledIff found).mp status
  obtain ⟨entry, stored, rfl, kind, own, account⟩ := wf.settleLink found link
  refine ⟨entry, link, account, List.perm_singleton.mp ?_⟩
  have distinct : (s.settles reservation).Nodup :=
    (List.Nodup.of_map LedgerEntry.id wf.entryIds).filter _
  refine (List.perm_ext_iff_of_nodup distinct (List.nodup_singleton _)).mpr fun other => ?_
  rw [List.mem_singleton]
  constructor
  · intro member
    obtain ⟨hold', found', _, link'⟩ := wf.hold_of_settles member
    rw [found, Option.some.injEq] at found'
    subst found'
    rw [link, Option.some.injEq] at link'
    exact List.inj_on_of_nodup_map wf.entryIds (State.mem_settles.mp member).1 stored link'.symm
  · rintro rfl
    exact State.mem_settles.mpr ⟨stored, kind, own⟩

/-- **Any other reservation has no settle entry**: open, voided or unknown. -/
theorem settles_of_unsettled (wf : s.WellFormed)
    (unsettled : ∀ hold, s.holds.get? reservation = some hold → hold.status ≠ .settled) :
    s.settles reservation = [] := by
  refine List.eq_nil_iff_forall_not_mem.mpr fun entry member => ?_
  obtain ⟨hold, found, status, _⟩ := wf.hold_of_settles member
  exact unsettled hold found status

/-- A reservation has at most one settle entry. -/
theorem settles_length_le_one (wf : s.WellFormed) (reservation : ReservationId) :
    (s.settles reservation).length ≤ 1 := by
  by_cases settled : ∃ hold, s.holds.get? reservation = some hold ∧ hold.status = .settled
  · obtain ⟨hold, found, status⟩ := settled
    obtain ⟨entry, _, _, only⟩ := wf.settles_of_settled found status
    rw [only, List.length_singleton]
  · rw [wf.settles_of_unsettled fun hold found status => settled ⟨hold, found, status⟩]
    exact Nat.zero_le _

end State.WellFormed

/-- **The life cycle of a hold, and settling exactly once.** Whatever calls are made after a hold
exists, its account, amount and run stay and a closed status is final. After any calls, a hold names a
settle entry exactly when it is settled; that entry is then the only settle entry of
its reservation and is posted to the hold's account; and there is no settle entry for a hold that
is open or voided, or for an unknown reservation. -/
theorem hold_life_cycle {calls : List Event} {s : State} (history : History State.new calls s)
    (reservation : ReservationId) :
    (∀ hold, s.holds.get? reservation = some hold →
      ∀ events s', History s events s' → ∃ new, s'.holds.get? reservation = some new ∧
        new.account = hold.account ∧ new.amount = hold.amount ∧ new.runId = hold.runId ∧
        (hold.status ≠ .open → new.status = hold.status ∧ new.settleEntry = hold.settleEntry)) ∧
    (∀ hold, s.holds.get? reservation = some hold →
      ((∃ id, hold.settleEntry = some id) ↔ hold.status = .settled) ∧
      (∀ id, hold.settleEntry = some id → ∃ entry, entry.id = id ∧
        entry.accountId = hold.account ∧ s.settles reservation = [entry]) ∧
      (hold.status ≠ .settled → s.settles reservation = [])) ∧
    (s.holds.get? reservation = none → s.settles reservation = []) ∧
    (∀ entry ∈ s.entries, entry.entryType = .settle →
      ∃ own, entry.reservationId = some own ∧ entry ∈ s.settles own) := by
  have wf := history.wellFormed .new
  refine ⟨fun hold found events s' later => ?_, fun hold found => ⟨?_, fun id link => ?_, ?_⟩, ?_,
    fun entry stored kind => ?_⟩
  · obtain ⟨steps, path, _⟩ := later.path wf
    obtain ⟨new, found', evolves⟩ := path.hold found
    exact ⟨new, found', evolves.account, evolves.amount, evolves.runId, evolves.closed⟩
  · exact (wf.settledIff found).symm
  · obtain ⟨entry, link', account, only⟩ :=
      wf.settles_of_settled found ((wf.settledIff found).mpr ⟨id, link⟩)
    rw [link, Option.some.injEq] at link'
    exact ⟨entry, link'.symm, account, only⟩
  · intro unsettled
    refine wf.settles_of_unsettled fun hold' found' => ?_
    rw [found, Option.some.injEq] at found'
    rwa [← found']
  · intro absent
    refine wf.settles_of_unsettled fun hold found => ?_
    rw [absent] at found
    cases found
  · obtain ⟨own, _, names, _⟩ := wf.settleHold entry stored kind
    exact ⟨own, names, State.mem_settles.mpr ⟨stored, kind, names⟩⟩

/-- In the script, reservation 11 is settled once, and reservation 12 is still open. -/
theorem hold_life_cycle_sample :
    (∃ entry, sample.settles 11 = [entry] ∧ entry.accountId = 1) ∧ sample.settles 12 = [] := by
  have settled : (sample.holds.get? 11).map (fun hold => (hold.account, hold.settleEntry)) =
      some (1, some 1009) := by decide +kernel
  have isOpen : (sample.holds.get? 12).map Hold.status = some .open := by decide +kernel
  obtain ⟨hold, found, facts⟩ := Option.map_eq_some_iff.mp settled
  obtain ⟨hold', found', status⟩ := Option.map_eq_some_iff.mp isOpen
  rw [Prod.mk.injEq] at facts
  obtain ⟨calls, history⟩ := history_sample
  refine ⟨?_, ?_⟩
  · obtain ⟨entry, _, account, only⟩ :=
      ((hold_life_cycle history 11).2.1 hold found).2.1 1009 facts.2
    exact ⟨entry, only, account.trans facts.1⟩
  · refine ((hold_life_cycle history 12).2.1 hold' found').2.2 ?_
    rw [status]
    decide

end Meter.Ledger
