/-
**A run void is exact.**

`void_run` walks two collections and mutates both. What it does is nevertheless a function of the
state it began in: `VoidProgress` gives the holds, the accounts, the entries and the summary after
some releases and some refunds, in terms of the first state alone. It can, because a refund moves
the remainder of its own target only, and the targets are pairwise distinct.

* `voidRun_progress` — the two loops, from any well-formed state.
* `runRefunds_perm` — the targets are the run's settle and usage entries, each once.
* `run_void_exact` — the exact effect, its frame, idempotence, and independence from the order in
  which the holds map is iterated.
-/

import Meter.Ledger.Run

namespace Meter.Ledger

open Meter.Lib

/-- A refund that a run void may post: the entry refunded, and the posting. -/
abbrev RunRefund := EntryId × Posting

/-- An entry up to its `balance_after`. -/
def LedgerEntry.unbalanced (entry : LedgerEntry) : LedgerEntry := { entry with balanceAfter := 0 }

/-- A refund that can be posted: its target is known, and the posting references it. -/
structure RunRefund.Valid (s : State) (refund : RunRefund) : Prop where
  known : refund.1 ∈ s.entryIds
  present : s.accounts.contains refund.2.accountId = true
  links : refund.2.reversesEntryId = some refund.1
  kind : refund.2.entryType = .refund

namespace State

/-- What is left to refund of an entry. -/
def owed (s : State) (entryId : EntryId) : Credit := max 0 (s.unreversedRemainder entryId)

/-- The refunds with something left. -/
def due (s : State) (refunds : List RunRefund) : List RunRefund :=
  refunds.filter fun refund => 0 < s.unreversedRemainder refund.1

/-- What refunds add to an account. Moving credits to a payee may also move a counterpart. -/
def refunded (s : State) (move : AccountId → Credit → AccountId → Credit)
    (refunds : List RunRefund) (account : AccountId) : Credit :=
  (refunds.map fun refund => move refund.2.accountId (s.owed refund.1) account).sum

/-- The entry a refund posts, up to its `balance_after`. -/
def refundOf (s : State) (amb : Ambient) (refund : RunRefund) : LedgerEntry :=
  refund.2.entry amb (.reversal refund.1) (s.unreversedRemainder refund.1) 0

/-- The summary of some releases and refunds. -/
def voidSummary (s : State) (released : Nat) (refunds : List RunRefund) : RunVoidSummary where
  holdsReleased := released
  chargesRefunded := (s.due refunds).length
  creditsRefunded := (refunds.map fun refund => s.owed refund.1).sum

theorem due_append (s : State) (first second : List RunRefund) :
    s.due (first ++ second) = s.due first ++ s.due second := List.filter_append ..

theorem owed_of_pos {s : State} {id : EntryId} (positive : 0 < s.unreversedRemainder id) :
    s.owed id = s.unreversedRemainder id := max_eq_right positive.le

theorem owed_of_nonpos {s : State} {id : EntryId} (spent : ¬ 0 < s.unreversedRemainder id) :
    s.owed id = 0 := max_eq_left (not_lt.mp spent)

/-- The sum of what is owed over distinct targets, at one target. -/
theorem sum_owed_at {s : State} {refunds : List RunRefund} (distinct : (refunds.map Prod.fst).Nodup)
    (id : EntryId) : (refunds.map fun refund => if refund.1 = id then s.owed id else 0).sum =
      if id ∈ refunds.map Prod.fst then s.owed id else 0 := by
  induction refunds with
  | nil => simp
  | cons refund refunds ih =>
    obtain ⟨fresh, rest⟩ := List.nodup_cons.mp distinct
    rw [List.map_cons, List.sum_cons, ih rest]
    simp only [List.map_cons, List.mem_cons]
    by_cases same : refund.1 = id
    · subst same
      rw [if_pos rfl, if_neg fresh, add_zero, if_pos (Or.inl rfl)]
    · rw [if_neg same, zero_add]
      simp only [Ne.symm same, false_or]

end State

/-! ### Progress -/

/-- Where a run void stands after some releases and some refunds, in terms of the state it began
in. -/
structure VoidProgress (amb : Ambient) (move : AccountId → Credit → AccountId → Credit) (s : State)
    (released : List ReservationId) (refunds : List RunRefund) (now : State × RunVoidSummary) :
    Prop where
  holds : now.1.holds = s.holds.mapValues fun reservation hold =>
    if reservation ∈ released then { hold with status := .voided } else hold
  accounts : now.1.accounts = s.accounts.mapValues fun account row =>
    row.add (s.refunded move refunds account)
  entries : ∃ posted, now.1.entries = s.entries ++ posted ∧
    posted.map LedgerEntry.unbalanced = (s.due refunds).map (s.refundOf amb)
  summary : now.2 = s.voidSummary released.length refunds

namespace VoidProgress

variable {amb : Ambient} {move : AccountId → Credit → AccountId → Credit} {s : State}
  {released : List ReservationId} {refunds : List RunRefund} {now : State × RunVoidSummary}

theorem start (amb : Ambient) (move : AccountId → Credit → AccountId → Credit) (s : State) :
    VoidProgress amb move s [] [] (s, {}) where
  holds := (Table.mapValues_eq_self fun _ _ _ => if_neg List.not_mem_nil).symm
  accounts := (Table.mapValues_eq_self fun _ row _ => AccountRow.add_eq_self row).symm
  entries := ⟨[], (List.append_nil _).symm, rfl⟩
  summary := rfl

/-- The entries that references determine do not depend on balances. -/
theorem linkedSum_unbalanced (posted : List LedgerEntry) (id : EntryId) :
    linkedSum (posted.map LedgerEntry.unbalanced) id = linkedSum posted id := by
  rw [linkedSum, linkedSum, List.filter_map, List.map_map]
  rfl

theorem linkedSum_refundOf {refunds : List RunRefund} (valid : ∀ refund ∈ refunds, refund.Valid s)
    (id : EntryId) : linkedSum ((s.due refunds).map (s.refundOf amb)) id =
      (refunds.map fun refund => if refund.1 = id then s.owed id else 0).sum := by
  induction refunds with
  | nil => rfl
  | cons refund refunds ih =>
    have rest := ih fun other inside => valid other (List.mem_cons_of_mem _ inside)
    have links := (valid refund List.mem_cons_self).links
    rw [List.map_cons, List.sum_cons, ← rest]
    by_cases positive : 0 < s.unreversedRemainder refund.1
    · rw [State.due, List.filter_cons, if_pos (by simpa using positive), List.map_cons,
        ← List.singleton_append, linkedSum_append, linkedSum_singleton]
      refine congrArg (· + _) ?_
      show (if refund.2.reversesEntryId = some id then s.unreversedRemainder refund.1 else 0) = _
      rw [links]
      simp only [Option.some.injEq]
      split
      · rename_i same
        rw [← same, State.owed_of_pos positive]
      · rfl
    · rw [State.due, List.filter_cons, if_neg (by simpa using positive)]
      have none : (if refund.1 = id then s.owed id else 0) = 0 := by
        split
        · rename_i same
          rw [← same, State.owed_of_nonpos positive]
        · rfl
      rw [none, zero_add]
      rfl

/-- **The remainder of any entry after some refunds.** -/
theorem remainder (progress : VoidProgress amb move s released refunds now)
    (valid : ∀ refund ∈ refunds, refund.Valid s) (distinct : (refunds.map Prod.fst).Nodup)
    {id : EntryId} (known : id ∈ s.entryIds) : now.1.unreversedRemainder id =
      s.unreversedRemainder id - if id ∈ refunds.map Prod.fst then s.owed id else 0 := by
  obtain ⟨posted, entries, same⟩ := progress.entries
  rw [State.unreversedRemainder_append entries known, ← linkedSum_unbalanced, same,
    linkedSum_refundOf valid, State.sum_owed_at distinct]

/-- Accounts are the ones of the first state. -/
theorem contains (progress : VoidProgress amb move s released refunds now) (account : AccountId) :
    now.1.accounts.contains account = s.accounts.contains account := by
  rw [progress.accounts, Table.contains_mapValues]

/-- A refund of an entry with nothing left. -/
theorem skip (progress : VoidProgress amb move s released refunds now)
    (still : ∀ payee account, move payee 0 account = 0) {refund : RunRefund}
    (spent : ¬ 0 < s.unreversedRemainder refund.1) :
    VoidProgress amb move s released (refunds ++ [refund]) now := by
  have due : s.due (refunds ++ [refund]) = s.due refunds := by
    rw [State.due_append, State.due, State.due, List.filter_cons, if_neg (by simpa using spent),
      List.filter_nil, List.append_nil]
  refine ⟨progress.holds, ?_, ?_, ?_⟩
  · rw [progress.accounts]
    refine Table.mapValues_congr fun account row _ => ?_
    rw [State.refunded, State.refunded, List.map_append, List.sum_append, List.map_singleton,
      List.sum_singleton, State.owed_of_nonpos spent, still, add_zero]
  · rw [due]
    exact progress.entries
  · rw [progress.summary, State.voidSummary, State.voidSummary, due, List.map_append,
      List.sum_append, List.map_singleton, List.sum_singleton, State.owed_of_nonpos spent, add_zero]

/-- A refund of what is left of an entry. -/
theorem post (progress : VoidProgress amb move s released refunds now) {refund : RunRefund}
    (positive : 0 < s.unreversedRemainder refund.1) {next : State × RunVoidSummary}
    {entry : LedgerEntry} (holds : next.1.holds = now.1.holds)
    (accounts : next.1.accounts = now.1.accounts.mapValues fun account row =>
      row.add (move refund.2.accountId (s.unreversedRemainder refund.1) account))
    (entries : next.1.entries = now.1.entries ++ [entry])
    (same : entry.unbalanced = s.refundOf amb refund)
    (summary : next.2 = { now.2 with
      chargesRefunded := now.2.chargesRefunded + 1
      creditsRefunded := now.2.creditsRefunded + s.unreversedRemainder refund.1 }) :
    VoidProgress amb move s released (refunds ++ [refund]) next := by
  have due : s.due (refunds ++ [refund]) = s.due refunds ++ [refund] := by
    rw [State.due_append, State.due, State.due, List.filter_cons, if_pos (by simpa using positive),
      List.filter_nil]
  refine ⟨holds.trans progress.holds, ?_, ?_, ?_⟩
  · rw [accounts, progress.accounts, Table.mapValues_mapValues]
    refine Table.mapValues_congr fun account row _ => ?_
    rw [AccountRow.add_add, State.refunded, State.refunded, List.map_append, List.sum_append,
      List.map_singleton, List.sum_singleton, State.owed_of_pos positive]
  · obtain ⟨posted, before, earlier⟩ := progress.entries
    refine ⟨posted ++ [entry], by rw [entries, before, List.append_assoc], ?_⟩
    rw [List.map_append, earlier, due, List.map_append, List.map_singleton, List.map_singleton, same]
  · rw [summary, progress.summary, State.voidSummary, State.voidSummary, due, List.length_append,
      List.map_append, List.sum_append, List.map_singleton, List.sum_singleton,
      State.owed_of_pos positive]
    rfl

/-- A released hold. -/
theorem release (progress : VoidProgress amb move s released refunds now)
    {reservation : ReservationId} {next : State × RunVoidSummary}
    (holds : next.1.holds = now.1.holds.modify reservation fun hold =>
      { hold with status := .voided })
    (accounts : next.1.accounts = now.1.accounts) (entries : next.1.entries = now.1.entries)
    (summary : next.2 = { now.2 with holdsReleased := now.2.holdsReleased + 1 }) :
    VoidProgress amb move s (released ++ [reservation]) refunds next := by
  refine ⟨?_, accounts.trans progress.accounts, ?_, ?_⟩
  · rw [holds, progress.holds, Table.modify, Table.mapValues_mapValues]
    refine Table.mapValues_congr fun other hold _ => ?_
    simp only [List.mem_append, List.mem_singleton]
    by_cases last : other = reservation
    · rw [if_pos last, if_pos (Or.inr last)]
      split <;> rfl
    · rw [if_neg last]
      simp only [last, or_false]
  · rw [entries]
    exact progress.entries
  · rw [summary, progress.summary, List.length_append]
    rfl

end VoidProgress

/-! ### The two loops -/

/-- The holds that a run void releases. -/
def openMembers (members : List (ReservationId × Hold)) : List ReservationId :=
  (members.filter fun member => member.2.status = .open).map Prod.fst

/-- The refunds of settled holds, in the order visited. -/
def memberRefunds (run : RunId) (members : List (ReservationId × Hold)) : List RunRefund :=
  members.filterMap fun member => if member.2.status = .settled then
      member.2.settleEntry.map fun id => (id, settleRefund run member.1 member.2.account id)
    else none

/-- The refunds of direct charges. -/
def chargeRefunds (run : RunId) (charges : List LedgerEntry) : List RunRefund :=
  charges.map fun entry => (entry.id, chargeRefund run entry.accountId entry.id)

/-- All the refunds that a run void considers. -/
def runRefunds (amb : Ambient) (run : RunId) (s : State) : List RunRefund :=
  memberRefunds run (runMembers amb run s) ++ chargeRefunds run (runCharges run s)

section Loops

variable {amb : Ambient} {s : State} {released : List ReservationId} {refunds : List RunRefund}
  {now : State × RunVoidSummary} {run : RunId}

/-- **One refund.** -/
theorem VoidProgress.refund
    (progress : VoidProgress amb (flow systemAccount) s released refunds now) {refund : RunRefund}
    (valid : ∀ other ∈ refunds ++ [refund], other.Valid s)
    (distinct : ((refunds ++ [refund]).map Prod.fst).Nodup) :
    ∃ next, refundRemainder amb refund.1 refund.2 now = some next ∧
      VoidProgress amb (flow systemAccount) s released (refunds ++ [refund]) next := by
  have own := valid refund (List.mem_append_right _ (List.mem_singleton_self _))
  rw [List.map_append, List.nodup_append] at distinct
  have untouched : now.1.unreversedRemainder refund.1 = s.unreversedRemainder refund.1 := by
    rw [progress.remainder (fun other inside => valid other (List.mem_append_left _ inside))
      distinct.1 own.known, if_neg, sub_zero]
    exact fun member => distinct.2.2 _ member _ (List.mem_singleton_self _) rfl
  have present : now.1.accounts.contains refund.2.accountId = true := by
    rw [progress.contains, own.present]
  obtain ⟨state, summary⟩ := now
  rw [refundRemainder_eq present, untouched]
  split
  · rename_i positive
    refine ⟨_, rfl, progress.post positive rfl rfl rfl ?_ rfl⟩
    rw [State.refundOf, refundEntry, untouched]
    rfl
  · rename_i spent
    exact ⟨_, rfl, progress.skip (flow_zero _) spent⟩

/-- **The loop over the holds.** -/
theorem voidMembers_progress (members : List (ReservationId × Hold))
    (linked : ∀ member ∈ members, member.2.status = .settled →
      ∃ id, member.2.settleEntry = some id) :
    ∀ {released refunds now}, VoidProgress amb (flow systemAccount) s released refunds now →
      (∀ refund ∈ refunds ++ memberRefunds run members, refund.Valid s) →
      ((refunds ++ memberRefunds run members).map Prod.fst).Nodup →
      ∃ next, members.foldlM (voidMember amb run) now = some next ∧
        VoidProgress amb (flow systemAccount) s (released ++ openMembers members)
          (refunds ++ memberRefunds run members) next := by
  induction members with
  | nil =>
    intro released refunds now progress _ _
    refine ⟨now, rfl, ?_⟩
    rwa [openMembers, memberRefunds, List.filter_nil, List.map_nil, List.filterMap_nil,
      List.append_nil, List.append_nil]
  | cons member members ih =>
    intro released refunds now progress valid distinct
    have later : ∀ other ∈ members, other.2.status = .settled →
        ∃ id, other.2.settleEntry = some id :=
      fun other inside => linked other (List.mem_cons_of_mem _ inside)
    obtain ⟨reservation, hold⟩ := member
    rw [List.foldlM_cons]
    obtain ⟨state, summary⟩ := now
    cases status : hold.status with
    | voided =>
      have refunds' : memberRefunds run ((reservation, hold) :: members) =
          memberRefunds run members := by simp [memberRefunds, status]
      have opened : openMembers ((reservation, hold) :: members) = openMembers members := by
        simp [openMembers, status]
      rw [refunds'] at valid distinct ⊢
      rw [opened]
      simp only [voidMember, status]
      exact ih later progress valid distinct
    | «open» =>
      have refunds' : memberRefunds run ((reservation, hold) :: members) =
          memberRefunds run members := by simp [memberRefunds, status]
      have opened : openMembers ((reservation, hold) :: members) =
          [reservation] ++ openMembers members := by
        simp [openMembers, status]
      rw [refunds'] at valid distinct ⊢
      rw [opened, ← List.append_assoc]
      simp only [voidMember, status]
      exact ih later (progress.release rfl rfl rfl rfl) valid distinct
    | settled =>
      obtain ⟨id, link⟩ := linked _ List.mem_cons_self status
      have refunds' : memberRefunds run ((reservation, hold) :: members) =
          [(id, settleRefund run reservation hold.account id)] ++ memberRefunds run members := by
        simp [memberRefunds, status, show hold.settleEntry = some id from link]
      have opened : openMembers ((reservation, hold) :: members) = openMembers members := by
        simp [openMembers, status]
      rw [refunds', ← List.append_assoc] at valid distinct ⊢
      rw [opened]
      have distinct' := distinct
      rw [List.map_append, List.nodup_append] at distinct'
      obtain ⟨next, result, progress'⟩ := progress.refund
        (fun other inside => valid other (List.mem_append_left _ inside)) distinct'.1
      obtain ⟨last, result', done⟩ := ih later progress' valid distinct
      refine ⟨last, ?_, done⟩
      simp only [voidMember, status, show hold.settleEntry = some id from link,
        Option.bind_eq_bind, Option.bind_some]
      rw [result]
      exact result'

/-- **The loop over the direct charges.** -/
theorem voidCharges_progress (charges : List LedgerEntry) :
    ∀ {refunds now}, VoidProgress amb (flow systemAccount) s released refunds now →
      (∀ refund ∈ refunds ++ chargeRefunds run charges, refund.Valid s) →
      ((refunds ++ chargeRefunds run charges).map Prod.fst).Nodup →
      ∃ next, charges.foldlM (voidCharge amb run) now = some next ∧
        VoidProgress amb (flow systemAccount) s released (refunds ++ chargeRefunds run charges)
          next := by
  induction charges with
  | nil =>
    intro refunds now progress _ _
    refine ⟨now, rfl, ?_⟩
    rwa [chargeRefunds, List.map_nil, List.append_nil]
  | cons entry charges ih =>
    intro refunds now progress valid distinct
    have refunds' : chargeRefunds run (entry :: charges) =
      [(entry.id, chargeRefund run entry.accountId entry.id)] ++ chargeRefunds run charges := rfl
    rw [refunds', ← List.append_assoc] at valid distinct ⊢
    have distinct' := distinct
    rw [List.map_append, List.nodup_append] at distinct'
    obtain ⟨next, result, progress'⟩ := progress.refund
      (fun other inside => valid other (List.mem_append_left _ inside)) distinct'.1
    obtain ⟨last, result', done⟩ := ih progress' valid distinct
    refine ⟨last, ?_, done⟩
    rw [List.foldlM_cons, voidCharge, result]
    exact result'

end Loops

/-! ### What a run void refunds -/

/-- The settle entries of a run's holds, and its direct charges. -/
def runEntries (run : RunId) (s : State) : List LedgerEntry :=
  s.entries.filter fun entry => (entry.entryType = .usage ∧ entry.runId = some run) ∨
    (entry.entryType = .settle ∧
      (entry.reservationId.bind s.holds.get?).any fun hold => hold.runId = some run)

theorem mem_runMembers {amb : Ambient} {run : RunId} {s : State} {reservation : ReservationId}
    {hold : Hold} : (reservation, hold) ∈ runMembers amb run s ↔
      s.holds.get? reservation = some hold ∧ hold.runId = some run := by
  rw [runMembers, List.mem_filter, (amb.iterate_perm _).mem_iff, Table.mem_rows_iff,
    decide_eq_true_eq]

theorem mem_runCharges {run : RunId} {s : State} {entry : LedgerEntry} :
    entry ∈ runCharges run s ↔
      entry ∈ s.entries ∧ entry.runId = some run ∧ entry.entryType = .usage := by
  rw [runCharges, List.mem_filter, decide_eq_true_eq]

theorem mem_runEntries {run : RunId} {s : State} {entry : LedgerEntry} :
    entry ∈ runEntries run s ↔ entry ∈ s.entries ∧
      ((entry.entryType = .usage ∧ entry.runId = some run) ∨ (entry.entryType = .settle ∧
        ∃ reservation hold, entry.reservationId = some reservation ∧
          s.holds.get? reservation = some hold ∧ hold.runId = some run)) := by
  rw [runEntries, List.mem_filter, decide_eq_true_eq]
  simp only [Option.any_eq_true, Option.bind_eq_some_iff, decide_eq_true_eq]
  constructor
  · rintro ⟨stored, charge | ⟨kind, hold, ⟨reservation, own, found⟩, tagged⟩⟩
    · exact ⟨stored, Or.inl charge⟩
    · exact ⟨stored, Or.inr ⟨kind, reservation, hold, own, found, tagged⟩⟩
  · rintro ⟨stored, charge | ⟨kind, reservation, hold, own, found, tagged⟩⟩
    · exact ⟨stored, Or.inl charge⟩
    · exact ⟨stored, Or.inr ⟨kind, hold, ⟨reservation, own, found⟩, tagged⟩⟩

section Targets

variable {amb : Ambient} {s : State} {run : RunId}

theorem mem_memberRefunds {members : List (ReservationId × Hold)} {refund : RunRefund} :
    refund ∈ memberRefunds run members ↔ ∃ reservation hold id, (reservation, hold) ∈ members ∧
      hold.status = .settled ∧ hold.settleEntry = some id ∧
      refund = (id, settleRefund run reservation hold.account id) := by
  rw [memberRefunds, List.mem_filterMap]
  constructor
  · rintro ⟨⟨reservation, hold⟩, member, result⟩
    simp only at result
    split at result
    · rename_i status
      obtain ⟨id, link, same⟩ := Option.map_eq_some_iff.mp result
      exact ⟨reservation, hold, id, member, status, link, same.symm⟩
    · cases result
  · rintro ⟨reservation, hold, id, member, status, link, rfl⟩
    exact ⟨(reservation, hold), member, by simp [status, link]⟩

/-- **A refund considered is of an entry of the run**, on that entry's account. -/
theorem entry_of_refund (wf : s.WellFormed) {refund : RunRefund}
    (member : refund ∈ runRefunds amb run s) : refund.Valid s ∧
      ∃ entry ∈ runEntries run s, entry.id = refund.1 ∧ entry.accountId = refund.2.accountId := by
  rcases List.mem_append.mp member with settled | charge
  · obtain ⟨reservation, hold, id, inside, status, link, rfl⟩ := mem_memberRefunds.mp settled
    obtain ⟨found, tagged⟩ := mem_runMembers.mp inside
    obtain ⟨entry, stored, rfl, kind, own, account⟩ := wf.settleLink found link
    exact ⟨⟨List.mem_map_of_mem stored, (wf.holdTerms found).1, rfl, rfl⟩, entry,
      mem_runEntries.mpr ⟨stored, Or.inr ⟨kind, reservation, hold, own, found, tagged⟩⟩, rfl,
      account⟩
  · obtain ⟨entry, inside, rfl⟩ := List.mem_map.mp charge
    obtain ⟨stored, tagged, kind⟩ := mem_runCharges.mp inside
    exact ⟨⟨List.mem_map_of_mem stored, wf.entryAccounts entry stored, rfl, rfl⟩, entry,
      mem_runEntries.mpr ⟨stored, Or.inl ⟨kind, tagged⟩⟩, rfl, rfl⟩

/-- **Every entry of the run is considered.** -/
theorem refund_of_entry (wf : s.WellFormed) {entry : LedgerEntry}
    (member : entry ∈ runEntries run s) : ∃ refund ∈ runRefunds amb run s,
      refund.1 = entry.id ∧ refund.2.accountId = entry.accountId := by
  obtain ⟨stored, ⟨kind, tagged⟩ | ⟨kind, reservation, hold, own, found, tagged⟩⟩ :=
    mem_runEntries.mp member
  · refine ⟨_, List.mem_append_right _ (List.mem_map_of_mem ?_), rfl, rfl⟩
    exact mem_runCharges.mpr ⟨stored, tagged, kind⟩
  · obtain ⟨reservation', hold', own', found', link⟩ := wf.settleHold entry stored kind
    rw [own, Option.some.injEq] at own'
    subst own'
    rw [found, Option.some.injEq] at found'
    subst found'
    obtain ⟨other, otherStored, same, _, _, account⟩ := wf.settleLink found link
    have equal := List.inj_on_of_nodup_map wf.entryIds otherStored stored same
    refine ⟨_, List.mem_append_left _ (mem_memberRefunds.mpr ⟨reservation, hold, entry.id,
      mem_runMembers.mpr ⟨found, tagged⟩, (wf.settledIff found).mpr ⟨_, link⟩, link, rfl⟩), rfl, ?_⟩
    rw [← equal]
    exact account.symm

/-- The targets are pairwise distinct. -/
theorem runRefunds_nodup (wf : s.WellFormed) : ((runRefunds amb run s).map Prod.fst).Nodup := by
  have pending := pending_runMembers amb run s
  rw [runRefunds, List.map_append, List.nodup_append]
  refine ⟨?_, ?_, ?_⟩
  · rw [memberRefunds, List.map_filterMap, List.Nodup, List.pairwise_filterMap]
    have apart := List.pairwise_map.mp pending.distinct
    refine apart.imp_of_mem fun {first second} firstIn secondIn different => ?_
    intro id isId id' isId' same
    subst same
    have entryOf : ∀ {member : ReservationId × Hold}, member ∈ runMembers amb run s →
        Option.map Prod.fst (if member.2.status = .settled then member.2.settleEntry.map
          fun id => (id, settleRefund run member.1 member.2.account id) else none) = some id →
        ∃ entry ∈ s.entries, entry.id = id ∧ entry.reservationId = some member.1 := by
      intro member inside isId
      split at isId
      · rw [Option.map_map] at isId
        obtain ⟨id', link, rfl⟩ := Option.map_eq_some_iff.mp isId
        obtain ⟨entry, stored, same, _, own, _⟩ :=
          wf.settleLink (pending.stored member inside).1 link
        exact ⟨entry, stored, same, own⟩
      · cases isId
    obtain ⟨entry, stored, rfl, own⟩ := entryOf firstIn isId
    obtain ⟨entry', stored', same, own'⟩ := entryOf secondIn isId'
    have equal := List.inj_on_of_nodup_map wf.entryIds stored' stored same
    rw [equal, own, Option.some.injEq] at own'
    exact different own'
  · rw [chargeRefunds, List.map_map]
    exact List.Sublist.nodup (List.filter_sublist.map LedgerEntry.id) wf.entryIds
  · rintro id settled id' charge rfl
    obtain ⟨refund, member, rfl⟩ := List.mem_map.mp settled
    obtain ⟨reservation, hold, id, inside, status, link, rfl⟩ := mem_memberRefunds.mp member
    obtain ⟨entry, stored, rfl, kind, _⟩ := wf.settleLink (mem_runMembers.mp inside).1 link
    obtain ⟨refund, member', same⟩ := List.mem_map.mp charge
    obtain ⟨entry', inside', rfl⟩ := List.mem_map.mp member'
    obtain ⟨stored', _, kind'⟩ := mem_runCharges.mp inside'
    have equal := List.inj_on_of_nodup_map wf.entryIds stored' stored same
    rw [equal, kind] at kind'
    cases kind'

/-- **The targets are the entries of the run, each once**, with their accounts. -/
theorem runRefunds_perm (wf : s.WellFormed) :
    ((runRefunds amb run s).map fun refund => (refund.1, refund.2.accountId)).Perm
      ((runEntries run s).map fun entry => (entry.id, entry.accountId)) := by
  have left : ((runRefunds amb run s).map fun refund => (refund.1, refund.2.accountId)).Nodup := by
    refine List.Nodup.of_map Prod.fst ?_
    rw [List.map_map]
    exact runRefunds_nodup wf
  have right : ((runEntries run s).map fun entry => (entry.id, entry.accountId)).Nodup := by
    refine List.Nodup.of_map Prod.fst ?_
    rw [List.map_map]
    exact List.Sublist.nodup (List.filter_sublist.map LedgerEntry.id) wf.entryIds
  refine (List.perm_ext_iff_of_nodup left right).mpr fun pair => ?_
  rw [List.mem_map, List.mem_map]
  constructor
  · rintro ⟨refund, member, rfl⟩
    obtain ⟨_, entry, inside, same, account⟩ := entry_of_refund wf member
    exact ⟨entry, inside, by rw [same, account]⟩
  · rintro ⟨entry, member, rfl⟩
    obtain ⟨refund, inside, same, account⟩ := @refund_of_entry amb _ _ wf _ member
    exact ⟨refund, inside, by rw [same, account]⟩

end Targets

/-! ### The whole call -/

theorem VoidProgress.entryType_of_posted {amb : Ambient} {s : State} {refunds : List RunRefund}
    {posted : List LedgerEntry} (valid : ∀ refund ∈ refunds, refund.Valid s)
    (same : posted.map LedgerEntry.unbalanced = (s.due refunds).map (s.refundOf amb))
    {entry : LedgerEntry} (member : entry ∈ posted) : entry.entryType = .refund := by
  have inside := List.mem_map_of_mem (f := LedgerEntry.unbalanced) member
  rw [same] at inside
  obtain ⟨refund, due, equal⟩ := List.mem_map.mp inside
  have kind := congrArg LedgerEntry.entryType equal
  exact kind.symm.trans (valid refund (List.mem_filter.mp due).1).kind

section Exact

variable {amb : Ambient} {s : State} {run : RunId}

/-- **What a run void does, in terms of the state it began in.** -/
theorem voidRun_progress (wf : s.WellFormed) (amb : Ambient) (run : RunId) :
    ∃ next, voidRun amb run s = some (.ok next.2, next.1) ∧
      VoidProgress amb (flow systemAccount) s (openMembers (runMembers amb run s))
        (runRefunds amb run s) next := by
  have valid : ∀ refund ∈ runRefunds amb run s, refund.Valid s :=
    fun refund member => (entry_of_refund wf member).1
  have distinct := @runRefunds_nodup amb s run wf
  have distinct' := distinct
  rw [runRefunds, List.map_append, List.nodup_append] at distinct'
  have linked : ∀ member ∈ runMembers amb run s, member.2.status = .settled →
      ∃ id, member.2.settleEntry = some id := fun member inside status =>
    (wf.settledIff ((pending_runMembers amb run s).stored member inside).1).mp status
  have early : ∀ refund ∈ memberRefunds run (runMembers amb run s), refund.Valid s :=
    fun refund member => valid refund (List.mem_append_left _ member)
  obtain ⟨middle, result, progress⟩ := voidMembers_progress _ linked
    (VoidProgress.start amb (flow systemAccount) s) early distinct'.1
  obtain ⟨posted, entries, same⟩ := progress.entries
  have charges : runCharges run middle.1 = runCharges run s := by
    rw [runCharges, runCharges, entries, List.filter_append, List.append_right_eq_self,
      List.filter_eq_nil_iff]
    intro entry member
    rw [VoidProgress.entryType_of_posted early same member]
    simp
  obtain ⟨next, result', progress'⟩ := voidCharges_progress (runCharges run s) progress valid distinct
  refine ⟨next, ?_, progress'⟩
  rw [voidRun, result, Option.bind_some, charges, result']
  rfl

/-- The entries of a run with something left to refund. -/
def refundable (run : RunId) (s : State) : List LedgerEntry :=
  (runEntries run s).filter fun entry => 0 < s.unreversedRemainder entry.id

/-- The number of a run's open holds. -/
def openHolds (run : RunId) (s : State) : Nat :=
  s.holds.values.countP fun hold => hold.runId = some run ∧ hold.status = .open

/-- The summary that a run void of a state should give. -/
def exactSummary (run : RunId) (s : State) : RunVoidSummary where
  holdsReleased := openHolds run s
  chargesRefunded := (refundable run s).length
  creditsRefunded := ((refundable run s).map fun entry => s.unreversedRemainder entry.id).sum

theorem mem_openMembers {reservation : ReservationId} :
    reservation ∈ openMembers (runMembers amb run s) ↔ ∃ hold,
      s.holds.get? reservation = some hold ∧ hold.runId = some run ∧ hold.status = .open := by
  simp only [openMembers, List.mem_map, List.mem_filter, Prod.exists, mem_runMembers,
    decide_eq_true_eq, and_assoc]
  constructor
  · rintro ⟨_, hold, found, tagged, status, rfl⟩
    exact ⟨hold, found, tagged, status⟩
  · rintro ⟨hold, found, tagged, status⟩
    exact ⟨reservation, hold, found, tagged, status, rfl⟩

theorem length_openMembers (amb : Ambient) (run : RunId) (s : State) :
    (openMembers (runMembers amb run s)).length = openHolds run s := by
  rw [openMembers, List.length_map, runMembers, List.filter_filter, ← List.countP_eq_length_filter,
    (amb.iterate_perm _).countP_eq, openHolds, Table.values, List.countP_map]
  refine List.countP_congr fun row _ => ?_
  simp [and_comm]

/-- A sum over the refunds is a sum over the entries of the run. -/
theorem sum_runRefunds (wf : s.WellFormed) (measure : EntryId → AccountId → Credit) :
    ((runRefunds amb run s).map fun refund => measure refund.1 refund.2.accountId).sum =
      ((runEntries run s).map fun entry => measure entry.id entry.accountId).sum := by
  have perm := (@runRefunds_perm amb s run wf).map fun pair => measure pair.1 pair.2
  rw [List.map_map, List.map_map] at perm
  exact perm.sum_eq

/-- A sum of what is owed is a sum of remainders over what is refundable. -/
theorem sum_refundable (keep : LedgerEntry → Bool) :
    (((refundable run s).filter keep).map fun entry => s.unreversedRemainder entry.id).sum =
      ((runEntries run s).map fun entry => if keep entry = true then s.owed entry.id else 0).sum := by
  rw [refundable, List.filter_filter, Table.sum_filter_map]
  refine congrArg List.sum (List.map_congr_left fun entry _ => ?_)
  by_cases kept : keep entry = true
  · by_cases positive : 0 < s.unreversedRemainder entry.id
    · simp [kept, positive, State.owed_of_pos positive]
    · simp [kept, positive, State.owed_of_nonpos positive]
  · simp [kept]

/-- **The summary is exact.** -/
theorem voidSummary_eq (wf : s.WellFormed) :
    s.voidSummary (openMembers (runMembers amb run s)).length (runRefunds amb run s) =
      exactSummary run s := by
  have lengths : (s.due (runRefunds amb run s)).length = (refundable run s).length := by
    have perm := @runRefunds_perm amb s run wf
    have counts := perm.countP_eq fun pair => 0 < s.unreversedRemainder pair.1
    rw [List.countP_map, List.countP_map, List.countP_eq_length_filter,
      List.countP_eq_length_filter] at counts
    exact counts
  have sums : ((runRefunds amb run s).map fun refund => s.owed refund.1).sum =
      ((refundable run s).map fun entry => s.unreversedRemainder entry.id).sum := by
    have all := @sum_refundable s run fun _ => true
    rw [List.filter_true] at all
    rw [all, sum_runRefunds wf fun id _ => s.owed id]
    simp
  rw [State.voidSummary, exactSummary, length_openMembers, lengths, sums]

/-- **Every other account is credited with its own remainders.** -/
theorem refunded_eq (wf : s.WellFormed) {account : AccountId} (notSystem : account ≠ systemAccount) :
    s.refunded (flow systemAccount) (runRefunds amb run s) account =
      (((refundable run s).filter fun entry => entry.accountId = account).map
        fun entry => s.unreversedRemainder entry.id).sum := by
  rw [State.refunded, sum_runRefunds wf fun id payee => flow systemAccount payee (s.owed id) account,
    sum_refundable]
  refine congrArg List.sum (List.map_congr_left fun entry _ => ?_)
  simp [flow, notSystem, eq_comm]

/-- **The system account pays for the others.** -/
theorem refunded_system (wf : s.WellFormed) :
    s.refunded (flow systemAccount) (runRefunds amb run s) systemAccount =
      -(((refundable run s).filter fun entry => entry.accountId ≠ systemAccount).map
        fun entry => s.unreversedRemainder entry.id).sum := by
  rw [State.refunded, sum_refundable,
    sum_runRefunds wf fun id payee => flow systemAccount payee (s.owed id) systemAccount,
    eq_neg_iff_add_eq_zero, ← List.sum_map_add]
  refine List.sum_eq_zero fun amount member => ?_
  obtain ⟨entry, _, rfl⟩ := List.mem_map.mp member
  by_cases system : entry.accountId = systemAccount
  · simp [flow, system]
  · simp [flow, system, Ne.symm system]

/-! ### After a run void -/

/-- The holds after a run void: the run's open ones are voided, all others as they were. -/
theorem VoidProgress.hold {next : State × RunVoidSummary}
    (progress : VoidProgress amb (flow systemAccount) s (openMembers (runMembers amb run s))
      (runRefunds amb run s) next) (reservation : ReservationId) :
    next.1.holds.get? reservation = (s.holds.get? reservation).map fun hold =>
      if hold.runId = some run ∧ hold.status = .open then { hold with status := .voided }
      else hold := by
  rw [progress.holds, Table.get?_mapValues]
  cases found : s.holds.get? reservation with
  | none => rfl
  | some hold =>
    rw [Option.map_some, Option.map_some]
    simp only [mem_openMembers, found, Option.some.injEq, exists_eq_left']

/-- A run void adds no entries to its own run. -/
theorem VoidProgress.runEntries_subset (wf : s.WellFormed) {next : State × RunVoidSummary}
    (progress : VoidProgress amb (flow systemAccount) s (openMembers (runMembers amb run s))
      (runRefunds amb run s) next) {entry : LedgerEntry}
    (member : entry ∈ runEntries run next.1) : entry ∈ runEntries run s := by
  obtain ⟨posted, entries, same⟩ := progress.entries
  have old : ∀ kind, entry.entryType = kind → kind ≠ .refund → entry ∈ next.1.entries →
      entry ∈ s.entries := by
    rintro kind rfl notRefund stored
    rw [entries] at stored
    refine (List.mem_append.mp stored).resolve_right fun new => notRefund ?_
    exact VoidProgress.entryType_of_posted (fun _ inside => (entry_of_refund wf inside).1) same new
  obtain ⟨stored, ⟨kind, tagged⟩ | ⟨kind, reservation, hold, own, found, tagged⟩⟩ :=
    mem_runEntries.mp member
  · exact mem_runEntries.mpr ⟨old _ kind (by decide) stored, Or.inl ⟨kind, tagged⟩⟩
  · rw [progress.hold] at found
    obtain ⟨hold', found', rfl⟩ := Option.map_eq_some_iff.mp found
    refine mem_runEntries.mpr ⟨old _ kind (by decide) stored,
      Or.inr ⟨kind, reservation, hold', own, found', ?_⟩⟩
    split at tagged
    · exact tagged
    · exact tagged

/-- **Every refund of a run void is of an entry of the run**, on that entry's account. -/
theorem VoidProgress.target (wf : s.WellFormed) {posted : List LedgerEntry}
    (same : posted.map LedgerEntry.unbalanced =
      (s.due (runRefunds amb run s)).map (s.refundOf amb)) {refund : LedgerEntry}
    (member : refund ∈ posted) : ∃ target ∈ runEntries run s,
      refund.reversesEntryId = some target.id ∧ target.accountId = refund.accountId := by
  have unbalanced := List.mem_map_of_mem (f := LedgerEntry.unbalanced) member
  rw [same] at unbalanced
  obtain ⟨due, isDue, equal⟩ := List.mem_map.mp unbalanced
  obtain ⟨valid, target, inRun, isTarget, account⟩ :=
    entry_of_refund wf (List.mem_filter.mp isDue).1
  have links : due.2.reversesEntryId = refund.reversesEntryId :=
    congrArg LedgerEntry.reversesEntryId equal
  have credited : due.2.accountId = refund.accountId := congrArg LedgerEntry.accountId equal
  exact ⟨target, inRun, by rw [← links, valid.links, isTarget], account.trans credited⟩

/-- **Nothing is left to refund.** -/
theorem VoidProgress.spent (wf : s.WellFormed) {next : State × RunVoidSummary}
    (progress : VoidProgress amb (flow systemAccount) s (openMembers (runMembers amb run s))
      (runRefunds amb run s) next) {entry : LedgerEntry}
    (member : entry ∈ runEntries run next.1) : next.1.unreversedRemainder entry.id ≤ 0 := by
  have before := progress.runEntries_subset wf member
  obtain ⟨refund, inside, same, _⟩ := @refund_of_entry amb _ _ wf _ before
  rw [progress.remainder (fun _ inside => (entry_of_refund wf inside).1) (runRefunds_nodup wf)
    (List.mem_map_of_mem (mem_runEntries.mp before).1),
    if_pos (List.mem_map.mpr ⟨refund, inside, same⟩), State.owed]
  exact sub_nonpos.mpr (le_max_right _ _)

/-- **A run void with nothing to do does nothing.** -/
theorem voidRun_again (wf : s.WellFormed)
    (closed : ∀ reservation hold, s.holds.get? reservation = some hold → hold.runId = some run →
      hold.status ≠ .open)
    (spent : ∀ entry ∈ runEntries run s, s.unreversedRemainder entry.id ≤ 0) (amb : Ambient) :
    voidRun amb run s = some (.ok {}, s) := by
  obtain ⟨⟨state, summary⟩, result, progress⟩ := voidRun_progress wf amb run
  have released : openMembers (runMembers amb run s) = [] := by
    refine List.eq_nil_iff_forall_not_mem.mpr fun reservation member => ?_
    obtain ⟨hold, found, tagged, isOpen⟩ := mem_openMembers.mp member
    exact closed reservation hold found tagged isOpen
  have nothing : ∀ refund ∈ runRefunds amb run s, s.owed refund.1 = 0 := by
    intro refund member
    obtain ⟨_, entry, inside, same, _⟩ := entry_of_refund wf member
    exact max_eq_left (same ▸ spent entry inside)
  have due : s.due (runRefunds amb run s) = [] := by
    refine List.filter_eq_nil_iff.mpr fun refund member => ?_
    obtain ⟨_, entry, inside, same, _⟩ := entry_of_refund wf member
    simpa using same ▸ spent entry inside
  have holds : state.holds = s.holds := by
    rw [progress.holds, released]
    exact Table.mapValues_eq_self fun _ _ _ => if_neg List.not_mem_nil
  have accounts : state.accounts = s.accounts := by
    rw [progress.accounts]
    refine Table.mapValues_eq_self fun account row _ => ?_
    rw [State.refunded, List.sum_eq_zero, AccountRow.add_eq_self]
    intro amount member
    obtain ⟨refund, inside, rfl⟩ := List.mem_map.mp member
    rw [nothing refund inside, flow_zero]
  have entries : state.entries = s.entries := by
    obtain ⟨posted, appended, same⟩ := progress.entries
    rw [due, List.map_nil, List.map_eq_nil_iff] at same
    rw [appended, same, List.append_nil]
  have totals : summary = {} := by
    refine progress.summary.trans ?_
    rw [State.voidSummary, released, due, List.sum_eq_zero]
    · rfl
    · intro amount member
      obtain ⟨refund, inside, rfl⟩ := List.mem_map.mp member
      exact nothing refund inside
  rw [result, totals]
  obtain ⟨_, _, _⟩ := state
  cases holds
  cases accounts
  cases entries
  rfl

theorem runMembers_perm (amb amb' : Ambient) (run : RunId) (s : State) :
    (runMembers amb' run s).Perm (runMembers amb run s) :=
  ((amb'.iterate_perm _).trans (amb.iterate_perm _).symm).filter _

/-- **The order in which the holds are visited does not matter.** -/
theorem VoidProgress.order {amb' : Ambient} (ids : amb'.entryId = amb.entryId)
    (clock : amb'.now = amb.now) {next next' : State × RunVoidSummary}
    (progress : VoidProgress amb (flow systemAccount) s (openMembers (runMembers amb run s))
      (runRefunds amb run s) next)
    (progress' : VoidProgress amb' (flow systemAccount) s (openMembers (runMembers amb' run s))
      (runRefunds amb' run s) next') :
    next'.2 = next.2 ∧ next'.1.accounts = next.1.accounts ∧ next'.1.holds = next.1.holds ∧
      ∃ posted posted', next.1.entries = s.entries ++ posted ∧
        next'.1.entries = s.entries ++ posted' ∧
        (posted'.map LedgerEntry.unbalanced).Perm (posted.map LedgerEntry.unbalanced) := by
  have members := runMembers_perm amb amb' run s
  have opened : (openMembers (runMembers amb' run s)).Perm (openMembers (runMembers amb run s)) :=
    (members.filter _).map _
  have refunds : (runRefunds amb' run s).Perm (runRefunds amb run s) :=
    (members.filterMap _).append_right _
  have due : (s.due (runRefunds amb' run s)).Perm (s.due (runRefunds amb run s)) :=
    refunds.filter _
  refine ⟨?_, ?_, ?_, ?_⟩
  · rw [progress'.summary, progress.summary, State.voidSummary, State.voidSummary,
      opened.length_eq, due.length_eq, (refunds.map _).sum_eq]
  · rw [progress'.accounts, progress.accounts]
    refine Table.mapValues_congr fun account row _ => ?_
    rw [State.refunded, State.refunded, (refunds.map _).sum_eq]
  · rw [progress'.holds, progress.holds]
    refine Table.mapValues_congr fun reservation hold _ => ?_
    simp only [opened.mem_iff]
  · obtain ⟨posted, entries, same⟩ := progress.entries
    obtain ⟨posted', entries', same'⟩ := progress'.entries
    refine ⟨posted, posted', entries, entries', ?_⟩
    have minted : s.refundOf amb' = s.refundOf amb := by
      funext refund
      simp only [State.refundOf, Posting.entry, ids, clock]
    rw [same, same', minted]
    exact due.map _

end Exact

/-- **Run void is exact.** After any calls, voiding a run returns the exact summary,
leaves no hold of the run open and nothing of its entries to refund, credits every account with the
remainders of its own entries (at the system account's expense), and leaves every other hold and
every earlier entry alone. Voiding it again at once does nothing; and another iteration order of
the holds map gives the same result, up to the order and the balances of the new entries. -/
theorem run_void_exact {calls : List Event} {s : State} (history : History State.new calls s)
    {amb : Ambient} (fresh : amb.Fresh s) (run : RunId) : ∃ s', voidRun amb run s = some (.ok (exactSummary run s), s') ∧
    (∀ reservation, s'.holds.get? reservation = (s.holds.get? reservation).map fun hold =>
      if hold.runId = some run ∧ hold.status = .open then { hold with status := .voided }
      else hold) ∧
    (∀ entry ∈ runEntries run s', s'.unreversedRemainder entry.id ≤ 0) ∧
    (∀ account, s'.accounts.get? account = (s.accounts.get? account).map fun row =>
      if account = systemAccount then
        row.add (-(((refundable run s).filter fun entry => entry.accountId ≠ systemAccount).map
          fun entry => s.unreversedRemainder entry.id).sum)
      else row.add (((refundable run s).filter fun entry => entry.accountId = account).map
        fun entry => s.unreversedRemainder entry.id).sum) ∧
    (∃ posted, s'.entries = s.entries ++ posted) ∧
    (∀ later, voidRun later run s' = some (.ok {}, s')) ∧
    (∀ amb', amb'.entryId = amb.entryId → amb'.now = amb.now → ∃ s'' posted posted',
      voidRun amb' run s = some (.ok (exactSummary run s), s'') ∧
      s''.accounts = s'.accounts ∧ s''.holds = s'.holds ∧
      s'.entries = s.entries ++ posted ∧ s''.entries = s.entries ++ posted' ∧
      (posted'.map LedgerEntry.unbalanced).Perm (posted.map LedgerEntry.unbalanced)) := by
  have wf := history.wellFormed .new
  obtain ⟨⟨s', summary⟩, result, progress⟩ := voidRun_progress wf amb run
  obtain ⟨reply, after, actions, result', path, _⟩ := voidRun_refines wf fresh run
  rw [result, Option.some.injEq, Prod.mk.injEq] at result'
  obtain ⟨_, rfl⟩ := result'
  have exact' : summary = exactSummary run s := progress.summary.trans (voidSummary_eq wf)
  refine ⟨s', by rw [result, exact'], progress.hold, fun _ => progress.spent wf,
    fun account => ?_, ?_, fun later => ?_, fun amb' ids clock => ?_⟩
  · rw [progress.accounts, Table.get?_mapValues]
    refine congrArg (Option.map · (s.accounts.get? account)) (funext fun row => ?_)
    split
    · rename_i system
      rw [system, refunded_system wf]
    · rename_i notSystem
      rw [refunded_eq wf notSystem]
  · obtain ⟨posted, entries, _⟩ := progress.entries
    exact ⟨posted, entries⟩
  · refine voidRun_again (wf.path path) (fun reservation hold found tagged isOpen => ?_)
      (fun _ => progress.spent wf) later
    rw [progress.hold] at found
    obtain ⟨old, _, rfl⟩ := Option.map_eq_some_iff.mp found
    split at isOpen
    · cases isOpen
    · rename_i untouched
      rw [if_neg untouched] at tagged
      exact untouched ⟨tagged, isOpen⟩
  · obtain ⟨⟨s'', summary'⟩, again, progress'⟩ := voidRun_progress wf amb' run
    obtain ⟨totals, accounts, holds, posted, posted', entries, entries', perm⟩ :=
      progress.order ids clock progress'
    refine ⟨s'', posted, posted', ?_, accounts, holds, entries, entries', perm⟩
    rw [again, totals, exact']

/-- Voiding the run of the script releases one hold and refunds the settle and what is left of the
charge. -/
theorem run_void_exact_sample :
    exactSummary 7 sample = ⟨1, 2, 43⟩ ∧ ∃ s', voidRun (numbered 7) 7 sample =
      some (.ok ⟨1, 2, 43⟩, s') ∧ voidRun (numbered 8) 7 s' = some (.ok {}, s') := by
  have summary : exactSummary 7 sample = ⟨1, 2, 43⟩ := by decide +kernel
  have fresh : (numbered 7).Fresh sample := by decide +kernel
  obtain ⟨calls, history⟩ := history_sample
  obtain ⟨s', result, _, _, _, _, again, _⟩ := run_void_exact history fresh 7
  rw [summary] at result
  exact ⟨summary, s', result, again _⟩

end Meter.Ledger
