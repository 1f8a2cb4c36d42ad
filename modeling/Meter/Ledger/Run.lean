/-
**Runs of the in-memory ledger.**

* `step_refines` — **the refinement**: from a well-formed state an admissible call returns (no
  `expect` fails), and what it does is a path of enabled actions of the kinds that the call may
  perform.
* `History` — a finite sequence of calls with any arguments; `step_follows` is what is left of the
  refinement when an account may name a parent that does not exist.
* `Run` — a finite sequence of admissible calls, each with the state it was made in.
* `Reachable.wellFormed` — every reachable state is well formed.

A run void is two loops over snapshots. `VoidLoop` is what holds between two iterations, `Pending`
that the snapshot is still true of what is left to visit.
-/

import Meter.Ledger.Step

namespace Meter.Ledger

open Meter.Lib

section Calls

variable {amb : Ambient} {s : State}

/-! ### Run voids -/

/-- The entry that refunds what is left of an entry. -/
def refundEntry (amb : Ambient) (entryId : EntryId) (posting : Posting) (s : State) : LedgerEntry :=
  let amount := s.unreversedRemainder entryId
  posting.entry amb (.reversal entryId) amount
    (s.settled posting.accountId + flow systemAccount posting.accountId amount posting.accountId)

/-- **One refund of a run void**: nothing if nothing is left, else the remainder. -/
theorem refundRemainder_eq {entryId : EntryId} {posting : Posting}
    (present : s.accounts.contains posting.accountId = true) (summary : RunVoidSummary) :
    refundRemainder amb entryId posting (s, summary) =
      if 0 < s.unreversedRemainder entryId then
        some ((s.pay systemAccount posting.accountId (s.unreversedRemainder entryId)).record
            (refundEntry amb entryId posting s),
          { summary with
            chargesRefunded := summary.chargesRefunded + 1
            creditsRefunded := summary.creditsRefunded + s.unreversedRemainder entryId })
      else some (s, summary) := by
  obtain ⟨row, found⟩ := Table.contains_iff.mp present
  unfold refundRemainder
  by_cases positive : 0 < s.unreversedRemainder entryId
  · simp only [not_true_eq_false, if_false, positive, if_true, postCredit_eq posting found,
      Option.bind_eq_bind, Option.bind_some, refundEntry, State.settled_of_get found]
  · simp only [positive, not_false_eq_true, if_true, if_false]

/-- What holds between two iterations of a run void that began at `start`: an id minted by it
belongs to an entry with nothing left to refund. -/
structure VoidLoop (amb : Ambient) (start s : State) : Prop where
  wf : s.WellFormed
  kept : ∀ entry ∈ start.entries, entry ∈ s.entries
  refunds : ∀ entry ∈ s.entries, entry ∈ start.entries ∨ entry.entryType = .refund
  minted : ∀ id ∈ s.entryIds, id ∈ start.entryIds ∨ ∃ target ∈ start.entryIds,
    id = amb.entryId (.reversal target) ∧ s.unreversedRemainder target ≤ 0

theorem VoidLoop.start (wf : s.WellFormed) : VoidLoop amb s s :=
  ⟨wf, fun _ member => member, fun _ member => Or.inl member, fun _ member => Or.inl member⟩

/-- **One refund is one `reverse` action**, and the loop goes on. -/
theorem VoidLoop.refund {start : State} (fresh : amb.Fresh start) (loop : VoidLoop amb start s)
    (run : RunId) (posting : Posting) {target : LedgerEntry} (member : target ∈ start.entries)
    (kind : posting.entryType = .refund) (own : posting.accountId = target.accountId)
    (links : posting.reversesEntryId = some target.id) (tagged : posting.runId = some run)
    (voids : ∀ delta balance,
      RunVoids s run target (posting.entry amb (.reversal target.id) delta balance))
    (summary : RunVoidSummary) :
    ∃ s' summary' actions, refundRemainder amb target.id posting (s, summary) =
        some (s', summary') ∧ VoidLoop amb start s' ∧ s'.holds = s.holds ∧ Path s actions s' ∧
      ∀ action ∈ actions, (Call.voidRun run).Permits action := by
  have known : target.id ∈ start.entryIds := List.mem_map_of_mem member
  have present : s.accounts.contains posting.accountId = true := by
    rw [own]
    exact loop.wf.entryAccounts target (loop.kept target member)
  rw [refundRemainder_eq present]
  split
  · rename_i positive
    have unminted : amb.entryId (.reversal target.id) ∉ s.entryIds := by
      intro stored
      rcases loop.minted _ stored with old | ⟨other, otherKnown, same, spent⟩
      · exact fresh.reversal known old
      · rw [← fresh.reversal_injective known otherKnown same] at spent
        exact absurd positive (not_lt.mpr spent)
    obtain ⟨row, found⟩ := Table.contains_iff.mp present
    have enabled : (Action.reverse (refundEntry amb target.id posting s)).Enabled s := by
      refine ⟨posts_entry found unminted fun notSystem => ?_, kind, positive, target,
        loop.kept target member, links, own.symm, rfl, Or.inr ⟨run, voids _ _⟩⟩
      rw [State.settled_of_get found, flow_payee notSystem]
    refine ⟨_, _, [.reverse (refundEntry amb target.id posting s)], rfl, ?_, rfl,
      .single enabled, fun action inside => ?_⟩
    · refine ⟨loop.wf.apply enabled, fun entry old => ?_, fun entry stored => ?_,
        fun id stored => ?_⟩
      · exact List.mem_append_left _ (loop.kept entry old)
      · rcases List.mem_append.mp stored with old | new
        · exact loop.refunds entry old
        · rw [List.mem_singleton.mp new]
          exact Or.inr kind
      · have remainder : ∀ other ∈ s.entryIds,
            ((s.pay systemAccount posting.accountId (s.unreversedRemainder target.id)).record
              (refundEntry amb target.id posting s)).unreversedRemainder other =
            s.unreversedRemainder other -
              if target.id = other then s.unreversedRemainder target.id else 0 := by
          intro other otherKnown
          rw [State.unreversedRemainder_record (s := s.pay _ _ _) otherKnown,
            State.unreversedRemainder_congr (State.pay_entries _ _ _ _)]
          congr 1
          show (if posting.reversesEntryId = some other then s.unreversedRemainder target.id
            else 0) = _
          rw [links]
          simp only [Option.some.injEq]
        have stillKnown : ∀ other ∈ start.entryIds, other ∈ s.entryIds := by
          intro other otherKnown
          obtain ⟨entry, old, rfl⟩ := List.mem_map.mp otherKnown
          exact List.mem_map_of_mem (loop.kept entry old)
        rcases State.mem_entryIds_record.mp stored with old | rfl
        · rcases loop.minted id old with first | ⟨other, otherKnown, same, spent⟩
          · exact Or.inl first
          · refine Or.inr ⟨other, otherKnown, same, ?_⟩
            rw [remainder other (stillKnown other otherKnown)]
            split
            · linarith
            · linarith
        · refine Or.inr ⟨target.id, known, rfl, ?_⟩
          rw [remainder target.id (stillKnown _ known), if_pos rfl, sub_self]
    · rw [List.mem_singleton.mp inside]
      exact tagged
  · exact ⟨s, summary, [], rfl, loop, rfl, .nil s, fun _ inside => absurd inside List.not_mem_nil⟩

/-- The snapshotted holds still to visit are in the state as they were snapshotted. -/
structure Pending (run : RunId) (s : State) (members : List (ReservationId × Hold)) : Prop where
  stored : ∀ member ∈ members, s.holds.get? member.1 = some member.2 ∧ member.2.runId = some run
  distinct : (members.map Prod.fst).Nodup

theorem Pending.tail {run : RunId} {member : ReservationId × Hold}
    {members : List (ReservationId × Hold)} (pending : Pending run s (member :: members)) :
    Pending run s members :=
  ⟨fun other inside => pending.stored other (List.mem_cons_of_mem _ inside),
    (List.nodup_cons.mp pending.distinct).2⟩

theorem Pending.congr {run : RunId} {s' : State} {members : List (ReservationId × Hold)}
    (pending : Pending run s members) (same : s'.holds = s.holds) : Pending run s' members :=
  ⟨fun other inside => by rw [same]; exact pending.stored other inside, pending.distinct⟩

theorem pending_runMembers (amb : Ambient) (run : RunId) (s : State) :
    Pending run s (runMembers amb run s) := by
  refine ⟨fun member inside => ?_, ?_⟩
  · obtain ⟨row, tagged⟩ := List.mem_filter.mp inside
    exact ⟨Table.mem_rows_iff.mp ((amb.iterate_perm _).mem_iff.mp row), by simpa using tagged⟩
  · refine List.Sublist.nodup (List.Sublist.map Prod.fst List.filter_sublist) ?_
    exact ((amb.iterate_perm s.holds.rows).map Prod.fst).nodup_iff.mpr s.holds.nodup

/-- One hold of the run. -/
theorem voidMember_path {start : State} (fresh : amb.Fresh start) (loop : VoidLoop amb start s)
    {run : RunId} {member : ReservationId × Hold} {members : List (ReservationId × Hold)}
    (known : ∀ id, member.2.settleEntry = some id → id ∈ start.entryIds)
    (pending : Pending run s (member :: members)) (summary : RunVoidSummary) :
    ∃ s' summary' actions, voidMember amb run (s, summary) member = some (s', summary') ∧
      VoidLoop amb start s' ∧ Pending run s' members ∧ Path s actions s' ∧
      ∀ action ∈ actions, (Call.voidRun run).Permits action := by
  obtain ⟨reservation, hold⟩ := member
  obtain ⟨found, tagged⟩ := pending.stored _ List.mem_cons_self
  simp only at found tagged
  unfold voidMember
  dsimp only
  split
  · exact ⟨s, summary, [], rfl, loop, pending.tail, .nil s,
      fun _ inside => absurd inside List.not_mem_nil⟩
  · rename_i status
    have enabled : (Action.release [reservation]).Enabled s := by
      intro other inside
      rw [List.mem_singleton.mp inside]
      exact ⟨hold, found, status⟩
    rw [modify_voided_eq]
    refine ⟨_, _, [.release [reservation]], rfl,
      ⟨loop.wf.apply enabled, loop.kept, loop.refunds, loop.minted⟩, ?_, .single enabled, ?_⟩
    · refine ⟨fun other inside => ?_, (List.nodup_cons.mp pending.distinct).2⟩
      obtain ⟨stored, otherTagged⟩ := pending.stored other (List.mem_cons_of_mem _ inside)
      have different : other.1 ∉ [reservation] := by
        rw [List.mem_singleton]
        intro same
        exact (List.nodup_cons.mp pending.distinct).1
          (List.mem_map.mpr ⟨other, inside, same⟩)
      exact ⟨by simp only [Table.get?_mapValues, stored, Option.map_some,
        if_neg different], otherTagged⟩
    · intro action inside
      rw [List.mem_singleton.mp inside]
      trivial
  · rename_i status
    obtain ⟨id, link⟩ := (loop.wf.settledIff found).mp status
    obtain ⟨entry, _, rfl, kind, own, account⟩ := loop.wf.settleLink found link
    obtain ⟨target, member, same⟩ := List.mem_map.mp (known entry.id link)
    have equal : target = entry := by
      refine List.inj_on_of_nodup_map loop.wf.entryIds (loop.kept target member) ?_ same
      assumption
    subst equal
    rw [link, Option.bind_eq_bind, Option.bind_some]
    obtain ⟨s', summary', actions, result, loop', holds, path, permitted⟩ :=
      loop.refund fresh run (settleRefund run reservation hold.account target.id) member
        rfl account.symm rfl rfl
        (fun _ _ => Or.inr ⟨kind, reservation, hold, own, found, tagged, rfl⟩) summary
    exact ⟨s', summary', actions, result, loop', pending.tail.congr holds, path, permitted⟩

/-- The first loop of a run void. -/
theorem voidMembers_path {start : State} (fresh : amb.Fresh start) {run : RunId}
    (members : List (ReservationId × Hold))
    (known : ∀ member ∈ members, ∀ id, member.2.settleEntry = some id → id ∈ start.entryIds) :
    ∀ {s : State} (summary : RunVoidSummary), VoidLoop amb start s → Pending run s members →
      ∃ s' summary' actions, members.foldlM (voidMember amb run) (s, summary) =
          some (s', summary') ∧ VoidLoop amb start s' ∧ Path s actions s' ∧
        ∀ action ∈ actions, (Call.voidRun run).Permits action := by
  induction members with
  | nil =>
    intro s summary loop _
    exact ⟨s, summary, [], rfl, loop, .nil s, fun _ inside => absurd inside List.not_mem_nil⟩
  | cons member members ih =>
    intro s summary loop pending
    obtain ⟨s₁, summary₁, first, result₁, loop₁, pending₁, path₁, permitted₁⟩ :=
      voidMember_path fresh loop (known member List.mem_cons_self) pending summary
    obtain ⟨s₂, summary₂, second, result₂, loop₂, path₂, permitted₂⟩ :=
      ih (fun other inside => known other (List.mem_cons_of_mem _ inside)) summary₁ loop₁ pending₁
    refine ⟨s₂, summary₂, first ++ second, ?_, loop₂, path₁.append path₂, fun action inside => ?_⟩
    · rw [List.foldlM_cons, result₁]
      exact result₂
    · rcases List.mem_append.mp inside with inside | inside
      · exact permitted₁ action inside
      · exact permitted₂ action inside

/-- The second loop of a run void. -/
theorem voidCharges_path {start : State} (fresh : amb.Fresh start) {run : RunId}
    (charges : List LedgerEntry)
    (known : ∀ entry ∈ charges, entry ∈ start.entries ∧ entry.runId = some run ∧
      entry.entryType = .usage) :
    ∀ {s : State} (summary : RunVoidSummary), VoidLoop amb start s →
      ∃ s' summary' actions, charges.foldlM (voidCharge amb run) (s, summary) =
          some (s', summary') ∧ VoidLoop amb start s' ∧ Path s actions s' ∧
        ∀ action ∈ actions, (Call.voidRun run).Permits action := by
  induction charges with
  | nil =>
    intro s summary loop
    exact ⟨s, summary, [], rfl, loop, .nil s, fun _ inside => absurd inside List.not_mem_nil⟩
  | cons entry charges ih =>
    intro s summary loop
    obtain ⟨member, tagged, kind⟩ := known entry List.mem_cons_self
    obtain ⟨s₁, summary₁, first, result₁, loop₁, _, path₁, permitted₁⟩ :=
      loop.refund fresh run (chargeRefund run entry.accountId entry.id) member
        rfl rfl rfl rfl (fun _ _ => Or.inl ⟨kind, tagged, rfl⟩) summary
    obtain ⟨s₂, summary₂, second, result₂, loop₂, path₂, permitted₂⟩ :=
      ih (fun other inside => known other (List.mem_cons_of_mem _ inside)) summary₁ loop₁
    refine ⟨s₂, summary₂, first ++ second, ?_, loop₂, path₁.append path₂, fun action inside => ?_⟩
    · rw [List.foldlM_cons, voidCharge, result₁]
      exact result₂
    · rcases List.mem_append.mp inside with inside | inside
      · exact permitted₁ action inside
      · exact permitted₂ action inside

/-- **A run void is a path of releases and reversals.** -/
theorem voidRun_refines (wf : s.WellFormed) (fresh : amb.Fresh s) (run : RunId) :
    Refines s (Call.voidRun run).Permits (voidRun amb run s) := by
  have pending := pending_runMembers amb run s
  obtain ⟨s₁, summary₁, first, result₁, loop₁, path₁, permitted₁⟩ :=
    voidMembers_path fresh (runMembers amb run s) (fun member inside id link => by
      obtain ⟨entry, stored, rfl, _⟩ := wf.settleLink (pending.stored member inside).1 link
      exact List.mem_map_of_mem stored) {} (.start wf) pending
  obtain ⟨s₂, summary₂, second, result₂, _, path₂, permitted₂⟩ :=
    voidCharges_path fresh (runCharges run s₁) (fun entry inside => by
      obtain ⟨stored, tagged⟩ := List.mem_filter.mp inside
      simp only [decide_eq_true_eq] at tagged
      refine ⟨(loop₁.refunds entry stored).resolve_right fun refund => ?_, tagged⟩
      rw [tagged.2] at refund
      cases refund) summary₁ loop₁
  refine ⟨.ok summary₂, s₂, first ++ second, ?_, path₁.append path₂, fun action inside => ?_⟩
  · rw [voidRun, result₁, Option.bind_some, result₂]
    rfl
  · rcases List.mem_append.mp inside with inside | inside
    · exact permitted₁ action inside
    · exact permitted₂ action inside

/-! ### Leases -/

/-- **A transfer between two accounts is a payment with two entries.** -/
theorem postTransfer_eq {payer payee : AccountId} (different : payee ≠ payer)
    (payerPresent : s.accounts.contains payer = true)
    (payeePresent : s.accounts.contains payee = true) (amb : Ambient) (amount : Credit) :
    postTransfer amb payer payee amount s = some
      (((s.pay payer payee amount).record
        (transferEntry amb .transferOut payer payee (-amount) (s.settled payer + -amount))).record
        (transferEntry amb .transferIn payee payer amount (s.settled payee + amount))) := by
  obtain ⟨payerRow, payerFound⟩ := Table.contains_iff.mp payerPresent
  obtain ⟨payeeRow, payeeFound⟩ := Table.contains_iff.mp payeePresent
  have payerAfter : (s.accounts.modify payer fun row => row.add (-amount)).get? payer =
      some (payerRow.add (-amount)) := by
    rw [Table.get?_modify, if_pos rfl, payerFound, Option.map_some]
  rw [postTransfer, payerAfter, modify_modify_eq_pay, State.settled_of_get payerFound,
    State.settled_of_get payeeFound]
  simp only [Option.bind_eq_bind, Option.bind_some, State.get?_pay, payeeFound, Option.map_some,
    flow_payee different, State.record, State.pay_entries, List.append_assoc]
  rfl

/-- The two entries of a transfer are ones the state admits. -/
theorem transfers_entries {payer payee : AccountId} (different : payee ≠ payer)
    (payerPresent : s.accounts.contains payer = true)
    (payeePresent : s.accounts.contains payee = true) {amount : Credit} (positive : 0 < amount)
    (fresh : amb.entryId .transferOut ∉ s.entryIds ∧ amb.entryId .transferIn ∉ s.entryIds ∧
      amb.entryId .transferOut ≠ amb.entryId .transferIn)
    (covered : ∀ row, s.accounts.get? payer = some row → row.account.noOverdraft = true →
      amount ≤ s.available payer) :
    Transfers s (transferEntry amb .transferOut payer payee (-amount) (s.settled payer + -amount))
      (transferEntry amb .transferIn payee payer amount (s.settled payee + amount)) where
  different := different
  payer := payerPresent
  payee := payeePresent
  paired := ⟨rfl, rfl⟩
  kinds := ⟨rfl, rfl⟩
  positive := positive
  opposite := rfl
  fresh := fresh
  balances := ⟨fun _ => rfl, fun _ => rfl⟩
  covered := covered
  plain := ⟨rfl, rfl, rfl, rfl⟩

/-- The transfer that moves an amount between two accounts. -/
def moveAction (amb : Ambient) (payer payee : AccountId) (amount : Credit) (s : State) : Action :=
  .transfer (transferEntry amb .transferOut payer payee (-amount) (s.settled payer + -amount))
    (transferEntry amb .transferIn payee payer amount (s.settled payee + amount))

/-- **What opening a lease does**: nothing, or a new account below the parent and a transfer to
it. -/
theorem openLease_cases (fresh : amb.Fresh s) (req : LeaseRequest) :
    (∃ error, openLease amb req s = some (.error error, s)) ∨
    ∃ child : LedgerAccount, child.id = amb.accountId ∧ child.parentId = some req.parent ∧
      s.accounts.contains req.parent = true ∧ (Action.openAccount child).Enabled s ∧
      (moveAction amb req.parent child.id req.amount
        ((Action.openAccount child).apply s)).Enabled ((Action.openAccount child).apply s) ∧
      openLease amb req s = some (.ok child,
        (moveAction amb req.parent child.id req.amount ((Action.openAccount child).apply s)).apply
          ((Action.openAccount child).apply s)) := by
  unfold openLease
  split
  · exact Or.inl ⟨_, rfl⟩
  rename_i positive
  split
  · exact Or.inl ⟨_, rfl⟩
  rename_i row found
  dsimp only
  split
  · exact Or.inl ⟨_, rfl⟩
  rename_i allowed
  let child : LedgerAccount := {
    id := amb.accountId
    orgId := row.account.orgId
    scope := .session
    noOverdraft := true
    parentId := some req.parent }
  have parentPresent : s.accounts.contains req.parent = true := Table.contains_iff.mpr ⟨row, found⟩
  have opens : (Action.openAccount child).Enabled s := by
    refine ⟨fresh.account, parent_ne_self fresh.account ?_⟩
    rintro parent ⟨⟩
    exact parentPresent
  have different : amb.accountId ≠ req.parent := by
    intro same
    have absent := fresh.account
    rw [same, found] at absent
    cases absent
  let opened := (Action.openAccount child).apply s
  have sameRow : opened.accounts.get? req.parent = some row := by
    simp only [opened, Action.apply, Table.get?_set, child, if_neg different.symm, found]
  have payer : opened.accounts.contains req.parent = true :=
    Action.contains_apply parentPresent _
  have payee : opened.accounts.contains amb.accountId = true :=
    Table.contains_iff.mpr ⟨AccountRow.new child, by simp [opened, Action.apply, child]⟩
  have transfers := @transfers_entries amb opened _ _ different payer payee
    _ (not_not.mp positive) fresh.transfers (fun row' found' noOverdraft => by
      rw [sameRow, Option.some.injEq] at found'
      subst found'
      by_contra short
      refine allowed ⟨noOverdraft, ?_⟩
      rw [State.available, State.settled_of_get sameRow] at short
      exact not_le.mp short)
  refine Or.inr ⟨child, rfl, rfl, parentPresent, opens, transfers, ?_⟩
  show (postTransfer amb req.parent amb.accountId req.amount opened).map _ = _
  rw [postTransfer_eq different payer payee]
  rfl

theorem openLease_refines (fresh : amb.Fresh s) (req : LeaseRequest) :
    Refines s (Call.openLease req).Permits (openLease amb req s) := by
  rcases openLease_cases fresh req with ⟨error, result⟩ | ⟨child, _, below, _, opens, moves, result⟩
  · rw [result]
    exact .still _
  · refine ⟨.ok child, _, [.openAccount child, moveAction amb req.parent child.id req.amount _],
      result, .cons _ opens (.single moves), fun action inside => ?_⟩
    rcases List.mem_pair.mp inside with rfl | rfl
    · exact below
    · exact ⟨rfl, rfl⟩

/-- A transfer that returns has both its accounts. -/
theorem postTransfer_present {payer payee : AccountId} {amount : Credit} {s' : State}
    (result : postTransfer amb payer payee amount s = some s') :
    s.accounts.contains payee = true := by
  obtain ⟨payerRow, _, rest⟩ := Option.bind_eq_some_iff.mp result
  obtain ⟨payeeRow, found, _⟩ := Option.bind_eq_some_iff.mp rest
  rw [Table.get?_modify, if_pos rfl, Table.get?_modify] at found
  obtain ⟨row, found, _⟩ := Option.map_eq_some_iff.mp found
  split at found
  · rename_i same
    obtain ⟨old, found, _⟩ := Option.map_eq_some_iff.mp found
    exact Table.contains_iff.mpr ⟨old, same ▸ found⟩
  · exact Table.contains_iff.mpr ⟨row, found⟩

/-- **What closing a lease does** when its parent exists: nothing, or a transfer of all that is
available to the parent. -/
theorem closeLease_cases (wf : s.WellFormed) (fresh : amb.Fresh s) {lease : AccountId}
    (parents : ∀ row parent, s.accounts.get? lease = some row →
      row.account.parentId = some parent → s.accounts.contains parent = true) :
    (∃ error, closeLease amb lease s = some (.error error, s) ∧
      ∀ row, s.accounts.get? lease = some row → row.account.parentId = none) ∨
    ∃ row parent, s.accounts.get? lease = some row ∧ row.account.parentId = some parent ∧
      (s.available lease ≤ 0 ∧ closeLease amb lease s = some (.ok 0, s) ∨
        0 < s.available lease ∧ (moveAction amb lease parent (s.available lease) s).Enabled s ∧
        closeLease amb lease s = some (.ok (s.available lease),
          (moveAction amb lease parent (s.available lease) s).apply s)) := by
  unfold closeLease
  split
  · rename_i absent
    exact Or.inl ⟨_, rfl, fun row found => by cases absent.symm.trans found⟩
  rename_i row found
  split
  · rename_i rootless
    exact Or.inl ⟨_, rfl, fun row' found' => by rwa [← Option.some.inj (found.symm.trans found')]⟩
  rename_i parent isParent
  have available : row.settled - s.held lease = s.available lease := by
    rw [State.available, State.settled_of_get found]
  refine Or.inr ⟨row, parent, found, isParent, ?_⟩
  simp only [available]
  split
  · rename_i spent
    exact Or.inl ⟨not_lt.mp spent, rfl⟩
  rename_i positive
  have different : parent ≠ lease := by
    rintro rfl
    exact wf.parents found isParent
  have present : s.accounts.contains lease = true := Table.contains_iff.mpr ⟨row, found⟩
  have parentPresent := parents row parent found isParent
  have transfers := @transfers_entries amb s _ _ different present parentPresent _
    (not_not.mp positive) fresh.transfers (fun _ _ _ => le_refl _)
  refine Or.inr ⟨not_not.mp positive, transfers, ?_⟩
  rw [postTransfer_eq different present parentPresent]
  rfl

/-- Closing a lease whose parent exists. -/
theorem closeLease_refines (wf : s.WellFormed) (fresh : amb.Fresh s) {lease : AccountId}
    (parents : ∀ row parent, s.accounts.get? lease = some row →
      row.account.parentId = some parent → s.accounts.contains parent = true) :
    Refines s (Call.closeLease lease).Permits (closeLease amb lease s) := by
  rcases closeLease_cases wf fresh parents with ⟨error, result, _⟩ |
    ⟨row, parent, _, _, ⟨_, result⟩ | ⟨_, moves, result⟩⟩
  · rw [result]
    exact .still _
  · rw [result]
    exact .still _
  · exact .act _ result moves rfl

/-- Closing a lease without its parent changes nothing, if it returns at all. -/
theorem closeLease_orphan {lease parent : AccountId} {row : AccountRow} {s' : State}
    {reply : Except LedgerError Credit} (found : s.accounts.get? lease = some row)
    (isParent : row.account.parentId = some parent)
    (absent : ¬ s.accounts.contains parent = true)
    (result : closeLease amb lease s = some (reply, s')) : s' = s := by
  rw [closeLease, found] at result
  dsimp only at result
  rw [isParent] at result
  dsimp only at result
  split at result
  · cases result
    rfl
  · obtain ⟨after, moved, _⟩ := Option.map_eq_some_iff.mp result
    exact absurd (postTransfer_present moved) absent

/-! ### Every call -/

/-- Every parent that an account names exists. -/
def State.Rooted (s : State) : Prop :=
  ∀ account row parent, s.accounts.get? account = some row → row.account.parentId = some parent →
    s.accounts.contains parent = true

/-- A call returns, by a path of actions that it is permitted to perform, unless it closes a lease
whose parent does not exist. -/
theorem step_refines_of (wf : s.WellFormed) {call : Call} (callable : Callable amb call s)
    (parents : ∀ lease, call = .closeLease lease → ∀ row parent,
      s.accounts.get? lease = some row → row.account.parentId = some parent →
      s.accounts.contains parent = true) : Refines s call.Permits (step amb call s) := by
  obtain ⟨fresh, unnamed⟩ := callable
  cases call with
  | openAccount req => exact (openAccount_refines fresh unnamed).reply _
  | balance account =>
    refine Refines.reply ?_ _
    unfold balance
    split
    · exact .still _
    · exact .still _
  | grant req => exact (grant_refines fresh req).reply _
  | refund req => exact (refund_refines fresh req).reply _
  | reserve req => exact (reserve_refines req).reply _
  | settle req => exact (settle_refines wf fresh req).reply _
  | charge req => exact (charge_refines fresh req).reply _
  | reverseCharge req => exact (reverseCharge_refines fresh req).reply _
  | void reservation => exact (void_refines reservation).reply _
  | voidExpiredHolds now => exact (voidExpiredHolds_refines now).reply _
  | extendHold reservation expiresAt => exact (extendHold_refines reservation expiresAt).reply _
  | voidRun run => exact (voidRun_refines wf fresh run).reply _
  | openLease req => exact (openLease_refines fresh req).reply _
  | closeLease lease => exact (closeLease_refines wf fresh (parents lease rfl)).reply _
  | entries account =>
    refine Refines.reply ?_ _
    unfold entries
    split
    · exact .still _
    · exact .still _

/-- **Every call that returns is a path of actions that it is permitted to perform.** -/
theorem step_follows (wf : s.WellFormed) {call : Call} (callable : Callable amb call s) :
    Follows s call.Permits (step amb call s) := by
  by_cases parents : ∀ lease, call = .closeLease lease → ∀ row parent,
      s.accounts.get? lease = some row → row.account.parentId = some parent →
      s.accounts.contains parent = true
  · exact (step_refines_of wf callable parents).follows
  · push Not at parents
    obtain ⟨lease, rfl, row, parent, found, isParent, absent⟩ := parents
    refine Follows.reply (fun reply s' result => ?_) _
    rw [closeLease_orphan found isParent absent result]
    exact ⟨[], .nil s, fun _ member => absurd member List.not_mem_nil⟩

/-- **The in-memory ledger refines the abstract one**: from a well-formed state in which parents
exist, an admissible call returns, by a path of actions that it is permitted to perform. -/
theorem step_refines (wf : s.WellFormed) (rooted : s.Rooted) {call : Call}
    (admissible : Admissible amb call s) : Refines s call.Permits (step amb call s) :=
  step_refines_of wf admissible.callable fun lease _ => rooted lease

/-- A lease is only opened on an existing account. -/
theorem openLease_parent {req : LeaseRequest} {s' : State} {reply : Except LedgerError LedgerAccount}
    (result : openLease amb req s = some (reply, s')) :
    s' = s ∨ s.accounts.contains req.parent = true := by
  unfold openLease at result
  split at result
  · cases result
    exact Or.inl rfl
  · cases found : s.accounts.get? req.parent with
    | none =>
      rw [found] at result
      cases result
      exact Or.inl rfl
    | some row => exact Or.inr (Table.contains_iff.mpr ⟨row, found⟩)

/-- The accounts at the end of a path: an old one with the same terms, or one it opened. -/
theorem Path.account_new {s s' : State} {actions : List Action} (path : Path s actions s')
    {account : AccountId} {row : AccountRow} (found : s'.accounts.get? account = some row) :
    (∃ old, s.accounts.get? account = some old ∧ row.account = old.account) ∨
      .openAccount row.account ∈ actions := by
  induction path with
  | nil s => exact Or.inl ⟨row, found, rfl⟩
  | cons action enabled rest ih =>
    rcases ih found with ⟨next, foundNext, same⟩ | later
    · rcases account_apply foundNext with ⟨old, foundOld, same'⟩ | ⟨rfl, _⟩
      · exact Or.inl ⟨old, foundOld, same.trans same'⟩
      · rw [same]
        exact Or.inr List.mem_cons_self
    · exact Or.inr (List.mem_cons_of_mem _ later)

/-- **Admissible calls keep every parent in place.** -/
theorem State.Rooted.step (wf : s.WellFormed) (rooted : s.Rooted) {call : Call}
    (admissible : Admissible amb call s) {reply : Except LedgerError Reply} {s' : State}
    (result : Ledger.step amb call s = some (reply, s')) : s'.Rooted := by
  obtain ⟨actions, path, permitted⟩ := step_follows wf admissible.callable reply s' result
  have kept : ∀ {account}, s.accounts.contains account = true →
      s'.accounts.contains account = true := by
    intro account present
    obtain ⟨row, found⟩ := Table.contains_iff.mp present
    obtain ⟨row', found', _⟩ := path.account found
    exact Table.contains_iff.mpr ⟨row', found'⟩
  intro account row parent found isParent
  rcases path.account_new found with ⟨old, foundOld, same⟩ | opened
  · exact kept (rooted account old parent foundOld (same ▸ isParent))
  · have permits := permitted _ opened
    cases call with
    | openAccount req =>
      exact kept (admissible.parent parent ((show row.account.parentId = req.parentId from
        permits).symm.trans isParent))
    | openLease req =>
      obtain ⟨⟨answer, after⟩, returned, ended⟩ := Option.map_eq_some_iff.mp result
      have own : req.parent = parent := Option.some.inj
        ((show row.account.parentId = some req.parent from permits).symm.trans isParent)
      rcases openLease_parent returned with same | present
      · -- nothing changed, so the row was there before
        have unchanged : s' = s := (congrArg Prod.snd ended).symm.trans same
        rw [unchanged] at found ⊢
        exact rooted account row parent found isParent
      · exact kept (own ▸ present)
    | _ => exact permits.elim

end Calls

/-! ### Histories -/

/-- One call of a run, with the states around it. -/
structure Event where
  before : State
  call : Call
  reply : Except LedgerError Reply
  after : State

/-- A call with any arguments, and what it returns. -/
structure Event.Occurs (event : Event) (amb : Ambient) : Prop where
  callable : Callable amb event.call event.before
  result : step amb event.call event.before = some (event.reply, event.after)

/-- A finite sequence of calls with any arguments. A call that panics poisons the mutex, so nothing
comes after it. -/
inductive History : State → List Event → State → Prop
  | nil (s : State) : History s [] s
  | cons (amb : Ambient) (event : Event) {events : List Event} {s' : State} :
      event.Occurs amb → History event.after events s' →
      History event.before (event :: events) s'

/-- A call is a path of actions it permits. -/
theorem Event.Occurs.path {event : Event} {amb : Ambient} (wf : event.before.WellFormed)
    (occurs : event.Occurs amb) : ∃ actions, Path event.before actions event.after ∧
      ∀ action ∈ actions, event.call.Permits action :=
  step_follows wf occurs.callable _ _ occurs.result

namespace History

variable {s middle s' : State} {events later : List Event}

/-- **A history is a path of actions, call by call.** -/
theorem path (history : History s events s') (wf : s.WellFormed) :
    ∃ steps, Path s steps.flatten s' ∧ List.Forall₂ (fun event actions =>
      event.before.WellFormed ∧ Path event.before actions event.after ∧
        ∀ action ∈ actions, event.call.Permits action) events steps := by
  induction history with
  | nil s => exact ⟨[], .nil s, .nil⟩
  | cons amb event occurs _ ih =>
    obtain ⟨actions, path, permitted⟩ := occurs.path wf
    obtain ⟨steps, rest, each⟩ := ih (wf.path path)
    exact ⟨actions :: steps, path.append rest, .cons ⟨wf, path, permitted⟩ each⟩

/-- Every action of the path belongs to a call. -/
theorem event_of_action {steps : List (List Action)}
    (each : List.Forall₂ (fun event actions => event.before.WellFormed ∧
      Path event.before actions event.after ∧ ∀ action ∈ actions, event.call.Permits action)
      events steps) {action : Action} (member : action ∈ steps.flatten) :
    ∃ event ∈ events, ∃ actions, action ∈ actions ∧ Path event.before actions event.after ∧
      event.call.Permits action := by
  induction each with
  | nil => exact absurd member List.not_mem_nil
  | @cons event actions _ _ head _ ih =>
    rw [List.flatten_cons, List.mem_append] at member
    rcases member with here | later
    · exact ⟨event, List.mem_cons_self, actions, here, head.2.1, head.2.2 action here⟩
    · obtain ⟨other, inside, rest⟩ := ih later
      exact ⟨other, List.mem_cons_of_mem _ inside, rest⟩

theorem wellFormed (history : History s events s') (wf : s.WellFormed) : s'.WellFormed := by
  obtain ⟨steps, path, _⟩ := history.path wf
  exact wf.path path

/-- **An invariant of every enabled action on well-formed states holds after every history.** -/
theorem invariant {P : State → Prop} (start : P State.new)
    (kept : ∀ s action, s.WellFormed → P s → Action.Enabled s action → P (action.apply s))
    (history : History State.new events s) : P s := by
  obtain ⟨steps, path, _⟩ := history.path .new
  exact (path.invariant (P := fun s => s.WellFormed ∧ P s)
    (fun s action both enabled => ⟨both.1.apply enabled, kept s action both.1 both.2 enabled⟩)
    ⟨.new, start⟩).2

/-- **Every call of a history has a history before it and one after it.** -/
theorem split (history : History s events s') {event : Event} (member : event ∈ events) :
    ∃ before after amb, History s before event.before ∧ event.Occurs amb ∧
      History event.after after s' ∧ events = before ++ event :: after := by
  induction history with
  | nil s => exact absurd member List.not_mem_nil
  | @cons amb first events s' occurs rest ih =>
    rcases List.mem_cons.mp member with rfl | later
    · exact ⟨[], events, amb, .nil _, occurs, rest, rfl⟩
    · obtain ⟨before, after, amb', earlier, occurs', rest', rfl⟩ := ih later
      exact ⟨first :: before, after, amb', .cons amb first occurs earlier, occurs', rest', rfl⟩

end History

/-! ### Runs -/

/-- An admissible call and what it returns. -/
structure Event.Happens (event : Event) (amb : Ambient) : Prop where
  admissible : Admissible amb event.call event.before
  result : step amb event.call event.before = some (event.reply, event.after)

theorem Event.Happens.occurs {event : Event} {amb : Ambient} (happens : event.Happens amb) :
    event.Occurs amb := ⟨happens.admissible.callable, happens.result⟩

/-- A finite sequence of admissible calls. -/
inductive Run : State → List Event → State → Prop
  | nil (s : State) : Run s [] s
  | cons (amb : Ambient) (event : Event) {events : List Event} {s' : State} :
      event.Happens amb → Run event.after events s' → Run event.before (event :: events) s'

/-- A state that some run of a fresh ledger ends in. -/
def Reachable (s : State) : Prop := ∃ events, Run State.new events s

/-- A call is a path of actions it permits. -/
theorem Event.Happens.path {event : Event} {amb : Ambient} (wf : event.before.WellFormed)
    (happens : event.Happens amb) : ∃ actions, Path event.before actions event.after ∧
      ∀ action ∈ actions, event.call.Permits action := happens.occurs.path wf

theorem Run.history {s s' : State} {events : List Event} (run : Run s events s') :
    History s events s' := by
  induction run with
  | nil s => exact .nil s
  | cons amb event happens _ ih => exact .cons amb event happens.occurs ih

theorem Run.append {s middle s' : State} {events later : List Event} (run : Run s events middle)
    (rest : Run middle later s') : Run s (events ++ later) s' := by
  induction run with
  | nil s => exact rest
  | cons amb event happens _ ih => exact .cons amb event happens (ih rest)

/-- **A run is a path of actions, call by call.** -/
theorem Run.path {s s' : State} {events : List Event} (run : Run s events s') (wf : s.WellFormed) :
    ∃ steps, Path s steps.flatten s' ∧ List.Forall₂ (fun event actions =>
      event.before.WellFormed ∧ Path event.before actions event.after ∧
        ∀ action ∈ actions, event.call.Permits action) events steps := run.history.path wf

/-- **Every reachable state is well formed.** -/
theorem Reachable.wellFormed {s : State} (reachable : Reachable s) : s.WellFormed := by
  obtain ⟨events, run⟩ := reachable
  exact run.history.wellFormed .new

theorem State.Rooted.new : State.new.Rooted := by
  intro account row parent found isParent
  simp only [State.new, Table.get?_set, Table.get?_empty] at found
  split at found
  · cases found
    cases isParent
  · cases found

/-- A run keeps every parent in place. -/
theorem Run.rooted {s s' : State} {events : List Event} (run : Run s events s')
    (wf : s.WellFormed) (rooted : s.Rooted) : s'.Rooted := by
  induction run with
  | nil s => exact rooted
  | cons amb event happens _ ih =>
    obtain ⟨actions, path, _⟩ := happens.path wf
    exact ih (wf.path path) (rooted.step wf happens.admissible happens.result)

/-- **In every reachable state every parent exists.** -/
theorem Reachable.rooted {s : State} (reachable : Reachable s) : s.Rooted := by
  obtain ⟨events, run⟩ := reachable
  exact run.rooted .new .new

/-- **An invariant of every enabled action on well-formed states holds of every reachable state.** -/
theorem Reachable.invariant {P : State → Prop} (start : P State.new)
    (kept : ∀ s action, s.WellFormed → P s → Action.Enabled s action → P (action.apply s))
    {s : State} (reachable : Reachable s) : P s := by
  obtain ⟨events, run⟩ := reachable
  exact run.history.invariant start kept

/-! ### Replaying a script -/

instance (amb : Ambient) (s : State) : Decidable (amb.Fresh s) :=
  decidable_of_iff (s.accounts.get? amb.accountId = none ∧ (s.entryIds ++ amb.minted s).Nodup)
    ⟨fun both => ⟨both.1, both.2⟩, fun fresh => ⟨fresh.account, fresh.entries⟩⟩

instance (s : State) (call : Call) : Decidable (call.ParentExists s) :=
  match call with
  | .openAccount req => decidable_of_iff (∀ parent ∈ req.parentId, s.accounts.contains parent)
      Iff.rfl
  | .balance _ | .grant _ | .refund _ | .reserve _ | .settle _ | .charge _ | .reverseCharge _
  | .void _ | .voidExpiredHolds _ | .extendHold _ _ | .voidRun _ | .openLease _ | .closeLease _
  | .entries _ => isTrue trivial

instance (amb : Ambient) (call : Call) (s : State) : Decidable (Admissible amb call s) :=
  decidable_of_iff (amb.Fresh s ∧ call.ParentExists s)
    ⟨fun both => ⟨both.1, both.2⟩, fun admissible => ⟨admissible.fresh, admissible.parent⟩⟩

/-- Make admissible calls one after another. -/
def replay : State → List (Ambient × Call) → Option (List Event × State)
  | s, [] => some ([], s)
  | s, (amb, call) :: rest =>
    if Admissible amb call s then
      (step amb call s).bind fun result => (replay result.2 rest).map fun tail =>
        (⟨s, call, result.1, result.2⟩ :: tail.1, tail.2)
    else none

/-- **A replay is a run.** -/
theorem run_of_replay {calls : List (Ambient × Call)} :
    ∀ {s s' : State} {events : List Event}, replay s calls = some (events, s') →
      Run s events s' := by
  induction calls with
  | nil =>
    rintro s s' events ⟨⟩
    exact .nil s
  | cons first rest ih =>
    intro s s' events result
    obtain ⟨amb, call⟩ := first
    rw [replay] at result
    split at result
    · rename_i admissible
      obtain ⟨⟨reply, after⟩, stepped, result⟩ := Option.bind_eq_some_iff.mp result
      obtain ⟨⟨tail, last⟩, rest, same⟩ := Option.map_eq_some_iff.mp result
      cases same
      exact .cons amb ⟨s, call, reply, after⟩ ⟨admissible, stepped⟩ (ih rest)
    · cases result

/-- The calls of a replay are those of its script. -/
theorem calls_of_replay {calls : List (Ambient × Call)} :
    ∀ {s s' : State} {events : List Event}, replay s calls = some (events, s') →
      events.map Event.call = calls.map Prod.snd := by
  induction calls with
  | nil =>
    rintro s s' events ⟨⟩
    rfl
  | cons first rest ih =>
    intro s s' events result
    rw [replay] at result
    split at result
    · obtain ⟨⟨reply, after⟩, _, result⟩ := Option.bind_eq_some_iff.mp result
      obtain ⟨⟨tail, last⟩, later, same⟩ := Option.map_eq_some_iff.mp result
      cases same
      rw [List.map_cons, List.map_cons, ih later]
    · cases result

/-- Numbered ids, and the holds in row order. -/
def numbered (n : Nat) : Ambient where
  accountId := OfNat.ofNat (n + 1)
  entryId
    | .posting => OfNat.ofNat (1000 + 3 * n)
    | .transferOut => OfNat.ofNat (1001 + 3 * n)
    | .transferIn => OfNat.ofNat (1002 + 3 * n)
    | .reversal id => OfNat.ofNat (id.value.bits.toNat * 2000 + n)
  now _ := n
  iterate := id
  iterate_perm := List.Perm.refl

/-- A script on one no-overdraft account: a grant, a hold settled above its amount, a charge partly
refunded by hand, and an open hold, all of run 7. -/
def sampleCalls : List (Ambient × Call) :=
  [.openAccount ⟨1, .user, true, none⟩, .grant ⟨1, 100, .paid, none⟩,
    .reserve ⟨1, 11, 30, .hard, none, some 7⟩, .settle ⟨11, 40⟩,
    .charge ⟨1, 5, some 7, none⟩, .refund ⟨1, 2, some 1012, none⟩,
    .reserve ⟨1, 12, 10, .hard, some 50, some 7⟩].zipIdx.map fun call =>
      (numbered call.2, call.1)

/-- The state that the script ends in. -/
def sample : State := (replay State.new sampleCalls).elim State.new Prod.snd

theorem reachable_sample : Reachable sample := by
  have result : (replay State.new sampleCalls).isSome := by decide +kernel
  obtain ⟨⟨events, last⟩, found⟩ := Option.isSome_iff_exists.mp result
  refine ⟨events, ?_⟩
  rw [sample, found]
  exact run_of_replay found

theorem history_sample : ∃ events, History State.new events sample := by
  obtain ⟨events, run⟩ := reachable_sample
  exact ⟨events, run.history⟩

end Meter.Ledger
