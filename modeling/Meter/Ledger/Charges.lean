/-
**Direct charges and their reversals.**

The part of the ledger that usage metering drives: keyed charges, keyed reversals, run voids and
grants, without holds and without manual refunds.

* `State.Metered` — on such a ledger every charge is refunded **as a whole or not at all**, so its
  remainder is its magnitude or zero. Every path of metering actions keeps it (`Metered.path`).
* `charge_cases`, `reverseCharge_cases` and `voidRun_charges` — what the three calls do, in terms of
  the entries they append and the remainders they move.
-/

import Meter.Ledger.VoidRun

namespace Meter.Ledger

open Meter.Lib

/-! ### Lookups -/

section Lookup

variable {s : State} {account : AccountId} {key : String} {entry : LedgerEntry}

theorem findKeyed_eq_some (found : s.findKeyed account key = some entry) :
    entry ∈ s.entries ∧ entry.accountId = account ∧ entry.idempotencyKey = some key := by
  have holds := List.find?_some found
  simp only [decide_eq_true_eq] at holds
  exact ⟨List.mem_of_find?_eq_some found, holds⟩

theorem findKeyed_eq_none : s.findKeyed account key = none ↔
    ∀ entry ∈ s.entries, entry.accountId = account → entry.idempotencyKey ≠ some key := by
  simp [State.findKeyed, List.find?_eq_none]

/-- The entries that reverse an entry, after some more postings. -/
theorem linked_append {s' : State} {posted : List LedgerEntry}
    (same : s'.entries = s.entries ++ posted) (id : EntryId) : s'.linked id =
      s.linked id ++ posted.filter fun entry => entry.reversesEntryId = some id := by
  rw [State.linked, State.linked, same, List.filter_append]

end Lookup

/-! ### Metered ledgers -/

/-- What usage metering does to the ledger. -/
def Action.Meters : Action → Prop
  | .openAccount _ | .charge _ | .reverse _ | .release _ => True
  | .credit entry => entry.entryType = .grant
  | .settle _ _ | .transfer _ _ | .place _ _ | .extend _ _ => False

/-- A ledger of direct charges, each refunded as a whole or not at all. -/
structure State.Metered (s : State) : Prop where
  wf : s.WellFormed
  holds : ∀ reservation, s.holds.get? reservation = none
  links : ∀ entry ∈ s.entries, ∀ id, entry.reversesEntryId = some id → id ∈ s.entryIds
  spends : ∀ entry ∈ s.entries, entry.entryType = .usage → entry.deltaCredits < 0
  whole : ∀ entry ∈ s.entries, entry.entryType = .usage → s.linked entry.id = [] ∨
    ∃ refund, s.linked entry.id = [refund] ∧ refund.deltaCredits = -entry.deltaCredits

namespace State.Metered

variable {s : State} {entry : LedgerEntry}

theorem new : State.new.Metered where
  wf := .new
  holds := fun _ => rfl
  links := fun _ member => absurd member List.not_mem_nil
  spends := fun _ member => absurd member List.not_mem_nil
  whole := fun _ member => absurd member List.not_mem_nil

theorem eq_of_id (metered : s.Metered) {other : LedgerEntry} (member : entry ∈ s.entries)
    (member' : other ∈ s.entries) (same : entry.id = other.id) : entry = other :=
  List.inj_on_of_nodup_map metered.wf.entryIds member member' same

theorem remainder_of_linked (metered : s.Metered) (member : entry ∈ s.entries)
    {refunds : List LedgerEntry} (linked : s.linked entry.id = refunds) :
    s.unreversedRemainder entry.id =
      -entry.deltaCredits - (refunds.map LedgerEntry.deltaCredits).sum := by
  rw [unreversedRemainder, charged_of_mem metered.wf.entryIds member, reversed, linked]

/-- **A remainder is everything or nothing.** -/
theorem remainder_cases (metered : s.Metered) (member : entry ∈ s.entries)
    (usage : entry.entryType = .usage) :
    (s.linked entry.id = [] ∧ s.unreversedRemainder entry.id = -entry.deltaCredits) ∨
      ((∃ refund, s.linked entry.id = [refund] ∧ refund.deltaCredits = -entry.deltaCredits) ∧
        s.unreversedRemainder entry.id = 0) := by
  rcases metered.whole entry member usage with none | ⟨refund, linked, delta⟩
  · refine Or.inl ⟨none, ?_⟩
    rw [metered.remainder_of_linked member none]
    simp
  · refine Or.inr ⟨⟨refund, linked, delta⟩, ?_⟩
    rw [metered.remainder_of_linked member linked]
    simp [delta]

theorem remainder_nonneg (metered : s.Metered) (member : entry ∈ s.entries)
    (usage : entry.entryType = .usage) : 0 ≤ s.unreversedRemainder entry.id := by
  rcases metered.remainder_cases member usage with ⟨_, full⟩ | ⟨_, zero⟩
  · rw [full]
    exact neg_nonneg.mpr (metered.spends entry member usage).le
  · rw [zero]

/-- Once refunded, a charge stays refunded. -/
theorem linked_of_remainder (metered : s.Metered) (member : entry ∈ s.entries)
    (usage : entry.entryType = .usage) (zero : s.unreversedRemainder entry.id = 0) :
    ∃ refund, s.linked entry.id = [refund] ∧ refund.deltaCredits = -entry.deltaCredits := by
  rcases metered.remainder_cases member usage with ⟨_, full⟩ | ⟨linked, _⟩
  · exact absurd (full.symm.trans zero) (neg_ne_zero.mpr (metered.spends entry member usage).ne)
  · exact linked

/-- Nothing references a new id. -/
theorem linked_of_fresh (metered : s.Metered) {id : EntryId} (fresh : id ∉ s.entryIds) :
    s.linked id = [] := by
  refine List.filter_eq_nil_iff.mpr fun other stored links => fresh ?_
  exact metered.links other stored id (decide_eq_true_eq.mp links)

/-- What a metering action posts. -/
theorem posted_cases {action : Action} (meters : action.Meters) (enabled : action.Enabled s) :
    (action.posted = [] ∨ ∃ entry, action.posted = [entry] ∧ entry.id ∉ s.entryIds ∧
      ((entry.entryType ≠ .usage ∧ entry.reversesEntryId = none) ∨
        (entry.entryType = .usage ∧ entry.reversesEntryId = none ∧ entry.deltaCredits < 0) ∨
        (entry.entryType = .refund ∧ ∃ target ∈ s.entries, 0 < s.unreversedRemainder target.id ∧
          entry.reversesEntryId = some target.id ∧
          entry.deltaCredits = s.unreversedRemainder target.id))) := by
  cases action with
  | openAccount _ | release _ => exact Or.inl rfl
  | settle _ _ | transfer _ _ | place _ _ | extend _ _ => exact meters.elim
  | credit entry =>
    obtain ⟨posts, _, _, ⟨kind, plain⟩ | kind⟩ := enabled
    · exact Or.inr ⟨entry, rfl, posts.fresh, Or.inl ⟨by rw [kind]; decide, plain⟩⟩
    · cases kind.symm.trans meters
  | charge entry =>
    obtain ⟨posts, _, negative, kind, plain⟩ := enabled
    exact Or.inr ⟨entry, rfl, posts.fresh, Or.inr (Or.inl ⟨kind, plain, negative⟩)⟩
  | reverse entry =>
    obtain ⟨posts, kind, positive, target, stored, links, _, delta, _⟩ := enabled
    exact Or.inr ⟨entry, rfl, posts.fresh,
      Or.inr (Or.inr ⟨kind, target, stored, delta ▸ positive, links, delta⟩)⟩

theorem holds_apply (metered : s.Metered) {action : Action} (meters : action.Meters)
    (reservation : ReservationId) : (action.apply s).holds.get? reservation = none := by
  cases action with
  | openAccount _ | credit _ | charge _ | reverse _ => exact metered.holds reservation
  | release reservations => rw [Action.apply, Table.get?_mapValues, metered.holds, Option.map_none]
  | settle _ _ | transfer _ _ | place _ _ | extend _ _ => exact meters.elim

/-- **Every metering action keeps the ledger metered.** -/
theorem apply (metered : s.Metered) {action : Action} (meters : action.Meters)
    (enabled : action.Enabled s) : (action.apply s).Metered := by
  have entries := Action.apply_entries s action
  have ids : (action.apply s).entryIds = s.entryIds ++ action.posted.map LedgerEntry.id := by
    rw [entryIds, entries, List.map_append]
    rfl
  rcases posted_cases meters enabled with posted | ⟨new, posted, fresh, kind⟩
  · rw [posted, List.append_nil] at entries
    rw [posted, List.map_nil, List.append_nil] at ids
    refine ⟨metered.wf.apply enabled, metered.holds_apply meters, ?_, ?_, ?_⟩
    · rw [entries, ids]
      exact metered.links
    · rw [entries]
      exact metered.spends
    · simp only [linked, entries]
      exact metered.whole
  · rw [posted] at entries ids
    have linked' := fun id => linked_append entries id
    refine ⟨metered.wf.apply enabled, metered.holds_apply meters, ?_, ?_, ?_⟩
    · intro other stored id links
      rw [ids]
      rw [entries, List.mem_append, List.mem_singleton] at stored
      rcases stored with old | rfl
      · exact List.mem_append_left _ (metered.links other old id links)
      · refine List.mem_append_left _ ?_
        rcases kind with ⟨_, plain⟩ | ⟨_, plain, _⟩ | ⟨_, target, inside, _, own, _⟩
        · cases plain.symm.trans links
        · cases plain.symm.trans links
        · rw [own, Option.some.injEq] at links
          exact links ▸ List.mem_map_of_mem inside
    · intro other stored usage
      rw [entries, List.mem_append, List.mem_singleton] at stored
      rcases stored with old | rfl
      · exact metered.spends other old usage
      · rcases kind with ⟨notUsage, _⟩ | ⟨_, _, negative⟩ | ⟨refund, _⟩
        · exact absurd usage notUsage
        · exact negative
        · cases refund.symm.trans usage
    · intro other stored usage
      rw [entries, List.mem_append, List.mem_singleton] at stored
      rw [linked', List.filter_singleton]
      rcases stored with old | rfl
      · rcases kind with ⟨_, plain⟩ | ⟨_, plain, _⟩ | ⟨_, target, inside, positive, own, delta⟩
        · simpa [plain] using metered.whole other old usage
        · simpa [plain] using metered.whole other old usage
        · by_cases same : target.id = other.id
          · rw [same] at positive own delta
            rcases metered.remainder_cases old usage with ⟨none, full⟩ | ⟨_, zero⟩
            · exact Or.inr ⟨new, by simp [none, own], by rw [delta, full]⟩
            · exact absurd zero positive.ne'
          · simpa [own, same] using metered.whole other old usage
      · have plain : other.reversesEntryId ≠ some other.id := by
          rcases kind with ⟨_, plain⟩ | ⟨_, plain, _⟩ | ⟨refund, _⟩
          · simp [plain]
          · simp [plain]
          · cases refund.symm.trans usage
        exact Or.inl (by simp [metered.linked_of_fresh fresh, plain])

theorem charge (metered : s.Metered) (enabled : (Action.charge entry).Enabled s) :
    ((Action.charge entry).apply s).Metered := metered.apply trivial enabled

theorem reverse (metered : s.Metered) (enabled : (Action.reverse entry).Enabled s) :
    ((Action.reverse entry).apply s).Metered := metered.apply trivial enabled

/-- **Every path of metering actions keeps the ledger metered.** -/
theorem path {s' : State} {actions : List Action} (metered : s.Metered)
    (path : Path s actions s') (meters : ∀ action ∈ actions, action.Meters) : s'.Metered := by
  induction path with
  | nil s => exact metered
  | cons action enabled _ ih =>
    exact ih (metered.apply (meters action List.mem_cons_self) enabled)
      fun other inside => meters other (List.mem_cons_of_mem _ inside)

/-- Only refunds reverse anything. -/
theorem plain_of_path {s' : State} {actions : List Action} (path : Path s actions s')
    (meters : ∀ action ∈ actions, action.Meters) :
    ∀ entry ∈ actions.flatMap Action.posted, entry.entryType ≠ .refund →
      entry.reversesEntryId = none := by
  induction path with
  | nil s => exact fun _ member => absurd member List.not_mem_nil
  | cons action enabled _ ih =>
    intro entry member notRefund
    rw [List.flatMap_cons, List.mem_append] at member
    rcases member with here | later
    · rcases posted_cases (meters action List.mem_cons_self) enabled with
        nothing | ⟨new, posted, _, ⟨_, plain⟩ | ⟨_, plain, _⟩ | ⟨refund, _⟩⟩
      · rw [nothing] at here
        exact absurd here List.not_mem_nil
      · rw [posted, List.mem_singleton] at here
        exact here ▸ plain
      · rw [posted, List.mem_singleton] at here
        exact here ▸ plain
      · rw [posted, List.mem_singleton] at here
        exact absurd (here ▸ refund) notRefund
    · exact ih (fun other inside => meters other (List.mem_cons_of_mem _ inside)) entry later
        notRefund

/-- What a new charge leaves to refund, and what it leaves alone. -/
theorem remainder_charge (metered : s.Metered) (enabled : (Action.charge entry).Enabled s)
    {id : EntryId} (known : id ∈ s.entryIds ∨ id = entry.id) :
    ((Action.charge entry).apply s).unreversedRemainder id =
      if id = entry.id then -entry.deltaCredits else s.unreversedRemainder id := by
  have enabled' := enabled
  obtain ⟨posts, _, _, usage, plain⟩ := enabled'
  have entries := Action.apply_entries s (.charge entry)
  split
  · rename_i same
    have after := metered.charge enabled
    have stored : entry ∈ ((Action.charge entry).apply s).entries := by
      rw [entries]
      exact List.mem_append_right _ (List.mem_singleton_self _)
    have unlinked : ((Action.charge entry).apply s).linked entry.id = [] := by
      rw [linked_append entries, metered.linked_of_fresh posts.fresh]
      simp [Action.posted, plain]
    rw [same, after.remainder_of_linked stored unlinked]
    simp
  · rename_i different
    rw [unreversedRemainder_append entries (known.resolve_right different), Action.posted,
      linkedSum_singleton, plain]
    simp

/-- What a reversal leaves to refund, and what it leaves alone. -/
theorem remainder_reverse (enabled : (Action.reverse entry).Enabled s)
    {target : EntryId} (links : entry.reversesEntryId = some target) {id : EntryId}
    (known : id ∈ s.entryIds) : ((Action.reverse entry).apply s).unreversedRemainder id =
      if id = target then 0 else s.unreversedRemainder id := by
  obtain ⟨posts, _, _, charge, stored, own, _, delta, _⟩ := enabled
  rw [links, Option.some.injEq] at own
  rw [unreversedRemainder_append (Action.apply_entries s (.reverse entry)) known, Action.posted,
    linkedSum_singleton, links, delta, ← own]
  simp only [Option.some.injEq, eq_comm]
  split
  · rename_i same
    rw [same, sub_self]
  · rw [sub_zero]

end State.Metered

/-! ### The calls -/

section Calls

variable {amb : Ambient} {s : State}

/-- **A charge** is refused, was posted already, or is posted now. -/
theorem charge_cases (fresh : amb.Fresh s) (req : ChargeRequest) :
    ((¬ 0 < req.amount ∨ s.accounts.contains req.account = false) ∧
      ∃ error, charge amb req s = some (.error error, s)) ∨
    (0 < req.amount ∧ s.accounts.contains req.account = true ∧
      ((∃ key existing, req.idempotencyKey = some key ∧
        s.findKeyed req.account key = some existing ∧
        charge amb req s = some (.ok existing, s)) ∨
      ∃ entry, (Action.charge entry).Enabled s ∧ entry.accountId = req.account ∧
        entry.runId = req.runId ∧ entry.idempotencyKey = req.idempotencyKey ∧
        entry.deltaCredits = -req.amount ∧
        charge amb req s = some (.ok entry, (Action.charge entry).apply s))) := by
  by_cases positive : 0 < req.amount
  · by_cases present : s.accounts.contains req.account = true
    · refine Or.inr ⟨positive, present, ?_⟩
      cases used : req.idempotencyKey.bind (s.findKeyed req.account) with
      | some existing =>
        obtain ⟨key, keyed, found⟩ := Option.bind_eq_some_iff.mp used
        refine Or.inl ⟨key, existing, keyed, found, ?_⟩
        simp [charge, postKeyed, ChargeRequest.posting, positive, present, used]
      | none =>
        obtain ⟨row, found⟩ := Table.contains_iff.mp present
        have posted := postDebit_eq req.posting found amb .posting req.amount
        refine Or.inr ⟨req.posting.entry amb .posting (-req.amount) (row.settled - req.amount),
          ⟨posts_entry found fresh.posting fun _ => sub_eq_add_neg _ _, ?_,
            neg_lt_zero.mpr positive, rfl, rfl⟩, rfl, rfl, rfl, rfl, ?_⟩
        · intro key keyed
          rw [show req.idempotencyKey = some key from keyed] at used
          exact used
        · have guards : postKeyed (postDebit amb .posting) req.posting req.amount s =
              (postDebit amb .posting req.posting req.amount s).map
                fun posted => (.ok posted.1, posted.2) := by
            simp [postKeyed, ChargeRequest.posting, positive, present, used]
          rw [charge, guards, posted]
          rfl
    · rw [Bool.not_eq_true] at present
      refine Or.inl ⟨Or.inr present, .accountNotFound req.account, ?_⟩
      simp [charge, postKeyed, ChargeRequest.posting, positive, present]
  · refine Or.inl ⟨Or.inl positive, .nonPositiveAmount, ?_⟩
    simp [charge, postKeyed, positive]

/-- **A reversal** is refused, was made already, has nothing left to do, or is posted now. -/
theorem reverseCharge_cases (fresh : amb.Fresh s) (req : ReverseChargeRequest) :
    (s.accounts.contains req.account = false ∧
      ∃ error, reverseCharge amb req s = some (.error error, s)) ∨
    (s.accounts.contains req.account = true ∧
      ((∃ existing, s.findKeyed req.account req.idempotencyKey = some existing ∧
        reverseCharge amb req s = some (.ok (some existing), s)) ∨
      (((∀ entry ∈ s.entries, entry.id = req.chargeEntryId → entry.accountId ≠ req.account) ∨
          ¬ 0 < s.unreversedRemainder req.chargeEntryId) ∧
        reverseCharge amb req s = some (.ok none, s)) ∨
      ∃ entry, (Action.reverse entry).Enabled s ∧ entry.accountId = req.account ∧
        entry.reversesEntryId = some req.chargeEntryId ∧
        entry.idempotencyKey = some req.idempotencyKey ∧
        reverseCharge amb req s = some (.ok (some entry), (Action.reverse entry).apply s))) := by
  by_cases present : s.accounts.contains req.account = true
  · refine Or.inr ⟨present, ?_⟩
    cases used : s.findKeyed req.account req.idempotencyKey with
    | some existing =>
      exact Or.inl ⟨existing, rfl, by simp [reverseCharge, present, used]⟩
    | none =>
      refine Or.inr ?_
      by_cases belongs : ∃ entry ∈ s.entries, entry.id = req.chargeEntryId ∧
          entry.accountId = req.account
      · by_cases positive : 0 < s.unreversedRemainder req.chargeEntryId
        · obtain ⟨target, stored, same, own⟩ := id belongs
          obtain ⟨row, found⟩ := Table.contains_iff.mp present
          have posted := postCredit_eq req.posting found amb .posting
            (s.unreversedRemainder req.chargeEntryId)
          refine Or.inr ⟨req.posting.entry amb .posting (s.unreversedRemainder req.chargeEntryId)
            (row.settled + flow systemAccount req.account
              (s.unreversedRemainder req.chargeEntryId) req.account),
            ⟨posts_entry found fresh.posting fun notSystem => ?_, rfl, positive, target, stored,
              by rw [same]; rfl, own, by rw [same]; rfl, Or.inl ?_⟩, rfl, rfl, rfl, ?_⟩
          · rw [show req.posting.accountId = req.account from rfl] at notSystem
            rw [flow_payee notSystem]
          · rintro key ⟨⟩
            exact used
          · simp [reverseCharge, present, used, belongs, positive, posted, Action.apply]
            exact ⟨rfl, rfl⟩
        · refine Or.inl ⟨Or.inr positive, ?_⟩
          simp [reverseCharge, present, used, positive]
      · refine Or.inl ⟨Or.inl fun entry stored same own => belongs ⟨entry, stored, same, own⟩, ?_⟩
        simp [reverseCharge, present, used, belongs]
  · rw [Bool.not_eq_true] at present
    exact Or.inl ⟨present, .accountNotFound req.account, by simp [reverseCharge, present]⟩

/-- **A run void** refunds every charge of the run as a whole, and nothing else. -/
theorem voidRun_charges (metered : s.Metered) (fresh : amb.Fresh s) (run : RunId) :
    ∃ summary s' posted, voidRun amb run s = some (.ok summary, s') ∧ s'.Metered ∧
      (∀ account, s'.accounts.contains account = s.accounts.contains account) ∧
      s'.entries = s.entries ++ posted ∧
      (∀ refund ∈ posted, refund.entryType = .refund ∧
        ∃ id, refund.idempotencyKey = some (runVoidChargeRefundKey run id)) ∧
      ∀ entry ∈ s.entries, entry.entryType = .usage → s'.unreversedRemainder entry.id =
        if entry.runId = some run then 0 else s.unreversedRemainder entry.id := by
  obtain ⟨⟨s', summary⟩, result, progress⟩ := voidRun_progress metered.wf amb run
  have valid : ∀ refund ∈ runRefunds amb run s, refund.Valid s :=
    fun refund member => (entry_of_refund metered.wf member).1
  have noMembers : runMembers amb run s = [] := by
    refine List.eq_nil_iff_forall_not_mem.mpr fun member inside => ?_
    cases (metered.holds member.1).symm.trans (mem_runMembers.mp inside).1
  have charges : runRefunds amb run s = chargeRefunds run (runCharges run s) := by
    rw [runRefunds, noMembers]
    rfl
  obtain ⟨posted, entries, same⟩ := id progress.entries
  refine ⟨summary, s', posted, result, ?_, progress.contains, entries, ?_, ?_⟩
  · obtain ⟨reply, after, actions, result', path, permitted⟩ := voidRun_refines metered.wf fresh run
    rw [result, Option.some.injEq, Prod.mk.injEq] at result'
    obtain ⟨_, rfl⟩ := result'
    refine metered.path path fun action member => ?_
    have permits := permitted action member
    cases action with
    | reverse _ | release _ => trivial
    | _ => exact permits.elim
  · intro refund member
    refine ⟨VoidProgress.entryType_of_posted valid same member, ?_⟩
    have inside := List.mem_map_of_mem (f := LedgerEntry.unbalanced) member
    rw [same, charges] at inside
    obtain ⟨pair, due, equal⟩ := List.mem_map.mp inside
    obtain ⟨charge, _, rfl⟩ := List.mem_map.mp (List.mem_filter.mp due).1
    exact ⟨charge.id, (congrArg LedgerEntry.idempotencyKey equal).symm⟩
  · intro entry stored usage
    rw [progress.remainder valid (runRefunds_nodup metered.wf) (List.mem_map_of_mem stored)]
    have considered : entry.id ∈ (runRefunds amb run s).map Prod.fst ↔ entry.runId = some run := by
      rw [charges, chargeRefunds, List.map_map, List.mem_map]
      constructor
      · rintro ⟨charge, inside, same⟩
        obtain ⟨stored', tagged, _⟩ := mem_runCharges.mp inside
        rw [← metered.eq_of_id stored' stored same]
        exact tagged
      · exact fun tagged => ⟨entry, mem_runCharges.mpr ⟨stored, tagged, usage⟩, rfl⟩
    simp only [considered]
    split
    · rw [State.owed, max_eq_right (metered.remainder_nonneg stored usage), sub_self]
    · rw [sub_zero]

end Calls

end Meter.Ledger
