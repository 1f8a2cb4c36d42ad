/-
**Automatic refunds and the credits in circulation.**

`reverse_charge` takes any entry of its account with a positive remainder. A charge and a settle have
one, but so has the outgoing side of a lease, and reversing that one gives back credits that were
moved and not spent.

* `State.recoverable` — what automatic refunds could still return of what was spent. With the
  balances of all accounts but the system account it is a potential: only grants and manual refunds
  raise it (`potential_apply`), as long as every reversal is of a charge or a settle.
* `spend_only_iff` — **the exact condition**: automatic refunds return spend only, and the bound on
  the balances holds, if and only if no `reverse_charge` reverses a transfer.
* `transfer_reversed` — a lease opened, its outgoing entry reversed, and more credits than granted.
-/

import Mathlib.Algebra.BigOperators.Group.Finset.Piecewise
import Meter.Ledger.Books
import Meter.Ledger.Charges
import Meter.Ledger.Payers

namespace Meter.Ledger

open Meter.Lib

/-! ### What is claimed -/

/-- An entry that records spending. -/
def LedgerEntry.Spends (entry : LedgerEntry) : Prop :=
  entry.entryType = .usage ∨ entry.entryType = .settle

instance (entry : LedgerEntry) : Decidable entry.Spends :=
  inferInstanceAs (Decidable (entry.entryType = .usage ∨ entry.entryType = .settle))

/-- Every automatic refund is of spending, on the account that spent. -/
def SpendOnly (events : List Event) (s : State) : Prop :=
  ∀ refund ∈ automaticRefunds events, ∃ charge ∈ s.entries,
    refund.reversesEntryId = some charge.id ∧ charge.accountId = refund.accountId ∧ charge.Spends

/-- The calls that credit an account by hand. -/
def Call.credits : Call → Bool
  | .grant _ | .refund _ => true
  | _ => false

/-- The grants and manual refunds of a run that went to accounts other than the system account. -/
def manualCredits (events : List Event) : List LedgerEntry :=
  ((events.filter fun event => event.call.credits).flatMap Event.posted).filter fun entry =>
    entry.accountId ≠ systemAccount

/-- The balances of all accounts but the system account. -/
def State.outside (s : State) : Credit :=
  s.accounts.sum fun account row => if account = systemAccount then 0 else row.settled

/-- No lease is taken from the system account. -/
def NoSystemLease (events : List Event) : Prop :=
  ∀ event ∈ events, ∀ req, event.call = .openLease req → req.parent ≠ systemAccount

/-- A reversal, under a new key, of a transfer of its account that still has a remainder. -/
def Event.RevertsTransfer (event : Event) : Prop :=
  ∃ req, event.call = .reverseCharge req ∧
    event.before.findKeyed req.account req.idempotencyKey = none ∧
    ∃ target ∈ event.before.entries, target.id = req.chargeEntryId ∧
      target.accountId = req.account ∧ target.entryType = .transfer ∧
      0 < event.before.unreversedRemainder target.id

/-! ### The potential -/

namespace State

variable {s s' : State}

/-- What was spent and not refunded yet, outside the system account. -/
def recoverable (s : State) : Credit :=
  ((s.entries.filter fun entry => entry.Spends ∧ entry.accountId ≠ systemAccount).map
    fun entry => s.owed entry.id).sum

theorem recoverable_nonneg (s : State) : 0 ≤ s.recoverable := by
  refine List.sum_nonneg fun amount member => ?_
  obtain ⟨entry, _, rfl⟩ := List.mem_map.mp member
  exact le_max_left _ _

/-- **The balances outside are what the system account is short of.** -/
theorem outside_eq (wf : s.WellFormed) (balanced : s.Balanced) :
    s.outside = -s.settled systemAccount := by
  obtain ⟨row, found, _⟩ := wf.system
  have present : s.accounts.contains systemAccount = true := Table.contains_iff.mpr ⟨row, found⟩
  have split : s.netSettled = s.outside + s.settled systemAccount := by
    rw [netSettled_eq_sum, outside, ← Table.sum_single present (s.settled systemAccount),
      ← Table.sum_add]
    refine Table.sum_congr_get fun account => ?_
    rw [Table.measureAt, Table.measureAt]
    cases isRow : s.accounts.get? account with
    | none => rfl
    | some other =>
      show other.settled = (if account = systemAccount then 0 else other.settled) +
        if account = systemAccount then s.settled systemAccount else 0
      by_cases system : account = systemAccount
      · rw [if_pos system, if_pos system, zero_add, ← system, settled_of_get isRow]
      · rw [if_neg system, if_neg system, add_zero]
  rw [balanced.net] at split
  linarith

/-- What a posting does to the system account. -/
theorem settled_system_pay (wf : s.WellFormed) (account : AccountId) (amount : Credit) :
    (s.pay systemAccount account amount).settled systemAccount =
      s.settled systemAccount - if account = systemAccount then 0 else amount := by
  obtain ⟨row, found, _⟩ := wf.system
  rw [settled_pay (Table.contains_iff.mpr ⟨row, found⟩), flow]
  by_cases system : account = systemAccount
  · rw [if_pos system.symm, if_pos rfl, if_pos system]
    ring
  · rw [if_neg (Ne.symm system), if_pos rfl, if_neg system]
    ring

/-- Spending outside the system account. -/
def spending (entries : List LedgerEntry) : List LedgerEntry :=
  entries.filter fun entry => entry.Spends ∧ entry.accountId ≠ systemAccount

/-- **What stays recoverable after more entries**, from what stays owed. -/
theorem recoverable_append {posted : List LedgerEntry} (entries : s'.entries = s.entries ++ posted)
    (less : LedgerEntry → Credit)
    (owed : ∀ entry ∈ s.entries, s'.owed entry.id + less entry ≤ s.owed entry.id) :
    s'.recoverable + ((spending s.entries).map less).sum ≤
      s.recoverable + ((spending posted).map fun entry => s'.owed entry.id).sum := by
  have old : ((spending s.entries).map fun entry => s'.owed entry.id).sum +
      ((spending s.entries).map less).sum ≤ s.recoverable := by
    rw [← List.sum_map_add]
    exact List.sum_le_sum fun entry member => owed entry (List.mem_filter.mp member).1
  have new : s'.recoverable = ((spending s.entries).map fun entry => s'.owed entry.id).sum +
      ((spending posted).map fun entry => s'.owed entry.id).sum := by
    rw [recoverable, entries, List.filter_append, List.map_append, List.sum_append]
    rfl
  linarith

theorem owed_apply_le {action : Action} (enabled : action.Enabled s) {entry : LedgerEntry}
    (stored : entry ∈ s.entries) : (action.apply s).owed entry.id ≤ s.owed entry.id :=
  max_le_max_left 0 (remainder_apply_le enabled (List.mem_map_of_mem stored))

/-- An action makes no more recoverable than what it spends. -/
theorem recoverable_apply {action : Action} (enabled : action.Enabled s) :
    (action.apply s).recoverable ≤ s.recoverable +
      ((spending action.posted).map fun entry => (action.apply s).owed entry.id).sum := by
  have bound := recoverable_append (Action.apply_entries s action) (fun _ => 0)
    fun entry stored => (add_zero _).trans_le (owed_apply_le enabled stored)
  rwa [List.map_const', List.sum_replicate, nsmul_zero, add_zero] at bound

/-- An action that posts no spending makes nothing recoverable. -/
theorem recoverable_apply_le {action : Action} (enabled : action.Enabled s)
    (none : spending action.posted = []) : (action.apply s).recoverable ≤ s.recoverable := by
  have bound := recoverable_apply enabled
  rwa [none, List.map_nil, List.sum_nil, add_zero] at bound

/-- A new charge adds at most its magnitude to what is recoverable. -/
theorem recoverable_spend_le {action : Action} (enabled : action.Enabled s) (wf : s.WellFormed)
    (links : ∀ other ∈ s.entries, other.reversesEntryId = none ∨ 0 < other.deltaCredits)
    {entry : LedgerEntry} (posted : action.posted = [entry]) (spent : entry.deltaCredits ≤ 0) :
    (action.apply s).recoverable ≤
      s.recoverable - if entry.accountId = systemAccount then 0 else entry.deltaCredits := by
  have entries := Action.apply_entries s action
  have bound := recoverable_apply enabled
  rw [posted] at bound
  by_cases system : entry.accountId = systemAccount
  · have none : spending [entry] = [] := by simp [spending, system]
    rw [if_pos system, sub_zero]
    simpa [none] using bound
  · have stored : entry ∈ (action.apply s).entries := by
      rw [entries, posted]
      exact List.mem_append_right _ (List.mem_singleton_self _)
    have links' : ∀ other ∈ (action.apply s).entries,
        other.reversesEntryId = none ∨ 0 < other.deltaCredits := by
      intro other inside
      rw [entries, List.mem_append] at inside
      rcases inside with old | new
      · exact links other old
      · exact posted_links enabled new
    have owed : (action.apply s).owed entry.id ≤ -entry.deltaCredits := by
      refine max_le (neg_nonneg.mpr spent) ?_
      rw [unreversedRemainder, charged_of_mem (wf.apply enabled).entryIds stored, reversed_eq]
      exact sub_le_self _ (linkedSum_nonneg links' entry.id)
    have atMost : ((spending [entry]).map fun entry => (action.apply s).owed entry.id).sum ≤
        -entry.deltaCredits := by
      by_cases spends : entry.Spends
      · simpa [spending, spends, system] using owed
      · simpa [spending, spends] using spent
    rw [if_neg system]
    linarith

/-- **A reversal of spending takes from what is recoverable what it credits.** -/
theorem recoverable_reverse_le (wf : s.WellFormed) {refund target : LedgerEntry}
    (enabled : (Action.reverse refund).Enabled s) (stored : target ∈ s.entries)
    (references : refund.reversesEntryId = some target.id) (spends : target.Spends) :
    ((Action.reverse refund).apply s).recoverable ≤
      s.recoverable - if refund.accountId = systemAccount then 0 else refund.deltaCredits := by
  have enabled' := enabled
  obtain ⟨_, kind, positive, target', stored', references', account, exact, _⟩ := enabled'
  have isTarget : target' = target := List.inj_on_of_nodup_map wf.entryIds stored' stored
    (Option.some.inj (references'.symm.trans references))
  rw [isTarget] at account exact
  have owed : ∀ entry ∈ s.entries, ((Action.reverse refund).apply s).owed entry.id +
      (if entry = target then refund.deltaCredits else 0) ≤ s.owed entry.id := by
    intro entry inside
    by_cases same : entry = target
    · rw [if_pos same, same, owed, remainder_reverse stored references exact, max_self, zero_add,
        exact]
      exact le_max_right _ _
    · rw [if_neg same, add_zero]
      exact owed_apply_le enabled inside
  have bound := recoverable_append (Action.apply_entries s (.reverse refund)) _ owed
  have none : spending (Action.reverse refund).posted = [] := by
    simp [spending, Action.posted, LedgerEntry.Spends, kind]
  rw [none, List.map_nil, List.sum_nil, add_zero] at bound
  by_cases system : refund.accountId = systemAccount
  · rw [if_pos system, sub_zero]
    exact recoverable_apply_le enabled none
  · have counted : target ∈ spending s.entries :=
      List.mem_filter.mpr ⟨stored, decide_eq_true ⟨spends, account ▸ system⟩⟩
    have once : ((spending s.entries).map fun entry =>
        if entry = target then refund.deltaCredits else 0).sum = refund.deltaCredits := by
      have distinct : (spending s.entries).Nodup :=
        (List.Nodup.of_map LedgerEntry.id wf.entryIds).filter _
      rw [← List.sum_toFinset _ distinct, Finset.sum_ite_eq', if_pos]
      exact List.mem_toFinset.mpr counted
    rw [if_neg system]
    linarith

/-- The balances outside the system account, and what could still be returned to them. -/
def potential (s : State) : Credit := s.recoverable - s.settled systemAccount

end State

/-- What an action credits by hand to an account other than the system account. -/
def Action.credited : Action → Credit
  | .credit entry => if entry.accountId = systemAccount then 0 else entry.deltaCredits
  | _ => 0

/-- **Only manual credits raise the potential.** -/
theorem potential_apply {s : State} (wf : s.WellFormed)
    (links : ∀ other ∈ s.entries, other.reversesEntryId = none ∨ 0 < other.deltaCredits)
    {action : Action} (enabled : action.Enabled s)
    (reverses : ∀ refund, action = .reverse refund → ∀ target ∈ s.entries,
      refund.reversesEntryId = some target.id → target.Spends)
    (payer : ∀ out into, action = .transfer out into → out.accountId ≠ systemAccount) :
    (action.apply s).potential ≤ s.potential + action.credited := by
  unfold State.potential
  cases action with
  | openAccount account =>
    have same := State.settled_openAccount enabled.1 systemAccount
    have less := State.recoverable_apply_le enabled rfl
    rw [same]
    dsimp only [Action.credited]
    linarith
  | credit entry =>
    have same : ((Action.credit entry).apply s).settled systemAccount = _ :=
      State.settled_system_pay wf entry.accountId entry.deltaCredits
    have none : State.spending (Action.credit entry).posted = [] := by
      rcases enabled.2.2.2 with ⟨kind, _⟩ | kind
      · simp [State.spending, Action.posted, LedgerEntry.Spends, kind]
      · simp [State.spending, Action.posted, LedgerEntry.Spends, kind]
    have less := State.recoverable_apply_le enabled none
    rw [same]
    dsimp only [Action.credited]
    linarith
  | charge entry =>
    have same : ((Action.charge entry).apply s).settled systemAccount = _ :=
      State.settled_system_pay wf entry.accountId entry.deltaCredits
    have less := State.recoverable_spend_le enabled wf links rfl enabled.2.2.1.le
    rw [same]
    dsimp only [Action.credited]
    linarith
  | settle reservation entry =>
    have same : ((Action.settle reservation entry).apply s).settled systemAccount = _ :=
      State.settled_system_pay wf entry.accountId entry.deltaCredits
    have less := State.recoverable_spend_le enabled wf links rfl enabled.2.1
    rw [same]
    dsimp only [Action.credited]
    linarith
  | reverse refund =>
    have same : ((Action.reverse refund).apply s).settled systemAccount = _ :=
      State.settled_system_pay wf refund.accountId refund.deltaCredits
    have enabled' := enabled
    obtain ⟨_, _, _, target, stored, references, _⟩ := enabled'
    have less := State.recoverable_reverse_le wf enabled stored references
      (reverses refund rfl target stored references)
    rw [same]
    dsimp only [Action.credited]
    linarith
  | transfer out into =>
    obtain ⟨row, found, _⟩ := wf.system
    have same : ((Action.transfer out into).apply s).settled systemAccount = _ :=
      State.settled_pay (Table.contains_iff.mpr ⟨row, found⟩) out.accountId into.accountId
        into.deltaCredits
    have gains : 0 ≤ flow out.accountId into.accountId into.deltaCredits systemAccount := by
      rw [flow, if_neg (Ne.symm (payer out into rfl)), sub_zero]
      split
      · exact enabled.positive.le
      · exact le_refl _
    have none : State.spending (Action.transfer out into).posted = [] := by
      simp [State.spending, Action.posted, LedgerEntry.Spends, enabled.kinds.1, enabled.kinds.2]
    have less := State.recoverable_apply_le enabled none
    rw [same]
    dsimp only [Action.credited]
    linarith
  | place reservation hold | release reservations | extend reservation expiresAt =>
    have less := State.recoverable_apply_le enabled rfl
    dsimp only [Action.credited]
    rw [add_zero]
    exact sub_le_sub_right less _

/-- **The potential along a path.** -/
theorem Path.potential {s s' : State} {actions : List Action} (path : Path s actions s')
    (wf : s.WellFormed)
    (links : ∀ other ∈ s.entries, other.reversesEntryId = none ∨ 0 < other.deltaCredits)
    (reverses : ∀ refund ∈ reversals actions, ∀ target ∈ s'.entries,
      refund.reversesEntryId = some target.id → target.Spends)
    (payer : ∀ out into, .transfer out into ∈ actions → out.accountId ≠ systemAccount) :
    s'.potential ≤ s.potential + (actions.map Action.credited).sum := by
  induction path with
  | nil s => simp
  | @cons s s' action actions enabled rest ih =>
    have kept : ∀ entry ∈ s.entries, entry ∈ s'.entries := by
      intro entry stored
      rw [rest.entries, Action.apply_entries, List.append_assoc]
      exact List.mem_append_left _ stored
    have links' : ∀ other ∈ (action.apply s).entries,
        other.reversesEntryId = none ∨ 0 < other.deltaCredits := by
      intro other inside
      rw [Action.apply_entries, List.mem_append] at inside
      rcases inside with old | new
      · exact links other old
      · exact Ledger.posted_links enabled new
    have later : ∀ refund ∈ reversals actions, refund ∈ reversals (action :: actions) := by
      intro refund member
      exact (List.sublist_cons_self action actions).filterMap _ |>.subset member
    have first := potential_apply wf links enabled
      (fun refund same target stored => reverses refund
        (by rw [same]; exact List.mem_cons_self) target (kept target stored))
      fun out into same => payer out into (same ▸ List.mem_cons_self)
    have second := ih (wf.apply enabled) links'
      (fun refund member => reverses refund (later refund member))
      fun out into member => payer out into (List.mem_cons_of_mem _ member)
    rw [List.map_cons, List.sum_cons]
    linarith

/-! ### Which entries are reversed -/

/-- The kind of a posted entry with a negative delta. -/
theorem posted_kind {s : State} {action : Action} (enabled : action.Enabled s)
    {entry : LedgerEntry} (member : entry ∈ action.posted) :
    entry.Spends ∨ entry.entryType = .transfer ∨ 0 < entry.deltaCredits := by
  cases action with
  | credit credited =>
    rw [List.mem_singleton.mp member]
    exact Or.inr (Or.inr enabled.2.2.1)
  | charge charged =>
    rw [List.mem_singleton.mp member]
    exact Or.inl (Or.inl enabled.2.2.2.1)
  | settle reservation settled =>
    rw [List.mem_singleton.mp member]
    exact Or.inl (Or.inr enabled.2.2.1)
  | reverse refund =>
    rw [List.mem_singleton.mp member]
    exact Or.inr (Or.inr enabled.2.2.1)
  | transfer out into =>
    rcases List.mem_pair.mp member with rfl | rfl
    · exact Or.inr (Or.inl enabled.kinds.1)
    · exact Or.inr (Or.inl enabled.kinds.2)
  | openAccount _ | place _ _ | release _ | extend _ _ => exact absurd member List.not_mem_nil

theorem History.kinds {events : List Event} {s : State} (history : History State.new events s) :
    ∀ entry ∈ s.entries, entry.Spends ∨ entry.entryType = .transfer ∨ 0 < entry.deltaCredits :=
  History.invariant (P := fun s => ∀ entry ∈ s.entries,
      entry.Spends ∨ entry.entryType = .transfer ∨ 0 < entry.deltaCredits)
    (fun _ member => absurd member List.not_mem_nil)
    (fun s action _ kinds enabled entry member => by
      rw [Action.apply_entries, List.mem_append] at member
      rcases member with old | new
      · exact kinds entry old
      · exact posted_kind enabled new) history

section Reversed

variable {events : List Event} {s : State} {event : Event} {amb : Ambient}

/-- **What a call of `reverse_charge` posts**: nothing, or under a new key a refund of what is left of
an entry of its account. -/
theorem reverseCharge_posted (occurs : event.Occurs amb) {req : ReverseChargeRequest}
    (isReverse : event.call = .reverseCharge req) :
    (event.posted = [] ∧ ∀ target ∈ event.before.entries, target.id = req.chargeEntryId →
      target.accountId = req.account → event.before.accounts.contains req.account = true →
      event.before.findKeyed req.account req.idempotencyKey = none →
      ¬ 0 < event.before.unreversedRemainder target.id) ∨
    ∃ refund, event.posted = [refund] ∧ (Action.reverse refund).Enabled event.before ∧
      event.before.findKeyed req.account req.idempotencyKey = none ∧
      refund.accountId = req.account ∧ refund.reversesEntryId = some req.chargeEntryId := by
  have result := occurs.result
  rw [isReverse] at result
  obtain ⟨⟨answer, after⟩, returned, same⟩ := Option.map_eq_some_iff.mp result
  rw [show after = event.after from congrArg Prod.snd same] at returned
  have still : ∀ {answer'}, reverseCharge amb req event.before = some (answer', event.before) →
      event.posted = [] := by
    intro answer' unchanged
    have kept := Option.some.inj (congrArg (Option.map Prod.snd) (returned.symm.trans unchanged))
    rw [Event.posted, show event.after = event.before from kept, List.drop_length]
  rcases reverseCharge_cases occurs.callable.fresh req with
    ⟨absent, error, unchanged⟩ | ⟨present, ⟨existing, found, unchanged⟩ | ⟨nothing, unchanged⟩ |
      ⟨refund, enabled, own, references, keyed, posts⟩⟩
  · refine Or.inl ⟨still unchanged, fun target _ _ _ present => ?_⟩
    cases absent.symm.trans present
  · refine Or.inl ⟨still unchanged, fun target _ _ _ _ unused => ?_⟩
    cases unused.symm.trans found
  · refine Or.inl ⟨still unchanged, fun target stored isTarget account _ _ => ?_⟩
    rcases nothing with foreign | spent
    · exact absurd account (foreign target stored isTarget)
    · rwa [isTarget]
  · refine Or.inr ⟨refund, ?_, enabled, ?_, own, references⟩
    · have kept := Option.some.inj (congrArg (Option.map Prod.snd) (returned.symm.trans posts))
      rw [Event.posted, show event.after = _ from kept, Action.apply_entries, List.drop_left]
      rfl
    · cases used : event.before.findKeyed req.account req.idempotencyKey with
      | none => rfl
      | some existing =>
        rw [reverseCharge, if_neg (not_not.mpr present), used] at posts
        have kept := congrArg (fun result => result.map fun pair => pair.2.entries.length) posts
        simp [Action.apply_entries, Action.posted] at kept

/-- Entries are never dropped. -/
theorem History.kept (history : History State.new events s) (member : event ∈ events)
    {entry : LedgerEntry} (stored : entry ∈ event.before.entries) : entry ∈ s.entries := by
  obtain ⟨before, after, amb, earlier, occurs, later, _⟩ := history.split member
  obtain ⟨actions, path, _⟩ := occurs.path (earlier.wellFormed .new)
  obtain ⟨steps, rest, _⟩ := later.path ((earlier.wellFormed .new).path path)
  rw [rest.entries, path.entries, List.append_assoc]
  exact List.mem_append_left _ stored

/-- **Every automatic refund** is of a charge or a settle of the account credited, or reverses a
transfer. -/
theorem spendOnly_iff (history : History State.new events s) :
    SpendOnly events s ↔ ∀ event ∈ events, ¬ event.RevertsTransfer := by
  have wf := history.wellFormed .new
  constructor
  · rintro spendOnly event member ⟨req, isReverse, unused, target, stored, isTarget, account,
      transfer, positive⟩
    obtain ⟨before, after, amb, earlier, occurs, _, _⟩ := history.split member
    have present := (earlier.wellFormed .new).entryAccounts target stored
    rcases reverseCharge_posted occurs isReverse with
      ⟨_, nothing⟩ | ⟨refund, posted, _, _, _, references⟩
    · exact nothing target stored isTarget account (account ▸ present) unused positive
    · have automatic : refund ∈ automaticRefunds events := by
        refine List.mem_flatMap.mpr ⟨event, List.mem_filter.mpr ⟨member, ?_⟩, ?_⟩
        · rw [isReverse]
          rfl
        · rw [posted]
          exact List.mem_singleton_self _
      obtain ⟨charge, stored', references', _, spends⟩ := spendOnly refund automatic
      have isCharge : charge = target := List.inj_on_of_nodup_map wf.entryIds stored'
        (history.kept member stored)
        ((Option.some.inj (references'.symm.trans references)).trans isTarget.symm)
      rw [isCharge, LedgerEntry.Spends, transfer] at spends
      rcases spends with usage | settle
      · cases usage
      · cases settle
  · intro never refund automatic
    obtain ⟨event, inside, posted⟩ := List.mem_flatMap.mp automatic
    obtain ⟨member, reverses⟩ := List.mem_filter.mp inside
    obtain ⟨before, after, amb, earlier, occurs, _, _⟩ := history.split member
    have wf' := earlier.wellFormed .new
    cases isCall : event.call with
    | reverseCharge req =>
      rcases reverseCharge_posted occurs isCall with ⟨none, _⟩ |
        ⟨refund', isPosted, enabled, unused, own, references⟩
      · rw [none] at posted
        exact absurd posted List.not_mem_nil
      · rw [isPosted, List.mem_singleton] at posted
        rw [posted]
        obtain ⟨_, _, positive, target, stored, links, account, exact, _⟩ := enabled
        refine ⟨target, history.kept member stored, links, account, ?_⟩
        rcases earlier.kinds target stored with spends | transfer | credit
        · exact spends
        · refine absurd ⟨req, isCall, unused, target, stored, ?_, account.trans own, transfer,
            exact ▸ positive⟩ (never event member)
          exact Option.some.inj (links.symm.trans references)
        · -- an entry that added credits has nothing left to refund
          rw [exact, State.unreversedRemainder, State.charged_of_mem wf'.entryIds stored,
            State.reversed_eq] at positive
          have nonneg := linkedSum_nonneg earlier.links target.id
          linarith
    | voidRun run =>
      obtain ⟨⟨s', summary⟩, result, progress⟩ := voidRun_progress wf' amb run
      have returned := occurs.result
      rw [isCall, step, result] at returned
      have isAfter : s' = event.after :=
        Option.some.inj (congrArg (Option.map Prod.snd) returned)
      obtain ⟨refunds, entries, same⟩ := progress.entries
      rw [Event.posted, ← isAfter, show s'.entries = _ from entries, List.drop_left] at posted
      obtain ⟨target, inRun, links, account⟩ := VoidProgress.target wf' same posted
      obtain ⟨stored, kinds⟩ := mem_runEntries.mp inRun
      refine ⟨target, history.kept member stored, links, account, ?_⟩
      rcases kinds with ⟨usage, _⟩ | ⟨settle, _⟩
      · exact Or.inl usage
      · exact Or.inr settle
    | _ =>
      rw [isCall] at reverses
      cases reverses

end Reversed

/-! ### The bound -/

theorem Call.credits_permits {call : Call} {action : Action} (permitted : call.Permits action) :
    (call.credits = true → ∃ entry, action = .credit entry) ∧
      (call.credits = false → ∀ entry, action ≠ .credit entry) := by
  cases call <;> cases action <;> first
    | exact permitted.elim
    | simp [credits]

/-- The entry of a manual credit. -/
def Action.credit? : Action → Option LedgerEntry
  | .credit entry => some entry
  | _ => none

theorem sum_credited (actions : List Action) : (actions.map Action.credited).sum =
    (((actions.filterMap Action.credit?).filter fun entry => entry.accountId ≠ systemAccount).map
      LedgerEntry.deltaCredits).sum := by
  induction actions with
  | nil => rfl
  | cons action actions ih =>
    rw [List.map_cons, List.sum_cons, ih, List.filterMap_cons]
    cases action with
    | credit entry =>
      by_cases system : entry.accountId = systemAccount
      · simp [Action.credited, Action.credit?, system]
      · simp [Action.credited, Action.credit?, system]
    | _ => exact zero_add _

/-- The system account stays without a parent, so it is never closed as a lease. -/
theorem closeLease_system {events : List Event} {s : State}
    (history : History State.new events s) {event : Event} (member : event ∈ events)
    (isClose : event.call = .closeLease systemAccount) : event.after = event.before := by
  obtain ⟨before, after, amb, earlier, occurs, _, _⟩ := history.split member
  obtain ⟨steps, path, _⟩ := earlier.path .new
  obtain ⟨row, found, same⟩ := path.account
    (show State.new.accounts.get? systemAccount = some _ from rfl)
  have result := occurs.result
  rw [isClose, step, closeLease, found] at result
  dsimp only at result
  rw [same] at result
  exact (Option.some.inj (congrArg (Option.map Prod.snd) result)).symm

/-- **The bound on what is in circulation.** -/
theorem outside_le {events : List Event} {s : State} (history : History State.new events s)
    (spendOnly : SpendOnly events s) (noLease : NoSystemLease events) :
    s.outside ≤ ((manualCredits events).map LedgerEntry.deltaCredits).sum := by
  have wf := history.wellFormed .new
  obtain ⟨steps, path, each⟩ := history.path .new
  have credited : (events.filter fun event => event.call.credits).flatMap Event.posted =
      steps.flatten.filterMap Action.credit? := by
    refine postedBy_eq (fun permitted credits => ?_) (fun permitted spares => ?_) each
    · obtain ⟨entry, rfl⟩ := (Call.credits_permits permitted).1 credits
      rfl
    · rename_i action
      have other := (Call.credits_permits permitted).2 spares
      cases action with
      | credit entry => exact absurd rfl (other entry)
      | _ => rfl
  have reverses : ∀ refund ∈ reversals steps.flatten, ∀ target ∈ s.entries,
      refund.reversesEntryId = some target.id → target.Spends := by
    intro refund automatic target stored references
    rw [← automaticRefunds_eq each] at automatic
    obtain ⟨charge, stored', references', _, spends⟩ := spendOnly refund automatic
    rwa [← List.inj_on_of_nodup_map wf.entryIds stored' stored
      (Option.some.inj (references'.symm.trans references))]
  have payer : ∀ out into, .transfer out into ∈ steps.flatten →
      out.accountId ≠ systemAccount := by
    intro out into member
    obtain ⟨event, inside, actions, isAction, inner, permits⟩ := History.event_of_action each member
    cases isCall : event.call with
    | openLease req =>
      rw [isCall] at permits
      rw [permits.1]
      exact noLease event inside req isCall
    | closeLease lease =>
      rw [isCall] at permits
      rintro system
      have isSystem : lease = systemAccount := permits.symm.trans system
      have same := closeLease_system history inside (isSystem ▸ isCall)
      -- nothing was posted then, but the transfer posts
      have entries := inner.entries
      rw [same, List.self_eq_append_right, List.flatMap_eq_nil_iff] at entries
      cases entries _ isAction
    | _ =>
      rw [isCall] at permits
      exact permits.elim
  have bound := path.potential .new (fun _ stored => absurd stored List.not_mem_nil) reverses payer
  rw [sum_credited, ← credited] at bound
  have start : State.new.potential = 0 := by decide +kernel
  rw [start, zero_add, State.potential] at bound
  rw [State.outside_eq wf history.balanced]
  have nonneg := s.recoverable_nonneg
  exact le_trans (by linarith) bound

/-- **Automatic reversals return spend only** if and only if no `reverse_charge` reverses a transfer:
then every automatic refund is of a charge or a settle of the account it credits, and without a lease
from the system account the other accounts hold no more than was granted and refunded by hand. -/
theorem spend_only_iff {events : List Event} {s : State} (history : History State.new events s) :
    (SpendOnly events s ∧ (NoSystemLease events →
      s.outside ≤ ((manualCredits events).map LedgerEntry.deltaCredits).sum)) ↔
      ∀ event ∈ events, ¬ event.RevertsTransfer := by
  constructor
  · exact fun both => (spendOnly_iff history).mp both.1
  · intro never
    have spendOnly := (spendOnly_iff history).mpr never
    exact ⟨spendOnly, outside_le history spendOnly⟩

/-- A pool with a grant of 100, and a lease of 40 from it; then its outgoing entry is reversed. -/
def leaseReversal : List (Ambient × Call) :=
  [.openAccount ⟨1, .user, true, none⟩, .grant ⟨1, 100, .paid, none⟩, .openLease ⟨1, 40⟩,
    .reverseCharge ⟨1, 1007, none, "k"⟩].zipIdx.map fun call => (numbered call.2, call.1)

/-- **A lease can be reversed**: the pool and its lease then hold 140 of the 100 credits granted. -/
theorem transfer_reversed : ∃ events s, History State.new events s ∧ NoSystemLease events ∧
    s.outside = 140 ∧ ((manualCredits events).map LedgerEntry.deltaCredits).sum = 100 ∧
    ¬ SpendOnly events s := by
  have computed : (replay State.new leaseReversal).any (fun result =>
      decide (result.2.outside = 140 ∧
        ((manualCredits result.1).map LedgerEntry.deltaCredits).sum = 100)) = true := by
    decide +kernel
  obtain ⟨⟨events, s⟩, replayed, facts⟩ := (Option.any_eq_true _ _).mp computed
  obtain ⟨total, granted⟩ := of_decide_eq_true facts
  have history := (run_of_replay replayed).history
  have noLease : NoSystemLease events := by
    intro event member req isLease
    have inside : event.call ∈ leaseReversal.map Prod.snd := by
      rw [← calls_of_replay replayed]
      exact List.mem_map_of_mem member
    rw [isLease] at inside
    simp only [leaseReversal, List.zipIdx_cons, List.zipIdx_nil, List.map_cons, List.map_nil,
      List.mem_cons, reduceCtorEq, Call.openLease.injEq, List.not_mem_nil, or_false,
      false_or] at inside
    rw [inside]
    decide
  refine ⟨events, s, history, noLease, total, granted, fun spendOnly => ?_⟩
  have bound := outside_le history spendOnly noLease
  rw [total, granted] at bound
  exact absurd bound (by decide)

/-- The script of a settle and a charge, a run void and a reversal moves nothing but spend. -/
theorem spend_only_iff_sample : ∃ events s, History State.new events s ∧
    (automaticRefunds events).length = 2 ∧ SpendOnly events s ∧ s.outside = 100 := by
  have computed : (replay State.new reversingCalls).any (fun result =>
      decide ((automaticRefunds result.1).length = 2 ∧ result.2.outside = 100 ∧
        ∀ entry ∈ result.2.entries, entry.entryType ≠ .transfer)) = true := by
    decide +kernel
  obtain ⟨⟨events, s⟩, replayed, facts⟩ := (Option.any_eq_true _ _).mp computed
  obtain ⟨count, total, untransferred⟩ := of_decide_eq_true facts
  have history := (run_of_replay replayed).history
  refine ⟨events, s, history, count, ((spend_only_iff history).mpr ?_).1, total⟩
  rintro event member ⟨_, _, _, target, stored, _, _, transfer, _⟩
  exact untransferred target (history.kept member stored) transfer

end Meter.Ledger
