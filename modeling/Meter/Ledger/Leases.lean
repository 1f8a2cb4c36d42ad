/-
**Leases are transparent.**

A lease only moves credits between an account and its parent, so a whole tree of accounts holds what
was posted to it against the system account, however the credits are spread over the tree.

* `State.tree` — an account and every account whose parent chain reaches it.
* `sum_settled_of_whole` — **the law**: over accounts that no transfer leaves, the settled balances
  sum to the deltas of the entries that are not transfers.
* `closeLease_eq` — what closing a lease answers and moves.
* `settled_of_closing` — closing accounts before their parents empties them all.
* `Genealogy` — accounts in the order of their creation; a parent comes before its children.
-/

import Mathlib.Algebra.BigOperators.Group.Finset.Piecewise
import Meter.Ledger.Books

namespace Meter.Ledger

open Meter.Lib

/-! ### Trees of accounts -/

namespace State

/-- The first account was opened below the second. -/
def ParentOf (s : State) (child parent : AccountId) : Prop :=
  ∃ row, s.accounts.get? child = some row ∧ row.account.parentId = some parent

/-- The parent chain of an account reaches the root. -/
def Under (s : State) (root account : AccountId) : Prop :=
  Relation.ReflTransGen s.ParentOf account root

/-- The parent chain of an account reaches the root after a step or more. -/
def Below (s : State) (root account : AccountId) : Prop :=
  Relation.TransGen s.ParentOf account root

open Classical in
/-- The accounts whose parent chain reaches the root. -/
noncomputable def tree (s : State) (root : AccountId) : Finset AccountId :=
  (s.accounts.rows.map Prod.fst).toFinset.filter (s.Under root)

/-- No account of the set has a parent or a child outside. -/
def Whole (s : State) (accounts : Finset AccountId) : Prop :=
  ∀ child parent, s.ParentOf child parent → (child ∈ accounts ↔ parent ∈ accounts)

variable {s : State} {root account : AccountId}

theorem ParentOf.present {child parent : AccountId} (isParent : s.ParentOf child parent) :
    s.accounts.contains child = true := by
  obtain ⟨row, found, _⟩ := isParent
  exact Table.contains_iff.mpr ⟨row, found⟩

theorem ParentOf.unique {child parent other : AccountId} (isParent : s.ParentOf child parent)
    (isOther : s.ParentOf child other) : other = parent := by
  obtain ⟨row, found, named⟩ := isParent
  obtain ⟨row', found', named'⟩ := isOther
  cases found.symm.trans found'
  exact Option.some.inj (named'.symm.trans named)

theorem mem_tree (present : s.accounts.contains root = true) :
    account ∈ s.tree root ↔ s.Under root account := by
  simp only [tree, Finset.mem_filter, List.mem_toFinset, Table.mem_keys_iff]
  refine ⟨fun both => both.2, fun under => ⟨?_, under⟩⟩
  rcases under.cases_head with rfl | ⟨parent, isParent, _⟩
  · exact Table.contains_iff.mp present
  · exact Table.contains_iff.mp isParent.present

/-- The tree of an account without a parent is whole. -/
theorem whole_tree (present : s.accounts.contains root = true)
    (isRoot : ∀ parent, ¬ s.ParentOf root parent) : s.Whole (s.tree root) := by
  intro child parent isParent
  rw [mem_tree present, mem_tree present]
  refine ⟨fun under => ?_, fun under => under.head isParent⟩
  rcases under.cases_head with rfl | ⟨other, isOther, rest⟩
  · exact absurd isParent (isRoot parent)
  · rwa [ParentOf.unique isOther isParent]

/-- An account of the tree is its root or below it. -/
theorem Under.eq_or_below (under : s.Under root account) : account = root ∨ s.Below root account :=
  Relation.reflTransGen_iff_eq_or_transGen.mp under |>.imp Eq.symm id

end State

/-- A path only adds parents. -/
theorem Path.parentOf {s s' : State} {actions : List Action} (path : Path s actions s')
    {child parent : AccountId} (isParent : s.ParentOf child parent) : s'.ParentOf child parent := by
  obtain ⟨row, found, named⟩ := isParent
  obtain ⟨row', found', same⟩ := path.account found
  exact ⟨row', found', same ▸ named⟩

/-! ### What was posted to a set of accounts -/

/-- The deltas posted to the accounts by entries that are not transfers. -/
def posted (entries : List LedgerEntry) (accounts : Finset AccountId) : Credit :=
  ((entries.filter fun entry => entry.entryType ≠ .transfer ∧ entry.accountId ∈ accounts).map
    LedgerEntry.deltaCredits).sum

/-- The deltas posted to the accounts by transfers. -/
def moved (entries : List LedgerEntry) (accounts : Finset AccountId) : Credit :=
  ((entries.filter fun entry => entry.entryType = .transfer ∧ entry.accountId ∈ accounts).map
    LedgerEntry.deltaCredits).sum

theorem posted_append (first second : List LedgerEntry) (accounts : Finset AccountId) :
    posted (first ++ second) accounts = posted first accounts + posted second accounts := by
  simp only [posted, List.filter_append, List.map_append, List.sum_append]

theorem moved_append (first second : List LedgerEntry) (accounts : Finset AccountId) :
    moved (first ++ second) accounts = moved first accounts + moved second accounts := by
  simp only [moved, List.filter_append, List.map_append, List.sum_append]

/-- **The folds of a set of accounts sum to what was posted and what was moved.** -/
theorem sum_deltas (entries : List LedgerEntry) (accounts : Finset AccountId) :
    ∑ account ∈ accounts, deltas entries account =
      posted entries accounts + moved entries accounts := by
  induction entries using List.reverseRecOn with
  | nil => simp [deltas, posted, moved]
  | append_singleton entries entry ih =>
    simp only [deltas_append_singleton, Finset.sum_add_distrib, ih, posted_append, moved_append,
      Finset.sum_ite_eq]
    by_cases inside : entry.accountId ∈ accounts <;> by_cases transfer : entry.entryType = .transfer
    all_goals simp [posted, moved, inside, transfer, add_assoc, add_comm, add_left_comm]

/-- Transfers that stay within the accounts cancel. -/
theorem Path.moved {s s' : State} {actions : List Action} (path : Path s actions s')
    {accounts : Finset AccountId} (within : ∀ out into, .transfer out into ∈ actions →
      (out.accountId ∈ accounts ↔ into.accountId ∈ accounts)) :
    Ledger.moved s'.entries accounts = Ledger.moved s.entries accounts := by
  have quiet : ∀ entry : LedgerEntry, entry.entryType ≠ .transfer →
      Ledger.moved [entry] accounts = 0 := by
    intro entry kind
    simp [Ledger.moved, kind]
  induction path with
  | nil s => rfl
  | @cons s s' action actions enabled _ ih =>
    rw [ih fun out into member => within out into (List.mem_cons_of_mem _ member),
      Action.apply_entries, moved_append, add_eq_left]
    cases action with
    | transfer out into =>
      have both := within out into List.mem_cons_self
      by_cases inside : into.accountId ∈ accounts
      · simp [Action.posted, Ledger.moved, enabled.kinds, both, inside, enabled.opposite]
      · simp [Action.posted, Ledger.moved, both, inside]
    | credit entry =>
      refine quiet entry ?_
      rcases enabled.2.2.2 with ⟨kind, _⟩ | kind <;> rw [kind] <;> decide
    | charge entry => exact quiet entry (by rw [enabled.2.2.2.1]; decide)
    | settle reservation entry => exact quiet entry (by rw [enabled.2.2.1]; decide)
    | reverse entry => exact quiet entry (by rw [enabled.2.1]; decide)
    | openAccount _ | place _ _ | release _ | extend _ _ => rfl

/-- Transfers post nothing else. -/
theorem Path.posted_of_transfers {s s' : State} {actions : List Action} (path : Path s actions s')
    (transfers : ∀ action ∈ actions, ∃ out into, action = .transfer out into)
    (accounts : Finset AccountId) : posted s'.entries accounts = posted s.entries accounts := by
  induction path with
  | nil s => rfl
  | @cons s s' action actions enabled _ ih =>
    obtain ⟨out, into, rfl⟩ := transfers action List.mem_cons_self
    rw [ih fun action member => transfers action (List.mem_cons_of_mem _ member),
      Action.apply_entries, posted_append, add_eq_left]
    simp [Action.posted, posted, enabled.kinds]

/-! ### Transfers stay between kin -/

/-- **A call transfers credits only between an account and its parent.** -/
theorem Event.Happens.kin {event : Event} {amb : Ambient} (wf : event.before.WellFormed)
    (rooted : event.before.Rooted) (happens : event.Happens amb) :
    ∃ actions, Path event.before actions event.after ∧
      ∀ out into, .transfer out into ∈ actions →
        event.after.ParentOf out.accountId into.accountId ∨
          event.after.ParentOf into.accountId out.accountId := by
  obtain ⟨before, call, reply, after⟩ := event
  obtain ⟨actions, path, permitted⟩ := happens.path wf
  have fresh := happens.admissible.fresh
  have result := happens.result
  dsimp only at *
  cases call with
  | openLease req =>
    rcases openLease_cases fresh req with ⟨error, returned⟩ |
      ⟨child, _, below, _, opens, moves, returned⟩
    · rw [step, returned] at result
      cases result
      exact ⟨[], .nil _, fun _ _ member => absurd member List.not_mem_nil⟩
    · rw [step, returned] at result
      cases result
      have whole := Path.cons _ opens (.single moves)
      refine ⟨_, whole, fun out into member => Or.inr ?_⟩
      rcases List.mem_pair.mp member with other | same
      · cases other
      · cases same
        refine (Path.single moves).parentOf ⟨AccountRow.new child, ?_, below⟩
        simp only [Action.apply, Table.get?_set, transferEntry, if_true]
  | closeLease lease =>
    rcases closeLease_cases wf fresh (rooted lease) with ⟨error, returned, _⟩ |
      ⟨row, parent, found, isParent, ⟨_, returned⟩ | ⟨_, moves, returned⟩⟩
    · rw [step, returned] at result
      cases result
      exact ⟨[], .nil _, fun _ _ member => absurd member List.not_mem_nil⟩
    · rw [step, returned] at result
      cases result
      exact ⟨[], .nil _, fun _ _ member => absurd member List.not_mem_nil⟩
    · rw [step, returned] at result
      cases result
      refine ⟨_, .single moves, fun out into member => Or.inl ?_⟩
      cases List.mem_singleton.mp member
      exact (Path.single moves).parentOf ⟨row, found, isParent⟩
  | _ => exact ⟨actions, path, fun out into member => (permitted _ member).elim⟩

/-- A run moves nothing into or out of accounts that are whole at its end. -/
theorem Run.moved {s s' : State} {events : List Event} (run : Run s events s') (wf : s.WellFormed)
    (rooted : s.Rooted) {accounts : Finset AccountId} (whole : s'.Whole accounts) :
    Ledger.moved s'.entries accounts = Ledger.moved s.entries accounts := by
  induction run with
  | nil s => rfl
  | cons amb event happens rest ih =>
    obtain ⟨actions, path, kin⟩ := happens.kin wf rooted
    have wf' := wf.path path
    obtain ⟨steps, later, _⟩ := rest.path wf'
    rw [ih wf' (rooted.step wf happens.admissible happens.result) whole]
    refine path.moved fun out into member => ?_
    rcases kin out into member with isParent | isParent
    · exact whole _ _ (later.parentOf isParent)
    · exact (whole _ _ (later.parentOf isParent)).symm

/-- **Transparency**: over accounts that no transfer leaves, the settled balances sum to what was
posted to them. -/
theorem sum_settled_of_whole {s : State} {events : List Event} (run : Run State.new events s)
    {accounts : Finset AccountId} (whole : s.Whole accounts)
    (notSystem : systemAccount ∉ accounts) :
    ∑ account ∈ accounts, s.settled account = posted s.entries accounts := by
  have folds := run.history.balanced.toFolds
  calc ∑ account ∈ accounts, s.settled account
      = ∑ account ∈ accounts, deltas s.entries account :=
        Finset.sum_congr rfl fun account inside =>
          folds.fold account fun same => notSystem (same ▸ inside)
    _ = posted s.entries accounts + Ledger.moved s.entries accounts := sum_deltas _ _
    _ = posted s.entries accounts := by
        rw [run.moved .new .new whole]
        exact add_zero _

/-! ### Closing one lease -/

/-- **Closing a lease**: it answers what was available, if that is positive, and moves it to the
parent; holds and parents stay. -/
theorem closeLease_eq {s : State} {amb : Ambient} (wf : s.WellFormed) (rooted : s.Rooted)
    (fresh : amb.Fresh s) {lease parent : AccountId} (isParent : s.ParentOf lease parent) :
    ∃ s', closeLease amb lease s = some (.ok (max 0 (s.available lease)), s') ∧
      s'.holds = s.holds ∧
      ∀ account, s'.settled account =
        s.settled account + flow lease parent (max 0 (s.available lease)) account := by
  obtain ⟨row, found, named⟩ := isParent
  rcases closeLease_cases wf fresh (rooted lease) with ⟨error, _, rootless⟩ |
    ⟨row', parent', found', named', rest⟩
  · rw [rootless row found] at named
    cases named
  cases found.symm.trans found'
  cases named.symm.trans named'
  rcases rest with ⟨spent, result⟩ | ⟨positive, moves, result⟩
  · refine ⟨s, by rw [result, max_eq_left spent], rfl, fun account => ?_⟩
    rw [max_eq_left spent, flow_zero, add_zero]
  · rw [max_eq_right positive.le]
    refine ⟨_, result, rfl, fun account => ?_⟩
    exact State.settled_pay_of (Table.contains_iff.mpr ⟨row, found⟩)
      (rooted lease row parent found named) _ _

/-- What is left available of a lease once it is closed. -/
theorem available_of_closed {s s' : State} (wf : s.WellFormed) {lease parent : AccountId}
    (isParent : s.ParentOf lease parent) (holds : s'.holds = s.holds)
    (settled : s'.settled lease =
      s.settled lease + flow lease parent (max 0 (s.available lease)) lease) :
    s'.available lease = min 0 (s.available lease) := by
  obtain ⟨row, found, named⟩ := isParent
  have different : parent ≠ lease := by
    rintro rfl
    exact wf.parents found named
  have held : s'.held lease = s.held lease := by rw [State.held, State.held, holds]
  rw [flow_payer different] at settled
  have split := max_add_min 0 (s.available lease)
  rw [State.available, settled, held]
  rw [State.available] at split ⊢
  linarith

/-! ### Closing many leases -/

/-- One call that closes a lease, with the states around it. -/
theorem Event.Happens.closes {event : Event} {amb : Ambient} (wf : event.before.WellFormed)
    (rooted : event.before.Rooted) (happens : event.Happens amb) {lease parent : AccountId}
    (closes : event.call = .closeLease lease) (isParent : event.before.ParentOf lease parent) :
    event.after.holds = event.before.holds ∧ ∀ account, event.after.settled account =
      event.before.settled account +
        flow lease parent (max 0 (event.before.available lease)) account := by
  obtain ⟨s', result, holds, settled⟩ :=
    closeLease_eq wf rooted happens.admissible.fresh isParent
  have returned := happens.result
  rw [closes, step, result] at returned
  obtain ⟨_, rfl⟩ := Prod.mk.inj (Option.some.inj returned)
  exact ⟨holds, settled⟩

/-- A call that closes a lease opens no account. -/
theorem parentOf_of_closed {event : Event} {amb : Ambient} (wf : event.before.WellFormed)
    (happens : event.Happens amb) {lease : AccountId} (closes : event.call = .closeLease lease)
    {child parent : AccountId} :
    event.after.ParentOf child parent ↔ event.before.ParentOf child parent := by
  obtain ⟨actions, path, permitted⟩ := happens.path wf
  refine ⟨fun isParent => ?_, path.parentOf⟩
  obtain ⟨row, found, named⟩ := isParent
  rcases path.account_new found with ⟨old, foundOld, same⟩ | opened
  · exact ⟨old, foundOld, same ▸ named⟩
  · have permits := permitted _ opened
    rw [closes] at permits
    exact permits.elim

/-- Leases that can be closed one after another: each has a parent, no hold and no debt, and no
later one is a child of an earlier one. -/
structure Closable (s : State) (leases : List AccountId) : Prop where
  parents : ∀ lease ∈ leases, ∃ parent, s.ParentOf lease parent
  ordered : leases.Pairwise fun first second => ¬ s.ParentOf second first
  unheld : ∀ lease ∈ leases, s.held lease = 0
  solvent : ∀ lease ∈ leases, 0 ≤ s.settled lease

/-- **Closing the first of them** empties it, leaves the rest closable, and touches only it and its
parent. -/
theorem Closable.first {event : Event} {amb : Ambient} (wf : event.before.WellFormed)
    (rooted : event.before.Rooted) (happens : event.Happens amb) {lease : AccountId}
    {rest : List AccountId} (closes : event.call = .closeLease lease)
    (closable : Closable event.before (lease :: rest)) :
    event.after.settled lease = 0 ∧ Closable event.after rest ∧
      ∀ account ≠ lease, ¬ event.before.ParentOf lease account →
        event.after.settled account = event.before.settled account := by
  obtain ⟨parent, isParent⟩ := closable.parents lease List.mem_cons_self
  obtain ⟨holds, settled⟩ := happens.closes wf rooted closes isParent
  have solvent := closable.solvent lease List.mem_cons_self
  have available : max 0 (event.before.available lease) = event.before.settled lease := by
    rw [State.available, closable.unheld lease List.mem_cons_self, sub_zero]
    exact max_eq_right solvent
  have different : parent ≠ lease := by
    rintro rfl
    obtain ⟨row, found, named⟩ := isParent
    exact wf.parents found named
  rw [available] at settled
  have emptied : event.after.settled lease = 0 := by
    rw [settled, flow_payer different, add_neg_cancel]
  refine ⟨emptied, ⟨fun other inside => ?_, ?_, fun other inside => ?_, fun other inside => ?_⟩,
    fun account other childless => ?_⟩
  · obtain ⟨parent, isParent⟩ := closable.parents other (List.mem_cons_of_mem _ inside)
    exact ⟨parent, (parentOf_of_closed wf happens closes).mpr isParent⟩
  · exact (List.pairwise_cons.mp closable.ordered).2.imp fun apart isParent =>
      apart ((parentOf_of_closed wf happens closes).mp isParent)
  · rw [State.held, holds]
    exact closable.unheld other (List.mem_cons_of_mem _ inside)
  · by_cases again : other = lease
    · rw [again, emptied]
    · have before := closable.solvent other (List.mem_cons_of_mem _ inside)
      rw [settled, flow, if_neg again, sub_zero]
      split
      · exact add_nonneg before solvent
      · rwa [add_zero]
  · have notParent : account ≠ parent := by
      rintro rfl
      exact childless isParent
    rw [settled, flow_other other notParent, add_zero]

/-- **Closing children before their parents empties them**, and touches only them and their
parents. -/
theorem settled_of_closing {leases : List AccountId} :
    ∀ {s s' : State} {events : List Event}, Run s events s' → s.WellFormed → s.Rooted →
      events.map Event.call = leases.map .closeLease → Closable s leases →
      (∀ lease ∈ leases, s'.settled lease = 0) ∧
      ∀ account, account ∉ leases → (∀ lease ∈ leases, ¬ s.ParentOf lease account) →
        s'.settled account = s.settled account := by
  induction leases with
  | nil =>
    intro s s' events run _ _ calls _
    cases List.map_eq_nil_iff.mp calls
    cases run
    exact ⟨fun _ member => absurd member List.not_mem_nil, fun _ _ _ => rfl⟩
  | cons lease rest ih =>
    intro s s' events run wf rooted calls closable
    cases run with
    | nil s => cases calls
    | @cons amb event events s' happens later =>
      rw [List.map_cons, List.map_cons, List.cons.injEq] at calls
      obtain ⟨closes, calls⟩ := calls
      obtain ⟨emptied, still, touches⟩ := closable.first wf rooted happens closes
      obtain ⟨actions, path, _⟩ := happens.path wf
      have behind := (List.pairwise_cons.mp closable.ordered).1
      obtain ⟨empty, frame⟩ := ih later (wf.path path)
        (rooted.step wf happens.admissible happens.result) calls still
      refine ⟨fun other inside => ?_, fun account outside childless => ?_⟩
      · by_cases again : other ∈ rest
        · exact empty other again
        · rcases List.mem_cons.mp inside with rfl | inside
          · -- nothing that is closed later is its child
            rw [frame other again fun child member isParent => behind child member
              ((parentOf_of_closed wf happens closes).mp isParent), emptied]
          · exact absurd inside again
      · rw [List.mem_cons, not_or] at outside
        rw [frame account outside.2 fun child member isParent =>
            childless child (List.mem_cons_of_mem _ member)
              ((parentOf_of_closed wf happens closes).mp isParent),
          touches account outside.1 (childless lease List.mem_cons_self)]

/-! ### The order of creation -/

/-- The account that a call created. -/
def Event.created (event : Event) : Option AccountId :=
  match event.reply with
  | .ok (.account account) => some account.id
  | _ => none

/-- The accounts that a run created, in order. -/
def created (events : List Event) : List AccountId := events.filterMap Event.created

theorem created_cons (event : Event) (events : List Event) :
    created (event :: events) = event.created.toList ++ created events := by
  rw [created, List.filterMap_cons]
  cases event.created <;> rfl

/-- A list of accounts in the order of their creation: all but the system account, and no account
before its parent. -/
structure Genealogy (order : List AccountId) (s : State) : Prop where
  known : ∀ account ∈ order, s.accounts.contains account = true
  covers : ∀ account, s.accounts.contains account = true →
    account = systemAccount ∨ account ∈ order
  ordered : order.Pairwise fun earlier later => ¬ s.ParentOf earlier later

/-- Only an opened account is answered as one. -/
theorem created_of_reply {α : Type} {outcome : Outcome α} {wrap : α → Reply} {event : Event}
    (result : outcome.reply wrap = some (event.reply, event.after))
    (other : ∀ answer account, wrap answer ≠ .account account) : event.created = none := by
  obtain ⟨⟨answer, s'⟩, _, same⟩ := Option.map_eq_some_iff.mp result
  have replied : answer.map wrap = event.reply := congrArg Prod.fst same
  rw [Event.created, ← replied]
  cases answer with
  | error _ => rfl
  | ok answer =>
    show (match (Except.ok (wrap answer) : Except LedgerError Reply) with
      | .ok (.account account) => some account.id
      | _ => none) = none
    split
    · rename_i account named
      exact absurd (Except.ok.inj named) (other answer account)
    · rfl

/-- The accounts after a path are those before it and those it opens. -/
theorem Path.contains_iff {s s' : State} {actions : List Action} (path : Path s actions s')
    (account : AccountId) : s'.accounts.contains account = true ↔
      s.accounts.contains account = true ∨
        ∃ opened, .openAccount opened ∈ actions ∧ opened.id = account := by
  induction path with
  | nil s => simp
  | @cons s s' action actions enabled _ ih =>
    have one : (action.apply s).accounts.contains account = true ↔
        s.accounts.contains account = true ∨
          ∃ opened, action = .openAccount opened ∧ opened.id = account := by
      refine ⟨fun present => ?_, fun either => ?_⟩
      · obtain ⟨row, found⟩ := Table.contains_iff.mp present
        rcases account_apply found with ⟨old, foundOld, _⟩ | ⟨opens, own⟩
        · exact Or.inl (Table.contains_iff.mpr ⟨old, foundOld⟩)
        · exact Or.inr ⟨_, opens, own.symm⟩
      · rcases either with present | ⟨opened, rfl, rfl⟩
        · exact Action.contains_apply present action
        · rw [Table.contains_iff]
          exact ⟨AccountRow.new opened, by rw [Action.apply, Table.get?_set, if_pos rfl]⟩
    rw [ih, one, or_assoc]
    refine or_congr_right ⟨?_, ?_⟩
    · rintro (⟨opened, rfl, own⟩ | ⟨opened, member, own⟩)
      · exact ⟨opened, List.mem_cons_self, own⟩
      · exact ⟨opened, List.mem_cons_of_mem _ member, own⟩
    · rintro ⟨opened, member, own⟩
      rcases List.mem_cons.mp member with same | later
      · exact Or.inl ⟨opened, same.symm, own⟩
      · exact Or.inr ⟨opened, later, own⟩

/-- **A call opens the account that it answers with, and no other.** -/
theorem Event.Happens.creates {event : Event} {amb : Ambient} (wf : event.before.WellFormed)
    (happens : event.Happens amb) :
    (∃ actions, Path event.before actions event.after ∧ ∀ account,
      (∃ opened, .openAccount opened ∈ actions ∧ opened.id = account) ↔
        event.created = some account) ∧
    ∀ account, event.created = some account → event.before.accounts.get? account = none := by
  obtain ⟨before, call, reply, after⟩ := event
  obtain ⟨actions, path, permitted⟩ := happens.path wf
  have fresh : amb.Fresh before := happens.admissible.fresh
  have result := happens.result
  -- a call that opens nothing
  have quiet : ∀ {actions}, Path before actions after →
      Event.created ⟨before, call, reply, after⟩ = none →
      (∀ opened, .openAccount opened ∉ actions) →
      (∃ actions, Path before actions after ∧ ∀ account,
        (∃ opened, .openAccount opened ∈ actions ∧ opened.id = account) ↔
          Event.created ⟨before, call, reply, after⟩ = some account) ∧
      ∀ account, Event.created ⟨before, call, reply, after⟩ = some account →
        before.accounts.get? account = none := by
    intro actions path unnamed unopened
    rw [unnamed]
    refine ⟨⟨actions, path, fun account => ⟨?_, fun named => by cases named⟩⟩,
      fun account named => by cases named⟩
    rintro ⟨opened, member, _⟩
    exact absurd member (unopened opened)
  cases call with
  | openAccount req =>
    have returned : openAccount amb req before = some (.ok
        ⟨amb.accountId, req.orgId, req.scope, req.noOverdraft, req.parentId⟩, _) := rfl
    dsimp only at result
    rw [step, returned] at result
    cases result
    have opens : (Action.openAccount
        ⟨amb.accountId, req.orgId, req.scope, req.noOverdraft, req.parentId⟩).Enabled before :=
      ⟨fresh.account, parent_ne_self fresh.account happens.admissible.parent⟩
    refine ⟨⟨_, .single opens, fun account => ?_⟩, fun account named => ?_⟩
    · simp [Event.created, Except.map]
    · cases named
      exact fresh.account
  | openLease req =>
    dsimp only at result
    rcases openLease_cases fresh req with ⟨error, returned⟩ |
      ⟨child, own, below, _, opens, moves, returned⟩
    · rw [step, returned] at result
      cases result
      exact quiet (.nil _) rfl fun _ => List.not_mem_nil
    · rw [step, returned] at result
      cases result
      refine ⟨⟨_, .cons _ opens (.single moves), fun account => ?_⟩, fun account named => ?_⟩
      · simp [Event.created, Except.map, moveAction]
      · cases named
        rw [own]
        exact fresh.account
  | _ =>
    exact quiet path (created_of_reply result fun _ _ same => by cases same)
      fun opened member => (permitted _ member).elim

/-- One more call extends the order. -/
theorem Genealogy.call {order : List AccountId} {event : Event} {amb : Ambient}
    (wf : event.before.WellFormed) (rooted : event.before.Rooted)
    (genealogy : Genealogy order event.before) (happens : event.Happens amb) :
    Genealogy (order ++ event.created.toList) event.after := by
  obtain ⟨⟨actions, path, opens⟩, fresh⟩ := happens.creates wf
  have contains : ∀ account, event.after.accounts.contains account = true ↔
      event.before.accounts.contains account = true ∨ event.created = some account := by
    intro account
    rw [path.contains_iff, opens]
  refine ⟨fun account member => ?_, fun account present => ?_, ?_⟩
  · rw [contains]
    rcases List.mem_append.mp member with old | new
    · exact Or.inl (genealogy.known account old)
    · exact Or.inr (Option.mem_toList.mp new)
  · rw [List.mem_append, Option.mem_toList]
    rcases (contains account).mp present with old | new
    · exact (genealogy.covers account old).imp_right Or.inl
    · exact Or.inr (Or.inr new)
  · have wf' := wf.path path
    -- a parent was there before the call, and so were the parents of old accounts
    have parents : ∀ {child parent}, event.after.ParentOf child parent →
        event.before.accounts.contains parent = true := by
      rintro child parent ⟨row, found, named⟩
      rcases path.account_new found with ⟨old, foundOld, same⟩ | opened
      · exact rooted child old parent foundOld (same ▸ named)
      · have new := (opens child).mp ⟨row.account, opened, wf'.accountIds found⟩
        have present := (rooted.step wf happens.admissible happens.result) child row parent found
          named
        refine ((contains parent).mp present).resolve_right fun again => ?_
        cases new.symm.trans again
        exact wf'.parents found named
    have before : ∀ {child parent}, event.before.accounts.contains child = true →
        event.after.ParentOf child parent → event.before.ParentOf child parent := by
      rintro child parent present ⟨row, found, named⟩
      rcases path.account_new found with ⟨old, foundOld, same⟩ | opened
      · exact ⟨old, foundOld, same ▸ named⟩
      · have absent := fresh child ((opens child).mp ⟨row.account, opened, wf'.accountIds found⟩)
        rw [Table.contains, absent] at present
        cases present
    refine List.pairwise_append.mpr ⟨?_, ?_, fun earlier old later new isParent => ?_⟩
    · exact genealogy.ordered.imp_of_mem fun old _ apart isParent =>
        apart (before (genealogy.known _ old) isParent)
    · cases event.created with
      | none => exact List.Pairwise.nil
      | some account => exact List.pairwise_singleton _ _
    · have present := parents isParent
      rw [Table.contains, fresh later (Option.mem_toList.mp new)] at present
      cases present

/-- **The accounts of a run in the order of their creation.** -/
theorem Run.genealogy {s s' : State} {events : List Event} (run : Run s events s')
    (wf : s.WellFormed) (rooted : s.Rooted) {order : List AccountId}
    (genealogy : Genealogy order s) : Genealogy (order ++ created events) s' := by
  induction run generalizing order with
  | nil s => simpa [created] using genealogy
  | cons amb event happens _ ih =>
    obtain ⟨actions, path, _⟩ := happens.path wf
    have next := ih (wf.path path) (rooted.step wf happens.admissible happens.result)
      (genealogy.call wf rooted happens)
    rwa [List.append_assoc, ← created_cons] at next

theorem Genealogy.new : Genealogy [] State.new := by
  refine ⟨fun _ member => absurd member List.not_mem_nil, fun account present => ?_, .nil⟩
  obtain ⟨row, found⟩ := Table.contains_iff.mp present
  simp only [State.new, Table.get?_set, Table.get?_empty] at found
  split at found
  · exact Or.inl ‹_›
  · cases found

open Classical in
/-- The accounts below a root, in the order of their creation. -/
noncomputable def State.leases (s : State) (root : AccountId) (events : List Event) :
    List AccountId :=
  (created events).filter fun account => s.Below root account

/-- No account below the root has an open hold or a debt. -/
def State.Quiet (s : State) (root : AccountId) : Prop :=
  ∀ account, s.Below root account → 0 ≤ s.settled account ∧
    ∀ reservation hold, s.holds.get? reservation = some hold → hold.account = account →
      hold.status ≠ .open

/-- The system account has no parent. -/
theorem Run.system_root {s : State} {events : List Event} (run : Run State.new events s)
    (parent : AccountId) : ¬ s.ParentOf systemAccount parent := by
  rintro ⟨row, found, named⟩
  obtain ⟨steps, path, _⟩ := run.path .new
  obtain ⟨row', found', same⟩ := @Path.account _ _ _ path systemAccount _ rfl
  cases found.symm.trans found'
  rw [same] at named
  cases named

theorem State.mem_leases {s : State} {events : List Event} (run : Run State.new events s)
    {root account : AccountId} : account ∈ s.leases root events ↔ s.Below root account := by
  have genealogy := run.genealogy .new .new .new
  simp only [State.leases, List.mem_filter, decide_eq_true_eq]
  refine ⟨fun both => both.2, fun below => ⟨?_, below⟩⟩
  obtain ⟨parent, isParent, _⟩ := Relation.TransGen.head'_iff.mp below
  refine (genealogy.covers account isParent.present).resolve_left ?_
  rintro rfl
  exact run.system_root parent isParent

/-- An account without open holds has nothing held. -/
theorem State.held_eq_zero {s : State} {account : AccountId}
    (unheld : ∀ reservation hold, s.holds.get? reservation = some hold → hold.account = account →
      hold.status ≠ .open) : s.held account = 0 := by
  have none_ : (s.holds.values.filter fun hold =>
      hold.account = account ∧ hold.status = .open) = [] := by
    refine List.filter_eq_nil_iff.mpr fun hold member => ?_
    obtain ⟨reservation, found⟩ := Table.mem_values_iff.mp member
    simp only [decide_eq_true_eq]
    exact fun both => unheld reservation hold found both.1 both.2
  rw [State.held, none_]
  rfl

/-- **The accounts below a root can be closed in the reverse order of their creation.** -/
theorem State.Quiet.closable {s : State} {events : List Event} (run : Run State.new events s)
    {root : AccountId} (quiet : s.Quiet root) :
    Closable s (s.leases root events).reverse := by
  have genealogy := run.genealogy .new .new .new
  have below : ∀ lease ∈ (s.leases root events).reverse, s.Below root lease :=
    fun lease member => (State.mem_leases run).mp (List.mem_reverse.mp member)
  refine ⟨fun lease member => ?_, ?_, fun lease member => ?_, fun lease member => ?_⟩
  · obtain ⟨parent, isParent, _⟩ := Relation.TransGen.head'_iff.mp (below lease member)
    exact ⟨parent, isParent⟩
  · rw [List.pairwise_reverse]
    exact genealogy.ordered.filter _
  · exact State.held_eq_zero (quiet lease (below lease member)).2
  · exact (quiet lease (below lease member)).1

/-- Closing leases posts nothing but transfers and opens no account. -/
theorem Run.closing {s s' : State} {closing : List Event} (run : Run s closing s')
    (wf : s.WellFormed) {leases : List AccountId}
    (calls : closing.map Event.call = leases.map .closeLease) :
    (∀ accounts, posted s'.entries accounts = posted s.entries accounts) ∧
      ∀ child parent, s'.ParentOf child parent ↔ s.ParentOf child parent := by
  induction run generalizing leases with
  | nil s => exact ⟨fun _ => rfl, fun _ _ => Iff.rfl⟩
  | cons amb event happens rest ih =>
    cases leases with
    | nil => cases calls
    | cons lease leases =>
      rw [List.map_cons, List.map_cons, List.cons.injEq] at calls
      obtain ⟨closes, calls⟩ := calls
      obtain ⟨actions, path, permitted⟩ := happens.path wf
      obtain ⟨later, same⟩ := ih (wf.path path) calls
      refine ⟨fun accounts => ?_, fun child parent =>
        (same child parent).trans (parentOf_of_closed wf happens closes)⟩
      rw [later, path.posted_of_transfers fun action inside => ?_]
      have permits := permitted action inside
      rw [closes] at permits
      cases action with
      | transfer out into => exact ⟨out, into, rfl⟩
      | _ => exact permits.elim

/-- **Leases are transparent.** Over the tree of a root account the settled balances sum to what was
posted to the tree other than by transfers. Once nothing below the root is held or in debt, closing
the accounts below it in the reverse order of their creation brings each to zero and the root to that
sum. And closing any lease answers what was available, if positive, moves just that to the parent,
and leaves what was missing, if negative. -/
theorem leases_transparent {s : State} {events : List Event} (run : Run State.new events s)
    {root : AccountId} {row : AccountRow} (found : s.accounts.get? root = some row)
    (isRoot : row.account.parentId = none) (notSystem : root ≠ systemAccount) :
    ∑ account ∈ s.tree root, s.settled account = posted s.entries (s.tree root) ∧
    (s.Quiet root → ∀ closing s', Run s closing s' →
      closing.map Event.call = (s.leases root events).reverse.map .closeLease →
      (∀ account, s.Below root account → s'.settled account = 0) ∧
        s'.settled root = posted s.entries (s.tree root)) ∧
    ∀ amb lease parent, amb.Fresh s → s.ParentOf lease parent →
      ∃ s', closeLease amb lease s = some (.ok (max 0 (s.available lease)), s') ∧
        (∀ account, s'.settled account =
          s.settled account + flow lease parent (max 0 (s.available lease)) account) ∧
        s'.available lease = min 0 (s.available lease) := by
  have reachable : Reachable s := ⟨events, run⟩
  have present : s.accounts.contains root = true := Table.contains_iff.mpr ⟨row, found⟩
  have rootless : ∀ parent, ¬ s.ParentOf root parent := by
    rintro parent ⟨row', found', named⟩
    cases found.symm.trans found'
    cases isRoot.symm.trans named
  have whole := State.whole_tree present rootless
  have outside : systemAccount ∉ s.tree root := by
    rw [State.mem_tree present]
    intro under
    rcases under.cases_head with same | ⟨parent, isParent, _⟩
    · exact notSystem same.symm
    · exact run.system_root parent isParent
  refine ⟨sum_settled_of_whole run whole outside, fun quiet closing s' closes calls => ?_,
    fun amb lease parent fresh isParent => ?_⟩
  · obtain ⟨empty, _⟩ := settled_of_closing closes reachable.wellFormed reachable.rooted calls
      (quiet.closable run)
    have emptied : ∀ account, s.Below root account → s'.settled account = 0 := fun account below =>
      empty account (List.mem_reverse.mpr ((State.mem_leases run).mpr below))
    refine ⟨emptied, ?_⟩
    obtain ⟨same, parents⟩ := closes.closing reachable.wellFormed calls
    have sum := sum_settled_of_whole (run.append closes)
      (fun child parent isParent => whole child parent ((parents child parent).mp isParent)) outside
    rw [same, Finset.sum_eq_single root] at sum
    · exact sum
    · intro account inside different
      exact emptied account ((((State.mem_tree present).mp inside).eq_or_below).resolve_left
        different)
    · intro absent
      exact absurd ((State.mem_tree present).mpr Relation.ReflTransGen.refl) absent
  · obtain ⟨s', result, holds, settled⟩ :=
      closeLease_eq reachable.wellFormed reachable.rooted fresh isParent
    exact ⟨s', result, settled, available_of_closed reachable.wellFormed isParent holds
      (settled lease)⟩

/-- A script: a root with 100 credits, a lease of 60, a lease of 20 out of that, and 5 spent at the
leaf. -/
def leaseCalls : List (Ambient × Call) :=
  [.openAccount ⟨1, .user, true, none⟩, .grant ⟨1, 100, .paid, none⟩, .openLease ⟨1, 60⟩,
    .openLease ⟨3, 20⟩, .charge ⟨4, 5, none, none⟩].zipIdx.map fun call =>
      (numbered call.2, call.1)

/-- The calls of the script and the state that it ends in. -/
def leased : List Event × State := (replay State.new leaseCalls).getD ([], State.new)

/-- The same for the two closing calls. -/
def closed : List Event × State :=
  (replay leased.2 [(numbered 5, .closeLease 4), (numbered 6, .closeLease 3)]).getD ([], leased.2)

/-- Below the root of the script are its two leases. -/
theorem below_leased {account : AccountId} (below : leased.2.Below 1 account) :
    account = 3 ∨ account = 4 := by
  have rows : ∀ row ∈ leased.2.accounts.rows, row.2.account.parentId.isSome = true →
      row.1 = 3 ∨ row.1 = 4 := by decide +kernel
  obtain ⟨parent, ⟨row, found, named⟩, _⟩ := Relation.TransGen.head'_iff.mp below
  exact rows (account, row) (Table.mem_rows_iff.mpr found) (by rw [named]; rfl)

/-- The script, and its two leases closed: the root has again what the tree holds. -/
theorem leases_transparent_sample : leased.2.settled 4 = 15 ∧ closed.2.settled 4 = 0 ∧
    closed.2.settled 3 = 0 ∧ closed.2.settled 1 = 95 ∧
    ∑ account ∈ leased.2.tree 1, leased.2.settled account = 95 := by
  have run : Run State.new leased.1 leased.2 := by
    obtain ⟨result, found⟩ : ∃ result, replay State.new leaseCalls = some result :=
      Option.isSome_iff_exists.mp (by decide +kernel)
    rw [leased, found]
    exact run_of_replay found
  obtain ⟨result, replayed⟩ : ∃ result,
      replay leased.2 [(numbered 5, .closeLease 4), (numbered 6, .closeLease 3)] = some result :=
    Option.isSome_iff_exists.mp (by decide +kernel)
  have last : closed = result := by rw [closed, replayed]; rfl
  have parents : leased.2.ParentOf 4 3 ∧ leased.2.ParentOf 3 1 := by
    refine ⟨⟨(leased.2.accounts.get? 4).get (by decide +kernel), ?_, by decide +kernel⟩,
      (leased.2.accounts.get? 3).get (by decide +kernel), ?_, by decide +kernel⟩
    · exact (Option.some_get _).symm
    · exact (Option.some_get _).symm
  have below : ∀ account, leased.2.Below 1 account ↔ account = 3 ∨ account = 4 := by
    refine fun account => ⟨below_leased, ?_⟩
    rintro (rfl | rfl)
    · exact .single parents.2
    · exact .tail (.single parents.1) parents.2
  have quiet : leased.2.Quiet 1 := by
    have settled : 0 ≤ leased.2.settled 3 ∧ 0 ≤ leased.2.settled 4 ∧
        leased.2.holds.rows.length = 0 := by decide +kernel
    intro account under
    refine ⟨?_, fun reservation hold found => ?_⟩
    · rcases (below account).mp under with rfl | rfl
      · exact settled.1
      · exact settled.2.1
    · have member := Table.mem_rows_iff.mpr found
      rw [List.length_eq_zero_iff.mp settled.2.2] at member
      exact absurd member List.not_mem_nil
  have order : leased.2.leases 1 leased.1 = [3, 4] := by
    have all : created leased.1 = [1, 3, 4] := by decide +kernel
    simp only [State.leases, all, below]
    decide
  have law := @leases_transparent _ _ run 1 ⟨⟨1, 1, .user, true, none⟩, 40⟩
    (by decide +kernel) rfl (by decide)
  obtain ⟨empty, root⟩ := law.2.1 quiet closed.1 closed.2
    (by rw [last]; exact run_of_replay replayed)
    (by rw [last, calls_of_replay replayed, order]; rfl)
  have value : closed.2.settled 1 = 95 := by decide +kernel
  exact ⟨by decide +kernel, empty 4 ((below 4).mpr (Or.inr rfl)),
    empty 3 ((below 3).mpr (Or.inl rfl)), value, law.1.trans (root.symm.trans value)⟩

end Meter.Ledger
