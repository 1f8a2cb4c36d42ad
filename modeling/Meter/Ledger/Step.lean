/-
**Calls of the in-memory ledger, and why they are paths of actions.**

`Call` is a method call of `LedgerBackend`, `step` runs it, `Admissible` says what a caller and the
id generators promise (minted ids are new, a parent exists), and `Call.Permits` which actions a call
may perform. `Refines` is the refinement of one call: it returns, by a path of permitted actions.

Here are the calls that perform at most one action, one lemma each (`grant_refines`,
`settle_refines`, ...). Run voids and leases, which perform several, are in `Meter.Ledger.Run`.
-/

import Meter.Ledger.Remainder

namespace Meter.Ledger

open Meter.Lib

/-! ### Calls and replies -/

/-- A method call of `LedgerBackend`. -/
inductive Call where
  | openAccount (req : NewAccount)
  | balance (account : AccountId)
  | grant (req : GrantRequest)
  | refund (req : RefundRequest)
  | reserve (req : ReserveRequest)
  | settle (req : SettleRequest)
  | charge (req : ChargeRequest)
  | reverseCharge (req : ReverseChargeRequest)
  | void (reservation : ReservationId)
  | voidExpiredHolds (now : OffsetDateTime)
  | extendHold (reservation : ReservationId) (expiresAt : OffsetDateTime)
  | voidRun (run : RunId)
  | openLease (req : LeaseRequest)
  | closeLease (lease : AccountId)
  | entries (account : AccountId)

/-- What a method call answers. -/
inductive Reply where
  | account (account : LedgerAccount)
  | balance (balance : Balance)
  | entry (entry : LedgerEntry)
  | reserve (outcome : ReserveOutcome)
  | reversal (entry : Option LedgerEntry)
  | done
  | count (released : Nat)
  | summary (summary : RunVoidSummary)
  | credit (amount : Credit)
  | entries (entries : List LedgerEntry)
  deriving DecidableEq

/-- An outcome as a reply. -/
def Outcome.reply {α : Type} (outcome : Outcome α) (wrap : α → Reply) : Outcome Reply :=
  outcome.map fun result => (result.1.map wrap, result.2)

/-- Run a call. -/
def step (amb : Ambient) (call : Call) (s : State) : Outcome Reply :=
  match call with
  | .openAccount req => (openAccount amb req s).reply .account
  | .balance account => (balance account s).reply .balance
  | .grant req => (grant amb req s).reply .entry
  | .refund req => (refund amb req s).reply .entry
  | .reserve req => (reserve req s).reply .reserve
  | .settle req => (settle amb req s).reply .entry
  | .charge req => (charge amb req s).reply .entry
  | .reverseCharge req => (reverseCharge amb req s).reply .reversal
  | .void reservation => (void reservation s).reply fun _ => .done
  | .voidExpiredHolds now => (voidExpiredHolds now s).reply .count
  | .extendHold reservation expiresAt => (extendHold reservation expiresAt s).reply fun _ => .done
  | .voidRun run => (voidRun amb run s).reply .summary
  | .openLease req => (openLease amb req s).reply .account
  | .closeLease lease => (closeLease amb lease s).reply .credit
  | .entries account => (entries account s).reply .entries

/-! ### What the environment promises -/

/-- The entry ids a call on a state may mint. -/
def Ambient.minted (amb : Ambient) (s : State) : List EntryId :=
  [amb.entryId .posting, amb.entryId .transferOut, amb.entryId .transferIn] ++
    s.entryIds.map fun id => amb.entryId (.reversal id)

/-- Minted ids are new and pairwise distinct. -/
structure Ambient.Fresh (amb : Ambient) (s : State) : Prop where
  account : s.accounts.get? amb.accountId = none
  entries : (s.entryIds ++ amb.minted s).Nodup

/-- A new account's parent, if it names one, exists. -/
def Call.ParentExists (s : State) : Call → Prop
  | .openAccount req => ∀ parent, req.parentId = some parent → s.accounts.contains parent = true
  | _ => True

/-- What a caller and the id generators promise. -/
structure Admissible (amb : Ambient) (call : Call) (s : State) : Prop where
  fresh : amb.Fresh s
  parent : call.ParentExists s

/-- The caller does not name an id that is yet to be minted. -/
def Call.Unnamed (account : AccountId) : Call → Prop
  | .openAccount req => req.parentId ≠ some account
  | _ => True

/-- What the id generators promise of a call with any arguments. -/
structure Callable (amb : Ambient) (call : Call) (s : State) : Prop where
  fresh : amb.Fresh s
  unnamed : call.Unnamed amb.accountId

theorem Admissible.callable {amb : Ambient} {call : Call} {s : State}
    (admissible : Admissible amb call s) : Callable amb call s := by
  refine ⟨admissible.fresh, ?_⟩
  cases call with
  | openAccount req =>
    exact @parent_ne_self s ⟨amb.accountId, req.orgId, req.scope, req.noOverdraft, req.parentId⟩
      admissible.fresh.account admissible.parent
  | _ => trivial

/-- The actions a call may perform. -/
def Call.Permits : Call → Action → Prop
  | .openAccount req, .openAccount account => account.parentId = req.parentId
  | .grant req, .credit entry => entry.accountId = req.account ∧ entry.entryType = .grant ∧
      entry.idempotencyKey = req.idempotencyKey
  | .refund req, .credit entry => entry.accountId = req.account ∧ entry.entryType = .refund ∧
      entry.idempotencyKey = req.idempotencyKey
  | .charge req, .charge entry => entry.accountId = req.account ∧
      entry.deltaCredits = -req.amount ∧ entry.idempotencyKey = req.idempotencyKey
  | .reserve req, .place reservation hold => reservation = req.reservationId ∧
      hold.account = req.account ∧ hold.amount = req.amount
  | .settle req, .settle reservation entry => reservation = req.reservationId ∧
      entry.deltaCredits = -req.actual
  | .reverseCharge req, .reverse entry => entry.accountId = req.account ∧
      entry.reversesEntryId = some req.chargeEntryId ∧
      entry.idempotencyKey = some req.idempotencyKey
  | .void reservation, .release reservations => reservations = [reservation]
  | .voidExpiredHolds _, .release _ => True
  | .extendHold reservation expiresAt, .extend reservation' expiresAt' =>
      reservation' = reservation ∧ expiresAt' = expiresAt
  | .voidRun run, .reverse entry => entry.runId = some run
  | .voidRun _, .release _ => True
  | .openLease req, .openAccount account => account.parentId = some req.parent
  | .openLease req, .transfer out into => out.accountId = req.parent ∧
      into.deltaCredits = req.amount
  | .closeLease lease, .transfer out _ => out.accountId = lease
  | _, _ => False

/-- An outcome that returns, by a path of permitted actions. -/
def Refines {α : Type} (s : State) (permits : Action → Prop) (outcome : Outcome α) : Prop :=
  ∃ reply s' actions, outcome = some (reply, s') ∧ Path s actions s' ∧
    ∀ action ∈ actions, permits action

/-- An outcome that, if it returns, does so by a path of permitted actions. -/
def Follows {α : Type} (s : State) (permits : Action → Prop) (outcome : Outcome α) : Prop :=
  ∀ reply s', outcome = some (reply, s') → ∃ actions, Path s actions s' ∧
    ∀ action ∈ actions, permits action

theorem Follows.reply {α : Type} {s : State} {permits : Action → Prop} {outcome : Outcome α}
    (follows : Follows s permits outcome) (wrap : α → Reply) :
    Follows s permits (outcome.reply wrap) := by
  intro reply s' result
  obtain ⟨⟨answer, after⟩, returned, same⟩ := Option.map_eq_some_iff.mp result
  cases same
  exact follows answer after returned

namespace Refines

variable {α : Type} {s : State} {permits : Action → Prop}

/-- A call that changes nothing. -/
theorem still (reply : Except LedgerError α) : Refines s permits (some (reply, s)) :=
  ⟨reply, s, [], rfl, .nil s, fun _ member => absurd member List.not_mem_nil⟩

/-- A call that performs one action. -/
theorem act (action : Action) {outcome : Outcome α} {reply : Except LedgerError α}
    (result : outcome = some (reply, action.apply s)) (enabled : action.Enabled s)
    (permitted : permits action) : Refines s permits outcome :=
  ⟨reply, action.apply s, [action], result, .single enabled, fun other member => by
    rwa [List.mem_singleton.mp member]⟩

theorem reply {outcome : Outcome α} (refines : Refines s permits outcome) (wrap : α → Reply) :
    Refines s permits (outcome.reply wrap) := by
  obtain ⟨reply, s', actions, rfl, path, permitted⟩ := refines
  exact ⟨_, s', actions, rfl, path, permitted⟩

theorem follows {outcome : Outcome α} (refines : Refines s permits outcome) :
    Follows s permits outcome := by
  intro reply s' result
  obtain ⟨reply', after, actions, returned, path, permitted⟩ := refines
  cases result.symm.trans returned
  exact ⟨actions, path, permitted⟩

end Refines

/-! ### Freshness -/

theorem Ambient.Fresh.posting {amb : Ambient} {s : State} (fresh : amb.Fresh s) :
    amb.entryId .posting ∉ s.entryIds := fun member =>
  (List.nodup_append.mp fresh.entries).2.2 _ member _ (by simp [Ambient.minted]) rfl

theorem Ambient.Fresh.transfers {amb : Ambient} {s : State} (fresh : amb.Fresh s) :
    amb.entryId .transferOut ∉ s.entryIds ∧ amb.entryId .transferIn ∉ s.entryIds ∧
      amb.entryId .transferOut ≠ amb.entryId .transferIn := by
  obtain ⟨_, distinct, apart⟩ := List.nodup_append.mp fresh.entries
  refine ⟨fun member => apart _ member _ (by simp [Ambient.minted]) rfl,
    fun member => apart _ member _ (by simp [Ambient.minted]) rfl, fun same => ?_⟩
  simp [Ambient.minted, same] at distinct

theorem Ambient.Fresh.reversal {amb : Ambient} {s : State} (fresh : amb.Fresh s) {id : EntryId}
    (member : id ∈ s.entryIds) : amb.entryId (.reversal id) ∉ s.entryIds := by
  intro stored
  refine (List.nodup_append.mp fresh.entries).2.2 _ stored _ ?_ rfl
  exact List.mem_append_right _ (List.mem_map.mpr ⟨id, member, rfl⟩)

theorem Ambient.Fresh.reversal_injective {amb : Ambient} {s : State} (fresh : amb.Fresh s)
    {first second : EntryId} (firstMember : first ∈ s.entryIds) (secondMember : second ∈ s.entryIds)
    (same : amb.entryId (.reversal first) = amb.entryId (.reversal second)) : first = second := by
  have distinct := (List.nodup_append.mp (List.nodup_append.mp fresh.entries).2.1).2.1
  exact List.inj_on_of_nodup_map distinct firstMember secondMember same

/-! ### The two-sided updates are payments -/

theorem AccountRow.add_add (row : AccountRow) (first second : Credit) :
    (row.add first).add second = row.add (first + second) := by
  simp only [AccountRow.add, add_assoc]

theorem AccountRow.add_eq_self (row : AccountRow) : row.add 0 = row := by
  simp [AccountRow.add]

/-- Two one-sided updates are one payment. -/
theorem modify_modify_eq_pay (s : State) (payer payee : AccountId) (amount : Credit) :
    (s.accounts.modify payer fun row => row.add (-amount)).modify payee
      (fun row => row.add amount) = (s.pay payer payee amount).accounts := by
  simp only [Table.modify, Table.mapValues_mapValues, State.pay]
  refine Table.mapValues_congr fun account row _ => ?_
  by_cases isPayer : account = payer
  · by_cases isPayee : account = payee
    · rw [if_pos isPayee, if_pos isPayer, AccountRow.add_add, flow, if_pos isPayee, if_pos isPayer]
      congr 1
      ring
    · rw [if_neg isPayee, if_pos isPayer, flow, if_neg isPayee, if_pos isPayer, zero_sub]
  · by_cases isPayee : account = payee
    · rw [if_pos isPayee, if_neg isPayer, flow, if_pos isPayee, if_neg isPayer, sub_zero]
    · rw [if_neg isPayee, if_neg isPayer, flow_other isPayer isPayee, AccountRow.add_eq_self]

/-- **A credit is a payment from the system account.** -/
theorem postCredit_eq {s : State} (posting : Posting) {row : AccountRow}
    (found : s.accounts.get? posting.accountId = some row) (amb : Ambient) (mint : Mint)
    (amount : Credit) :
    let entry := posting.entry amb mint amount
      (row.settled + flow systemAccount posting.accountId amount posting.accountId)
    postCredit amb mint posting amount s =
      some (entry, (s.pay systemAccount posting.accountId amount).record entry) := by
  simp only [postCredit, modify_modify_eq_pay, State.get?_pay, found, Option.map_some,
    Option.bind_eq_bind, Option.bind_some]
  rfl

/-- **A debit is a payment of the negated amount.** -/
theorem postDebit_eq {s : State} (posting : Posting) {row : AccountRow}
    (found : s.accounts.get? posting.accountId = some row) (amb : Ambient) (mint : Mint)
    (amount : Credit) :
    let entry := posting.entry amb mint (-amount) (row.settled - amount)
    postDebit amb mint posting amount s =
      some (entry, (s.pay systemAccount posting.accountId (-amount)).record entry) := by
  have swapped : (s.accounts.modify posting.accountId fun row => row.add (-amount)).modify
      systemAccount (fun row => row.add amount) =
      (s.pay systemAccount posting.accountId (-amount)).accounts := by
    rw [modify_modify_eq_pay]
    simp only [State.pay]
    refine Table.mapValues_congr fun account row _ => ?_
    congr 1
    simp only [flow]
    split <;> split <;> ring
  simp only [postDebit, swapped, Table.get?_modify, if_pos, found, Option.map_some,
    Option.bind_eq_bind, Option.bind_some]
  simp only [AccountRow.add, ← sub_eq_add_neg]
  rfl

/-- The entry of a posting is one the state admits. -/
theorem posts_entry {s : State} {posting : Posting} {row : AccountRow}
    (found : s.accounts.get? posting.accountId = some row) {amb : Ambient} {mint : Mint}
    (fresh : amb.entryId mint ∉ s.entryIds) {delta balanceAfter : Credit}
    (balance : posting.accountId ≠ systemAccount → balanceAfter = row.settled + delta) :
    Posts s (posting.entry amb mint delta balanceAfter) where
  present := Table.contains_iff.mpr ⟨row, found⟩
  paired := rfl
  fresh := fresh
  balance := by
    intro notSystem
    rw [show (posting.entry amb mint delta balanceAfter).accountId = posting.accountId from rfl,
      State.settled_of_get found]
    exact balance notSystem

/-! ### Every call is a path of its actions -/

/-- A keyed posting stops at a guard, or its key is new and it posts. -/
theorem postKeyed_cases (post : Posting → Credit → State → Option (LedgerEntry × State))
    (posting : Posting) (amount : Credit) (s : State) :
    (∃ reply, postKeyed post posting amount s = some (reply, s)) ∨
      (0 < amount ∧ (∃ row, s.accounts.get? posting.accountId = some row) ∧
        (∀ key, posting.idempotencyKey = some key → s.findKeyed posting.accountId key = none) ∧
        postKeyed post posting amount s =
          (post posting amount s).map fun posted => (.ok posted.1, posted.2)) := by
  unfold postKeyed
  split
  · exact Or.inl ⟨_, rfl⟩
  · rename_i positive
    split
    · exact Or.inl ⟨_, rfl⟩
    · rename_i present
      split
      · exact Or.inl ⟨_, rfl⟩
      · rename_i unused
        refine Or.inr ⟨not_not.mp positive, Table.contains_iff.mp (not_not.mp present), ?_, rfl⟩
        intro key keyed
        rwa [keyed] at unused

section Calls

variable {amb : Ambient} {s : State}

theorem openAccount_refines {req : NewAccount} (fresh : amb.Fresh s)
    (unnamed : (Call.openAccount req).Unnamed amb.accountId) :
    Refines s (Call.openAccount req).Permits (openAccount amb req s) :=
  .act (.openAccount _) rfl ⟨fresh.account, unnamed⟩ rfl

/-- A keyed credit is a `credit` action. -/
theorem postKeyed_credit_refines {permits : Action → Prop} (fresh : amb.Fresh s) (posting : Posting)
    (amount : Credit) (kind : posting.entryType = .grant ∧ posting.reversesEntryId = none ∨
      posting.entryType = .refund)
    (permitted : ∀ balance, permits (.credit (posting.entry amb .posting amount balance))) :
    Refines s permits (postKeyed (postCredit amb .posting) posting amount s) := by
  rcases postKeyed_cases (postCredit amb .posting) posting amount s with
    ⟨reply, same⟩ | ⟨positive, ⟨row, found⟩, unused, posted⟩
  · rw [same]
    exact .still reply
  · rw [postCredit_eq posting found] at posted
    refine .act (.credit (posting.entry amb .posting amount _)) posted
      ⟨posts_entry found fresh.posting fun notSystem => ?_, unused, positive, kind⟩ (permitted _)
    rw [flow_payee notSystem]

theorem grant_refines (fresh : amb.Fresh s) (req : GrantRequest) :
    Refines s (Call.grant req).Permits (grant amb req s) :=
  postKeyed_credit_refines fresh req.posting req.amount (Or.inl ⟨rfl, rfl⟩) fun _ => ⟨rfl, rfl, rfl⟩

theorem refund_refines (fresh : amb.Fresh s) (req : RefundRequest) :
    Refines s (Call.refund req).Permits (refund amb req s) :=
  postKeyed_credit_refines fresh req.posting req.amount (Or.inr rfl) fun _ => ⟨rfl, rfl, rfl⟩

theorem charge_refines (fresh : amb.Fresh s) (req : ChargeRequest) :
    Refines s (Call.charge req).Permits (charge amb req s) := by
  rcases postKeyed_cases (postDebit amb .posting) req.posting req.amount s with
    ⟨reply, same⟩ | ⟨positive, ⟨row, found⟩, unused, posted⟩
  · rw [charge, same]
    exact .still reply
  · rw [postDebit_eq req.posting found] at posted
    exact .act (.charge (req.posting.entry amb .posting (-req.amount) _)) posted
      ⟨posts_entry found fresh.posting fun _ => sub_eq_add_neg _ _, unused,
        neg_lt_zero.mpr positive, rfl, rfl⟩ ⟨rfl, rfl, rfl⟩

theorem reverseCharge_refines (fresh : amb.Fresh s)
    (req : ReverseChargeRequest) :
    Refines s (Call.reverseCharge req).Permits (reverseCharge amb req s) := by
  unfold reverseCharge
  split
  · exact .still _
  rename_i present
  split
  · exact .still _
  rename_i unused
  dsimp only
  split
  · exact .still _
  rename_i belongs
  split
  · exact .still _
  rename_i positive
  simp only [List.any_eq_true, decide_eq_true_eq, not_not] at belongs
  obtain ⟨target, member, same, own⟩ := belongs
  obtain ⟨row, found⟩ := Table.contains_iff.mp (not_not.mp present)
  rw [postCredit_eq req.posting found]
  refine .act (.reverse (req.posting.entry amb .posting _ _)) rfl
    ⟨posts_entry found fresh.posting fun notSystem => ?_, rfl, not_not.mp positive, target, member,
      by rw [same]; rfl, own, by rw [same]; rfl, Or.inl ?_⟩ ⟨rfl, rfl, rfl⟩
  · rw [flow_payee notSystem]
    rfl
  · rintro key ⟨⟩
    exact unused

theorem reserve_refines (req : ReserveRequest) :
    Refines s (Call.reserve req).Permits (reserve req s) := by
  unfold reserve
  split
  · exact .still _
  rename_i positive
  split
  · exact .still _
  rename_i row found
  split
  · split
    · exact .still _
    · exact .still _
  rename_i absent
  dsimp only
  split
  · exact .still _
  rename_i allowed
  refine .act (.place _ _) rfl
    ⟨absent, rfl, rfl, not_not.mp positive, row, found, fun noOverdraft => ?_⟩ ⟨rfl, rfl, rfl⟩
  by_contra short
  rw [State.available, State.settled_of_get found] at short
  exact allowed ⟨Or.inr noOverdraft, not_le.mp short⟩

theorem settle_refines (wf : s.WellFormed) (fresh : amb.Fresh s) (req : SettleRequest) :
    Refines s (Call.settle req).Permits (settle amb req s) := by
  unfold settle
  split
  · exact .still _
  rename_i nonneg
  split
  · exact .still _
  rename_i hold found
  split
  · rename_i status
    obtain ⟨id, link⟩ := (wf.settledIff found).mp status
    obtain ⟨entry, member, same, _⟩ := wf.settleLink found link
    have some' : (s.entries.find? fun entry => entry.id = id).isSome := by
      rw [List.find?_isSome]
      exact ⟨entry, member, by simpa using same⟩
    obtain ⟨stored, foundEntry⟩ := Option.isSome_iff_exists.mp some'
    rw [link, Option.bind_some, foundEntry]
    exact .still _
  · exact .still _
  · rename_i status
    obtain ⟨row, foundRow⟩ := Table.contains_iff.mp (wf.holdTerms found).1
    rw [postDebit_eq (req.posting hold.account) foundRow]
    exact .act (.settle req.reservationId
        ((req.posting hold.account).entry amb .posting (-req.actual) _)) rfl
      ⟨posts_entry foundRow fresh.posting fun _ => sub_eq_add_neg _ _,
        neg_nonpos.mpr (not_lt.mp nonneg), rfl, rfl, rfl, rfl, hold, found, status, rfl⟩ ⟨rfl, rfl⟩

/-- Voiding one hold is releasing it. -/
theorem modify_voided_eq (holds : Table ReservationId Hold) (reservation : ReservationId) :
    (holds.modify reservation fun hold => { hold with status := .voided }) =
      holds.mapValues fun other hold =>
        if other ∈ [reservation] then { hold with status := .voided } else hold := by
  simp only [Table.modify, List.mem_singleton]

theorem void_refines (reservation : ReservationId) :
    Refines s (Call.void reservation).Permits (void reservation s) := by
  unfold void
  split
  · exact .still _
  rename_i hold found
  split
  · rename_i status
    rw [modify_voided_eq]
    refine .act (.release [reservation]) rfl (fun other member => ?_) rfl
    rw [List.mem_singleton.mp member]
    exact ⟨hold, found, status⟩
  · exact .still _
  · exact .still _

theorem voidExpiredHolds_refines (now : OffsetDateTime) :
    Refines s (Call.voidExpiredHolds now).Permits (voidExpiredHolds now s) := by
  let expired := (s.holds.rows.filter fun row => row.2.expired now).map Prod.fst
  have expired_iff : ∀ {reservation hold}, s.holds.get? reservation = some hold →
      (reservation ∈ expired ↔ hold.expired now = true) := by
    intro reservation hold found
    simp only [expired, List.mem_map, List.mem_filter, Prod.exists, exists_and_right,
      exists_eq_right, Table.mem_rows_iff]
    constructor
    · rintro ⟨hold', found', isExpired⟩
      rw [found, Option.some.injEq] at found'
      rwa [found']
    · exact fun isExpired => ⟨hold, found, isExpired⟩
  refine .act (.release expired)
    (?_ : _ = some (.ok (s.holds.values.countP fun hold => hold.expired now), _))
    (fun reservation member => ?_) trivial
  · rw [voidExpiredHolds, Action.apply]
    have tables : (s.holds.mapValues fun _ hold =>
        if hold.expired now = true then { hold with status := .voided } else hold) =
        s.holds.mapValues fun reservation hold =>
          if reservation ∈ expired then { hold with status := .voided } else hold := by
      refine Table.mapValues_congr fun reservation hold found => ?_
      simp only [expired_iff found]
    rw [tables]
  · obtain ⟨row, inside, rfl⟩ := List.mem_map.mp member
    obtain ⟨stored, isExpired⟩ := List.mem_filter.mp inside
    refine ⟨row.2, Table.mem_rows_iff.mp stored, ?_⟩
    simp only [Hold.expired, decide_eq_true_eq] at isExpired
    exact isExpired.1

theorem extendHold_refines (reservation : ReservationId) (expiresAt : OffsetDateTime) :
    Refines s (Call.extendHold reservation expiresAt).Permits
      (extendHold reservation expiresAt s) := by
  unfold extendHold
  split
  · exact .still _
  rename_i hold found
  split
  · rename_i status
    exact .act (.extend reservation expiresAt) rfl ⟨hold, found, status⟩ ⟨rfl, rfl⟩
  · exact .still _
  · exact .still _

end Calls

end Meter.Ledger
