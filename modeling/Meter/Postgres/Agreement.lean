/-
**Both ledgers answer a call alike.**

`Agrees` is the simulation of one call: whatever the in-memory ledger answers, the transaction run
alone answers the same, and leaves a database that mirrors the state left in memory. It holds
whenever the amounts fit the columns (`InRange`), and is proved by running the two definitions side
by side, read by read (`Agrees.read`).

Here are all calls but `void_run`, which is in `Meter.Postgres.Refinement`.
-/

import Meter.Postgres.Mirror

namespace Meter.Postgres

open Meter.Lib Meter.Ledger

/-! ### Agreement -/

/-- Two results that are the same: values up to a relation, errors exactly. -/
def Matches {α : Type} (same : α → α → Prop) : Except LedgerError α → Except LedgerError α → Prop
  | .ok value, .ok value' => same value value'
  | .error error, .error error' => error' = error
  | _, _ => False

/-- What a transaction that runs alone answers, and the database it leaves. -/
def Serves {α : Type} (transaction : Prog Stmt (Answer α)) (db : State)
    (result : Except LedgerError α) (db' : State) : Prop :=
  (∃ writes, (engine false).Yields transaction db (.commit result) writes ∧ db' = after db writes) ∨
    ((∃ writes, (engine false).Yields transaction db (.rollback result) writes) ∧ db' = db)

/-- What both ledgers are in before a call. -/
structure Aligned (s db : State) : Prop where
  wf : s.WellFormed
  intact : Intact db
  mirrors : Mirrors s db

/-- Two environments that mint the same ids. Their clocks and iteration orders are their own. -/
structure Twins (amb amb' : Ambient) : Prop where
  accountId : amb'.accountId = amb.accountId
  entryId : amb'.entryId = amb.entryId

/-- **The simulation of one call.** -/
def Agrees {α : Type} (same : α → α → Prop) (db : State) (outcome : Outcome α)
    (transaction : Prog Stmt (Answer α)) : Prop :=
  ∀ result s', outcome = some (result, s') → InRange s' → ∃ result' db',
    Serves transaction db result' db' ∧ Matches same result result' ∧ Mirrors s' db'

/-- The same entry, up to clocks and the order inside a run void. -/
def SameEntry (entry entry' : LedgerEntry) : Prop := essence entry' = essence entry

section Rules

variable {α β : Type} {same : α → α → Prop} {s s' db db' : State} {outcome : Outcome α}
  {result : Except LedgerError α}

theorem Serves.bind {program : Prog Stmt β} {next : β → Prog Stmt (Answer α)} {answer : β}
    (yields : (engine false).Yields program db answer [])
    (serves : Serves (next answer) db result db') : Serves (program >>= next) db result db' := by
  rcases serves with ⟨writes, rest, left⟩ | ⟨⟨writes, rest⟩, left⟩
  · exact Or.inl ⟨writes, yields.bind _ rest rfl, left⟩
  · exact Or.inr ⟨⟨writes, yields.bind _ rest rfl⟩, left⟩

/-- A part that writes nothing, then the rest. -/
theorem Agrees.bind {program : Prog Stmt β} {next : β → Prog Stmt (Answer α)} {answer : β}
    (yields : (engine false).Yields program db answer [])
    (agrees : Agrees same db outcome (next answer)) :
    Agrees same db outcome (program >>= next) := by
  intro result s' returned range
  obtain ⟨result', db', serves, alike, mirrors⟩ := agrees result s' returned range
  exact ⟨result', db', serves.bind yields, alike, mirrors⟩

/-- A statement that writes nothing, then the rest. -/
theorem Agrees.read {statement : Stmt β} {next : β → Prog Stmt (Answer α)} {answer : β}
    (executed : statement.exec db = .ok (answer, []))
    (agrees : Agrees same db outcome (next answer)) :
    Agrees same db outcome (Prog.issue statement >>= next) :=
  Agrees.bind (Engine.Yields.read _ executed (Engine.Yields.done _ _)) agrees

/-- An error, with a rollback. -/
theorem Agrees.refuse (mirrors : Mirrors s db) (error : LedgerError) :
    Agrees same db (some (.error error, s)) (.done (.rollback (.error error))) := by
  rintro result s' ⟨⟩ _
  exact ⟨.error error, db, Or.inr ⟨⟨[], Engine.Yields.done _ _⟩, rfl⟩, rfl, mirrors⟩

/-- An error, with a commit of nothing. -/
theorem Agrees.close (mirrors : Mirrors s db) (error : LedgerError) :
    Agrees same db (some (.error error, s)) (.done (.commit (.error error))) := by
  rintro result s' ⟨⟩ _
  exact ⟨.error error, db, Or.inl ⟨[], Engine.Yields.done _ _, rfl⟩, rfl, mirrors⟩

/-- An answer that changes nothing. -/
theorem Agrees.answer (mirrors : Mirrors s db) {value value' : α} (alike : same value value') :
    Agrees same db (some (.ok value, s)) (.done (.commit (.ok value'))) := by
  rintro result s' ⟨⟩ _
  exact ⟨.ok value', db, Or.inl ⟨[], Engine.Yields.done _ _, rfl⟩, alike, mirrors⟩

/-- An answer with writes. -/
theorem Agrees.write {transaction : Prog Stmt (Answer α)} {value value' : α} (writes : List Write)
    (returned : outcome = some (.ok value, s')) (alike : same value value')
    (yields : InRange s' → (engine false).Yields transaction db (.commit (.ok value')) writes)
    (mirrors : Mirrors s' (after db writes)) : Agrees same db outcome transaction := by
  rintro result left returned' range
  rw [returned] at returned'
  cases returned'
  exact ⟨.ok value', after db writes, Or.inl ⟨writes, yields range, rfl⟩, alike, mirrors⟩

end Rules

section Calls

variable {s db : State} {amb amb' : Ambient}

/-! ### Postings -/

theorem essence_postingEntry (twins : Twins amb amb') (posting : Posting) (mint : Mint)
    (delta balance : Credit) :
    essence (postingEntry posting amb' mint delta balance) =
      essence (posting.entry amb mint delta balance) := by
  simp only [essence, postingEntry, Posting.entry, twins.entryId]
  rfl

/-- An entry posted in memory, within the range of the columns, can be inserted. -/
theorem Aligned.insertable (aligned : Aligned s db) (twins : Twins amb amb') {posting : Posting}
    {mint : Mint} {row : AccountRow} {delta : Credit}
    (found : s.accounts.get? posting.accountId = some row)
    (notSystem : posting.accountId ≠ systemAccount) (exact : Exact delta)
    (fresh : amb.entryId mint ∉ s.entryIds)
    (unused : ∀ key, posting.idempotencyKey = some key →
      db.findKeyed posting.accountId key = none)
    (target : ∀ id, posting.reversesEntryId = some id → id ∈ s.entryIds)
    (range : Fits delta ∧ Fits (row.settled + delta)) :
    Insertable db (postingEntry posting amb' mint delta (row.settled + delta)) where
  delta := ⟨exact, range.1⟩
  balance := by
    have stored := aligned.mirrors.accounts _ notSystem
    rw [found] at stored
    exact ⟨(aligned.intact.scaled.settled stored).add exact, range.2⟩
  fresh := by
    show amb'.entryId mint ∉ db.entryIds
    rwa [twins.entryId, aligned.mirrors.mem_entryIds]
  unused := unused
  present := by
    rw [aligned.mirrors.contains]
    exact Table.contains_iff.mpr ⟨row, found⟩
  paired := aligned.mirrors.system.2
  target := fun id own => aligned.mirrors.mem_entryIds.mpr (target id own)

/-- The entry just recorded is in range. -/
theorem InRange.recorded {entry : LedgerEntry} (range : InRange (s.record entry)) :
    Fits entry.deltaCredits ∧ Fits entry.balanceAfter :=
  range.entries entry (List.mem_append_right _ (List.mem_singleton_self _))

/-- **A posting on both sides**: within the range of the columns it goes through. -/
theorem Aligned.posts (aligned : Aligned s db) (twins : Twins amb amb') {posting : Posting}
    {mint : Mint} {row : AccountRow} {delta : Credit}
    (found : s.accounts.get? posting.accountId = some row)
    (notSystem : posting.accountId ≠ systemAccount) (exact : Exact delta)
    (fresh : amb.entryId mint ∉ s.entryIds)
    (unused : ∀ key, posting.idempotencyKey = some key →
      db.findKeyed posting.accountId key = none)
    (target : ∀ id, posting.reversesEntryId = some id → id ∈ s.entryIds) :
    let entry := posting.entry amb mint delta (row.settled + delta)
    let entry' := postingEntry posting amb' mint delta (row.settled + delta)
    let s' := (s.pay systemAccount posting.accountId delta).record entry
    let writes := [.setSettled posting.accountId (row.settled + delta), .insertEntry entry']
    (Fits delta ∧ Fits (row.settled + delta) →
      (engine false).Yields (post amb' mint posting delta) db entry' writes) ∧
      Mirrors s' (after db writes) ∧ SameEntry entry entry' := by
  have alike := essence_postingEntry twins posting mint delta (row.settled + delta)
  have balance : row.settled + delta = s.settled posting.accountId + delta := by
    rw [State.settled_of_get found]
  have mirrors := aligned.mirrors.post alike notSystem balance
  refine ⟨fun range => ?_, mirrors, alike⟩
  exact yields_post ((aligned.mirrors.accounts _ notSystem).trans found)
    (aligned.insertable twins found notSystem exact fresh unused target range)

theorem yields_findExisting (posting : Posting) :
    (engine false).Yields (findExisting posting) db
      (posting.idempotencyKey.bind (db.findKeyed posting.accountId)) [] := by
  unfold findExisting
  cases posting.idempotencyKey with
  | none => exact Engine.Yields.done _ _
  | some key => exact Engine.Yields.read _ rfl (Engine.Yields.done _ _)

/-- Both ledgers look a posting's key up alike. -/
theorem Aligned.existing (aligned : Aligned s db) (posting : Posting) :
    (posting.idempotencyKey.bind (db.findKeyed posting.accountId)).map essence =
      (posting.idempotencyKey.bind (s.findKeyed posting.accountId)).map essence := by
  cases posting.idempotencyKey with
  | none => rfl
  | some key => exact aligned.mirrors.findKeyed aligned.intact _ key

/-- **A keyed posting**, for a memory ledger that posts `delta`. -/
theorem postKeyed_agrees (aligned : Aligned s db) (twins : Twins amb amb') (fresh : amb.Fresh s)
    {post : Posting → Credit → State → Option (LedgerEntry × State)} {posting : Posting}
    {amount delta : Credit} (notSystem : posting.accountId ≠ systemAccount) (exact : Exact delta)
    (target : ∀ id, posting.reversesEntryId = some id → id ∈ s.entryIds)
    (posts : ∀ row, s.accounts.get? posting.accountId = some row → post posting amount s =
      some (posting.entry amb .posting delta (row.settled + delta),
        (s.pay systemAccount posting.accountId delta).record
          (posting.entry amb .posting delta (row.settled + delta)))) :
    Agrees SameEntry db (Ledger.postKeyed post posting amount s)
      (postKeyed amb' posting amount delta) := by
  unfold Ledger.postKeyed postKeyed
  by_cases positive : 0 < amount
  · rw [if_neg (not_not.mpr positive), if_neg (not_not.mpr positive)]
    refine Agrees.read rfl ?_
    rw [aligned.mirrors.accounts _ notSystem, Table.contains]
    cases found : s.accounts.get? posting.accountId with
    | none => exact Agrees.refuse aligned.mirrors _
    | some row =>
      rw [if_neg (not_not.mpr Option.isSome_some)]
      refine Agrees.bind (yields_findExisting posting) ?_
      have same := aligned.existing posting
      cases stored : posting.idempotencyKey.bind (s.findKeyed posting.accountId) with
      | some existing =>
        rw [stored, Option.map_some] at same
        obtain ⟨existing', stored', alike⟩ := Option.map_eq_some_iff.mp same
        rw [stored']
        exact Agrees.answer aligned.mirrors alike
      | none =>
        rw [stored, Option.map_none, Option.map_eq_none_iff] at same
        rw [same]
        have unused : ∀ key, posting.idempotencyKey = some key →
            db.findKeyed posting.accountId key = none := by
          intro key own
          rwa [own] at same
        obtain ⟨yields, mirrors, alike⟩ :=
          aligned.posts twins found notSystem exact fresh.posting unused target
        rw [posts row found, Option.map_some]
        exact Agrees.write _ rfl alike (fun range => Engine.Yields.bind _ (yields range.recorded)
          (Engine.Yields.done _ _) (List.append_nil _)) mirrors
  · rw [if_pos positive, if_pos positive]
    exact Agrees.refuse aligned.mirrors _

theorem postCredit_of_row {posting : Posting} (notSystem : posting.accountId ≠ systemAccount)
    {row : AccountRow} (found : s.accounts.get? posting.accountId = some row) (mint : Mint)
    (amount : Credit) : postCredit amb mint posting amount s =
      some (posting.entry amb mint amount (row.settled + amount),
        (s.pay systemAccount posting.accountId amount).record
          (posting.entry amb mint amount (row.settled + amount))) := by
  rw [postCredit_eq posting found, flow_payee notSystem]

theorem grant_agrees (aligned : Aligned s db) (twins : Twins amb amb') (fresh : amb.Fresh s)
    {req : GrantRequest} (notSystem : req.account ≠ systemAccount) (exact : Exact req.amount) :
    Agrees SameEntry db (Ledger.grant amb req s) (grant amb' req) :=
  postKeyed_agrees aligned twins fresh notSystem exact (fun _ own => by cases own)
    fun _ found => postCredit_of_row notSystem found _ _

theorem refund_agrees (aligned : Aligned s db) (twins : Twins amb amb') (fresh : amb.Fresh s)
    {req : RefundRequest} (notSystem : req.account ≠ systemAccount) (exact : Exact req.amount)
    (target : ∀ id, req.reversesEntryId = some id → id ∈ s.entryIds) :
    Agrees SameEntry db (Ledger.refund amb req s) (refund amb' req) :=
  postKeyed_agrees aligned twins fresh notSystem exact target
    fun _ found => postCredit_of_row notSystem found _ _

theorem charge_agrees (aligned : Aligned s db) (twins : Twins amb amb') (fresh : amb.Fresh s)
    {req : ChargeRequest} (notSystem : req.account ≠ systemAccount) (exact : Exact req.amount) :
    Agrees SameEntry db (Ledger.charge amb req s) (charge amb' req) :=
  postKeyed_agrees aligned twins fresh notSystem exact.neg (fun _ own => by cases own)
    fun row found => by rw [postDebit_eq req.posting found, sub_eq_add_neg]

/-- **A reversal.** -/
theorem reverseCharge_agrees (aligned : Aligned s db) (twins : Twins amb amb') (fresh : amb.Fresh s)
    {req : ReverseChargeRequest} (notSystem : req.account ≠ systemAccount) :
    Agrees (fun entry entry' => entry'.map essence = entry.map essence) db
      (Ledger.reverseCharge amb req s) (reverseCharge amb' req) := by
  unfold Ledger.reverseCharge reverseCharge
  refine Agrees.read rfl ?_
  rw [aligned.mirrors.accounts _ notSystem, Table.contains]
  cases found : s.accounts.get? req.account with
  | none => exact Agrees.refuse aligned.mirrors _
  | some row =>
    rw [if_neg (not_not.mpr Option.isSome_some)]
    refine Agrees.read rfl ?_
    have same := aligned.mirrors.findKeyed aligned.intact req.account req.idempotencyKey
    cases stored : s.findKeyed req.account req.idempotencyKey with
    | some existing =>
      rw [stored, Option.map_some] at same
      obtain ⟨existing', stored', alike⟩ := Option.map_eq_some_iff.mp same
      rw [stored']
      exact Agrees.answer aligned.mirrors (congrArg some alike)
    | none =>
      rw [stored, Option.map_none, Option.map_eq_none_iff] at same
      rw [same]
      refine Agrees.read rfl ?_
      have target := aligned.mirrors.find?_id aligned.intact.wellFormed.entryIds req.chargeEntryId
      cases charged : s.entries.find? fun entry => entry.id = req.chargeEntryId with
      | none =>
        rw [charged, Option.map_none, Option.map_eq_none_iff] at target
        rw [target]
        have stranger : ¬ (s.entries.any fun entry => entry.id = req.chargeEntryId ∧
            entry.accountId = req.account) = true := by
          rw [List.any_eq_true]
          rintro ⟨entry, inside, belongs⟩
          exact List.find?_eq_none.mp charged entry inside
            (decide_eq_true (of_decide_eq_true belongs).1)
        dsimp only
        rw [if_pos stranger]
        exact Agrees.answer aligned.mirrors rfl
      | some charge =>
        rw [charged, Option.map_some] at target
        obtain ⟨charge', charged', alike⟩ := Option.map_eq_some_iff.mp target
        rw [charged']
        have member := List.mem_of_find?_eq_some charged
        have isCharge : charge.id = req.chargeEntryId := by
          simpa using List.find?_some charged
        have account : charge'.accountId = charge.accountId := by
          rw [← essence_accountId charge', alike, essence_accountId]
        have known : req.chargeEntryId ∈ s.entryIds := isCharge ▸ List.mem_map_of_mem member
        have belongs : (s.entries.any fun entry => entry.id = req.chargeEntryId ∧
            entry.accountId = req.account) = true ↔ charge.accountId = req.account := by
          rw [List.any_eq_true]
          constructor
          · rintro ⟨entry, inside, both⟩
            obtain ⟨isEntry, own⟩ := of_decide_eq_true both
            rw [← List.inj_on_of_nodup_map aligned.wf.entryIds inside member
              (isEntry.trans isCharge.symm), own]
          · exact fun own => ⟨charge, member, decide_eq_true ⟨isCharge, own⟩⟩
        dsimp only
        by_cases own : charge.accountId = req.account
        · rw [if_neg (not_not.mpr (belongs.mpr own)),
            if_neg (not_not.mpr (account.trans own))]
          refine Agrees.bind
            (yields_unreversedRemainder (aligned.mirrors.mem_entryIds.mpr known)) ?_
          have remainder := aligned.mirrors.remainder aligned.intact.wellFormed.entryIds
            req.chargeEntryId
          have exact := aligned.intact.scaled.exact_unreversedRemainder
            (aligned.mirrors.mem_entryIds.mpr known) aligned.intact.wellFormed.entryIds
          rw [remainder] at exact ⊢
          by_cases positive : 0 < s.unreversedRemainder req.chargeEntryId
          · rw [if_neg (not_not.mpr positive), if_neg (not_le.mpr positive)]
            obtain ⟨yields, mirrors, alike⟩ := @Aligned.posts _ _ _ _ aligned twins req.posting
              .posting row _ found notSystem exact fresh.posting
              (fun key own => by cases own; exact same) (fun id own => by cases own; exact known)
            have posted := @postCredit_of_row s amb req.posting notSystem row found .posting
              (s.unreversedRemainder req.chargeEntryId)
            rw [posted, Option.map_some]
            refine Agrees.write _ rfl (show Option.map essence (some _) = _ from congrArg some alike)
              (fun range => ?_) mirrors
            exact Engine.Yields.bind _ (yields range.recorded) (Engine.Yields.done _ _) (List.append_nil _)
          · rw [if_pos positive, if_pos (not_lt.mp positive)]
            exact Agrees.answer aligned.mirrors rfl
        · rw [if_pos (fun inside => own (belongs.mp inside)),
            if_pos (fun inside => own (account ▸ inside))]
          exact Agrees.answer aligned.mirrors rfl

/-! ### Accounts and reads -/

theorem openAccount_agrees (aligned : Aligned s db) (twins : Twins amb amb') (fresh : amb.Fresh s)
    {req : NewAccount} (parent : (Call.openAccount req).ParentExists s)
    (notSystem : req.parentId ≠ some systemAccount) :
    Agrees (fun account account' => account' = account) db (Ledger.openAccount amb req s)
      (openAccount amb' req) := by
  have new : amb.accountId ≠ systemAccount := by
    intro same
    obtain ⟨row, found⟩ := Table.contains_iff.mp aligned.mirrors.system.1
    have absent := fresh.account
    rw [same, found] at absent
    cases absent
  have absent : db.accounts.get? amb'.accountId = none := by
    rw [twins.accountId, aligned.mirrors.accounts _ new]
    exact fresh.account
  unfold openAccount
  rw [twins.accountId] at absent ⊢
  let account : LedgerAccount := {
    id := amb.accountId
    orgId := req.orgId
    scope := req.scope
    noOverdraft := req.noOverdraft
    parentId := req.parentId }
  have inserted : (Stmt.insertAccount account).exec db = .ok ((), [.insertAccount account]) := by
    refine exec_insertAccount_of absent fun id own => ?_
    rw [aligned.mirrors.contains]
    exact parent id own
  exact Agrees.write _ rfl rfl
    (fun _ => Engine.Yields.issue _ inserted (Engine.Yields.done _ _) rfl)
    (aligned.mirrors.openAccount new notSystem)

theorem balance_agrees (aligned : Aligned s db) {account : AccountId}
    (notSystem : account ≠ systemAccount) :
    Agrees (fun balance balance' => balance' = balance) db (Ledger.balance account s)
      (balance account) := by
  unfold Ledger.balance balance
  refine Agrees.read rfl ?_
  rw [aligned.mirrors.accounts _ notSystem]
  cases s.accounts.get? account with
  | none => exact Agrees.refuse aligned.mirrors _
  | some row =>
    refine Agrees.read rfl ?_
    rw [aligned.mirrors.held]
    exact Agrees.answer aligned.mirrors rfl

theorem entries_agrees (aligned : Aligned s db) {account : AccountId}
    (notSystem : account ≠ systemAccount) :
    Agrees (fun rows rows' => (rows'.map essence).Perm (rows.map essence)) db
      (Ledger.entries account s) (entries account) := by
  unfold Ledger.entries entries
  refine Agrees.read rfl ?_
  rw [aligned.mirrors.accounts _ notSystem, Table.contains]
  cases s.accounts.get? account with
  | none => exact Agrees.refuse aligned.mirrors _
  | some row =>
    rw [if_neg (not_not.mpr Option.isSome_some)]
    refine Agrees.read rfl (Agrees.answer aligned.mirrors ?_)
    refine ((List.perm_insertionSort _ _).map essence).trans ?_
    exact filter_perm_of_essence aligned.mirrors.entries _ fun _ => rfl

/-! ### Holds -/

theorem reserve_agrees (aligned : Aligned s db) {req : ReserveRequest}
    (notSystem : req.account ≠ systemAccount) (exact : Exact req.amount)
    (whole : ∀ instant, req.expiresAt = some instant → WholeMicros instant) :
    Agrees (fun outcome outcome' => outcome' = outcome) db (Ledger.reserve req s) (reserve req) := by
  unfold Ledger.reserve reserve
  by_cases positive : 0 < req.amount
  · rw [if_neg (not_not.mpr positive), if_neg (not_not.mpr positive)]
    refine Agrees.read rfl ?_
    rw [aligned.mirrors.accounts _ notSystem]
    cases found : s.accounts.get? req.account with
    | none => exact Agrees.refuse aligned.mirrors _
    | some row =>
      refine Agrees.read rfl ?_
      rw [aligned.mirrors.holds]
      cases stored : s.holds.get? req.reservationId with
      | some hold =>
        dsimp only
        by_cases isOpen : hold.status = .open
        · rw [if_pos isOpen, if_pos isOpen]
          exact Agrees.answer aligned.mirrors rfl
        · rw [if_neg isOpen, if_neg isOpen]
          exact Agrees.close aligned.mirrors _
      | none =>
        refine Agrees.read rfl ?_
        rw [aligned.mirrors.held]
        dsimp only
        by_cases short : (req.limit = .hard ∨ row.account.noOverdraft = true) ∧
            row.settled - s.held req.account < req.amount
        · rw [if_pos short, if_pos short]
          exact Agrees.answer aligned.mirrors rfl
        · rw [if_neg short, if_neg short]
          have absent : db.holds.get? req.reservationId = none := by
            rw [aligned.mirrors.holds, stored]
          have present : db.accounts.contains req.account = true := by
            rw [aligned.mirrors.contains]
            exact Table.contains_iff.mpr ⟨row, found⟩
          let hold : Hold := {
            account := req.account
            amount := req.amount
            status := .open
            settleEntry := none
            expiresAt := req.expiresAt
            runId := req.runId }
          have stored : (s.holds.set req.reservationId hold).get? req.reservationId = some hold := by
            rw [Table.get?_set, if_pos rfl]
          refine Agrees.write [.insertHold req.reservationId hold] rfl rfl (fun range => ?_)
            (aligned.mirrors.placeHold req.reservationId notSystem)
          exact Engine.Yields.issue _ (exec_insertHold_of ⟨exact, range.amount stored⟩ whole absent
            present) (Engine.Yields.done _ _) rfl
  · rw [if_pos positive, if_pos positive]
    exact Agrees.refuse aligned.mirrors _

/-- **A settle.** -/
theorem settle_agrees (aligned : Aligned s db) (twins : Twins amb amb') (fresh : amb.Fresh s)
    {req : SettleRequest} (exact : Exact req.actual) :
    Agrees SameEntry db (Ledger.settle amb req s) (settle amb' req) := by
  unfold Ledger.settle settle
  by_cases negative : req.actual < 0
  · rw [if_pos negative, if_pos negative]
    exact Agrees.refuse aligned.mirrors _
  · rw [if_neg negative, if_neg negative]
    refine Agrees.read rfl ?_
    rw [aligned.mirrors.holds]
    cases found : s.holds.get? req.reservationId with
    | none => exact Agrees.refuse aligned.mirrors _
    | some hold =>
      dsimp only
      cases status : hold.status with
      | settled =>
        obtain ⟨id, link⟩ := (aligned.wf.settledIff found).mp status
        obtain ⟨entry, stored, isEntry, _⟩ := aligned.wf.settleLink found link
        have foundEntry := State.find?_id aligned.wf.entryIds stored
        have same := aligned.mirrors.find?_id aligned.intact.wellFormed.entryIds id
        rw [isEntry] at foundEntry
        rw [foundEntry, Option.map_some] at same
        obtain ⟨entry', foundEntry', alike⟩ := Option.map_eq_some_iff.mp same
        dsimp only
        rw [link, Option.bind_some, foundEntry, Option.map_some]
        exact Agrees.read rfl (Agrees.read (exec_readEntry_of foundEntry')
          (Agrees.answer aligned.mirrors alike))
      | voided => exact Agrees.close aligned.mirrors _
      | «open» =>
        have notSystem := aligned.mirrors.holders found
        obtain ⟨row, foundRow⟩ := Table.contains_iff.mp (aligned.wf.holdTerms found).1
        obtain ⟨yields, mirrors, alike⟩ := @Aligned.posts _ _ _ _ aligned twins
          (req.posting hold.account) .posting row _ foundRow notSystem exact.neg fresh.posting
          (fun key own => by cases own) (fun id own => by cases own)
        dsimp only
        rw [postDebit_eq (req.posting hold.account) foundRow, sub_eq_add_neg, Option.map_some]
        have settled : ∀ hold : Hold, ({ hold with
            status := .settled, settleEntry := some (amb.entryId .posting) } : Hold).account =
            hold.account := fun _ => rfl
        have known : amb.entryId .posting ∈ (after db [
            .setSettled hold.account (row.settled + -req.actual),
            .insertEntry (postingEntry (req.posting hold.account) amb' .posting (-req.actual)
              (row.settled + -req.actual))]).entryIds :=
          State.mem_entryIds_record.mpr (Or.inr (congrFun twins.entryId _).symm)
        refine Agrees.write ([.setSettled hold.account (row.settled + -req.actual),
          .insertEntry (postingEntry (req.posting hold.account) amb' .posting (-req.actual)
            (row.settled + -req.actual)), .settleHold req.reservationId (amb.entryId .posting)]) rfl
          alike (fun range => ?_) (mirrors.modifyHold req.reservationId settled)
        have recorded := range.entries _ (List.mem_append_right _ (List.mem_singleton_self _))
        refine Engine.Yields.bind _ (yields recorded) ?_ rfl
        have executed := @exec_settleHold_of _ req.reservationId _ known
        rw [← twins.entryId] at executed ⊢
        exact Engine.Yields.issue (engine false) executed (Engine.Yields.done _ _) rfl

/-! ### Releases and expiries -/

theorem void_agrees (aligned : Aligned s db) (reservation : ReservationId) :
    Agrees (fun _ _ => True) db (Ledger.void reservation s) (void reservation) := by
  unfold Ledger.void void
  refine Agrees.read rfl ?_
  rw [aligned.mirrors.holds]
  cases s.holds.get? reservation with
  | none => exact Agrees.answer aligned.mirrors trivial
  | some hold =>
    dsimp only
    cases hold.status with
    | voided => exact Agrees.answer aligned.mirrors trivial
    | settled => exact Agrees.close aligned.mirrors _
    | «open» =>
      exact Agrees.write [.voidHold reservation] rfl trivial
        (fun _ => Engine.Yields.issue _ rfl (Engine.Yields.done _ _) rfl)
        (aligned.mirrors.modifyHold reservation fun _ => rfl)

theorem extendHold_agrees (aligned : Aligned s db) (reservation : ReservationId)
    {expiresAt : OffsetDateTime} (whole : WholeMicros expiresAt) :
    Agrees (fun _ _ => True) db (Ledger.extendHold reservation expiresAt s)
      (extendHold reservation expiresAt) := by
  unfold Ledger.extendHold extendHold
  refine Agrees.read rfl ?_
  rw [aligned.mirrors.holds]
  cases s.holds.get? reservation with
  | none => exact Agrees.close aligned.mirrors _
  | some hold =>
    dsimp only
    cases hold.status with
    | voided | settled => exact Agrees.close aligned.mirrors _
    | «open» =>
      have executed : (Stmt.extendHold reservation expiresAt).exec db =
          .ok ((), [.extendHold reservation expiresAt]) := by
        rw [Stmt.exec, timestamp_of_wholeMicros whole]
      exact Agrees.write [.extendHold reservation expiresAt] rfl trivial
        (fun _ => Engine.Yields.issue _ executed (Engine.Yields.done _ _) rfl)
        (aligned.mirrors.modifyHold reservation fun _ => rfl)

/-- Voiding holds one after another. -/
theorem after_voidHolds (db : State) (reservations : List ReservationId) :
    after db (reservations.map .voidHold) = { db with
      holds := db.holds.mapValues fun reservation hold =>
        if reservation ∈ reservations then { hold with status := .voided } else hold } := by
  induction reservations generalizing db with
  | nil =>
    have same : (db.holds.mapValues fun reservation hold =>
        if reservation ∈ ([] : List ReservationId) then { hold with status := .voided }
        else hold) = db.holds := Table.mapValues_eq_self fun _ _ _ => if_neg List.not_mem_nil
    rw [same]
    rfl
  | cons first reservations ih =>
    show after (Write.apply db (.voidHold first)) (reservations.map .voidHold) = _
    rw [ih, Write.apply]
    simp only [Table.modify, Table.mapValues_mapValues, State.mk.injEq, true_and, and_true]
    refine Table.mapValues_congr fun reservation hold _ => ?_
    by_cases isFirst : reservation = first
    · rw [if_pos isFirst, if_pos (List.mem_cons.mpr (Or.inl isFirst))]
      split <;> rfl
    · rw [if_neg isFirst]
      simp only [List.mem_cons, isFirst, false_or]

/-- **The sweep**: every row of the snapshot is still expired when it is reached. -/
theorem yields_sweep {now : OffsetDateTime} (rows : List (ReservationId × Hold)) :
    ∀ {db : State}, (rows.map Prod.fst).Nodup →
      (∀ row ∈ rows, db.holds.get? row.1 = some row.2 ∧ row.2.expired (timestamp now) = true) →
      (engine false).Yields (sweep now rows) db rows.length (rows.map fun row => .voidHold row.1) := by
  induction rows with
  | nil => exact fun _ _ => Engine.Yields.done _ _
  | cons row rows ih =>
    intro db distinct stored
    obtain ⟨fresh, rest⟩ := List.nodup_cons.mp distinct
    obtain ⟨found, expired⟩ := stored row List.mem_cons_self
    have executed : (Stmt.voidIfExpired row.1 now).exec db = .ok (true, [.voidHold row.1]) := by
      simp only [Stmt.exec, found, Option.any_some]
      rw [if_pos expired]
    have later := @ih (Write.apply db (.voidHold row.1)) rest fun other inside => by
      obtain ⟨foundOther, expiredOther⟩ := stored other (List.mem_cons_of_mem _ inside)
      refine ⟨?_, expiredOther⟩
      rw [Write.apply, Table.get?_modify, if_neg, foundOther]
      rintro same
      exact fresh (List.mem_map.mpr ⟨other, inside, same⟩)
    exact Engine.Yields.issue _ executed
      (Engine.Yields.bind _ later (Engine.Yields.done _ _) (List.append_nil _)) rfl

theorem voidExpiredHolds_agrees (aligned : Aligned s db) {now : OffsetDateTime}
    (whole : WholeMicros now) :
    Agrees (fun count count' => count' = count) db (Ledger.voidExpiredHolds now s)
      (voidExpiredHolds amb' now) := by
  let rows := s.holds.rows.filter fun row => row.2.expired now
  have perm : (amb'.iterate rows).Perm rows := amb'.iterate_perm rows
  have counts : rows.length = s.holds.values.countP fun hold => hold.expired now := by
    rw [← List.countP_eq_length_filter, Table.values, List.countP_map]
    rfl
  have yields : (engine false).Yields (sweep now (amb'.iterate rows)) db
      (s.holds.values.countP fun hold => hold.expired now)
      ((amb'.iterate rows).map fun row => .voidHold row.1) := by
    rw [← counts, ← perm.length_eq]
    refine yields_sweep _ ?_ fun row inside => ?_
    · refine ((perm.map Prod.fst).nodup_iff).mpr ?_
      exact List.Sublist.nodup (List.filter_sublist.map Prod.fst) s.holds.nodup
    · obtain ⟨stored, expired⟩ := List.mem_filter.mp (perm.mem_iff.mp inside)
      rw [aligned.mirrors.holds, timestamp_of_wholeMicros whole]
      exact ⟨Table.mem_rows_iff.mp stored, expired⟩
  have voided : (s.holds.mapValues fun _ hold =>
      if hold.expired now = true then { hold with status := .voided } else hold) =
      s.holds.mapValues fun reservation hold =>
        if reservation ∈ (amb'.iterate rows).map Prod.fst then { hold with status := .voided }
        else hold := by
    refine Table.mapValues_congr fun reservation hold found => ?_
    have iff : reservation ∈ (amb'.iterate rows).map Prod.fst ↔ hold.expired now = true := by
      rw [(perm.map Prod.fst).mem_iff, List.mem_map]
      constructor
      · rintro ⟨row, inside, rfl⟩
        obtain ⟨stored, expired⟩ := List.mem_filter.mp inside
        rw [Table.mem_rows_iff, found, Option.some.injEq] at stored
        rwa [stored]
      · exact fun expired => ⟨(reservation, hold),
          List.mem_filter.mpr ⟨Table.mem_rows_iff.mpr found, expired⟩, rfl⟩
    simp only [iff]
  unfold Ledger.voidExpiredHolds voidExpiredHolds
  rw [voided]
  have scanned : (Stmt.scanExpired now).exec db = .ok (rows, []) := by
    rw [Stmt.exec, aligned.mirrors.holds, timestamp_of_wholeMicros whole]
  refine Agrees.write (((amb'.iterate rows).map Prod.fst).map .voidHold) rfl rfl (fun _ => ?_) ?_
  · rw [List.map_map]
    exact Engine.Yields.read _ scanned
      (Engine.Yields.bind _ yields (Engine.Yields.done _ _) (List.append_nil _))
  · rw [after_voidHolds]
    refine aligned.mirrors.mapHolds fun reservation hold => ?_
    split <;> rfl

/-! ### Leases -/

theorem essence_transferRow (twins : Twins amb amb') (mint : Mint) (account paired : AccountId)
    (delta balance : Credit) : essence (transferRow amb' mint account paired delta balance) =
      essence (transferEntry amb mint account paired delta balance) := by
  simp only [essence, transferRow, transferEntry, twins.entryId]
  rfl

/-- One side of a transfer can be inserted. -/
theorem Mirrors.insertable_transfer (mirrors : Mirrors s db) (twins : Twins amb amb') {mint : Mint}
    {account paired : AccountId} {delta balance : Credit}
    (present : s.accounts.contains account = true)
    (pairedPresent : s.accounts.contains paired = true)
    (fresh : amb.entryId mint ∉ s.entryIds) (delta' : Storable delta) (balance' : Storable balance) :
    Insertable db (transferRow amb' mint account paired delta balance) where
  delta := delta'
  balance := balance'
  fresh := by
    show amb'.entryId mint ∉ db.entryIds
    rwa [twins.entryId, mirrors.mem_entryIds]
  unused := fun key own => by cases own
  present := (mirrors.contains account).trans present
  paired := (mirrors.contains paired).trans pairedPresent
  target := fun id own => by cases own

/-- **A transfer on both sides**: within the range of the columns it goes through. -/
theorem Mirrors.transfers (mirrors : Mirrors s db) (twins : Twins amb amb')
    {payer payee : AccountId} {payerRow payeeRow : AccountRow} {amount : Credit}
    (notSystem : payer ≠ systemAccount ∧ payee ≠ systemAccount) (different : payee ≠ payer)
    (payerFound : s.accounts.get? payer = some payerRow)
    (payeeFound : s.accounts.get? payee = some payeeRow)
    (fresh : amb.entryId .transferOut ∉ s.entryIds ∧ amb.entryId .transferIn ∉ s.entryIds ∧
      amb.entryId .transferOut ≠ amb.entryId .transferIn)
    (exact : Exact amount) (exacts : Exact payerRow.settled ∧ Exact payeeRow.settled) :
    let writes := Action.writes (.transfer
      (transferRow amb' .transferOut payer payee (-amount) (payerRow.settled + -amount))
      (transferRow amb' .transferIn payee payer amount (payeeRow.settled + amount)))
    ∃ s', Ledger.postTransfer amb payer payee amount s = some s' ∧
      (InRange s' → (engine false).Yields (postTransfer amb' payer payee amount) db () writes) ∧
      Mirrors s' (after db writes) := by
  have payerPresent : s.accounts.contains payer = true := Table.contains_iff.mpr ⟨_, payerFound⟩
  have payeePresent : s.accounts.contains payee = true := Table.contains_iff.mpr ⟨_, payeeFound⟩
  refine ⟨_, postTransfer_eq different payerPresent payeePresent amb amount, fun range => ?_, ?_⟩
  · rw [State.settled_of_get payerFound, State.settled_of_get payeeFound] at range
    have out := range.entries _ (List.mem_append_left _
      (List.mem_append_right _ (List.mem_singleton_self _)))
    have into := range.entries _ (List.mem_append_right _ (List.mem_singleton_self _))
    refine yields_postTransfer different ((mirrors.accounts _ notSystem.1).trans payerFound)
      ((mirrors.accounts _ notSystem.2).trans payeeFound) (by rw [twins.entryId]; exact fresh.2.2)
      (mirrors.insertable_transfer twins payerPresent payeePresent fresh.1 ⟨exact.neg, out.1⟩
        ⟨exacts.1.add exact.neg, out.2⟩)
      (mirrors.insertable_transfer twins payeePresent payerPresent fresh.2.1 ⟨exact, into.1⟩
        ⟨exacts.2.add exact, into.2⟩)
  · have payerBalance : payerRow.settled + -amount = s.settled payer + -amount := by
      rw [State.settled_of_get payerFound]
    have payeeBalance : payeeRow.settled + amount = s.settled payee + amount := by
      rw [State.settled_of_get payeeFound]
    have moved := mirrors.transfer
      (essence_transferRow twins .transferOut payer payee (-amount) (payerRow.settled + -amount))
      (essence_transferRow twins .transferIn payee payer amount (payeeRow.settled + amount))
      notSystem different rfl ⟨payerBalance, payeeBalance⟩
    rw [State.settled_of_get payerFound, State.settled_of_get payeeFound]
    exact moved

theorem closeLease_agrees (aligned : Aligned s db) (twins : Twins amb amb') (fresh : amb.Fresh s)
    {lease : AccountId} (notSystem : lease ≠ systemAccount) :
    Agrees (fun amount amount' => amount' = amount) db (Ledger.closeLease amb lease s)
      (closeLease amb' lease) := by
  unfold Ledger.closeLease closeLease
  refine Agrees.read rfl ?_
  rw [aligned.mirrors.accounts _ notSystem]
  cases found : s.accounts.get? lease with
  | none => exact Agrees.refuse aligned.mirrors _
  | some row =>
    dsimp only
    cases isParent : row.account.parentId with
    | none => exact Agrees.close aligned.mirrors _
    | some parent =>
      refine Agrees.read rfl ?_
      rw [aligned.mirrors.held]
      dsimp only
      by_cases positive : 0 < row.settled - s.held lease
      · rw [if_neg (not_not.mpr positive), if_neg (not_le.mpr positive)]
        have different : parent ≠ lease := by
          rintro rfl
          exact aligned.wf.parents found isParent
        by_cases present : s.accounts.contains parent = true
        swap
        · intro result s' returned
          obtain ⟨after, moved, _⟩ := Option.map_eq_some_iff.mp returned
          exact absurd (postTransfer_present moved) present
        obtain ⟨parentRow, parentFound⟩ := Table.contains_iff.mp present
        have parentOther : parent ≠ systemAccount := by
          rintro rfl
          exact aligned.mirrors.parents found isParent
        have stored : ∀ {account : AccountId} {row : AccountRow}, account ≠ systemAccount →
            s.accounts.get? account = some row → Exact row.settled := by
          intro account row other found
          rw [← aligned.mirrors.accounts account other] at found
          exact aligned.intact.scaled.settled found
        have exact : Exact (row.settled - s.held lease) := by
          rw [← aligned.mirrors.held]
          exact (stored notSystem found).sub (aligned.intact.scaled.exact_held lease)
        obtain ⟨s', posted, yields, mirrors⟩ := aligned.mirrors.transfers twins
          ⟨notSystem, parentOther⟩ different found parentFound fresh.transfers exact
          ⟨stored notSystem found, stored parentOther parentFound⟩
        rw [posted, Option.map_some]
        exact Agrees.write _ rfl rfl (fun range => Engine.Yields.bind _ (yields range)
          (Engine.Yields.done _ _) (List.append_nil _)) mirrors
      · rw [if_pos positive, if_pos (not_lt.mp positive)]
        exact Agrees.answer aligned.mirrors rfl

theorem openLease_agrees (aligned : Aligned s db) (twins : Twins amb amb') (fresh : amb.Fresh s)
    {req : LeaseRequest} (notSystem : req.parent ≠ systemAccount) (exact : Exact req.amount) :
    Agrees (fun account account' => account' = account) db (Ledger.openLease amb req s)
      (openLease amb' req) := by
  unfold Ledger.openLease openLease
  by_cases positive : 0 < req.amount
  · rw [if_neg (not_not.mpr positive), if_neg (not_not.mpr positive)]
    refine Agrees.read rfl ?_
    rw [aligned.mirrors.accounts _ notSystem]
    cases found : s.accounts.get? req.parent with
    | none => exact Agrees.refuse aligned.mirrors _
    | some row =>
      refine Agrees.read rfl ?_
      rw [aligned.mirrors.held]
      dsimp only
      by_cases short : row.account.noOverdraft = true ∧ row.settled - s.held req.parent < req.amount
      · rw [if_pos short, if_pos short]
        exact Agrees.close aligned.mirrors _
      · rw [if_neg short, if_neg short, twins.accountId]
        let child : LedgerAccount := {
          id := amb.accountId
          orgId := row.account.orgId
          scope := .session
          noOverdraft := true
          parentId := some req.parent }
        have present : s.accounts.contains req.parent = true := Table.contains_iff.mpr ⟨row, found⟩
        have new : amb.accountId ≠ systemAccount := by
          intro same
          obtain ⟨row, found⟩ := Table.contains_iff.mp aligned.mirrors.system.1
          have absent := fresh.account
          rw [same, found] at absent
          cases absent
        have different : amb.accountId ≠ req.parent := by
          intro same
          have absent := fresh.account
          rw [same, found] at absent
          cases absent
        have inserted : (Stmt.insertAccount child).exec db = .ok ((), [.insertAccount child]) := by
          refine exec_insertAccount_of ((aligned.mirrors.accounts _ new).trans fresh.account) ?_
          rintro parent ⟨⟩
          exact (aligned.mirrors.contains _).trans present
        have opened := @Mirrors.openAccount _ _ aligned.mirrors child new
          (fun same => notSystem (Option.some.inj same))
        have parentFound : (s.accounts.set child.id (AccountRow.new child)).get? req.parent =
            some row := by
          rw [Table.get?_set, if_neg different.symm, found]
        have childFound : (s.accounts.set child.id (AccountRow.new child)).get? amb.accountId =
            some (AccountRow.new child) := by
          rw [Table.get?_set, if_pos rfl]
        have stored : Exact row.settled := by
          rw [← aligned.mirrors.accounts _ notSystem] at found
          exact aligned.intact.scaled.settled found
        obtain ⟨s', posted, yields, mirrors⟩ := opened.transfers twins ⟨notSystem, new⟩ different
          parentFound childFound fresh.transfers exact ⟨stored, .zero⟩
        rw [posted, Option.map_some]
        rw [← after_append] at mirrors
        refine Agrees.write _ rfl rfl (fun range => ?_) mirrors
        exact Engine.Yields.issue _ inserted (Engine.Yields.bind _ (yields range)
          (Engine.Yields.done _ _) (List.append_nil _)) rfl
  · rw [if_pos positive, if_pos positive]
    exact Agrees.refuse aligned.mirrors _

end Calls

end Meter.Postgres
