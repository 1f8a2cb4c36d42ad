/-
**What each transaction commits.**

`Leads` is the weakest precondition of a program under `Rely`, and `Lands` what a transaction has to
show when it commits: its writes are those of legal actions, tagged as the call says. Between its
statements a program carries facts that always hold under its locks (`Always`); the two that matter
are `leads_post` (a posting whose row, id and key are locked) and `leads_postTransfer`.

Here are all transactions but `void_run`, which is in `Meter.Postgres.Voiding`.
-/

import Meter.Postgres.Frame

namespace Meter.Postgres

open Meter.Lib Meter.Ledger

/-! ### What a successful statement has checked -/

theorem numeric_eq {value stored : Credit} (result : numeric value = .ok stored) :
    stored = round5 value := by
  unfold numeric at result
  split at result
  · cases result
    rfl
  · cases result

theorem exec_addSettled {db : State} {account : AccountId} {amount balance : Credit}
    {more : List Write}
    (result : (Stmt.addSettled account amount).exec db = .ok (balance, more)) :
    ∃ row, db.accounts.get? account = some row ∧ balance = round5 (row.settled + amount) ∧
      more = [.setSettled account balance] := by
  unfold Stmt.exec at result
  cases found : db.accounts.get? account with
  | none =>
    simp only [found] at result
    cases result
  | some row =>
    simp only [found] at result
    cases stored : numeric (row.settled + amount) with
    | error error =>
      rw [stored] at result
      cases result
    | ok value =>
      rw [stored] at result
      cases result
      exact ⟨row, rfl, numeric_eq stored, rfl⟩

/-- The row that an entry becomes, its amounts rounded. -/
def roundedEntry (entry : LedgerEntry) : LedgerEntry :=
  { entry with
    deltaCredits := round5 entry.deltaCredits
    balanceAfter := round5 entry.balanceAfter }

theorem exec_insertEntry {db : State} {entry : LedgerEntry} {more : List Write} {answer : Unit}
    (result : (Stmt.insertEntry entry).exec db = .ok (answer, more)) :
    more = [.insertEntry (roundedEntry entry)] ∧ entry.id ∉ db.entryIds ∧ Unused db entry ∧
      ∀ id, entry.reversesEntryId = some id → id ∈ db.entryIds := by
  unfold Stmt.exec storedEntry at result
  cases delta : numeric entry.deltaCredits with
  | error error =>
    simp only [delta] at result
    cases result
  | ok deltaCredits =>
    cases balance : numeric entry.balanceAfter with
    | error error =>
      simp only [delta, balance] at result
      cases result
    | ok balanceAfter =>
      simp only [delta, balance, bind, Except.bind, pure, Except.pure] at result
      split at result
      · cases result
      · rename_i fresh
        split at result
        · cases result
        · rename_i unused
          split at result
          · cases result
          · rename_i present
            cases result
            refine ⟨?_, fresh, fun key own => ?_, fun id link => ?_⟩
            · rw [roundedEntry, numeric_eq delta, numeric_eq balance]
            · rw [own, Option.any_some, Option.not_isSome_iff_eq_none] at unused
              exact unused
            · rw [not_or, not_or, link, Option.all_some, not_not, not_not, not_not,
                decide_eq_true_eq] at present
              exact present.2.2

theorem exec_insertAccount {db : State} {account : LedgerAccount} {more : List Write} {answer : Unit}
    (result : (Stmt.insertAccount account).exec db = .ok (answer, more)) :
    more = [.insertAccount account] ∧ db.accounts.get? account.id = none ∧
      ∀ parent, account.parentId = some parent → db.accounts.contains parent = true := by
  unfold Stmt.exec at result
  simp only at result
  split at result
  · cases result
  · rename_i fresh
    split at result
    · cases result
    · rename_i present
      cases result
      refine ⟨rfl, Table.contains_eq_false_iff.mp (Bool.not_eq_true _ ▸ fresh), fun parent own => ?_⟩
      rw [own, Option.all_some, not_not] at present
      exact present

theorem exec_insertHold {db : State} {reservation : ReservationId} {hold : Hold}
    {more : List Write} {answer : Unit}
    (result : (Stmt.insertHold reservation hold).exec db = .ok (answer, more)) :
    more = [.insertHold reservation { hold with
      amount := round5 hold.amount
      expiresAt := hold.expiresAt.map timestamp }] ∧ db.holds.get? reservation = none := by
  unfold Stmt.exec storedHold at result
  cases amount : numeric hold.amount with
  | error error =>
    simp only [amount] at result
    cases result
  | ok stored =>
    simp only [amount, bind, Except.bind, pure, Except.pure] at result
    split at result
    · cases result
    · rename_i fresh
      split at result
      · cases result
      · cases result
        rw [numeric_eq amount]
        exact ⟨rfl, Table.contains_eq_false_iff.mp (Bool.not_eq_true _ ▸ fresh)⟩

theorem exec_settleHold {db : State} {reservation : ReservationId} {entry : EntryId}
    {more : List Write} {answer : Unit}
    (result : (Stmt.settleHold reservation entry).exec db = .ok (answer, more)) :
    more = [.settleHold reservation entry] := by
  unfold Stmt.exec at result
  simp only at result
  split at result
  · cases result
  · cases result
    rfl

theorem exec_readEntry {db : State} {id : EntryId} {entry : LedgerEntry} {more : List Write}
    (result : (Stmt.readEntry id).exec db = .ok (entry, more)) :
    db.entries.find? (fun row => row.id = id) = some entry ∧ more = [] := by
  unfold Stmt.exec at result
  simp only at result
  split at result
  · cases result
  · rename_i row found
    cases result
    exact ⟨found, rfl⟩

theorem exec_decode {db : State} {column : Option EntryId} {id : EntryId} {more : List Write}
    (result : (Stmt.decode column).exec db = .ok (id, more)) : column = some id ∧ more = [] := by
  cases column with
  | none => cases result
  | some id' =>
    cases result
    exact ⟨rfl, rfl⟩

/-- A row of the sweep: voided if it is open. -/
theorem exec_voidIfExpired {shares : Bool} {db : State} {reservation : ReservationId} {now : OffsetDateTime}
    {voided : Bool} {more : List Write}
    (result : (Stmt.voidIfExpired reservation now).exec db = .ok (voided, more)) :
    more = [] ∨ (more = [.voidHold reservation] ∧
      (Stmt.voidIfExpired reservation now).locks shares db = [⟨.noKeyUpdate, .hold reservation⟩] ∧
      ∃ hold, db.holds.get? reservation = some hold ∧ hold.status = .open) := by
  unfold Stmt.exec at result
  simp only at result
  split at result
  · rename_i expired
    cases result
    refine Or.inr ⟨rfl, by rw [Stmt.locks, if_pos expired], ?_⟩
    obtain ⟨hold, found, matched⟩ := (Option.any_eq_true _ _).mp expired
    exact ⟨hold, found, (of_decide_eq_true matched).1⟩
  · cases result
    exact Or.inl rfl

/-! ### Programs -/

section Leads

variable (shares : Bool) (focus : Option RunId)

/-- What must hold before a program so that its result satisfies a condition. -/
abbrev Leads {α : Type} (program : Prog Stmt α)
    (post : α → List Lock → List Write → Point State Label → Prop) (locks : List Lock)
    (writes : List Write) (point : Point State Label) : Prop :=
  (engine shares).wp (Rely focus) (fun point => Intact point.db) program post locks writes point

/-- The condition on how a transaction ends. -/
abbrev Ends (goal : List Lock → List Write → Point State Label → Prop) {α : Type} (exit : Answer α)
    (locks : List Lock) (writes : List Write) (point : Point State Label) : Prop :=
  Engine.Committing (Rely focus) (fun point => Intact point.db) goal exit locks writes point

end Leads

/-! ### Commits -/

/-- The entry that the one posting of a call may reference. -/
def Call.links : Call → Option EntryId
  | .refund req => req.reversesEntryId
  | .reverseCharge req => some req.chargeEntryId
  | _ => none

/-- The run that a call adds a hold or a charge to. -/
def Call.tag : Call → Option RunId
  | .reserve req => req.runId
  | .charge req => req.runId
  | _ => none

/-- What the references and runs in an action's rows may be, given the call. -/
def Tagged (call : Call) : Action → Prop
  | .credit entry => entry.reversesEntryId = Call.links call
  | .charge entry => entry.runId = Call.tag call
  | .place _ hold => hold.runId = Call.tag call
  | .openAccount _ | .settle _ _ | .reverse _ | .transfer _ _ | .release _ | .extend _ _ => True

/-- Nothing of a run is open, and nothing of it is left to refund. -/
structure Cleared (run : RunId) (db : State) : Prop where
  holds : ∀ {reservation hold}, db.holds.get? reservation = some hold → hold.runId = some run →
    hold.status ≠ .open ∧ ∀ id, hold.settleEntry = some id → db.unreversedRemainder id ≤ 0
  charges : ∀ entry ∈ db.entries, entry.entryType = .usage → entry.runId = some run →
    db.unreversedRemainder entry.id ≤ 0

/-- What a transaction has to show when it commits. -/
def Lands (focus : Option RunId) (scaled : Prop) (call : Call) (locks : List Lock)
    (writes : List Write) (point : Point State Label) : Prop :=
  ∃ actions, writes = actions.flatMap Action.writes ∧
    Legals focus scaled locks point.db actions ∧ (∀ action ∈ actions, Tagged call action) ∧
    (actions.length ≤ 1 ∨ Call.links call = none ∧ Call.tag call = none) ∧
    ∀ run, call = .voidRun run → focus = some run → Cleared run (Action.stores point.db actions)

section

variable {shares : Bool} {focus : Option RunId} {scaled : Prop} {locks : List Lock}
  {writes : List Write} {point : Point State Label} {α β : Type}

/-- One statement: whatever others did before it, with the locks it takes from then on. -/
theorem leads_issue {statement : Stmt β} {next : β → Prog Stmt α}
    {post : α → List Lock → List Write → Point State Label → Prop}
    (holds : ∀ point' locks', Rely focus locks point point' → Intact point'.db →
      locks ⊆ locks' → statement.locks shares (after point'.db writes) ⊆ locks' →
      ∀ answer more, statement.exec (after point'.db writes) = .ok (answer, more) →
        Leads shares focus (next answer) post locks' (writes ++ more) point') :
    Leads shares focus (Prog.issue statement >>= next) post locks writes point :=
  fun point' rely intact answer more result => holds point' _ rely intact
    (List.subset_append_left _ _) (List.subset_append_right _ _) answer more result

/-- One statement that always answers and writes nothing. -/
theorem leads_read {statement : Stmt β} {next : β → Prog Stmt α}
    {post : α → List Lock → List Write → Point State Label → Prop} (value : State → β)
    (reads : ∀ db, statement.exec db = .ok (value db, []))
    (holds : ∀ point' locks', Rely focus locks point point' → Intact point'.db →
      locks ⊆ locks' → statement.locks shares (after point'.db writes) ⊆ locks' →
        Leads shares focus (next (value (after point'.db writes))) post locks' writes point') :
    Leads shares focus (Prog.issue statement >>= next) post locks writes point := by
  refine leads_issue fun point' locks' rely intact sub own answer more result => ?_
  rw [reads] at result
  cases result
  rw [List.append_nil]
  exact holds point' locks' rely intact sub own

/-- One program, then another. -/
theorem leads_then {program : Prog Stmt β} {next : β → Prog Stmt α}
    {between : β → List Lock → List Write → Point State Label → Prop}
    {post : α → List Lock → List Write → Point State Label → Prop}
    (leads : Leads shares focus program between locks writes point)
    (holds : ∀ answer locks' writes' point', between answer locks' writes' point' →
      Leads shares focus (next answer) post locks' writes' point') :
    Leads shares focus (program >>= next) post locks writes point :=
  Engine.wp_bind _ (Engine.wp_mono _ (fun _ => id) holds leads)

/-- A transaction that has written nothing may commit. -/
theorem lands_nil {call : Call} (other : ∀ run, call ≠ .voidRun run) :
    Lands focus scaled call locks [] point :=
  ⟨[], rfl, trivial, fun _ member => absurd member List.not_mem_nil, Or.inl (Nat.zero_le _),
    fun run same => absurd same (other run)⟩

/-- A transaction that has performed one action may commit. -/
theorem lands_single {call : Call} (other : ∀ run, call ≠ .voidRun run) (action : Action)
    (tagged : Tagged call action) (legal : Legal focus scaled locks point.db action) :
    Lands focus scaled call locks (Action.writes action) point := by
  refine ⟨[action], (List.append_nil _).symm, ⟨legal, trivial⟩, fun other member => ?_,
    Or.inl le_rfl, fun run same => absurd same (other run)⟩
  rwa [List.mem_singleton.mp member]

/-! ### Postings -/

theorem locked_addSettled {db : State} {account : AccountId} {row : AccountRow}
    (found : db.accounts.get? account = some row) (amount : Credit) :
    Locked ((Stmt.addSettled account amount).locks shares db) (.account account) := by
  refine Or.inr ?_
  rw [Stmt.locks, if_pos (Table.contains_iff.mpr ⟨row, found⟩)]
  exact List.mem_singleton_self _

theorem locked_lockAccount {db : State} {account : AccountId} {row : AccountRow}
    (found : db.accounts.get? account = some row) :
    Locked ((Stmt.lockAccount account).locks shares db) (.account account) := by
  refine Or.inl ?_
  rw [Stmt.locks, if_pos (Table.contains_iff.mpr ⟨row, found⟩)]
  exact List.mem_singleton_self _

theorem locked_lockHold {db : State} {reservation : ReservationId} {hold : Hold}
    (found : db.holds.get? reservation = some hold) :
    Locked ((Stmt.lockHold reservation).locks shares db) (.hold reservation) := by
  refine Or.inl ?_
  rw [Stmt.locks, if_pos (Table.contains_iff.mpr ⟨hold, found⟩)]
  exact List.mem_singleton_self _

theorem locked_insertEntry (db : State) (entry : LedgerEntry) :
    Locked ((Stmt.insertEntry entry).locks shares db) (.entry entry.id) :=
  Or.inl List.mem_cons_self

theorem locked_insertEntry_key (db : State) {entry : LedgerEntry} {key : String}
    (own : entry.idempotencyKey = some key) :
    Locked ((Stmt.insertEntry entry).locks shares db) (.key entry.accountId key) := by
  refine Or.inl ?_
  simp [Stmt.locks, own]

/-- **A posting.** From its second statement on its row, its id and its key are locked, so it stays a
legal posting until the commit. -/
theorem leads_post {amb : Ambient} {mint : Mint} {posting : Posting} {amount : Credit}
    {rest : LedgerEntry → Prog Stmt α}
    {condition : α → List Lock → List Write → Point State Label → Prop}
    (scale : scaled → Exact amount)
    (next : ∀ balance locks' point', locks ⊆ locks' → Rely focus locks point point' →
      Intact point'.db →
      Always focus locks' point' (fun db => Stores scaled locks' (after db writes) amount
        (postingEntry posting amb mint (round5 amount) balance)) →
      Leads shares focus (rest (postingEntry posting amb mint amount balance)) condition locks'
        (writes ++ [.setSettled posting.accountId balance,
          .insertEntry (postingEntry posting amb mint (round5 amount) balance)]) point') :
    Leads shares focus (post amb mint posting amount >>= rest) condition locks writes point := by
  refine Engine.wp_bind _ (leads_issue fun point₁ locks₁ rely₁ _ sub₁ own₁ balance more result => ?_)
  obtain ⟨row, found, isBalance, rfl⟩ := exec_addSettled result
  refine leads_issue fun point₂ locks₂ rely₂ intact₂ sub₂ own₂ _ more result => ?_
  obtain ⟨rfl, fresh, unused, target⟩ := exec_insertEntry result
  rw [after_append] at fresh unused target
  have stays : round5 balance = balance := by
    rw [isBalance]
    exact round5_of_exact (exact_round5 _)
  have exactly : roundedEntry (postingEntry posting amb mint amount balance) =
      postingEntry posting amb mint (round5 amount) balance := by
    show postingEntry posting amb mint (round5 amount) (round5 balance) = _
    rw [stays]
  rw [exactly, List.append_assoc]
  have lockedRow := (locked_addSettled found amount).mono own₁
  have lockedEntry := (locked_insertEntry _ (postingEntry posting amb mint amount balance)).mono own₂
  have lockedKey := fun key own => (@locked_insertEntry_key shares _
    (postingEntry posting amb mint amount balance) key own).mono own₂
  refine next balance locks₂ point₂ (List.Subset.trans sub₁ sub₂) (rely₁.trans (rely₂.anti sub₁)) intact₂ ?_
  intro point₃ rely₃ intact₃
  have frame := rely₃.2
  refine {
    row := ⟨row, ?_, isBalance⟩
    delta := rfl
    scale := scale
    paired := rfl
    fresh := frame.fresh lockedEntry fresh
    unused := frame.unused lockedKey unused
    target := fun id link => frame.grows.known (target id link)
    lockedAccount := lockedRow.mono sub₂
    lockedEntry := lockedEntry
    lockedKey := lockedKey }
  rw [← found]
  exact Always.account lockedRow writes point₃ (rely₂.trans (rely₃.anti sub₂)) intact₃

theorem leads_replying {transaction : Prog Stmt (Answer α)} {wrap : α → Reply}
    {goal : List Lock → List Write → Point State Label → Prop}
    (leads : Leads shares focus transaction (Ends focus goal) locks writes point) :
    Leads shares focus (replying transaction wrap) (Ends focus goal) locks writes point := by
  refine leads_then leads fun exit _ _ _ ends => ?_
  cases exit with
  | commit _ => exact ends
  | rollback _ => trivial

/-! ### Grants, refunds, charges -/

theorem leads_findExisting {posting : Posting} {rest : Option LedgerEntry → Prog Stmt α}
    {condition : α → List Lock → List Write → Point State Label → Prop}
    (intact : Intact point.db)
    (next : ∀ existing locks' point', locks ⊆ locks' → Rely focus locks point point' →
      Intact point'.db → Leads shares focus (rest existing) condition locks' writes point') :
    Leads shares focus (findExisting posting >>= rest) condition locks writes point := by
  unfold findExisting
  cases posting.idempotencyKey with
  | none => exact next none locks point (List.Subset.refl _) (.refl _ _ _) intact
  | some key =>
    refine leads_read (fun db => db.findKeyed posting.accountId key) (fun _ => rfl) ?_
    exact fun point' locks' rely intact' sub _ => next _ locks' point' sub rely intact'

/-- The transaction of `grant`, `refund` and `charge` commits the one posting, or nothing. -/
theorem leads_postKeyed {amb : Ambient} {posting : Posting} {amount delta : Credit} {call : Call}
    (other : ∀ run, call ≠ .voidRun run) (scale : scaled → Exact delta)
    (action : LedgerEntry → Action) (tagged : ∀ balance,
      Tagged call (action (postingEntry posting amb .posting (round5 delta) balance)))
    (same : ∀ entry, Action.writes (action entry) =
      [.setSettled entry.accountId entry.balanceAfter, .insertEntry entry])
    (legal : ∀ locks' db balance, 0 < amount →
      Stores scaled locks' db delta (postingEntry posting amb .posting (round5 delta) balance) →
      Legal focus scaled locks' db
        (action (postingEntry posting amb .posting (round5 delta) balance))) :
    Leads shares focus (postKeyed amb posting amount delta) (Ends focus (Lands focus scaled call))
      [] [] point := by
  unfold postKeyed
  split
  · trivial
  · rename_i positive
    refine leads_read (fun db => db.accounts.get? posting.accountId) (fun _ => rfl)
      fun point₁ locks₁ _ intact₁ _ _ => ?_
    cases (after point₁.db []).accounts.get? posting.accountId with
    | none => trivial
    | some row =>
      refine leads_findExisting intact₁ fun existing locks₂ point₂ _ _ _ => ?_
      cases existing with
      | some entry => exact fun _ _ _ => lands_nil other
      | none =>
        refine leads_post scale fun balance locks₃ point₃ _ _ _ stores => ?_
        intro point₄ rely₄ intact₄
        have landed := lands_single other _ (tagged balance)
          (legal locks₃ point₄.db balance (not_not.mp positive) (stores point₄ rely₄ intact₄))
        rwa [same] at landed

theorem leads_grant (amb : Ambient) (req : GrantRequest) (scale : scaled → Exact req.amount) :
    Leads shares focus (grant amb req) (Ends focus (Lands focus scaled (.grant req))) [] []
      point := by
  refine leads_postKeyed (fun _ same => by cases same) scale .credit (fun _ => rfl) (fun _ => rfl) ?_
  exact fun _ _ _ positive stores => ⟨req.amount, positive, stores, Or.inl ⟨rfl, rfl⟩⟩

theorem leads_refund (amb : Ambient) (req : RefundRequest) (scale : scaled → Exact req.amount) :
    Leads shares focus (refund amb req) (Ends focus (Lands focus scaled (.refund req))) [] []
      point := by
  refine leads_postKeyed (fun _ same => by cases same) scale .credit (fun _ => rfl) (fun _ => rfl) ?_
  exact fun _ _ _ positive stores => ⟨req.amount, positive, stores, Or.inr rfl⟩

theorem leads_charge (amb : Ambient) (req : ChargeRequest) (scale : scaled → Exact req.amount) :
    Leads shares focus (charge amb req) (Ends focus (Lands focus scaled (.charge req))) [] []
      point := by
  refine leads_postKeyed (fun _ same => by cases same) (fun isScaled => (scale isScaled).neg) .charge
    (fun _ => rfl) (fun _ => rfl) ?_
  exact fun _ _ _ positive stores => ⟨-req.amount, neg_lt_zero.mpr positive, stores, rfl, rfl⟩

/-- What is left of an entry is a sum of stored amounts. -/
theorem Scaled.exact_remainder {db : State} (isScaled : Scaled db) (entry : LedgerEntry)
    (member : entry ∈ db.entries) (id : EntryId) :
    Exact (-entry.deltaCredits - db.reversed id) := by
  refine (isScaled.delta entry member).neg.sub (Exact.sum fun amount inside => ?_)
  obtain ⟨refund, linked, rfl⟩ := List.mem_map.mp inside
  exact isScaled.delta refund (List.mem_filter.mp linked).1

/-- **A remainder** as a program reads it: the entry once, the refunds a statement later. -/
theorem leads_unreversedRemainder {id : EntryId} {rest : Credit → Prog Stmt α}
    {condition : α → List Lock → List Write → Point State Label → Prop}
    (next : ∀ entry point' locks', Rely focus locks point point' → Intact point'.db →
      locks ⊆ locks' → entry ∈ (after point'.db writes).entries → entry.id = id →
      Leads shares focus (rest (-entry.deltaCredits - (after point'.db writes).reversed id))
        condition locks' writes point') :
    Leads shares focus (unreversedRemainder id >>= rest) condition locks writes point := by
  refine Engine.wp_bind _ (leads_issue fun point₁ locks₁ rely₁ _ sub₁ _ entry more result => ?_)
  obtain ⟨found, rfl⟩ := exec_readEntry result
  rw [List.append_nil]
  refine leads_read (fun db => db.reversed id) (fun _ => rfl)
    fun point₂ locks₂ rely₂ intact₂ sub₂ _ => ?_
  refine next entry point₂ locks₂ (rely₁.trans (rely₂.anti sub₁)) intact₂
    (List.Subset.trans sub₁ sub₂) (rely₂.2.grows.mem_view (List.mem_of_find?_eq_some found)) ?_
  exact of_decide_eq_true (List.find?_some found :)

theorem leads_reverseCharge (amb : Ambient) (req : ReverseChargeRequest) :
    Leads shares focus (reverseCharge amb req)
      (Ends focus (Lands focus scaled (.reverseCharge req))) [] [] point := by
  have other : ∀ run, Call.reverseCharge req ≠ .voidRun run := fun _ same => by cases same
  refine leads_read (fun db => db.accounts.get? req.account) (fun _ => rfl)
    fun point₁ locks₁ _ _ _ _ => ?_
  cases (after point₁.db []).accounts.get? req.account with
  | none => trivial
  | some row =>
    refine leads_read (fun db => db.findKeyed req.account req.idempotencyKey) (fun _ => rfl)
      fun point₂ locks₂ _ _ _ _ => ?_
    cases (after point₂.db []).findKeyed req.account req.idempotencyKey with
    | some existing => exact fun _ _ _ => lands_nil other
    | none =>
      refine leads_read (fun db => db.entries.find? fun row => row.id = req.chargeEntryId)
        (fun _ => rfl) fun point₃ locks₃ _ _ _ _ => ?_
      cases (after point₃.db []).entries.find? fun row => row.id = req.chargeEntryId with
      | none => exact fun _ _ _ => lands_nil other
      | some charge =>
        show Leads shares focus (ite _ _ _) _ _ _ _
        split
        · exact fun _ _ _ => lands_nil other
        · refine leads_unreversedRemainder fun entry point₅ locks₅ _ intact₅ _ member _ => ?_
          split
          · exact fun _ _ _ => lands_nil other
          · rename_i positive
            have exact := intact₅.scaled.exact_remainder entry member req.chargeEntryId
            refine leads_post (fun _ : scaled => exact) fun balance locks₆ point₆ _ _ _ stores => ?_
            intro point₇ rely₇ intact₇
            exact lands_single other
              (.credit (postingEntry req.posting amb .posting (round5 _) balance)) rfl
              ⟨_, not_le.mp positive, stores point₇ rely₇ intact₇, Or.inr rfl⟩

/-! ### Accounts and balances -/

theorem locked_insertAccount (db : State) (account : LedgerAccount) :
    Locked ((Stmt.insertAccount account).locks shares db) (.account account.id) :=
  Or.inl List.mem_cons_self

variable (scaled) in
/-- Opening an account: from then on its id is locked. -/
theorem leads_insertAccount {account : LedgerAccount} {rest : Unit → Prog Stmt α}
    {condition : α → List Lock → List Write → Point State Label → Prop}
    (next : ∀ point' locks', Rely focus locks point point' → Intact point'.db → locks ⊆ locks' →
      point'.db.accounts.get? account.id = none → Always focus locks' point' (fun db =>
        Legal focus scaled locks' db (.openAccount account)) →
      Leads shares focus (rest ()) condition locks' [.insertAccount account] point') :
    Leads shares focus (Prog.issue (.insertAccount account) >>= rest) condition locks []
      point := by
  refine leads_issue fun point₁ locks₁ rely₁ intact₁ sub₁ own₁ _ more result => ?_
  obtain ⟨rfl, absent, parents⟩ := exec_insertAccount result
  refine next point₁ locks₁ rely₁ intact₁ sub₁ absent fun point₂ rely₂ _ => ?_
  have locked := (locked_insertAccount _ account).mono own₁
  refine ⟨(rely₂.2.account locked).trans absent, fun parent own => ?_, locked⟩
  obtain ⟨row, found⟩ := Table.contains_iff.mp (parents parent own)
  obtain ⟨row', found', _⟩ := rely₂.2.grows.account found
  exact Table.contains_iff.mpr ⟨row', found'⟩

theorem leads_openAccount (amb : Ambient) (req : NewAccount) :
    Leads shares focus (openAccount amb req) (Ends focus (Lands focus scaled (.openAccount req)))
      [] [] point := by
  refine leads_insertAccount scaled fun point₁ locks₁ _ _ _ _ legal => ?_
  intro point₂ rely₂ intact₂
  exact lands_single (fun _ same => by cases same) (.openAccount _) trivial
    (legal point₂ rely₂ intact₂)

theorem leads_balance (account : AccountId) :
    Leads shares focus (balance account) (Ends focus (Lands focus scaled (.balance account)))
      [] [] point := by
  refine leads_read (fun db => db.accounts.get? account) (fun _ => rfl)
    fun point₁ locks₁ _ _ _ _ => ?_
  cases (after point₁.db []).accounts.get? account with
  | none => trivial
  | some row =>
    refine leads_read (fun db => db.held account) (fun _ => rfl) fun point₂ locks₂ _ _ _ _ => ?_
    exact fun _ _ _ => lands_nil fun _ same => by cases same

theorem leads_entries (account : AccountId) :
    Leads shares focus (entries account) (Ends focus (Lands focus scaled (.entries account)))
      [] [] point := by
  refine leads_read (fun db => db.accounts.get? account) (fun _ => rfl)
    fun point₁ locks₁ _ _ _ _ => ?_
  cases (after point₁.db []).accounts.get? account with
  | none => trivial
  | some row =>
    refine leads_read _ (fun _ => rfl) fun point₂ locks₂ _ _ _ _ => ?_
    exact fun _ _ _ => lands_nil fun _ same => by cases same

/-! ### Holds -/

/-- **What is available on a locked account only grows.** -/
theorem Always.available {account : AccountId} {row : AccountRow} {held : Credit}
    {point₁ point₂ : Point State Label} {locks₁ : List Lock}
    (locked : Locked locks₁ (.account account))
    (found : point₁.db.accounts.get? account = some row) (intact : Intact point₂.db)
    (rely : Rely focus locks₁ point₁ point₂) (isHeld : held = point₂.db.held account) :
    Always focus locks₁ point₂ fun db => db.accounts.get? account = some row ∧
      row.settled - held ≤ db.available account := by
  intro point₃ rely₃ intact₃
  have found₃ : point₃.db.accounts.get? account = some row := by
    rw [rely₃.2.account locked, rely.2.account locked, found]
  have less := rely₃.2.held_le intact.wellFormed locked
  refine ⟨found₃, ?_⟩
  rw [State.available, State.settled_of_get found₃, isHeld]
  linarith

theorem locked_insertHold (db : State) (reservation : ReservationId) (hold : Hold) :
    Locked ((Stmt.insertHold reservation hold).locks shares db) (.hold reservation) :=
  Or.inl List.mem_cons_self

theorem leads_reserve (req : ReserveRequest) (scale : scaled → Exact req.amount) :
    Leads shares focus (reserve req) (Ends focus (Lands focus scaled (.reserve req))) [] []
      point := by
  have other : ∀ run, Call.reserve req ≠ .voidRun run := fun _ same => by cases same
  unfold reserve
  split
  · trivial
  · rename_i positive
    refine leads_read (fun db => db.accounts.get? req.account) (fun _ => rfl)
      fun point₁ locks₁ _ _ _ own₁ => ?_
    cases found : (after point₁.db []).accounts.get? req.account with
    | none => trivial
    | some row =>
      refine leads_read (fun db => db.holds.get? req.reservationId) (fun _ => rfl)
        fun point₂ locks₂ rely₂ _ sub₂ _ => ?_
      cases (after point₂.db []).holds.get? req.reservationId with
      | some hold =>
        show Leads shares focus (ite _ _ _) _ _ _ _
        split
        · exact fun _ _ _ => lands_nil other
        · exact fun _ _ _ => lands_nil other
      | none =>
        refine leads_read (fun db => db.held req.account) (fun _ => rfl)
          fun point₃ locks₃ rely₃ intact₃ sub₃ _ => ?_
        show Leads shares focus (ite _ _ _) _ _ _ _
        split
        · exact fun _ _ _ => lands_nil other
        · rename_i allowed
          refine leads_issue fun point₄ locks₄ rely₄ _ sub₄ own₄ _ more result => ?_
          obtain ⟨rfl, absent⟩ := exec_insertHold result
          intro point₅ rely₅ intact₅
          have locked₁ := (locked_lockAccount found).mono own₁
          have sub₁₃ := List.Subset.trans sub₂ sub₃
          obtain ⟨found₅, enough⟩ := Always.available locked₁ found intact₃
            (rely₂.trans (rely₃.anti sub₂)) rfl point₅
            ((rely₄.anti sub₁₃).trans (rely₅.anti (List.Subset.trans sub₁₃ sub₄))) intact₅
          have lockedHold := (locked_insertHold _ _ _).mono own₄
          refine lands_single other (.place req.reservationId _) rfl
            ⟨(rely₅.2.hold lockedHold).trans absent, rfl, rfl, lockedHold,
              locked₁.mono (List.Subset.trans sub₁₃ sub₄), req.amount, row, not_not.mp positive,
              scale, rfl, found₅, fun protects => le_trans ?_ enough⟩
          exact not_lt.mp fun less => allowed ⟨Or.inr protects, less⟩

theorem leads_settle (amb : Ambient) (req : SettleRequest) (scale : scaled → Exact req.actual) :
    Leads shares focus (settle amb req) (Ends focus (Lands focus scaled (.settle req))) [] []
      point := by
  have other : ∀ run, Call.settle req ≠ .voidRun run := fun _ same => by cases same
  unfold settle
  split
  · trivial
  · rename_i nonneg
    refine leads_read (fun db => db.holds.get? req.reservationId) (fun _ => rfl)
      fun point₁ locks₁ _ _ _ own₁ => ?_
    cases found : (after point₁.db []).holds.get? req.reservationId with
    | none => trivial
    | some hold =>
      dsimp only
      split
      · refine leads_issue fun point₂ locks₂ _ _ _ _ settleEntry more result => ?_
        obtain ⟨_, rfl⟩ := exec_decode result
        refine leads_issue fun point₃ locks₃ _ _ _ _ entry more result => ?_
        obtain ⟨_, rfl⟩ := exec_readEntry result
        exact fun _ _ _ => lands_nil other
      · exact fun _ _ _ => lands_nil other
      · rename_i isOpen
        refine leads_post (fun isScaled => (scale isScaled).neg)
          fun balance locks₂ point₂ sub₂ rely₂ _ stores => ?_
        refine leads_issue fun point₃ locks₃ rely₃ _ sub₃ _ _ more result => ?_
        cases exec_settleHold result
        intro point₄ rely₄ intact₄
        have locked := (locked_lockHold found).mono own₁
        have sub₁₃ := List.Subset.trans sub₂ sub₃
        have found₄ : point₄.db.holds.get? req.reservationId = some hold := by
          rw [(rely₄.anti sub₁₃).2.hold locked, (rely₃.anti sub₂).2.hold locked,
            rely₂.2.hold locked]
          exact found
        have stored := stores point₄ (rely₃.trans (rely₄.anti sub₃)) intact₄
        exact lands_single other (.settle req.reservationId
          (postingEntry (req.posting hold.account) amb .posting (round5 (-req.actual)) balance))
          trivial ⟨-req.actual, neg_nonpos.mpr (not_lt.mp nonneg), stored.mono sub₃, rfl, rfl, rfl,
            rfl, locked.mono sub₁₃, hold, found₄, isOpen, rfl⟩

/-- Releasing or extending a hold that was found open under its lock. -/
theorem open_of_locked {reservation : ReservationId} {hold : Hold} {point' : Point State Label}
    (locked : Locked locks (.hold reservation)) (found : point.db.holds.get? reservation = some hold)
    (isOpen : hold.status = .open) (rely : Rely focus locks point point') :
    ∃ hold, point'.db.holds.get? reservation = some hold ∧ hold.status = .open :=
  ⟨hold, (rely.2.hold locked).trans found, isOpen⟩

theorem leads_void (reservation : ReservationId) :
    Leads shares focus (void reservation) (Ends focus (Lands focus scaled (.void reservation)))
      [] [] point := by
  have other : ∀ run, Call.void reservation ≠ .voidRun run := fun _ same => by cases same
  refine leads_read (fun db => db.holds.get? reservation) (fun _ => rfl)
    fun point₁ locks₁ _ _ _ own₁ => ?_
  cases found : (after point₁.db []).holds.get? reservation with
  | none => exact fun _ _ _ => lands_nil other
  | some hold =>
    dsimp only
    split
    · exact fun _ _ _ => lands_nil other
    · rename_i isOpen
      refine leads_issue fun point₂ locks₂ rely₂ _ sub₂ _ _ more result => ?_
      cases result
      intro point₃ rely₃ _
      have locked := (locked_lockHold found).mono own₁
      exact lands_single other (.release [reservation]) trivial ⟨reservation, rfl, locked.mono sub₂,
        open_of_locked locked found isOpen (rely₂.trans (rely₃.anti sub₂))⟩
    · exact fun _ _ _ => lands_nil other

theorem leads_extendHold (reservation : ReservationId) (expiresAt : OffsetDateTime) :
    Leads shares focus (extendHold reservation expiresAt)
      (Ends focus (Lands focus scaled (.extendHold reservation expiresAt))) [] [] point := by
  have other : ∀ run, Call.extendHold reservation expiresAt ≠ .voidRun run :=
    fun _ same => by cases same
  refine leads_read (fun db => db.holds.get? reservation) (fun _ => rfl)
    fun point₁ locks₁ _ _ _ own₁ => ?_
  cases found : (after point₁.db []).holds.get? reservation with
  | none => exact fun _ _ _ => lands_nil other
  | some hold =>
    dsimp only
    split
    · rename_i isOpen
      refine leads_issue fun point₂ locks₂ rely₂ _ sub₂ _ _ more result => ?_
      cases result
      intro point₃ rely₃ _
      have locked := (locked_lockHold found).mono own₁
      exact lands_single other (.extend reservation (timestamp expiresAt)) trivial
        ⟨locked.mono sub₂,
          open_of_locked locked found isOpen (rely₂.trans (rely₃.anti sub₂))⟩
    · exact fun _ _ _ => lands_nil other
    · exact fun _ _ _ => lands_nil other

/-! ### Several actions -/

variable (focus scaled locks writes point) in
/-- Writes that are those of some actions, legal whatever others commit. -/
def Pending (actions : List Action) : Prop :=
  writes = actions.flatMap Action.writes ∧
    Always focus locks point fun db => Legals focus scaled locks db actions

theorem Pending.nil : Pending focus scaled locks [] point [] := ⟨rfl, fun _ _ _ => trivial⟩

theorem Pending.further {locks' : List Lock} {point' : Point State Label} {actions : List Action}
    (pending : Pending focus scaled locks writes point actions)
    (rely : Rely focus locks point point') (sub : locks ⊆ locks') :
    Pending focus scaled locks' writes point' actions :=
  ⟨pending.1, (pending.2.further rely sub).mp fun _ _ legals => legals.mono sub⟩

/-- **One more action.** -/
theorem Pending.snoc {locks' : List Lock} {point' : Point State Label} {actions : List Action}
    (pending : Pending focus scaled locks writes point actions)
    (rely : Rely focus locks point point') (sub : locks ⊆ locks') (action : Action)
    (legal : Always focus locks' point' fun db =>
      Legal focus scaled locks' (after db writes) action) :
    Pending focus scaled locks' (writes ++ Action.writes action) point' (actions ++ [action]) := by
  obtain ⟨same, legals⟩ := pending.further rely sub
  refine ⟨by rw [same, List.flatMap_append, List.flatMap_singleton], fun later rest intact => ?_⟩
  refine (legals later rest intact).append ⟨?_, trivial⟩
  rw [Action.stores, ← same]
  exact legal later rest intact

theorem Pending.lands {call : Call} (other : ∀ run, call ≠ .voidRun run) {actions : List Action}
    (pending : Pending focus scaled locks writes point actions)
    (tagged : ∀ action ∈ actions, Tagged call action)
    (untagged : Call.links call = none ∧ Call.tag call = none) : ∀ point',
      Rely focus locks point point' → Intact point'.db →
      Lands focus scaled call locks writes point' :=
  fun later rest intact => ⟨actions, pending.1, pending.2 later rest intact, tagged, Or.inr untagged,
    fun run same => absurd same (other run)⟩

/-- An action that releases a hold. -/
def IsRelease (action : Action) : Prop := ∃ reservation, action = .release [reservation]

/-- The sweep releases rows that are open when reached. -/
theorem leads_sweep {now : OffsetDateTime} (rows : List (ReservationId × Hold))
    {locks : List Lock} {writes : List Write} {point : Point State Label} {actions : List Action}
    (pending : Pending focus scaled locks writes point actions)
    (releases : ∀ action ∈ actions, IsRelease action) :
    Leads shares focus (sweep now rows) (fun _ locks' writes' point' =>
      ∃ actions', Pending focus scaled locks' writes' point' actions' ∧
        ∀ action ∈ actions', IsRelease action) locks writes point := by
  induction rows generalizing locks writes point actions with
  | nil => exact ⟨actions, pending, releases⟩
  | cons row rows ih =>
    refine leads_issue fun point₁ locks₁ rely₁ _ sub₁ own₁ voided more result => ?_
    refine leads_then ?_ fun _ _ _ _ holds => holds
    rcases @exec_voidIfExpired shares _ _ _ _ _ result with rfl | ⟨rfl, lock, hold, found, isOpen⟩
    · rw [List.append_nil]
      exact ih (pending.further rely₁ sub₁) releases
    · have locked : Locked locks₁ (.hold row.1) := Or.inr (own₁ (lock ▸ List.mem_singleton_self _))
      refine ih (pending.snoc rely₁ sub₁ (.release [row.1]) ?_) ?_
      · intro point₂ rely₂ intact₂
        refine ⟨row.1, rfl, locked, hold, ?_, isOpen⟩
        rw [← found]
        exact Always.hold locked writes point₂ rely₂ intact₂
      · intro action member
        rcases List.mem_append.mp member with old | new
        · exact releases action old
        · exact ⟨row.1, List.mem_singleton.mp new⟩

theorem IsRelease.tagged {action : Action} (release : IsRelease action) (call : Call) :
    Tagged call action := by
  obtain ⟨reservation, rfl⟩ := release
  trivial

theorem leads_voidExpiredHolds (amb : Ambient) (now : OffsetDateTime) :
    Leads shares focus (voidExpiredHolds amb now)
      (Ends focus (Lands focus scaled (.voidExpiredHolds now))) [] [] point := by
  refine leads_read _ (fun _ => rfl) fun point₁ locks₁ _ _ _ _ => ?_
  have start : Pending focus scaled locks₁ [] point₁ [] := .nil
  refine leads_then (leads_sweep _ start fun _ member => absurd member List.not_mem_nil) ?_
  rintro count locks₂ writes₂ point₂ ⟨actions, pending, releases⟩
  exact pending.lands (fun _ same => by cases same)
    (fun action member => (releases action member).tagged _) ⟨rfl, rfl⟩

/-! ### Leases -/

/-- **A transfer.** -/
theorem leads_postTransfer {amb : Ambient} {payer payee : AccountId} {amount : Credit}
    {rest : Unit → Prog Stmt α} {condition : α → List Lock → List Write → Point State Label → Prop}
    (positive : 0 < amount) (scale : scaled → Exact amount) (different : payee ≠ payer)
    (covered : Always focus locks point fun db => ∀ row,
      (after db writes).accounts.get? payer = some row → row.account.noOverdraft = true →
        amount ≤ (after db writes).available payer)
    (next : ∀ out into locks' point', locks ⊆ locks' → Rely focus locks point point' →
      Always focus locks' point' (fun db =>
        Legal focus scaled locks' (after db writes) (.transfer out into)) →
      Leads shares focus (rest ()) condition locks' (writes ++ Action.writes (.transfer out into))
        point') :
    Leads shares focus (postTransfer amb payer payee amount >>= rest) condition locks writes
      point := by
  refine Engine.wp_bind _ (leads_issue fun point₁ locks₁ rely₁ _ sub₁ own₁ payerAfter more result => ?_)
  obtain ⟨payerRow, foundPayer, isPayerAfter, rfl⟩ := exec_addSettled result
  refine leads_issue fun point₂ locks₂ rely₂ _ sub₂ own₂ payeeAfter more result => ?_
  obtain ⟨payeeRow, foundPayee, isPayeeAfter, rfl⟩ := exec_addSettled result
  refine leads_issue fun point₃ locks₃ rely₃ _ sub₃ own₃ _ more result => ?_
  obtain ⟨rfl, freshOut, _, _⟩ := exec_insertEntry result
  show Leads shares focus (Prog.issue _ >>= pure) _ _ _ _
  refine leads_issue fun point₄ locks₄ rely₄ _ sub₄ own₄ _ more result => ?_
  obtain ⟨rfl, freshInto, _, _⟩ := exec_insertEntry result
  have lockedPayer := (locked_addSettled foundPayer (-amount)).mono own₁
  have lockedPayee := (locked_addSettled foundPayee amount).mono own₂
  have lockedOut := (locked_insertEntry _
    (transferRow amb .transferOut payer payee (-amount) payerAfter)).mono own₃
  have lockedInto := (locked_insertEntry _
    (transferRow amb .transferIn payee payer amount payeeAfter)).mono own₄
  have storedOut : roundedEntry (transferRow amb .transferOut payer payee (-amount) payerAfter) =
      transferRow amb .transferOut payer payee (round5 (-amount)) payerAfter := by
    rw [isPayerAfter, roundedEntry]
    simp only [transferRow, transferEntry, round5_of_exact (exact_round5 _)]
  have storedInto : roundedEntry (transferRow amb .transferIn payee payer amount payeeAfter) =
      transferRow amb .transferIn payee payer (round5 amount) payeeAfter := by
    rw [isPayeeAfter, roundedEntry]
    simp only [transferRow, transferEntry, round5_of_exact (exact_round5 _)]
  simp only [after_append] at freshOut freshInto foundPayee
  -- the statements before it do not move the payee, and add one entry only
  replace foundPayee : (after point₂.db writes).accounts.get? payee = some payeeRow := by
    rw [← foundPayee]
    show _ = ((after point₂.db writes).accounts.modify payer _).get? payee
    rw [Table.get?_modify, if_neg different]
  replace freshInto : amb.entryId .transferIn ∉ (after point₄.db writes).entryIds ∧
      amb.entryId .transferIn ≠ amb.entryId .transferOut := by
    change _ ∉ ((after point₄.db writes).entries ++ [_]).map LedgerEntry.id at freshInto
    rw [List.map_append, List.mem_append, not_or, List.map_singleton, List.mem_singleton]
      at freshInto
    exact freshInto
  have sub₁₄ := List.Subset.trans sub₂ (List.Subset.trans sub₃ sub₄)
  have rely₁₄ : Rely focus locks₁ point₁ point₄ :=
    rely₂.trans ((rely₃.anti sub₂).trans (rely₄.anti (List.Subset.trans sub₂ sub₃)))
  have written : writes ++ [.setSettled payer payerAfter] ++ [.setSettled payee payeeAfter] ++
      [.insertEntry (roundedEntry (transferRow amb .transferOut payer payee (-amount) payerAfter))] ++
      [.insertEntry (roundedEntry (transferRow amb .transferIn payee payer amount payeeAfter))] =
      writes ++ Action.writes (.transfer
        (transferRow amb .transferOut payer payee (round5 (-amount)) payerAfter)
        (transferRow amb .transferIn payee payer (round5 amount) payeeAfter)) := by
    rw [storedOut, storedInto]
    simp [Action.writes, transferRow, transferEntry]
  rw [written]
  refine next _ _ locks₄ point₄ (List.Subset.trans sub₁ sub₁₄) (rely₁.trans (rely₁₄.anti sub₁)) ?_
  intro point₅ rely₅ intact₅
  have rely₁₅ := rely₁₄.trans (rely₅.anti sub₁₄)
  have payerRow₅ : (after point₅.db writes).accounts.get? payer = some payerRow := by
    rw [← foundPayer]
    exact Always.account lockedPayer writes point₅ rely₁₅ intact₅
  have payeeRow₅ : (after point₅.db writes).accounts.get? payee = some payeeRow := by
    rw [← foundPayee]
    exact Always.account lockedPayee writes point₅ ((rely₃.trans (rely₄.anti sub₃)).trans
      (rely₅.anti (List.Subset.trans sub₃ sub₄))) intact₅
  refine ⟨amount, {
    positive := positive
    scale := scale
    different := different
    paired := ⟨rfl, rfl⟩
    kinds := ⟨rfl, rfl⟩
    deltas := ⟨rfl, rfl⟩
    payer := ⟨payerRow, payerRow₅, isPayerAfter, ?_⟩
    payee := ⟨payeeRow, payeeRow₅, isPayeeAfter⟩
    fresh := ⟨?_, rely₅.2.fresh lockedInto freshInto.1, freshInto.2.symm⟩
    plain := ⟨rfl, rfl, rfl, rfl⟩
    lockedAccounts := ⟨lockedPayer.mono sub₁₄,
      lockedPayee.mono (List.Subset.trans sub₃ sub₄)⟩
    lockedEntries := ⟨lockedOut.mono sub₄, lockedInto⟩ }⟩
  · exact covered point₅ (rely₁.trans (rely₁₅.anti sub₁)) intact₅ payerRow payerRow₅
  · exact (rely₄.trans (rely₅.anti sub₄)).2.fresh lockedOut freshOut

theorem available_insertAccount (db : State) (opened : LedgerAccount) {account : AccountId}
    (different : account ≠ opened.id) :
    (after db [.insertAccount opened]).accounts.get? account = db.accounts.get? account ∧
      (after db [.insertAccount opened]).available account = db.available account := by
  have same : (after db [.insertAccount opened]).accounts.get? account =
      db.accounts.get? account := by
    show (db.accounts.set opened.id _).get? account = _
    rw [Table.get?_set, if_neg different]
  refine ⟨same, ?_⟩
  rw [State.available, State.available, State.settled, State.settled, same]
  rfl

theorem leads_openLease (amb : Ambient) (req : LeaseRequest) (scale : scaled → Exact req.amount) :
    Leads shares focus (openLease amb req) (Ends focus (Lands focus scaled (.openLease req))) [] []
      point := by
  have other : ∀ run, Call.openLease req ≠ .voidRun run := fun _ same => by cases same
  unfold openLease
  split
  · trivial
  · rename_i positive
    refine leads_read (fun db => db.accounts.get? req.parent) (fun _ => rfl)
      fun point₁ locks₁ _ _ _ own₁ => ?_
    cases found : (after point₁.db []).accounts.get? req.parent with
    | none => trivial
    | some row =>
      refine leads_read (fun db => db.held req.parent) (fun _ => rfl)
        fun point₂ locks₂ rely₂ intact₂ sub₂ _ => ?_
      show Leads shares focus (ite _ _ _) _ _ _ _
      split
      · exact fun _ _ _ => lands_nil other
      · rename_i allowed
        refine leads_insertAccount scaled fun point₃ locks₃ rely₃ _ sub₃ absent legal => ?_
        have locked₁ := (locked_lockAccount found).mono own₁
        have available := Always.available locked₁ found intact₂ rely₂ rfl
        have sub₁₃ := List.Subset.trans sub₂ sub₃
        have available₃ := available.further (rely₃.anti sub₂) sub₁₃
        have different : amb.accountId ≠ req.parent := by
          rintro same
          have found₃ := (rely₂.trans (rely₃.anti sub₂)).2.account locked₁
          rw [← same, absent, same, show point₁.db.accounts.get? req.parent = some row from found]
            at found₃
          cases found₃
        refine leads_postTransfer (not_not.mp positive) scale different ?_
          fun out into locks₄ point₄ sub₄ rely₄ transfers => ?_
        · refine available₃.mp fun db _ known row' found' protects => ?_
          have same := available_insertAccount db
            ⟨amb.accountId, row.account.orgId, .session, true, some req.parent⟩ (Ne.symm different)
          rw [same.1, known.1, Option.some.injEq] at found'
          rw [same.2]
          exact le_trans (not_lt.mp fun less => allowed ⟨found' ▸ protects, less⟩) known.2
        · have opened : Pending focus scaled locks₃ [.insertAccount _] point₃ [.openAccount _] :=
            ⟨rfl, legal.mp fun _ _ legal => ⟨legal, trivial⟩⟩
          refine (opened.snoc rely₄ sub₄ (.transfer out into) transfers).lands other ?_ ⟨rfl, rfl⟩
          intro action member
          rcases List.mem_pair.mp member with rfl | rfl <;> trivial

/-- What is held is a sum of stored amounts. -/
theorem Scaled.exact_held {db : State} (isScaled : Scaled db) (account : AccountId) :
    Exact (db.held account) := by
  refine Exact.sum fun amount member => ?_
  obtain ⟨hold, inside, rfl⟩ := List.mem_map.mp member
  obtain ⟨reservation, found⟩ := Table.mem_values_iff.mp (List.mem_filter.mp inside).1
  exact isScaled.amount found

theorem leads_closeLease (amb : Ambient) (lease : AccountId) :
    Leads shares focus (closeLease amb lease) (Ends focus (Lands focus scaled (.closeLease lease)))
      [] [] point := by
  have other : ∀ run, Call.closeLease lease ≠ .voidRun run := fun _ same => by cases same
  refine leads_read (fun db => db.accounts.get? lease) (fun _ => rfl)
    fun point₁ locks₁ _ intact₁ _ own₁ => ?_
  cases found : (after point₁.db []).accounts.get? lease with
  | none => trivial
  | some row =>
    dsimp only
    cases isParent : row.account.parentId with
    | none => exact fun _ _ _ => lands_nil other
    | some parent =>
      refine leads_read (fun db => db.held lease) (fun _ => rfl)
        fun point₂ locks₂ rely₂ intact₂ sub₂ _ => ?_
      show Leads shares focus (ite _ _ _) _ _ _ _
      split
      · exact fun _ _ _ => lands_nil other
      · rename_i positive
        have locked₁ := (locked_lockAccount found).mono own₁
        have available := (Always.available locked₁ found intact₂ rely₂ rfl).further
          (.refl _ _ _) sub₂
        have exact : Exact (row.settled - point₂.db.held lease) :=
          (intact₁.scaled.settled found).sub (intact₂.scaled.exact_held lease)
        refine leads_postTransfer (not_le.mp positive) (fun _ : scaled => exact)
          (fun same => intact₁.wellFormed.parents found (same ▸ isParent))
          (available.mp fun db _ known _ _ _ => known.2) ?_
        intro out into locks₃ point₃ sub₃ rely₃ transfers point₄ rely₄ intact₄
        exact lands_single other (.transfer out into) trivial (transfers point₄ rely₄ intact₄)

end

end Meter.Postgres
