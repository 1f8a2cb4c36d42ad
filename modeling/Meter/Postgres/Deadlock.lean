/-
**Which ledger transactions can deadlock.**

A transaction waits when its next statement locks a row (`for update` or `update`) that another one
has locked, and locks are kept until the end. There is no global order of locks: `reverse_charge`
locks an account and then the charge, `void_run` the charges of the run and then their accounts.

* `WaitsFor`, `Deadlocked` — who waits for whom, and a cycle of it.
* `Waiting` — what a transaction that waits for a row has locked, call by call. `asserted_waiting`
  reads it off the programs, in every interleaving.
* `no_deadlock` — **the condition**: there is no cycle while no void of a run overlaps a transaction
  that it `Clashes` with.
* `reversal_deadlocks` — a run void and the reversal of one of its charges, each waiting for the
  other.
-/

import Meter.Ledger.Leases
import Meter.Postgres.Balance

namespace Meter.Postgres

open Meter.Lib Meter.Ledger

/-! ### Waiting -/

/-- The row that a statement locks with `for update` or `update`. -/
def Stmt.row {β : Type} : Stmt β → Option Resource
  | .lockAccount account | .addSettled account _ => some (.account account)
  | .lockHold reservation | .settleHold reservation _ | .voidHold reservation
  | .extendHold reservation _ | .voidIfExpired reservation _ => some (.hold reservation)
  | .lockEntry entry => some (.entry entry)
  | .insertAccount _ | .readAccount _ | .findKeyed _ _ | .readEntry _ | .sumReversals _
  | .readEntries _ | .scanRunCharges _ | .decode _ | .insertEntry _ | .readHold _
  | .sumOpenHolds _ | .scanRunHolds _ | .scanExpired _ | .insertHold _ _ => none

/-- The next statement of a transaction locks a row. -/
def Wants (shares : Bool) (world : LedgerWorld) (i : Nat) (resource : Resource) : Prop :=
  ∃ (label : Label) (β : Type) (statement : Stmt β) (next : β → Prog Stmt (Answer Reply))
    (writes : List Write) (locks : List Lock),
    world.live i = some ⟨label, .stmt statement next, writes, locks⟩ ∧
    statement.row = some resource ∧
    Locked (statement.locks shares (after world.point.db writes)) resource

/-- A transaction has locked a row. -/
def HasLocked (world : LedgerWorld) (i : Nat) (resource : Resource) : Prop :=
  ∃ session, world.live i = some session ∧ Locked session.locks resource

/-- One transaction waits for a row that another has locked. -/
def WaitsFor (shares : Bool) (world : LedgerWorld) (i j : Nat) : Prop :=
  i ≠ j ∧ ∃ resource, Wants shares world i resource ∧ HasLocked world j resource

/-- A cycle of transactions, each waiting for the next. -/
def Deadlocked (shares : Bool) (world : LedgerWorld) : Prop :=
  ∃ i, Relation.TransGen (WaitsFor shares world) i i

/-! ### What a waiting transaction has locked -/

/-- An account that a run has a hold or a charge on. -/
def OnRun (db : State) (run : RunId) (account : AccountId) : Prop :=
  (∃ reservation hold, db.holds.get? reservation = some hold ∧ hold.runId = some run ∧
    hold.account = account) ∨
  ∃ entry ∈ db.entries, entry.entryType = .usage ∧ entry.runId = some run ∧
    entry.accountId = account

/-- A row that a void of a run locks: a hold or a charge of the run, or an account of one. -/
def RunRow (db : State) (run : RunId) : Resource → Prop
  | .hold reservation => ∃ hold, db.holds.get? reservation = some hold ∧ hold.runId = some run
  | .account account => OnRun db run account
  | .entry id => ∃ entry ∈ db.entries, entry.id = id ∧ entry.entryType = .usage ∧
      entry.runId = some run
  | .key _ _ => False

/-- What a void of a run has locked: rows of the run, and what it inserted itself. -/
def RunLocked (db : State) (run : RunId) (locks : List Lock) : Prop :=
  ∀ resource, Locked locks resource → RunRow db run resource ∨
    (∃ id, resource = .entry id ∧ id ∉ db.entryIds) ∨ ∃ account key, resource = .key account key

/-- What a call has locked when it waits for a row. -/
def Waiting (call : Call) (locks : List Lock) (db : State) (wanted : Resource) : Prop :=
  match call with
  | .voidRun run => RunRow db run wanted ∧ RunLocked db run locks ∧
      ∀ reservation, wanted = .hold reservation →
        ∀ resource, Locked locks resource → ∃ other, resource = .hold other
  | .closeLease lease => (∀ resource, ¬ Locked locks resource) ∨
      ∃ parent, wanted = .account parent ∧ db.ParentOf lease parent ∧
        ∀ resource, Locked locks resource → resource = .account lease
  | .settle _ => (∀ resource, ¬ Locked locks resource) ∨ (∃ account, wanted = .account account) ∧
      ∀ resource, Locked locks resource → ∃ reservation, resource = .hold reservation
  | .reverseCharge req => (∀ resource, ¬ Locked locks resource) ∨
      wanted = .entry req.chargeEntryId ∧ req.chargeEntryId ∈ db.entryIds ∧
        ∀ resource, Locked locks resource → ∃ account, resource = .account account
  | .voidExpiredHolds _ => True
  | _ => ∀ resource, ¬ Locked locks resource

/-- The assertion before every statement: the row is locked already, or the transaction waits. -/
def Asserts (shares : Bool) (call : Call) {β : Type} (statement : Stmt β) (locks : List Lock)
    (writes : List Write) (point : Point State Label) : Prop :=
  ∀ resource, statement.row = some resource →
    Locked (statement.locks shares (after point.db writes)) resource →
    Locked locks resource ∨ Waiting call locks point.db resource

theorem locked_append {first second : List Lock} {resource : Resource} :
    Locked (first ++ second) resource ↔ Locked first resource ∨ Locked second resource := by
  simp only [Locked, List.mem_append]
  tauto

theorem not_locked_nil (resource : Resource) : ¬ Locked [] resource := by
  rintro (member | member) <;> exact absurd member List.not_mem_nil

/-- A key-share lock locks nothing. -/
theorem not_locked_share {resources : List Resource} {resource : Resource} :
    ¬ Locked (resources.map (Lock.mk .keyShare)) resource := by
  rintro (member | member) <;> · obtain ⟨_, _, same⟩ := List.mem_map.mp member; cases same

section

variable {shares : Bool} {β : Type} {db : State}

/-- A statement on a row locks that row only. -/
theorem Stmt.locked_row {statement : Stmt β} {row : Resource} (isRow : statement.row = some row)
    {resource : Resource} (locked : Locked (statement.locks shares db) resource) :
    resource = row := by
  have single : ∀ {mode : Mode} {other : Resource}, Locked [⟨mode, other⟩] resource →
      resource = other := by
    rintro mode other (member | member) <;> cases List.mem_singleton.mp member <;> rfl
  cases statement with
  | lockAccount _ | addSettled _ _ | lockHold _ | voidHold _ | extendHold _ _ | voidIfExpired _ _
  | lockEntry _ =>
    cases isRow
    rw [Stmt.locks] at locked
    split at locked
    · exact single locked
    · exact absurd locked (not_locked_nil _)
  | settleHold reservation entry =>
    cases isRow
    rw [Stmt.locks, locked_append] at locked
    rcases locked with locked | locked
    · split at locked
      · exact single locked
      · exact absurd locked (not_locked_nil _)
    · split at locked
      · exact absurd locked not_locked_share
      · exact absurd locked (not_locked_nil _)
  | _ => cases isRow

end

/-! ### Asserted programs -/

/-- A program whose statements are asserted, whatever others commit in between. -/
abbrev Outlined (shares : Bool) (call : Call) {α : Type} (program : Prog Stmt α)
    (goal : α → List Lock → List Write → Point State Label → Prop) (locks : List Lock)
    (writes : List Write) (point : Point State Label) : Prop :=
  (engine shares).outline (Rely none) (fun point => Intact point.db)
    (fun statement => Asserts shares call statement) program goal locks writes point

section

variable {shares : Bool} {call : Call} {α β : Type} {locks : List Lock} {writes : List Write}
  {point : Point State Label} {goal : α → List Lock → List Write → Point State Label → Prop}

/-- A statement that locks no row. -/
theorem outlined_free {statement : Stmt β} {next : β → Prog Stmt α} (free : statement.row = none)
    (rest : ∀ point' answer more, Rely none locks point point' → Intact point'.db →
      statement.exec (after point'.db writes) = .ok (answer, more) →
      Outlined shares call (next answer) goal
        (locks ++ statement.locks shares (after point'.db writes)) (writes ++ more) point') :
    Outlined shares call (Prog.issue statement >>= next) goal locks writes point := by
  refine fun point' rely intact => ⟨fun resource isRow => ?_, fun answer more result =>
    rest point' answer more rely intact result⟩
  rw [free] at isRow
  cases isRow

/-- A statement that locks a row: it has it, or it waits. -/
theorem outlined_row {statement : Stmt β} {next : β → Prog Stmt α} {row : Resource}
    (isRow : statement.row = some row)
    (waits : ∀ point', Rely none locks point point' →
      Locked (statement.locks shares (after point'.db writes)) row →
      Locked locks row ∨ Waiting call locks point'.db row)
    (rest : ∀ point' answer more, Rely none locks point point' → Intact point'.db →
      statement.exec (after point'.db writes) = .ok (answer, more) →
      Outlined shares call (next answer) goal
        (locks ++ statement.locks shares (after point'.db writes)) (writes ++ more) point') :
    Outlined shares call (Prog.issue statement >>= next) goal locks writes point := by
  refine fun point' rely intact => ⟨fun resource isResource locked => ?_, fun answer more result =>
    rest point' answer more rely intact result⟩
  cases isRow.symm.trans isResource
  exact waits point' rely locked

/-- A posting on a locked account. -/
theorem outlined_post {amb : Ambient} {mint : Mint} {posting : Posting} {delta : Credit}
    {rest : LedgerEntry → Prog Stmt α} (locked : Locked locks (.account posting.accountId))
    (next : ∀ entry locks' writes' point', locks ⊆ locks' →
      Outlined shares call (rest entry) goal locks' writes' point') :
    Outlined shares call (post amb mint posting delta >>= rest) goal locks writes point := by
  refine Engine.outline_bind _ (outlined_row rfl (fun _ _ _ => Or.inl locked)
    fun point₁ balance more₁ _ _ _ => ?_)
  refine outlined_free rfl fun point₂ _ more₂ _ _ _ => ?_
  exact next _ _ _ _ (List.subset_append_of_subset_left _ (List.subset_append_left _ _))

/-- What a lock statement that found its row has locked. -/
theorem outlined_lockAccount {account : AccountId} {next : Option AccountRow → Prog Stmt α}
    (waits : ∀ db, Waiting call locks db (.account account))
    (absent : ∀ locks' point', Outlined shares call (next none) goal locks' writes point')
    (found : ∀ row point', Intact point'.db →
      (after point'.db writes).accounts.get? account = some row →
      Locked ((Stmt.lockAccount account).locks shares (after point'.db writes))
        (.account account) →
      Outlined shares call (next (some row)) goal
        (locks ++ (Stmt.lockAccount account).locks shares (after point'.db writes)) writes point') :
    Outlined shares call (Prog.issue (.lockAccount account) >>= next) goal locks writes point := by
  refine outlined_row rfl (fun point' _ _ => Or.inr (waits point'.db))
    fun point' answer more _ intact result => ?_
  cases result
  rw [List.append_nil]
  cases isRow : (after point'.db writes).accounts.get? account with
  | none => exact absent _ _
  | some row => exact found row point' intact isRow (locked_lockAccount isRow)

theorem outlined_findExisting {posting : Posting} {next : Option LedgerEntry → Prog Stmt α}
    (rest : ∀ existing locks' point', locks ⊆ locks' →
      Outlined shares call (next existing) goal locks' writes point') :
    Outlined shares call (findExisting posting >>= next) goal locks writes point := by
  unfold findExisting
  split
  · exact rest none locks point (List.Subset.refl _)
  · refine outlined_free rfl fun point' existing more _ _ result => ?_
    cases result
    rw [List.append_nil]
    exact rest _ _ point' (List.subset_append_left _ _)

theorem outlined_postKeyed {amb : Ambient} {posting : Posting} {amount delta : Credit}
    (waits : ∀ db, Waiting call [] db (.account posting.accountId)) :
    Outlined shares call (postKeyed amb posting amount delta) (fun _ _ _ _ => True) [] writes
      point := by
  unfold postKeyed
  split
  · trivial
  refine outlined_lockAccount waits (fun _ _ => trivial) fun row point₁ _ _ locked => ?_
  refine outlined_findExisting fun existing locks₂ point₂ sub => ?_
  cases existing with
  | some existing => trivial
  | none =>
    refine outlined_post (locked.mono (List.Subset.trans ?_ sub)) fun _ _ _ _ _ => trivial
    exact List.subset_append_right _ _

theorem outlined_reserve (req : ReserveRequest) :
    Outlined shares (.reserve req) (reserve req) (fun _ _ _ _ => True) [] writes point := by
  unfold reserve
  split
  · trivial
  refine outlined_lockAccount (fun _ => not_locked_nil) (fun _ _ => trivial) fun row point₁ _ _ _ => ?_
  refine outlined_free rfl fun point₂ hold more _ _ _ => ?_
  cases hold with
  | some hold =>
    show Outlined _ _ (ite _ _ _) _ _ _ _
    split <;> trivial
  | none =>
    refine outlined_free rfl fun point₃ held more _ _ _ => ?_
    show Outlined _ _ (ite _ _ _) _ _ _ _
    split
    · trivial
    · exact outlined_free rfl fun _ _ _ _ _ _ => trivial

/-- The locks after a statement on a row: those before, and that row. -/
theorem locked_after_row {statement : Stmt β} {row : Resource} {db : State}
    (isRow : statement.row = some row) {resource : Resource}
    (locked : Locked (locks ++ statement.locks shares db) resource) :
    Locked locks resource ∨ resource = row :=
  (locked_append.mp locked).imp_right (Stmt.locked_row isRow)

theorem outlined_reverseCharge (amb : Ambient) (req : ReverseChargeRequest) :
    Outlined shares (.reverseCharge req) (reverseCharge amb req) (fun _ _ _ _ => True) [] []
      point := by
  refine outlined_lockAccount (fun _ => Or.inl not_locked_nil) (fun _ _ => trivial)
    fun row point₁ _ _ locked => ?_
  refine outlined_free rfl fun point₂ existing more _ _ result => ?_
  cases result
  cases (after point₂.db []).findKeyed req.account req.idempotencyKey with
  | some existing => trivial
  | none =>
    refine outlined_row rfl (fun point₃ _ stored => Or.inr (Or.inr ⟨rfl, ?_,
      fun resource locked => ?_⟩)) fun point₃ charge more _ _ _ => ?_
    · rw [Stmt.locks] at stored
      split at stored
      · assumption
      · exact absurd stored (not_locked_nil _)
    · rw [List.nil_append, locked_append] at locked
      rcases locked with locked | locked
      · exact ⟨_, Stmt.locked_row rfl locked⟩
      · exact absurd locked (not_locked_nil _)
    · cases charge with
      | none => trivial
      | some charge =>
        show Outlined _ _ (ite _ _ _) _ _ _ _
        split
        · trivial
        · refine Engine.outline_bind _ (outlined_free rfl fun point₄ entry more _ _ _ => ?_)
          refine outlined_free rfl fun point₅ reversed more _ _ _ => ?_
          show Outlined _ _ (ite _ _ _) _ _ _ _
          split
          · trivial
          · refine outlined_post (locked_append.mpr (Or.inl (locked_append.mpr (Or.inl
              (locked_append.mpr (Or.inl (locked_append.mpr (Or.inl ?_)))))))) fun _ _ _ _ _ => trivial
            rwa [List.nil_append]

/-- The same for a hold. -/
theorem outlined_lockHold {reservation : ReservationId} {next : Option Hold → Prog Stmt α}
    (waits : ∀ db, Waiting call locks db (.hold reservation))
    (absent : ∀ locks' point', Outlined shares call (next none) goal locks' writes point')
    (found : ∀ hold point', Locked ((Stmt.lockHold reservation).locks shares
        (after point'.db writes)) (.hold reservation) →
      Outlined shares call (next (some hold)) goal
        (locks ++ (Stmt.lockHold reservation).locks shares (after point'.db writes)) writes point') :
    Outlined shares call (Prog.issue (.lockHold reservation) >>= next) goal locks writes point := by
  refine outlined_row rfl (fun point' _ _ => Or.inr (waits point'.db))
    fun point' answer more _ intact result => ?_
  cases result
  rw [List.append_nil]
  cases isHold : (after point'.db writes).holds.get? reservation with
  | none => exact absent _ _
  | some hold => exact found hold point' (locked_lockHold isHold)

theorem outlined_settle (amb : Ambient) (req : SettleRequest) :
    Outlined shares (.settle req) (settle amb req) (fun _ _ _ _ => True) [] writes point := by
  unfold settle
  split
  · trivial
  refine outlined_lockHold (fun _ => Or.inl not_locked_nil) (fun _ _ => trivial)
    fun hold point₁ locked => ?_
  dsimp only
  cases hold.status with
  | voided => trivial
  | settled =>
    refine outlined_free rfl fun point₂ id more _ _ _ => ?_
    exact outlined_free rfl fun _ _ _ _ _ _ => trivial
  | «open» =>
    refine Engine.outline_bind _ (outlined_row rfl (fun point₂ _ _ => Or.inr (Or.inr
      ⟨⟨_, rfl⟩, fun resource locked => ?_⟩)) fun point₂ balance more _ _ _ => ?_)
    · rw [List.nil_append] at locked
      exact ⟨_, Stmt.locked_row rfl locked⟩
    · refine outlined_free rfl fun point₃ _ more _ _ _ => ?_
      refine outlined_row rfl (fun _ _ _ => Or.inl ?_) fun _ _ _ _ _ _ => trivial
      simp only [List.nil_append, locked_append]
      exact Or.inl (Or.inl locked)

theorem outlined_void (reservation : ReservationId) :
    Outlined shares (.void reservation) (void reservation) (fun _ _ _ _ => True) [] writes
      point := by
  refine outlined_lockHold (fun _ => not_locked_nil) (fun _ _ => trivial) fun hold point₁ locked => ?_
  dsimp only
  cases hold.status with
  | voided | settled => trivial
  | «open» => exact outlined_row rfl (fun _ _ _ => Or.inl locked) fun _ _ _ _ _ _ => trivial

theorem outlined_extendHold (reservation : ReservationId) (expiresAt : OffsetDateTime) :
    Outlined shares (.extendHold reservation expiresAt) (extendHold reservation expiresAt)
      (fun _ _ _ _ => True) [] writes point := by
  refine outlined_lockHold (fun _ => not_locked_nil) (fun _ _ => trivial) fun hold point₁ locked => ?_
  dsimp only
  cases hold.status with
  | voided | settled => trivial
  | «open» => exact outlined_row rfl (fun _ _ _ => Or.inl locked) fun _ _ _ _ _ _ => trivial

theorem outlined_sweep {now : OffsetDateTime} (rows : List (ReservationId × Hold)) :
    ∀ {locks writes point} {other : OffsetDateTime}, Outlined shares (.voidExpiredHolds other)
      (sweep now rows) (fun _ _ _ _ => True) locks writes point := by
  induction rows with
  | nil => exact trivial
  | cons row rows ih =>
    intro locks writes point other
    refine outlined_row rfl (fun _ _ _ => Or.inr trivial) fun point' voided more _ _ _ => ?_
    exact Engine.outline_bind _ (Engine.outline_mono _ (fun _ _ _ _ _ => trivial) ih)

/-- A transfer from a locked account to one that is locked or waited for. -/
theorem outlined_postTransfer {amb : Ambient} {payer payee : AccountId} {amount : Credit}
    {rest : Unit → Prog Stmt α} (locked : Locked locks (.account payer))
    (waits : ∀ point' locks', Rely none locks point point' → locks ⊆ locks' → (∀ resource, Locked locks' resource →
        Locked locks resource ∨ resource = .account payer) →
      Locked locks' (.account payee) ∨ Waiting call locks' point'.db (.account payee))
    (next : ∀ answer locks' writes' point', Outlined shares call (rest answer) goal locks' writes'
      point') :
    Outlined shares call (postTransfer amb payer payee amount >>= rest) goal locks writes point := by
  refine Engine.outline_bind _ (outlined_row rfl (fun _ _ _ => Or.inl locked)
    fun point₁ payerAfter more rely₁ _ _ => ?_)
  refine outlined_row rfl (fun point₂ rely₂ _ => ?_) fun point₂ payeeAfter more _ _ _ => ?_
  · refine waits point₂ _ (rely₁.trans (rely₂.anti (List.subset_append_left _ _)))
      (List.subset_append_left _ _) fun resource locked => ?_
    exact locked_after_row rfl locked
  · refine outlined_free rfl fun point₃ _ more _ _ _ => ?_
    exact outlined_free rfl fun _ _ _ _ _ _ => next _ _ _ _

theorem outlined_openLease (amb : Ambient) (req : LeaseRequest) :
    Outlined shares (.openLease req) (openLease amb req) (fun _ _ _ _ => True) [] writes point := by
  unfold openLease
  split
  · trivial
  refine outlined_lockAccount (fun _ => not_locked_nil) (fun _ _ => trivial)
    fun row point₁ _ _ locked => ?_
  refine outlined_free rfl fun point₂ held more _ _ _ => ?_
  show Outlined _ _ (ite _ _ _) _ _ _ _
  split
  · trivial
  refine outlined_free rfl fun point₃ _ more _ _ _ => ?_
  refine outlined_postTransfer ?_ (fun point₄ locks₄ _ sub _ => Or.inl ?_) fun _ _ _ _ => trivial
  · simp only [List.nil_append, locked_append]
    exact Or.inl (Or.inl locked)
  · refine Locked.mono ?_ sub
    rw [locked_append]
    exact Or.inr (locked_insertAccount _ _)

theorem outlined_closeLease (amb : Ambient) (lease : AccountId) :
    Outlined shares (.closeLease lease) (closeLease amb lease) (fun _ _ _ _ => True) [] []
      point := by
  refine outlined_lockAccount (fun _ => Or.inl not_locked_nil) (fun _ _ => trivial)
    fun row point₁ _ found locked => ?_
  dsimp only
  cases named : row.account.parentId with
  | none => trivial
  | some parent =>
    refine outlined_free rfl fun point₂ held more rely₂ _ _ => ?_
    show Outlined _ _ (ite _ _ _) _ _ _ _
    split
    · trivial
    refine outlined_postTransfer ?_ (fun point₃ locks₃ rely₃ sub only => Or.inr (Or.inr
      ⟨parent, rfl, ?_, fun resource isLocked => ?_⟩)) fun _ _ _ _ => trivial
    · simp only [List.nil_append, locked_append]
      exact Or.inl locked
    · obtain ⟨row', found', same⟩ := (rely₂.trans
        (rely₃.anti (List.subset_append_left _ _))).2.grows.account found
      exact ⟨row', found', same ▸ named⟩
    · rcases only resource isLocked with isLocked | same
      · rw [List.nil_append, locked_append] at isLocked
        rcases isLocked with isLocked | isLocked
        · exact Stmt.locked_row rfl isLocked
        · exact absurd isLocked (not_locked_nil _)
      · exact same

end

/-! ### Run voids -/

theorem OnRun.grows {db db' : State} (grows : Grows db db') {run : RunId} {account : AccountId}
    (onRun : OnRun db run account) : OnRun db' run account := by
  rcases onRun with ⟨reservation, hold, found, tagged, own⟩ | ⟨entry, member, rest⟩
  · obtain ⟨hold', found', evolves⟩ := grows.hold found
    exact Or.inl ⟨reservation, hold', found', evolves.runId.trans tagged,
      evolves.account.trans own⟩
  · exact Or.inr ⟨entry, grows.entries.subset member, rest⟩

theorem RunRow.grows {db db' : State} (grows : Grows db db') {run : RunId} {resource : Resource}
    (isRow : RunRow db run resource) : RunRow db' run resource := by
  cases resource with
  | account account => exact OnRun.grows grows isRow
  | hold reservation =>
    obtain ⟨hold, found, tagged⟩ := isRow
    obtain ⟨hold', found', evolves⟩ := grows.hold found
    exact ⟨hold', found', evolves.runId.trans tagged⟩
  | entry id =>
    obtain ⟨entry, member, rest⟩ := isRow
    exact ⟨entry, grows.entries.subset member, rest⟩
  | key _ _ => exact isRow

/-- What a void of a run has locked and written so far. -/
structure Voids (run : RunId) (locks : List Lock) (writes : List Write)
    (point : Point State Label) : Prop where
  locked : RunLocked point.db run locks
  refunds : ∀ entry ∈ inserted writes, entry.entryType = .refund

section

variable {shares : Bool} {run : RunId} {α β : Type} {locks : List Lock} {writes : List Write}
  {point point' : Point State Label}
  {goal : α → List Lock → List Write → Point State Label → Prop}

theorem Voids.rely (voids : Voids run locks writes point) (rely : Rely none locks point point') :
    Voids run locks writes point' := by
  refine ⟨fun resource locked => ?_, voids.refunds⟩
  rcases voids.locked resource locked with isRow | ⟨id, rfl, fresh⟩ | key
  · exact Or.inl (isRow.grows rely.2.grows)
  · exact Or.inr (Or.inl ⟨id, rfl, @Frame.fresh _ _ _ _ _ rely.2 [] _ locked fresh⟩)
  · exact Or.inr (Or.inr key)

/-- One more row of the run. -/
theorem Voids.row (voids : Voids run locks writes point) (statement : Stmt β) (db : State)
    {row : Resource} (isRow : statement.row = some row) (ofRun : RunRow point.db run row) :
    Voids run (locks ++ statement.locks shares db) writes point := by
  refine ⟨fun resource locked => ?_, voids.refunds⟩
  rcases locked_after_row isRow locked with old | rfl
  · exact voids.locked resource old
  · exact Or.inl ofRun

theorem locked_insertEntry_cases {db : State} {entry : LedgerEntry} {resource : Resource}
    (locked : Locked ((Stmt.insertEntry entry).locks shares db) resource) :
    resource = .entry entry.id ∨ ∃ key, resource = .key entry.accountId key := by
  rw [Stmt.locks, locked_append] at locked
  rcases locked with locked | locked
  · rcases locked with member | member <;> rcases List.mem_cons.mp member with same | keyed
    · cases same
      exact Or.inl rfl
    · obtain ⟨key, _, same⟩ := List.mem_map.mp keyed
      cases same
      exact Or.inr ⟨key, rfl⟩
    · cases same
    · obtain ⟨key, _, same⟩ := List.mem_map.mp keyed
      cases same
  · split at locked
    · exact absurd locked not_locked_share
    · exact absurd locked (not_locked_nil _)

/-- One refund of a run void. -/
theorem outlined_refundRemainder {amb : Ambient} {target : EntryId} {posting : Posting}
    {summary : RunVoidSummary} (voids : Voids run locks writes point)
    (onRun : OnRun point.db run posting.accountId) (kind : posting.entryType = .refund) :
    Outlined shares (.voidRun run) (refundRemainder amb target posting summary)
      (fun _ locks' writes' point' => Voids run locks' writes' point' ∧ locks ⊆ locks' ∧
        Grows point.db point'.db) locks writes point := by
  refine Engine.outline_bind _ (outlined_free rfl fun point₁ charged more₁ rely₁ _ result₁ => ?_)
  obtain ⟨_, rfl⟩ := exec_readEntry result₁
  refine outlined_free rfl fun point₂ reversed more₂ rely₂ _ result₂ => ?_
  cases result₂
  have further : Rely none locks point point₂ := rely₁.trans (rely₂.anti (List.subset_append_left _ _))
  have voids₂ := voids.rely further
  simp only [Stmt.locks, List.append_nil] at rely₂ ⊢
  show Outlined _ _ (ite _ _ _) _ _ _ _
  split
  · exact ⟨voids₂, List.Subset.refl _, further.2.grows⟩
  refine Engine.outline_bind _ (outlined_row rfl (fun point₃ rely₃ _ => Or.inr ?_)
    fun point₃ balance more₃ rely₃ _ result₃ => ?_)
  · exact ⟨onRun.grows (further.trans rely₃).2.grows, (voids₂.rely rely₃).locked,
      fun _ other => by cases other⟩
  obtain ⟨row, found, _, rfl⟩ := exec_addSettled result₃
  have voids₃ := fun statement => @Voids.row shares run _ _ _ _ (voids₂.rely rely₃)
    (Stmt.addSettled posting.accountId statement) (after point₃.db writes) _ rfl
    (onRun.grows (further.trans rely₃).2.grows)
  refine outlined_free rfl fun point₄ _ more₄ rely₄ _ result₄ => ?_
  obtain ⟨rfl, fresh, _, _⟩ := exec_insertEntry result₄
  have grows := ((further.trans rely₃).trans (rely₄.anti (List.subset_append_left _ _))).2.grows
  refine ⟨⟨fun resource isLocked => ?_, fun entry member => ?_⟩,
    List.subset_append_of_subset_left _ (List.subset_append_left _ _), grows⟩
  · rcases locked_append.mp isLocked with old | new
    · exact ((voids₃ _).rely rely₄).locked resource old
    · rcases locked_insertEntry_cases new with rfl | ⟨key, rfl⟩
      · refine Or.inr (Or.inl ⟨_, rfl, fun known => fresh ?_⟩)
        obtain ⟨entry, member, same⟩ := List.mem_map.mp known
        refine List.mem_map.mpr ⟨entry, ?_, same⟩
        rw [after_entries]
        exact List.mem_append_left _ member
      · exact Or.inr (Or.inr ⟨_, key, rfl⟩)
  · simp only [inserted, List.filterMap_append, List.mem_append] at member
    rcases member with (old | set) | new
    · exact voids.refunds entry old
    · exact absurd set (by simp)
    · simp only [List.filterMap_cons, List.filterMap_nil, List.mem_singleton] at new
      rw [new]
      exact kind

/-- The members of a run void: their holds are locked, and on accounts of the run. -/
def Members (run : RunId) (locks : List Lock) (db : State) (members : List (ReservationId × Hold)) :
    Prop :=
  ∀ member ∈ members, Locked locks (.hold member.1) ∧ OnRun db run member.2.account

theorem Members.further {members : List (ReservationId × Hold)} {locks' : List Lock} {db' : State}
    {db : State} (members_ : Members run locks db members) (sub : locks ⊆ locks')
    (grows : Grows db db') : Members run locks' db' members :=
  fun member inside => ⟨(members_ member inside).1.mono sub, (members_ member inside).2.grows grows⟩

theorem outlined_voidMembers {amb : Ambient} (members : List (ReservationId × Hold)) :
    ∀ {summary locks writes point}, Voids run locks writes point →
      Members run locks point.db members → Outlined shares (.voidRun run)
        (voidMembers amb run members summary)
        (fun _ locks' writes' point' => Voids run locks' writes' point') locks writes point := by
  induction members with
  | nil => exact fun voids _ => voids
  | cons member members ih =>
    intro summary locks writes point voids each
    obtain ⟨locked, onRun⟩ := each member List.mem_cons_self
    have others : Members run locks point.db members :=
      fun other inside => each other (List.mem_cons_of_mem _ inside)
    refine Engine.outline_bind _ ?_
    unfold voidMember
    cases member.2.status with
    | voided => exact ih voids others
    | «open» =>
      refine outlined_row rfl (fun _ _ _ => Or.inl locked) fun point₁ _ more rely₁ _ result => ?_
      cases result
      have row : RunRow point₁.db run (.hold member.1) := by
        rcases (voids.rely rely₁).locked _ locked with isRow | ⟨_, other, _⟩ | ⟨_, _, other⟩
        · exact isRow
        · cases other
        · cases other
      have voids₁ := @Voids.row shares run _ _ _ _ (voids.rely rely₁) (Stmt.voidHold member.1)
        (after point₁.db writes) _ rfl row
      refine ih ⟨voids₁.locked, fun entry member => ?_⟩
        (others.further (List.subset_append_left _ _) rely₁.2.grows)
      simp only [inserted, List.filterMap_append, List.mem_append] at member
      rcases member with old | new
      · exact voids.refunds entry old
      · exact absurd new (by simp)
    | settled =>
      refine outlined_free rfl fun point₁ settleId more rely₁ _ result => ?_
      obtain ⟨_, rfl⟩ := exec_decode result
      have same : locks ++ (Stmt.decode member.2.settleEntry).locks shares
          (after point₁.db writes) = locks := List.append_nil _
      rw [same, List.append_nil]
      refine Engine.outline_mono _ ?_ (outlined_refundRemainder (voids.rely rely₁)
        (onRun.grows rely₁.2.grows) rfl)
      rintro _ locks₂ writes₂ point₂ ⟨voids₂, sub₂, grows₂⟩
      exact ih voids₂ (others.further sub₂ (rely₁.2.grows.trans grows₂))

/-- Locking the holds of a run: only holds are locked so far. -/
theorem outlined_lockRunHolds (rows : List (ReservationId × Hold)) :
    ∀ {locks point}, Voids run locks [] point →
      (∀ resource, Locked locks resource → ∃ reservation, resource = .hold reservation) →
      (∀ row ∈ rows, RunRow point.db run (.hold row.1)) →
      Outlined shares (.voidRun run) (lockRunHolds run rows)
        (fun members locks' writes' point' => Voids run locks' writes' point' ∧ writes' = [] ∧
          locks ⊆ locks' ∧ Grows point.db point'.db ∧ Members run locks' point'.db members)
        locks [] point := by
  induction rows with
  | nil =>
    exact fun voids _ _ => ⟨voids, rfl, List.Subset.refl _, .refl _,
      fun _ inside => absurd inside List.not_mem_nil⟩
  | cons row rows ih =>
    intro locks point voids only each
    have first := each row List.mem_cons_self
    refine outlined_row rfl (fun point₁ rely₁ _ => Or.inr
      ⟨first.grows rely₁.2.grows, (voids.rely rely₁).locked, fun _ _ => only⟩)
      fun point₁ latest more rely₁ _ result => ?_
    cases result
    have voids₁ := @Voids.row shares run _ _ _ _ (voids.rely rely₁) (Stmt.lockHold row.1)
      (after point₁.db []) _ rfl (first.grows rely₁.2.grows)
    have only₁ : ∀ resource, Locked (locks ++ (Stmt.lockHold row.1).locks shares
        (after point₁.db [])) resource → ∃ reservation, resource = .hold reservation := by
      intro resource locked
      rcases locked_after_row rfl locked with old | rfl
      · exact only resource old
      · exact ⟨row.1, rfl⟩
    refine Engine.outline_bind _ (Engine.outline_mono _ ?_ (ih voids₁ only₁ fun other inside =>
      (each other (List.mem_cons_of_mem _ inside)).grows rely₁.2.grows))
    rintro members locks₂ writes₂ point₂ ⟨voids₂, rfl, sub₂, grows₂, each₂⟩
    refine ⟨voids₂, rfl, List.Subset.trans (List.subset_append_left _ _) sub₂,
      rely₁.2.grows.trans grows₂, ?_⟩
    cases found : (after point₁.db []).holds.get? row.1 with
    | none => exact each₂
    | some hold =>
      dsimp only
      split
      · rename_i tagged
        intro member inside
        rcases List.mem_cons.mp inside with rfl | inside
        · refine ⟨((locked_lockHold found).mono (List.subset_append_right _ _)).mono sub₂, ?_⟩
          exact OnRun.grows grows₂ (Or.inl ⟨row.1, hold, found, tagged, rfl⟩)
        · exact each₂ member inside
      · exact each₂

/-- Locking the charges of a run. -/
theorem outlined_lockRunCharges (rows : List LedgerEntry) :
    ∀ {locks writes point}, Voids run locks writes point →
      (∀ row ∈ rows, RunRow point.db run (.entry row.id)) →
      Outlined shares (.voidRun run) (lockRunCharges run rows)
        (fun charges locks' writes' point' => Voids run locks' writes' point' ∧
          Grows point.db point'.db ∧ ∀ charge ∈ charges, OnRun point'.db run charge.accountId)
        locks writes point := by
  induction rows with
  | nil =>
    exact fun voids _ => ⟨voids, .refl _, fun _ inside => absurd inside List.not_mem_nil⟩
  | cons row rows ih =>
    intro locks writes point voids each
    have first := each row List.mem_cons_self
    refine outlined_row rfl (fun point₁ rely₁ _ => Or.inr
      ⟨first.grows rely₁.2.grows, (voids.rely rely₁).locked, fun _ other => by cases other⟩)
      fun point₁ latest more rely₁ _ result => ?_
    cases result
    rw [List.append_nil]
    have voids₁ := @Voids.row shares run _ _ _ _ (voids.rely rely₁) (Stmt.lockEntry row.id)
      (after point₁.db writes) _ rfl (first.grows rely₁.2.grows)
    refine Engine.outline_bind _ (Engine.outline_mono _ ?_ (ih voids₁ fun other inside =>
      (each other (List.mem_cons_of_mem _ inside)).grows rely₁.2.grows))
    rintro charges locks₂ writes₂ point₂ ⟨voids₂, grows₂, each₂⟩
    refine ⟨voids₂, rely₁.2.grows.trans grows₂, ?_⟩
    cases found : (after point₁.db writes).entries.find? fun entry => entry.id = row.id with
    | none => exact each₂
    | some entry =>
      dsimp only
      split
      · rename_i tagged
        intro charge inside
        rcases List.mem_cons.mp inside with rfl | inside
        · have member := List.mem_of_find?_eq_some found
          rw [after_entries, List.mem_append] at member
          rcases member with old | own
          · exact OnRun.grows grows₂ (Or.inr ⟨_, old, tagged.2, tagged.1, rfl⟩)
          · cases (voids.refunds _ own).symm.trans tagged.2
        · exact each₂ charge inside
      · exact each₂

theorem outlined_voidCharges {amb : Ambient} (charges : List LedgerEntry) :
    ∀ {summary locks writes point}, Voids run locks writes point →
      (∀ charge ∈ charges, OnRun point.db run charge.accountId) →
      Outlined shares (.voidRun run) (voidCharges amb run charges summary) (fun _ _ _ _ => True)
        locks writes point := by
  induction charges with
  | nil => exact fun _ _ => trivial
  | cons charge charges ih =>
    intro summary locks writes point voids each
    refine Engine.outline_bind _ (Engine.outline_mono _ ?_ (outlined_refundRemainder voids
      (each charge List.mem_cons_self) rfl))
    rintro _ locks₁ writes₁ point₁ ⟨voids₁, _, grows₁⟩
    exact ih voids₁ fun other inside =>
      (each other (List.mem_cons_of_mem _ inside)).grows grows₁

/-- **A void of a run waits for rows of the run only, and has locked nothing else.** -/
theorem outlined_voidRun (amb : Ambient) (run : RunId) :
    Outlined shares (.voidRun run) (voidRun amb run) (fun _ _ _ _ => True) [] [] point := by
  refine outlined_free rfl fun point₁ rows more rely₁ _ result => ?_
  cases result
  have voids₁ : Voids run [] [] point₁ :=
    ⟨fun _ locked => absurd locked (not_locked_nil _), fun _ member => absurd member List.not_mem_nil⟩
  refine Engine.outline_bind _ (Engine.outline_mono _ ?_ (outlined_lockRunHolds _ voids₁
    (fun _ locked => absurd locked (not_locked_nil _)) fun row inside => ?_))
  · rintro members locks₂ writes₂ point₂ ⟨voids₂, rfl, _, _, each₂⟩
    refine Engine.outline_bind _ (Engine.outline_mono _ ?_ (outlined_voidMembers members voids₂ each₂))
    intro summary locks₃ writes₃ point₃ voids₃
    refine outlined_free rfl fun point₄ rows more rely₄ _ result => ?_
    cases result
    have same : locks₃ ++ (Stmt.scanRunCharges run).locks shares (after point₄.db writes₃) =
        locks₃ := List.append_nil _
    rw [same, List.append_nil]
    have voids₄ := voids₃.rely rely₄
    refine Engine.outline_bind _ (Engine.outline_mono _ ?_ (outlined_lockRunCharges _ voids₄
      fun row inside => ?_))
    · rintro charges locks₅ writes₅ point₅ ⟨voids₅, _, each₅⟩
      exact Engine.outline_bind _ (Engine.outline_mono _ (fun _ _ _ _ _ => trivial)
        (outlined_voidCharges charges voids₅ each₅))
    · obtain ⟨member, kind, tagged⟩ := mem_runCharges.mp (mem_orderByCreated.mp inside)
      rw [after_entries, List.mem_append] at member
      rcases member with old | own
      · exact ⟨row, old, rfl, kind, tagged⟩
      · cases (voids₄.refunds row own).symm.trans kind
  · obtain ⟨member, tagged⟩ := List.mem_filter.mp ((amb.iterate_perm _).mem_iff.mp inside)
    exact ⟨row.2, Table.mem_rows_iff.mp member, of_decide_eq_true tagged⟩

/-- **Every call is asserted.** -/
theorem outlined_program (label : Label) :
    Outlined shares label.2 (program label) (fun _ _ _ _ => True) [] [] point := by
  have answered : ∀ {γ : Type} {call : Call} {transaction : Prog Stmt (Answer γ)}
      {wrap : γ → Reply}, Outlined shares call transaction (fun _ _ _ _ => True) [] [] point →
      Outlined shares call (replying transaction wrap) (fun _ _ _ _ => True) [] [] point :=
    fun outlined => Engine.outline_bind _ (Engine.outline_mono _ (fun _ _ _ _ _ => trivial) outlined)
  obtain ⟨amb, call⟩ := label
  cases call with
  | openAccount req => exact answered (outlined_free rfl fun _ _ _ _ _ _ => trivial)
  | balance account =>
    refine answered (outlined_free rfl fun _ row _ _ _ _ => ?_)
    cases row with
    | none => trivial
    | some row => exact outlined_free rfl fun _ _ _ _ _ _ => trivial
  | grant req | refund req | charge req =>
    exact answered (outlined_postKeyed fun _ => not_locked_nil)
  | reserve req => exact answered (outlined_reserve req)
  | settle req => exact answered (outlined_settle amb req)
  | reverseCharge req => exact answered (outlined_reverseCharge amb req)
  | void reservation => exact answered (outlined_void reservation)
  | voidExpiredHolds now =>
    exact answered (outlined_free rfl fun _ rows _ _ _ _ => Engine.outline_bind _
      (Engine.outline_mono _ (fun _ _ _ _ _ => trivial) (outlined_sweep _)))
  | extendHold reservation expiresAt => exact answered (outlined_extendHold reservation expiresAt)
  | voidRun run => exact answered (outlined_voidRun amb run)
  | openLease req => exact answered (outlined_openLease amb req)
  | closeLease lease => exact answered (outlined_closeLease amb lease)
  | entries account =>
    refine answered (outlined_free rfl fun _ row _ _ _ _ => ?_)
    cases row with
    | none => trivial
    | some row => exact outlined_free rfl fun _ _ _ _ _ _ => trivial

end

/-! ### Parents -/

/-- Every parent exists, and no account is above itself. -/
structure Lineage (db : State) : Prop where
  rooted : db.Rooted
  acyclic : ∀ account, ¬ Relation.TransGen db.ParentOf account account

theorem Lineage.new : Lineage State.new := by
  have rootless : ∀ child parent, ¬ State.new.ParentOf child parent := by
    rintro child parent ⟨row, found, named⟩
    simp only [State.new, Table.get?_set, Table.get?_empty] at found
    split at found
    · cases found
      cases named
    · cases found
  refine ⟨.new, fun account above => ?_⟩
  obtain ⟨_, isParent, _⟩ := Relation.TransGen.head'_iff.mp above
  exact rootless _ _ isParent

/-- A legal action adds parents only to an account that it opens. -/
theorem Legal.parentOf {focus : Option RunId} {scaled : Prop} {locks : List Lock} {db : State}
    {action : Action} (legal : Legal focus scaled locks db action) {child parent : AccountId}
    (isParent : (Action.store db action).ParentOf child parent) :
    db.ParentOf child parent ∨ db.accounts.get? child = none ∧
      db.accounts.contains parent = true := by
  obtain ⟨row, found, named⟩ := isParent
  obtain ⟨row', found', same'⟩ := (store_alike legal).row found
  rcases account_apply found' with ⟨old, foundOld, same⟩ | ⟨opens, own⟩
  · exact Or.inl ⟨old, foundOld, by rw [← same, same', named]⟩
  · rw [opens] at legal
    refine Or.inr ⟨by rw [own]; exact legal.1, legal.2.1 parent ?_⟩
    rw [same', named]

/-- **A legal action keeps the lineage**: nobody is below an account that is only now opened. -/
theorem Lineage.store {focus : Option RunId} {scaled : Prop} {locks : List Lock} {db : State}
    (lineage : Lineage db) {action : Action} (legal : Legal focus scaled locks db action) :
    Lineage (Action.store db action) := by
  have kept : ∀ {child parent}, (Action.store db action).ParentOf child parent →
      db.accounts.contains parent = true := by
    intro child parent isParent
    rcases legal.parentOf isParent with ⟨row, found, named⟩ | ⟨_, present⟩
    · exact lineage.rooted child row parent found named
    · exact present
  have old : ∀ {child parent}, db.accounts.contains child = true →
      (Action.store db action).ParentOf child parent → db.ParentOf child parent := by
    intro child parent present isParent
    refine (legal.parentOf isParent).resolve_right fun new => ?_
    rw [Table.contains, new.1] at present
    cases present
  refine ⟨fun child row parent found named => ?_, fun account above => ?_⟩
  · obtain ⟨row', found'⟩ := Table.contains_iff.mp (kept ⟨row, found, named⟩)
    obtain ⟨row'', found'', _⟩ := legal.grows.account found'
    exact Table.contains_iff.mpr ⟨row'', found''⟩
  · have path : ∀ {last}, Relation.TransGen (Action.store db action).ParentOf account last →
        db.accounts.contains account = true → Relation.TransGen db.ParentOf account last := by
      intro last above present
      induction above with
      | single isParent => exact .single (old present isParent)
      | tail earlier isParent ih =>
        obtain ⟨_, _, into⟩ := Relation.TransGen.tail'_iff.mp earlier
        exact ih.tail (old (kept into) isParent)
    obtain ⟨_, _, into⟩ := Relation.TransGen.tail'_iff.mp above
    exact lineage.acyclic account (path above (kept into))

/-- The tables are intact and so is the lineage of accounts. -/
structure Lined (point : Point State Label) : Prop where
  intact : Intact point.db
  lineage : Lineage point.db

theorem keeps_lined (admits : Point State Label → Label → Prop) : Keeps none admits Lined := by
  intro point label locks actions lined _ _ legals _ _
  have both : Intact (Action.stores point.db actions) ∧ Lineage (Action.stores point.db actions) :=
    legals.invariant (P := fun db => Intact db ∧ Lineage db) (fun db action before legal =>
      ⟨legal.intact before.1, before.2.store legal⟩) ⟨lined.intact, lined.lineage⟩
  exact ⟨both.1, both.2⟩

/-! ### Cycles -/

section

variable {shares : Bool} {admits : Point State Label → Label → Prop} {world : LedgerWorld}

/-- In every interleaving, the tables are lined up and locks are apart. -/
theorem sound_lined (reaches : (engine shares).Reaches program admits State.new world) :
    (engine shares).Sound (contract none Lined) admits world :=
  Engine.sound_world (begins_contract fun _ _ lined => ⟨lined.intact, lined.lineage⟩)
    (fun label point _ => safe_program (keeps_lined admits)
      (fun point label _ => sparesRun_none point label.2) (fun _ => Lined.intact) label point)
    ⟨.new, .new⟩ reaches

/-- **What a transaction that waits for another has locked.** -/
theorem asserted_waiting (reaches : (engine shares).Reaches program admits State.new world)
    {i j : Nat} (waits : WaitsFor shares world i j) :
    ∃ session wanted, world.live i = some session ∧ Wants shares world i wanted ∧
      HasLocked world j wanted ∧ ¬ Locked session.locks wanted ∧
      Waiting session.label.2 session.locks world.point.db wanted := by
  obtain ⟨different, wanted, wants, other, found, taken⟩ := waits
  obtain ⟨label, β, statement, next, writes, locks, running, isRow, locking⟩ := id wants
  have free : ¬ Locked locks wanted := fun locked => locked.exclusive
    ((sound_lined reaches).apart i j _ other different running found) taken
  refine ⟨_, wanted, running, wants, ⟨other, found, taken⟩, free, ?_⟩
  have asserts : Asserts shares label.2 statement locks writes world.point :=
    Engine.asserted (begins_contract fun _ _ lined => ⟨lined.intact, lined.lineage⟩)
      (fun label point _ => safe_program (keeps_lined admits)
        (fun point label _ => sparesRun_none point label.2) (fun _ => Lined.intact) label point)
      (fun label point _ => Engine.outline_anti _ (fun _ => Lined.intact) (outlined_program label))
      ⟨.new, .new⟩ reaches running
  exact (asserts wanted isRow locking).resolve_left free

/-- A run with holds or charges on two accounts. -/
def Spans (db : State) (run : RunId) : Prop :=
  ∃ first second, first ≠ second ∧ OnRun db run first ∧ OnRun db run second

/-- Calls that may wait for each other when one of them voids a run. -/
def Clashes (db : State) : Call → Call → Prop
  | .voidRun run, .voidRun other => run = other ∨ Spans db run ∧ Spans db other
  | .voidRun run, .reverseCharge req => RunRow db run (.entry req.chargeEntryId)
  | .voidRun run, .closeLease _ => Spans db run
  | _, _ => False

/-- No transaction runs while another one does that it clashes with. -/
def Unclashing (world : LedgerWorld) : Prop :=
  ∀ i j first second, i ≠ j → world.live i = some first → world.live j = some second →
    ¬ Clashes world.point.db first.label.2 second.label.2

/-- No sweep of expired holds is running. -/
def Unswept (world : LedgerWorld) : Prop :=
  ∀ i session now, world.live i = some session → session.label.2 ≠ .voidExpiredHolds now

/-- The parts a transaction can have in a cycle: it has locked something and waits for more. -/
inductive Role (db : State) (locks : List Lock) : Call → Resource → Prop
  | voids {run : RunId} {wanted : Resource} (ofRun : RunRow db run wanted)
      (locked : RunLocked db run locks)
      (holds : ∀ reservation, wanted = .hold reservation →
        ∀ resource, Locked locks resource → ∃ other, resource = .hold other) :
      Role db locks (.voidRun run) wanted
  | closes {lease parent : AccountId} (isParent : db.ParentOf lease parent)
      (locked : ∀ resource, Locked locks resource → resource = .account lease) :
      Role db locks (.closeLease lease) (.account parent)
  | settles {req : SettleRequest} {account : AccountId}
      (locked : ∀ resource, Locked locks resource → ∃ reservation, resource = .hold reservation) :
      Role db locks (.settle req) (.account account)
  | reverses {req : ReverseChargeRequest} (known : req.chargeEntryId ∈ db.entryIds)
      (locked : ∀ resource, Locked locks resource → ∃ account, resource = .account account) :
      Role db locks (.reverseCharge req) (.entry req.chargeEntryId)

section

variable {db : State} {locks locks' : List Lock} {call call' : Call} {wanted wanted' : Resource}

/-- A transaction that waits with something locked has one of the four parts. -/
theorem Waiting.role (waiting : Waiting call locks db wanted)
    (unswept : ∀ now, call ≠ .voidExpiredHolds now) {resource : Resource}
    (locked : Locked locks resource) : Role db locks call wanted := by
  cases call with
  | voidRun run => exact .voids waiting.1 waiting.2.1 waiting.2.2
  | closeLease lease =>
    rcases waiting with none_ | ⟨parent, rfl, isParent, only⟩
    · exact absurd locked (none_ resource)
    · exact .closes isParent only
  | settle req =>
    rcases waiting with none_ | ⟨⟨account, rfl⟩, only⟩
    · exact absurd locked (none_ resource)
    · exact .settles only
  | reverseCharge req =>
    rcases waiting with none_ | ⟨rfl, known, only⟩
    · exact absurd locked (none_ resource)
    · exact .reverses known only
  | voidExpiredHolds now => exact absurd rfl (unswept now)
  | _ => exact absurd locked (waiting resource)

/-- A charge that another part has locked and that is waited for belongs to a run being voided. -/
theorem Role.clash_of_entry (distinct : db.entryIds.Nodup) {id : EntryId}
    (first : Role db locks call (.entry id)) (second : Role db locks' call' wanted')
    (taken : Locked locks' (.entry id)) : Clashes db call' call := by
  have known : id ∈ db.entryIds := by
    cases first with
    | voids ofRun _ _ =>
      obtain ⟨entry, member, rfl, _⟩ := ofRun
      exact List.mem_map_of_mem member
    | reverses known _ => exact known
  cases second with
  | voids _ locked _ =>
    rcases locked _ taken with row | ⟨_, same, fresh⟩ | ⟨_, _, other⟩
    · cases first with
      | voids ofRun _ _ =>
        obtain ⟨entry, member, named, _, tagged⟩ := row
        obtain ⟨entry', member', named', _, tagged'⟩ := ofRun
        have same := List.inj_on_of_nodup_map distinct member member' (named.trans named'.symm)
        subst same
        exact Or.inl (Option.some.inj (tagged.symm.trans tagged'))
      | reverses _ _ => exact row
    · cases same
      exact absurd known fresh
    · cases other
  | closes _ locked => cases locked _ taken
  | settles locked => cases (locked _ taken).choose_spec
  | reverses _ locked => cases (locked _ taken).choose_spec

/-- A hold that is waited for by a part with something locked: two voids of one run. -/
theorem Role.clash_of_hold {reservation : ReservationId}
    (first : Role db locks call wanted) (second : Role db locks' call' (.hold reservation))
    (taken : Locked locks' wanted) : Clashes db call call' := by
  cases second with
  | voids _ locked holds =>
    obtain ⟨other, rfl⟩ := holds reservation rfl wanted taken
    cases first with
    | voids ofRun _ _ =>
      obtain ⟨hold, found, tagged⟩ := ofRun
      rcases locked _ taken with ⟨hold', found', tagged'⟩ | ⟨_, same, _⟩ | ⟨_, _, same⟩
      · cases found.symm.trans found'
        exact Or.inl (Option.some.inj (tagged.symm.trans tagged'))
      · cases same
      · cases same

end

/-- A transaction on a cycle. -/
def OnCycle (shares : Bool) (world : LedgerWorld) (i : Nat) : Prop :=
  Relation.TransGen (WaitsFor shares world) i i

theorem OnCycle.next {i : Nat} (onCycle : OnCycle shares world i) :
    ∃ j, WaitsFor shares world i j ∧ OnCycle shares world j := by
  obtain ⟨j, waits, rest⟩ := Relation.TransGen.head'_iff.mp onCycle
  exact ⟨j, waits, .tail' rest waits⟩

theorem OnCycle.previous {i : Nat} (onCycle : OnCycle shares world i) :
    ∃ j, WaitsFor shares world j i ∧ OnCycle shares world j := by
  obtain ⟨j, rest, waits⟩ := Relation.TransGen.tail'_iff.mp onCycle
  exact ⟨j, waits, .head' waits rest⟩

/-- A transaction waits for one row at a time. -/
theorem Wants.unique {i : Nat} {wanted wanted' : Resource} (wants : Wants shares world i wanted)
    (wants' : Wants shares world i wanted') : wanted = wanted' := by
  obtain ⟨_, _, _, _, _, _, running, isRow, _⟩ := wants
  obtain ⟨_, _, _, _, _, _, running', isRow', _⟩ := wants'
  cases running.symm.trans running'
  exact Option.some.inj (isRow.symm.trans isRow')

/-- The part of a transaction in a cycle and what it waits for. -/
structure Blocked (shares : Bool) (world : LedgerWorld) (i : Nat) (call : Call)
    (locks : List Lock) (wanted : Resource) : Prop where
  running : ∃ session, world.live i = some session ∧ session.label.2 = call ∧
    session.locks = locks
  wants : Wants shares world i wanted
  free : ¬ Locked locks wanted
  role : Role world.point.db locks call wanted

theorem Blocked.locked {i : Nat} {call : Call} {locks : List Lock} {wanted resource : Resource}
    (blocked : Blocked shares world i call locks wanted) (taken : HasLocked world i resource) :
    Locked locks resource := by
  obtain ⟨session, running, _, rfl⟩ := blocked.running
  obtain ⟨session', running', locked⟩ := taken
  cases running.symm.trans running'
  exact locked

theorem Blocked.hasLocked {i : Nat} {call : Call} {locks : List Lock} {wanted resource : Resource}
    (blocked : Blocked shares world i call locks wanted) (locked : Locked locks resource) :
    HasLocked world i resource := by
  obtain ⟨session, running, _, rfl⟩ := blocked.running
  exact ⟨session, running, locked⟩

/-- The lease that a call closes, if it does. -/
def leaseClosed : Call → AccountId
  | .closeLease lease => lease
  | _ => systemAccount

/-- The lease that a transaction closes; on a cycle there is one. -/
def leaseOf (world : LedgerWorld) (i : Nat) : AccountId :=
  ((world.live i).map fun session => leaseClosed session.label.2).getD systemAccount

theorem Blocked.leaseOf_eq {i : Nat} {lease : AccountId} {locks : List Lock} {wanted : Resource}
    (blocked : Blocked shares world i (.closeLease lease) locks wanted) :
    leaseOf world i = lease := by
  obtain ⟨session, running, named, _⟩ := blocked.running
  rw [leaseOf, running, Option.map_some, named]
  rfl

theorem Unclashing.blocked (unclashing : Unclashing world) {i j : Nat} {call call' : Call}
    {locks locks' : List Lock} {wanted wanted' : Resource} (different : i ≠ j)
    (first : Blocked shares world i call locks wanted)
    (second : Blocked shares world j call' locks' wanted') :
    ¬ Clashes world.point.db call call' := by
  obtain ⟨session, running, rfl, rfl⟩ := first.running
  obtain ⟨session', running', rfl, rfl⟩ := second.running
  exact unclashing i j session session' different running running'

section

variable (reaches : (engine shares).Reaches program admits State.new world)
  (unswept : Unswept world)

include reaches unswept

theorem OnCycle.blocked {i : Nat} (onCycle : OnCycle shares world i) :
    ∃ call locks wanted, Blocked shares world i call locks wanted := by
  obtain ⟨j, waits, _⟩ := onCycle.next
  obtain ⟨session, wanted, running, wants, _, free, waiting⟩ := asserted_waiting reaches waits
  obtain ⟨k, waits', _⟩ := onCycle.previous
  obtain ⟨_, resource, _, _, ⟨session', running', locked⟩, _, _⟩ := asserted_waiting reaches waits'
  cases running.symm.trans running'
  exact ⟨session.label.2, session.locks, wanted, ⟨session, running, rfl, rfl⟩, wants, free,
    waiting.role (fun now => unswept i session now running) locked⟩

/-- One step of a cycle: what the first waits for, the second has locked. -/
theorem OnCycle.step {i j : Nat} (onCycle : OnCycle shares world j)
    (waits : WaitsFor shares world i j) {call : Call} {locks : List Lock} {wanted : Resource}
    (blocked : Blocked shares world i call locks wanted) :
    ∃ call' locks' wanted', Blocked shares world j call' locks' wanted' ∧
      Locked locks' wanted := by
  obtain ⟨call', locks', wanted', blocked'⟩ := onCycle.blocked reaches unswept
  obtain ⟨_, resource, wants, taken⟩ := waits
  cases blocked.wants.unique wants
  exact ⟨call', locks', wanted', blocked', blocked'.locked taken⟩

/-- The step before on a cycle: somebody waits for what this one has locked. -/
theorem OnCycle.stepBefore {i : Nat} (onCycle : OnCycle shares world i) {call : Call}
    {locks : List Lock} {wanted : Resource} (blocked : Blocked shares world i call locks wanted) :
    ∃ k call' locks' wanted', OnCycle shares world k ∧ k ≠ i ∧
      Blocked shares world k call' locks' wanted' ∧ Locked locks wanted' := by
  obtain ⟨k, waits, onCycle'⟩ := onCycle.previous
  obtain ⟨call', locks', wanted', blocked'⟩ := onCycle'.blocked reaches unswept
  obtain ⟨different, resource, wants, taken⟩ := waits
  cases blocked'.wants.unique wants
  exact ⟨k, call', locks', wanted', onCycle', different, blocked', blocked.locked taken⟩

variable (unclashing : Unclashing world)

include unclashing

/-- **On a cycle everybody waits for an account.** -/
theorem OnCycle.wants_account {i : Nat} (onCycle : OnCycle shares world i) {call : Call}
    {locks : List Lock} {wanted : Resource} (blocked : Blocked shares world i call locks wanted) :
    ∃ account, wanted = .account account := by
  cases wanted with
  | account account => exact ⟨account, rfl⟩
  | entry id =>
    obtain ⟨j, waits, onCycle'⟩ := onCycle.next
    obtain ⟨call', locks', wanted', blocked', taken⟩ :=
      onCycle'.step reaches unswept waits blocked
    exact absurd (blocked.role.clash_of_entry (sound_lined reaches).inv.intact.wellFormed.entryIds
      blocked'.role taken) (unclashing.blocked waits.1.symm blocked' blocked)
  | hold reservation =>
    obtain ⟨k, call', locks', wanted', _, different, blocked', taken⟩ :=
      onCycle.stepBefore reaches unswept blocked
    exact absurd (blocked'.role.clash_of_hold blocked.role taken)
      (unclashing.blocked different blocked' blocked)
  | key account key =>
    cases blocked.role with
    | voids ofRun _ _ => exact ofRun.elim

/-- A void of a run on a cycle has locked an account and waits for another. -/
theorem OnCycle.spans {i : Nat} (onCycle : OnCycle shares world i) {run : RunId}
    {locks : List Lock} {wanted : Resource}
    (blocked : Blocked shares world i (.voidRun run) locks wanted) : Spans world.point.db run := by
  obtain ⟨account, rfl⟩ := onCycle.wants_account reaches unswept unclashing blocked
  obtain ⟨k, call', locks', wanted', onCycle', _, blocked', taken⟩ :=
    onCycle.stepBefore reaches unswept blocked
  obtain ⟨other, rfl⟩ := onCycle'.wants_account reaches unswept unclashing blocked'
  cases blocked.role with
  | voids ofRun isLocked _ =>
    refine ⟨other, account, ?_, ?_, ofRun⟩
    · rintro rfl
      exact blocked.free taken
    · rcases isLocked _ taken with row | ⟨_, same, _⟩ | ⟨_, _, same⟩
      · exact row
      · cases same
      · cases same

/-- **On a cycle everybody closes a lease.** -/
theorem OnCycle.closes {i : Nat} (onCycle : OnCycle shares world i) :
    ∃ lease locks parent, Blocked shares world i (.closeLease lease) locks (.account parent) ∧
      world.point.db.ParentOf lease parent ∧
      ∀ resource, Locked locks resource → resource = .account lease := by
  obtain ⟨call, locks, wanted, blocked⟩ := onCycle.blocked reaches unswept
  obtain ⟨account, rfl⟩ := onCycle.wants_account reaches unswept unclashing blocked
  obtain ⟨k, _, _, wanted', onCycle', _, blocked', taken⟩ :=
    onCycle.stepBefore reaches unswept blocked
  obtain ⟨held, rfl⟩ := onCycle'.wants_account reaches unswept unclashing blocked'
  cases id blocked.role with
  | closes isParent locked => exact ⟨_, locks, account, blocked, isParent, locked⟩
  | settles locked => cases (locked _ taken).choose_spec
  | voids ofRun isLocked _ =>
    have spans := onCycle.spans reaches unswept unclashing blocked
    obtain ⟨j, waits, onCycle''⟩ := onCycle.next
    obtain ⟨call'', locks'', wanted'', blocked'', taken''⟩ :=
      onCycle''.step reaches unswept waits blocked
    obtain ⟨account'', rfl⟩ := onCycle''.wants_account reaches unswept unclashing blocked''
    have apart := unclashing.blocked waits.1 blocked blocked''
    cases id blocked''.role with
    | voids _ _ _ =>
      exact absurd (Or.inr ⟨spans, onCycle''.spans reaches unswept unclashing blocked''⟩) apart
    | closes _ _ => exact absurd spans apart
    | settles locked => cases (locked _ taken'').choose_spec

/-- On a cycle everybody waits for the parent of the lease that it closes, locked by the next. -/
theorem OnCycle.parentOf {i j : Nat} (onCycle : OnCycle shares world i)
    (onCycle' : OnCycle shares world j) (waits : WaitsFor shares world i j) :
    world.point.db.ParentOf (leaseOf world i) (leaseOf world j) := by
  obtain ⟨lease, locks, parent, blocked, isParent, _⟩ :=
    onCycle.closes reaches unswept unclashing
  obtain ⟨call, locks', wanted, blocked', taken⟩ := onCycle'.step reaches unswept waits blocked
  obtain ⟨lease', _, _, other, _, only⟩ := onCycle'.closes reaches unswept unclashing
  have named : leaseOf world i = lease := blocked.leaseOf_eq
  have named' : leaseOf world j = lease' := other.leaseOf_eq
  cases only _ (other.locked (blocked'.hasLocked taken))
  rw [named, named']
  exact isParent

end

end

/-- **No cycle**: while no void of a run overlaps a call that it clashes with, no transactions of
the ledger wait for each other in a circle. -/
theorem no_deadlock {shares : Bool} {admits : Point State Label → Label → Prop}
    {world : LedgerWorld} (reaches : (engine shares).Reaches program admits State.new world)
    (unswept : Unswept world) (unclashing : Unclashing world) : ¬ Deadlocked shares world := by
  rintro ⟨i, cycle⟩
  have path : ∀ j, Relation.TransGen (WaitsFor shares world) i j →
      Relation.ReflTransGen (WaitsFor shares world) j i →
      Relation.TransGen world.point.db.ParentOf (leaseOf world i) (leaseOf world j) := by
    intro j forth
    induction forth with
    | single waits =>
      intro back
      exact .single (OnCycle.parentOf reaches unswept unclashing (.head' waits back)
        (.tail' back waits) waits)
    | tail earlier waits ih =>
      intro back
      have onCycle := Relation.TransGen.head' waits (back.trans earlier.to_reflTransGen)
      have onCycle' := Relation.TransGen.tail' (back.trans earlier.to_reflTransGen) waits
      exact (ih (.head waits back)).tail
        (OnCycle.parentOf reaches unswept unclashing onCycle onCycle' waits)
  exact (sound_lined reaches).inv.lineage.acyclic _ (path i cycle .refl)

/-! ### Two schedules -/

instance (locks : List Lock) (resource : Resource) : Decidable (Locked locks resource) :=
  inferInstanceAs (Decidable (_ ∨ _))

/-- The row that a transaction is about to lock. -/
def nextRow (shares : Bool) (world : LedgerWorld) (i : Nat) : Option Resource :=
  match world.live i with
  | some ⟨_, .stmt statement _, writes, _⟩ => statement.row.filter fun resource =>
      decide (Locked (statement.locks shares (after world.point.db writes)) resource)
  | _ => none

/-- The rows that a transaction has locked. -/
def lockedRows (world : LedgerWorld) (i : Nat) : List Resource :=
  match world.live i with
  | some session => (session.locks.map Lock.resource).filter fun resource =>
      decide (Locked session.locks resource)
  | none => []

theorem waitsFor_of_rows {shares : Bool} {world : LedgerWorld} {i j : Nat} {resource : Resource}
    (different : i ≠ j) (wants : nextRow shares world i = some resource)
    (taken : resource ∈ lockedRows world j) : WaitsFor shares world i j := by
  refine ⟨different, resource, ?_, ?_⟩
  · rw [nextRow] at wants
    split at wants
    · rename_i label β statement next writes locks running
      obtain ⟨isRow, locks⟩ := Option.filter_eq_some_iff.mp wants
      exact ⟨_, _, _, _, _, _, running, isRow, of_decide_eq_true locks⟩
    · cases wants
  · rw [lockedRows] at taken
    split at taken
    · rename_i session running
      exact ⟨session, running, of_decide_eq_true (List.mem_filter.mp taken).2⟩
    · cases taken

/-- The calls of the first transactions. -/
def runningCalls (bound : Nat) (world : LedgerWorld) : List (Nat × Call) :=
  (List.range bound).filterMap fun i => (world.live i).map fun session => (i, session.label.2)

theorem mem_runningCalls {bound : Nat} {world : LedgerWorld} {i : Nat}
    {session : Session Stmt Write Lock Label (Except LedgerError Reply)}
    (beyond : ∀ j, bound ≤ j → world.live j = none) (found : world.live i = some session) :
    (i, session.label.2) ∈ runningCalls bound world := by
  have inside : i < bound := by
    by_contra outside
    rw [beyond i (Nat.le_of_not_lt outside)] at found
    cases found
  exact List.mem_filterMap.mpr ⟨i, List.mem_range.mpr inside, by rw [found]; rfl⟩

/-- A call that a void of a run may clash with. -/
def crosses : Call → Bool
  | .voidRun _ | .reverseCharge _ | .closeLease _ => true
  | _ => false

/-- A call that sweeps expired holds. -/
def sweeps : Call → Bool
  | .voidExpiredHolds _ => true
  | _ => false

theorem unswept_of_calls {bound : Nat} {world : LedgerWorld}
    (beyond : ∀ j, bound ≤ j → world.live j = none)
    (calls : ((runningCalls bound world).all fun call => !sweeps call.2) = true) :
    Unswept world := by
  intro i session now found same
  have fine := List.all_eq_true.mp calls _ (mem_runningCalls beyond found)
  rw [same] at fine
  cases fine

theorem unclashing_of_calls {bound : Nat} {world : LedgerWorld} (k : Nat)
    (beyond : ∀ j, bound ≤ j → world.live j = none)
    (calls : ((runningCalls bound world).all fun call => call.1 = k || !crosses call.2) = true) :
    Unclashing world := by
  have crossing : ∀ {i session}, world.live i = some session → crosses session.label.2 = true →
      i = k := by
    intro i session found isCrossing
    have fine := List.all_eq_true.mp calls _ (mem_runningCalls beyond found)
    simpa [isCrossing] using fine
  intro i j first second different found found' clash
  have both : crosses first.label.2 = true ∧ crosses second.label.2 = true := by
    revert clash
    cases first.label.2 <;> cases second.label.2 <;> simp [Clashes, crosses]
  exact different ((crossing found both.1).trans (crossing found' both.2).symm)

/-- An account with 100 credits; run 8 was charged 5 and run 7 has an open hold of 30. -/
def chargedRun : List (Engine.Move Label) := [
  serially 0 (.openAccount ⟨1, .user, true, none⟩) 1,
  serially 1 (.grant ⟨1, 100, .paid, none⟩) 3,
  serially 2 (.charge ⟨1, 5, some 8, none⟩) 3,
  serially 3 (.reserve ⟨1, 11, 30, .hard, none, some 7⟩) 4].flatten

/-- A void of the run waits for a settle, and the settle for a grant: nobody waits in a circle. -/
theorem no_deadlock_chargedRun : ∃ world,
    (engine true).Reaches program (fun _ _ => True) State.new world ∧
      WaitsFor true world 1 0 ∧ WaitsFor true world 0 2 ∧ ¬ Deadlocked true world := by
  have followed : ((engine true).followAll program (fun _ _ => true) 3 (Engine.idle State.new)
      (chargedRun ++ [.start 2 (numbered 4, .grant ⟨1, 7, .paid, none⟩), .exec 2,
        .start 0 (numbered 5, .settle ⟨11, 30⟩), .exec 0, .start 1 (numbered 6, .voidRun 7),
        .exec 1])).any (fun world =>
          ((runningCalls 3 world).all fun call => !sweeps call.2) ∧
          ((runningCalls 3 world).all fun call => call.1 = 1 || !crosses call.2) ∧
          nextRow true world 0 = some (.account 1) ∧ Resource.hold 11 ∈ lockedRows world 0 ∧
          nextRow true world 1 = some (.hold 11) ∧ Resource.account 1 ∈ lockedRows world 2) := by
    decide +kernel
  obtain ⟨world, result, facts⟩ := (Option.any_eq_true _ _).mp followed
  obtain ⟨unswept, unclashing, wants, locked, wants', locked'⟩ := of_decide_eq_true facts
  obtain ⟨reaches, beyond⟩ := @Engine.steps_of_followAll _ _ _ _ _ _ _ _ _ _ (fun _ _ => True)
    _ _ _ (fun _ _ _ => trivial) _ _ (fun _ _ => rfl) result
  exact ⟨world, reaches, waitsFor_of_rows (by decide) wants' locked,
    waitsFor_of_rows (by decide) wants locked', no_deadlock reaches
      (unswept_of_calls beyond unswept) (unclashing_of_calls 1 beyond unclashing)⟩

/-- **A deadlock.** A reversal has locked the account and waits for the charge, which the void of its
run has locked while it waits for the account. -/
theorem reversal_deadlocks : ∃ world,
    (engine true).Reaches program (fun _ _ => True) State.new world ∧ Unswept world ∧
      Deadlocked true world := by
  have followed : ((engine true).followAll program (fun _ _ => true) 2 (Engine.idle State.new)
      (chargedRun ++ [.start 0 (numbered 4, .reverseCharge ⟨1, 1006, none, "undo"⟩), .exec 0,
        .exec 0, .start 1 (numbered 5, .voidRun 8), .exec 1, .exec 1, .exec 1, .exec 1,
        .exec 1])).any (fun world =>
          ((runningCalls 2 world).all fun call => !sweeps call.2) ∧
          nextRow true world 0 = some (.entry 1006) ∧ Resource.account 1 ∈ lockedRows world 0 ∧
          nextRow true world 1 = some (.account 1) ∧ Resource.entry 1006 ∈ lockedRows world 1) := by
    decide +kernel
  obtain ⟨world, result, facts⟩ := (Option.any_eq_true _ _).mp followed
  obtain ⟨unswept, wants, locked, wants', locked'⟩ := of_decide_eq_true facts
  obtain ⟨reaches, beyond⟩ := @Engine.steps_of_followAll _ _ _ _ _ _ _ _ _ _ (fun _ _ => True)
    _ _ _ (fun _ _ _ => trivial) _ _ (fun _ _ => rfl) result
  refine ⟨world, reaches, unswept_of_calls beyond unswept, 0, ?_⟩
  exact .tail (.single (waitsFor_of_rows (by decide) wants locked'))
    (waitsFor_of_rows (by decide) wants' locked)

end Meter.Postgres
