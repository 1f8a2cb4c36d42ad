/-
**What two reversals of one charge can refund.**

`reverse_charge` reads what is left of a charge with the charge locked `for update`, which excludes
every insert that references it. `void_run` does the same for the run's direct charges, but reads
what is left of a settle with only the hold locked: a `reverse_charge` of that settle can commit
between the read and the refund, and the settle is refunded twice.

* `Protected` — the entries that nobody else refunds while a transaction holds its locks.
* `Refunding` — what `reverse_charge` and `void_run` have written so far: refunds of protected
  entries, within what is left of them.
* `refunds_bounded` — **the condition**: linked refunds stay within the amount of every settle and
  charge, unless a reversal of a settle commits while a void of the run has its hold locked.
* `reversal_under_void` — the double refund.
-/

import Meter.Lib.Pact
import Meter.Postgres.RunVoid

namespace Meter.Postgres

open Meter.Lib Meter.Ledger

/-! ### What is promised -/

/-- A settle or a direct charge. -/
def Spending (entry : LedgerEntry) : Prop := entry.entryType = .settle ∨ entry.entryType = .usage

/-- Settles and charges take credits. -/
def Drawn (db : State) : Prop :=
  ∀ entry ∈ db.entries, Spending entry → entry.deltaCredits ≤ 0

/-- The linked refunds of a settle or a charge are within its amount. -/
def Bounded (db : State) : Prop :=
  ∀ entry ∈ db.entries, Spending entry → db.reversed entry.id ≤ -entry.deltaCredits

/-- The entries that nobody else refunds: those locked `for update`, and for a void of a run the
settles of its locked holds. -/
def Protected (call : Call) (locks : List Lock) (db : State) (id : EntryId) : Prop :=
  (⟨.forUpdate, .entry id⟩ ∈ locks ∧ id ∈ db.entryIds) ∨
    ∃ run reservation hold, call = .voidRun run ∧ Locked locks (.hold reservation) ∧
      db.holds.get? reservation = some hold ∧ hold.runId = some run ∧ hold.settleEntry = some id

/-- The refunds of protected entries stay as they are. -/
def Kept (call : Call) (locks : List Lock) (db db' : State) : Prop :=
  ∀ id, Protected call locks db id → db'.reversed id = db.reversed id

section

variable {call : Call} {locks more : List Lock} {db db' : State} {id : EntryId}

theorem Protected.mono (isProtected : Protected call locks db id) (sub : locks ⊆ more) :
    Protected call more db id := by
  rcases isProtected with ⟨locked, known⟩ | ⟨run, reservation, hold, isVoid, locked, rest⟩
  · exact Or.inl ⟨sub locked, known⟩
  · exact Or.inr ⟨run, reservation, hold, isVoid, locked.mono sub, rest⟩

theorem Protected.frame {closed : Prop} (frame : Frame none closed locks db db')
    (isProtected : Protected call locks db id) : Protected call locks db' id := by
  rcases isProtected with ⟨locked, known⟩ | ⟨run, reservation, hold, isVoid, locked, found, rest⟩
  · exact Or.inl ⟨locked, frame.grows.mem_entryIds known⟩
  · exact Or.inr ⟨run, reservation, hold, isVoid, locked, (frame.hold locked).trans found, rest⟩

theorem Protected.known (wf : db.WellFormed) (isProtected : Protected call locks db id) :
    id ∈ db.entryIds := by
  rcases isProtected with ⟨_, known⟩ | ⟨run, reservation, hold, _, _, found, _, link⟩
  · exact known
  · obtain ⟨settle, member, rfl, _⟩ := wf.settleLink found link
    exact List.mem_map_of_mem member

end

/-- The tables are intact, and refunds are within bounds. -/
structure Refunded (point : Point State Label) : Prop where
  intact : Intact point.db
  drawn : Drawn point.db
  bounded : Bounded point.db

/-- What a transaction relies on: the frame of its locks, and the refunds of what it protects. -/
def refundPact : Pact State Lock Label where
  Inv := Refunded
  Rely label locks point point' :=
    Rely none locks point point' ∧ Kept label.2 locks point.db point'.db
  refl label locks point := ⟨.refl _ _ _, fun _ _ => rfl⟩
  trans := by
    rintro label locks first second third ⟨rely, kept⟩ ⟨rely', kept'⟩
    refine ⟨rely.trans rely', fun id isProtected => ?_⟩
    exact (kept' id (isProtected.frame rely.2)).trans (kept id isProtected)

/-- No refund by hand names an entry. -/
def Unlinked (_ : Point State Label) (label : Label) : Prop :=
  ∀ req, label.2 = .refund req → req.reversesEntryId = none

/-- No reversal of a settle commits while a void of the run has its hold locked. -/
def SparesVoid (point : Point State Label) (label other : Label) (others : List Lock) : Prop :=
  ∀ req run reservation hold, label.2 = .reverseCharge req → other.2 = .voidRun run →
    point.db.holds.get? reservation = some hold → hold.runId = some run →
    hold.settleEntry = some req.chargeEntryId → ¬ Locked others (.hold reservation)

/-! ### What a statement inserts -/

/-- The entry that a statement references in a new row. -/
def Stmt.link {β : Type} : Stmt β → Option EntryId
  | .insertEntry entry => entry.reversesEntryId
  | _ => none

theorem inserted_append (first second : List Write) :
    inserted (first ++ second) = inserted first ++ inserted second := List.filterMap_append

theorem reversed_after (db : State) (writes : List Write) (id : EntryId) :
    (after db writes).reversed id = db.reversed id + linkedSum (inserted writes) id :=
  State.reversed_append (after_entries db writes) id

section

variable {β : Type} {statement : Stmt β} {db : State} {answer : β} {more : List Write}

/-- **A statement inserts a row that references what the statement does.** -/
theorem Stmt.link_of_inserted (result : statement.exec db = .ok (answer, more)) :
    ∀ entry ∈ inserted more, entry.reversesEntryId = statement.link := by
  have none : ∀ {more : List Write}, inserted more = [] → ∀ entry ∈ inserted more,
      entry.reversesEntryId = statement.link :=
    fun empty entry member => absurd (empty ▸ member) List.not_mem_nil
  cases statement with
  | insertEntry entry =>
    obtain ⟨rfl, _⟩ := exec_insertEntry result
    intro other member
    rw [List.mem_singleton.mp member]
    rfl
  | insertAccount account =>
    obtain ⟨rfl, _⟩ := exec_insertAccount result
    exact none rfl
  | addSettled account amount =>
    obtain ⟨_, _, _, rfl⟩ := exec_addSettled result
    exact none rfl
  | insertHold reservation hold =>
    obtain ⟨rfl, _⟩ := exec_insertHold result
    exact none rfl
  | settleHold reservation entry =>
    cases exec_settleHold result
    exact none rfl
  | readEntry entry =>
    obtain ⟨_, rfl⟩ := exec_readEntry result
    exact none rfl
  | decode column =>
    obtain ⟨_, rfl⟩ := exec_decode result
    exact none rfl
  | voidIfExpired reservation now =>
    rcases @exec_voidIfExpired true _ _ _ _ _ result with rfl | ⟨rfl, _⟩
    · exact none rfl
    · exact none rfl
  | _ =>
    cases result
    exact none rfl

/-- The foreign key of a reference takes a key-share lock. -/
theorem Stmt.share_of_link {id : EntryId} (link : statement.link = some id) :
    ⟨.keyShare, .entry id⟩ ∈ statement.locks true db := by
  cases statement with
  | insertEntry entry =>
    have own : entry.reversesEntryId = some id := link
    simp [Stmt.locks, own]
  | _ => cases link

end

theorem forUpdate_lockEntry {shares : Bool} {db : State} {id : EntryId} (known : id ∈ db.entryIds) :
    ⟨.forUpdate, .entry id⟩ ∈ (Stmt.lockEntry id).locks shares db := by
  have stored : id ∈ db.entries.map LedgerEntry.id := known
  rw [Stmt.locks, if_pos stored]
  exact List.mem_singleton_self _

/-- Every pending reference has its key-share lock. -/
def Shared (locks : List Lock) (writes : List Write) : Prop :=
  ∀ entry ∈ inserted writes, ∀ id, entry.reversesEntryId = some id →
    ⟨.keyShare, .entry id⟩ ∈ locks

theorem wp_shared {rely : List Lock → Point State Label → Point State Label → Prop}
    {inv : Point State Label → Prop} {α : Type} (program : Prog Stmt α) {locks : List Lock}
    {writes : List Write} {point : Point State Label} (start : Shared locks writes) :
    (engine true).wp rely inv program (fun _ locks writes _ => Shared locks writes) locks writes
      point := by
  have every : program.Every fun _ => True := by
    induction program with
    | done _ => trivial
    | stmt statement next ih => exact ⟨trivial, ih⟩
  refine Engine.wp_every _ (fun statement db answer more locks writes _ result shared => ?_) every
    start
  intro entry member id link
  rw [inserted_append, List.mem_append] at member
  rcases member with old | new
  · exact List.mem_append_left _ (shared entry old id link)
  · refine List.mem_append_right _ (Stmt.share_of_link ?_)
    rw [← Stmt.link_of_inserted result entry new, link]

/-! ### Calls that refund nothing -/

/-- A program that inserts no reference. -/
abbrev Plain {α : Type} (program : Prog Stmt α) : Prop :=
  program.Every fun statement => statement.link = none

section

variable {α β : Type} {statement : Stmt β} {next : β → Prog Stmt α}

theorem plain_issue (unlinked : statement.link = none) (rest : ∀ answer, Plain (next answer)) :
    Plain (Prog.issue statement >>= next) := Prog.every_issue unlinked rest

theorem plain_then {first : Prog Stmt β} (plain : Plain first) (rest : ∀ answer, Plain (next answer)) :
    Plain (first >>= next) := Prog.every_bind plain rest

end

theorem plain_post {amb : Ambient} {mint : Mint} {posting : Posting} {delta : Credit}
    (unlinked : posting.reversesEntryId = none) : Plain (post amb mint posting delta) :=
  plain_issue rfl fun _ => plain_issue unlinked fun _ => trivial

theorem plain_postKeyed {amb : Ambient} {posting : Posting} {amount delta : Credit}
    (unlinked : posting.reversesEntryId = none) : Plain (postKeyed amb posting amount delta) := by
  unfold postKeyed
  split
  · trivial
  refine plain_issue rfl fun row => ?_
  cases row with
  | none => trivial
  | some row =>
    refine plain_then ?_ fun existing => ?_
    · unfold findExisting
      split
      · trivial
      · exact ⟨rfl, fun _ => trivial⟩
    · cases existing with
      | some existing => trivial
      | none => exact plain_then (plain_post unlinked) fun _ => trivial

theorem plain_postTransfer {amb : Ambient} {payer payee : AccountId} {amount : Credit} :
    Plain (postTransfer amb payer payee amount) :=
  plain_issue rfl fun _ => plain_issue rfl fun _ => plain_issue rfl fun _ =>
    ⟨rfl, fun _ => trivial⟩

theorem plain_sweep {now : OffsetDateTime} (rows : List (ReservationId × Hold)) :
    Plain (sweep now rows) := by
  induction rows with
  | nil => trivial
  | cons row rows ih => exact plain_issue rfl fun _ => plain_then ih fun _ => trivial

theorem plain_reserve (req : ReserveRequest) : Plain (reserve req) := by
  unfold reserve
  split
  · trivial
  refine plain_issue rfl fun row => ?_
  cases row with
  | none => trivial
  | some row =>
    refine plain_issue rfl fun hold => ?_
    cases hold with
    | some hold =>
      show Plain (ite _ _ _)
      split <;> trivial
    | none =>
      refine plain_issue rfl fun held => ?_
      show Plain (ite _ _ _)
      split
      · trivial
      · exact plain_issue rfl fun _ => trivial

theorem plain_settle (amb : Ambient) (req : SettleRequest) : Plain (settle amb req) := by
  unfold settle
  split
  · trivial
  refine plain_issue rfl fun hold => ?_
  cases hold with
  | none => trivial
  | some hold =>
    dsimp only
    cases hold.status with
    | voided => trivial
    | settled => exact plain_issue rfl fun _ => plain_issue rfl fun _ => trivial
    | «open» => exact plain_then (plain_post rfl) fun _ => plain_issue rfl fun _ => trivial

theorem plain_openLease (amb : Ambient) (req : LeaseRequest) : Plain (openLease amb req) := by
  unfold openLease
  split
  · trivial
  refine plain_issue rfl fun row => ?_
  cases row with
  | none => trivial
  | some row =>
    refine plain_issue rfl fun held => ?_
    show Plain (ite _ _ _)
    split
    · trivial
    · exact plain_issue rfl fun _ => plain_then plain_postTransfer fun _ => trivial

theorem plain_closeLease (amb : Ambient) (lease : AccountId) : Plain (closeLease amb lease) := by
  refine plain_issue rfl fun row => ?_
  cases row with
  | none => trivial
  | some row =>
    dsimp only
    cases row.account.parentId with
    | none => trivial
    | some parent =>
      refine plain_issue rfl fun held => ?_
      show Plain (ite _ _ _)
      split
      · trivial
      · exact plain_then plain_postTransfer fun _ => trivial

/-- **Only `refund`, `reverse_charge` and `void_run` reference entries.** -/
theorem plain_program (label : Label) (unlinked : Call.links label.2 = none)
    (other : ∀ run, label.2 ≠ .voidRun run) : Plain (program label) := by
  have answered : ∀ {γ : Type} {transaction : Prog Stmt (Answer γ)} {wrap : γ → Reply},
      Plain transaction → Plain (replying transaction wrap) :=
    fun plain => plain_then plain fun _ => trivial
  obtain ⟨amb, call⟩ := label
  cases call with
  | openAccount req => exact answered (plain_issue rfl fun _ => trivial)
  | balance account | entries account =>
    refine answered (plain_issue rfl fun row => ?_)
    cases row with
    | none => trivial
    | some row => exact plain_issue rfl fun _ => trivial
  | grant req | charge req => exact answered (plain_postKeyed rfl)
  | refund req => exact answered (plain_postKeyed unlinked)
  | reverseCharge req => cases unlinked
  | reserve req => exact answered (plain_reserve req)
  | settle req => exact answered (plain_settle amb req)
  | void reservation | extendHold reservation expiresAt =>
    refine answered (plain_issue rfl fun hold => ?_)
    cases hold with
    | none => trivial
    | some hold =>
      dsimp only
      cases hold.status with
      | voided | settled => trivial
      | «open» => exact plain_issue rfl fun _ => trivial
  | voidExpiredHolds now =>
    exact answered (plain_issue rfl fun rows => plain_then (plain_sweep _) fun _ => trivial)
  | voidRun run => exact absurd rfl (other run)
  | openLease req => exact answered (plain_openLease amb req)
  | closeLease lease => exact answered (plain_closeLease amb lease)

/-! ### Refunds of protected entries -/

/-- The entries that a call may refund: the one it names, locked `for update`; for a void of a run
the charges it locked and the settles of the holds it locked. -/
def Refers (call : Call) (locks : List Lock) (db : State) (id : EntryId) : Prop :=
  (Call.links call = some id ∧ ⟨.forUpdate, .entry id⟩ ∈ locks ∧ id ∈ db.entryIds) ∨
    ∃ run, call = .voidRun run ∧
      ((∃ entry ∈ db.entries, entry.id = id ∧ entry.entryType = .usage ∧
          ⟨.forUpdate, .entry id⟩ ∈ locks) ∨
        ∃ reservation hold, Locked locks (.hold reservation) ∧
          db.holds.get? reservation = some hold ∧ hold.runId = some run ∧
          hold.settleEntry = some id)

/-- Pending references are to entries that the call may refund, within what is left of them. -/
structure Covered (call : Call) (locks : List Lock) (writes : List Write) (db : State) : Prop where
  links : ∀ entry ∈ inserted writes, ∀ id, entry.reversesEntryId = some id →
    Refers call locks db id
  within : ∀ entry ∈ db.entries, Spending entry →
    (after db writes).reversed entry.id ≤ -entry.deltaCredits

/-- What a call that refunds has written so far. -/
structure Refunding (call : Call) (locks : List Lock) (writes : List Write)
    (point : Point State Label) : Prop where
  covered : Covered call locks writes point.db
  refunds : ∀ entry ∈ inserted writes, entry.entryType = .refund ∧ Exact entry.deltaCredits

section

variable {label : Label} {locks locks' : List Lock} {writes : List Write} {db : State}
  {point point' : Point State Label} {id : EntryId}

theorem Refers.protected {call : Call} (refers : Refers call locks db id) :
    Protected call locks db id := by
  rcases refers with ⟨_, locked, known⟩ | ⟨run, isVoid, ⟨entry, member, rfl, _, locked⟩ |
    ⟨reservation, hold, rest⟩⟩
  · exact Or.inl ⟨locked, known⟩
  · exact Or.inl ⟨locked, List.mem_map_of_mem member⟩
  · exact Or.inr ⟨run, reservation, hold, isVoid, rest⟩

theorem Refers.mono {call : Call} (refers : Refers call locks db id) (sub : locks ⊆ locks') :
    Refers call locks' db id := by
  rcases refers with ⟨named, locked, known⟩ | ⟨run, isVoid, ⟨entry, member, same, usage, locked⟩ |
    ⟨reservation, hold, locked, rest⟩⟩
  · exact Or.inl ⟨named, sub locked, known⟩
  · exact Or.inr ⟨run, isVoid, Or.inl ⟨entry, member, same, usage, sub locked⟩⟩
  · exact Or.inr ⟨run, isVoid, Or.inr ⟨reservation, hold, locked.mono sub, rest⟩⟩

theorem Refers.frame {call : Call} {db' : State} {closed : Prop}
    (frame : Frame none closed locks db db') (refers : Refers call locks db id) :
    Refers call locks db' id := by
  rcases refers with ⟨named, locked, known⟩ | ⟨run, isVoid, ⟨entry, member, rest⟩ |
    ⟨reservation, hold, locked, found, rest⟩⟩
  · exact Or.inl ⟨named, locked, frame.grows.mem_entryIds known⟩
  · exact Or.inr ⟨run, isVoid, Or.inl ⟨entry, frame.grows.entries.subset member, rest⟩⟩
  · exact Or.inr ⟨run, isVoid, Or.inr ⟨reservation, hold, locked,
      (frame.hold locked).trans found, rest⟩⟩

theorem linkedSum_unlinked {entries : List LedgerEntry}
    (unlinked : ∀ entry ∈ entries, entry.reversesEntryId ≠ some id) :
    linkedSum entries id = 0 := by
  rw [linkedSum, List.filter_eq_nil_iff.mpr fun entry member link =>
    unlinked entry member (of_decide_eq_true link)]
  rfl

/-- **What is covered stays covered**: nobody else refunds what is protected. -/
theorem Covered.rely (covered : Covered label.2 locks writes point.db)
    (intact : Intact point.db) (inv : Refunded point')
    (rely : refundPact.Rely label locks point point') :
    Covered label.2 locks writes point'.db := by
  refine ⟨fun entry member id link => (covered.links entry member id link).frame rely.1.2,
    fun entry member spending => ?_⟩
  by_cases linked : ∃ refund ∈ inserted writes, refund.reversesEntryId = some entry.id
  · obtain ⟨refund, pending, link⟩ := linked
    have isProtected := (covered.links refund pending _ link).protected
    obtain ⟨old, memberOld, named⟩ := List.mem_map.mp (isProtected.known intact.wellFormed)
    have same : old = entry := List.inj_on_of_nodup_map inv.intact.wellFormed.entryIds
      (rely.1.2.grows.entries.subset memberOld) member named
    subst same
    have before := covered.within old memberOld spending
    rw [reversed_after] at before ⊢
    rwa [rely.2 _ isProtected]
  · rw [reversed_after, linkedSum_unlinked fun refund pending link => linked ⟨refund, pending, link⟩,
      add_zero]
    exact inv.bounded entry member spending

theorem Refunding.rely (refunding : Refunding label.2 locks writes point) (intact : Intact point.db)
    (inv : Refunded point') (rely : refundPact.Rely label locks point point') :
    Refunding label.2 locks writes point' :=
  ⟨refunding.covered.rely intact inv rely, refunding.refunds⟩

theorem Refunding.mono (refunding : Refunding label.2 locks writes point) (sub : locks ⊆ locks') :
    Refunding label.2 locks' writes point :=
  ⟨⟨fun entry member id link => (refunding.covered.links entry member id link).mono sub,
    refunding.covered.within⟩, refunding.refunds⟩

theorem refundPact_anti {label : Label} (sub : locks ⊆ locks')
    (rely : refundPact.Rely label locks' point point') :
    refundPact.Rely label locks point point' :=
  ⟨rely.1.anti sub, fun id isProtected => rely.2 id (isProtected.mono sub)⟩

/-- A transaction that has written nothing. -/
theorem Refunding.nil (inv : Refunded point) : Refunding label.2 locks [] point :=
  ⟨⟨fun _ member => absurd member List.not_mem_nil, inv.bounded⟩,
    fun _ member => absurd member List.not_mem_nil⟩

end

/-! ### Commits -/

section

variable {label : Label} {locks : List Lock} {writes : List Write} {point : Point State Label}

/-- What is covered is within bounds once it is committed. -/
theorem Covered.bounded (covered : Covered label.2 locks writes point.db) (inv : Refunded point)
    (intact : Intact (after point.db writes)) (drawn : Drawn (after point.db writes)) :
    Bounded (after point.db writes) := by
  intro entry member spending
  have isMember := member
  rw [after_entries, List.mem_append] at member
  rcases member with old | new
  · exact covered.within entry old spending
  · -- a new settle or charge, which nothing references yet
    have fresh : entry.id ∉ point.db.entryIds := by
      intro known
      obtain ⟨other, old, same⟩ := List.mem_map.mp known
      have distinct := intact.wellFormed.entryIds
      rw [State.entryIds, after_entries, List.map_append, List.nodup_append] at distinct
      exact distinct.2.2 _ (List.mem_map_of_mem old) _ (List.mem_map_of_mem new) same
    have unreferenced : point.db.reversed entry.id = 0 :=
      linkedSum_unlinked fun refund stored link => fresh (inv.intact.links refund stored _ link)
    have unpending : linkedSum (inserted writes) entry.id = 0 :=
      linkedSum_unlinked fun refund pending link =>
        fresh ((covered.links refund pending _ link).protected.known inv.intact.wellFormed)
    rw [reversed_after, unreferenced, unpending]
    linarith [drawn entry isMember spending]

/-- **What is covered leaves alone what others protect**, unless it reverses a settle under a void. -/
theorem Covered.kept (covered : Covered label.2 locks writes point.db) (wf : point.db.WellFormed)
    (shared : Shared locks writes) {other : Label} {others : List Lock}
    (compatible : (engine true).Compatible locks others)
    (spares : SparesVoid point label other others) (unlinked : Unlinked point label) :
    Kept other.2 others point.db (after point.db writes) := by
  intro id isProtected
  rw [reversed_after, linkedSum_unlinked, add_zero]
  intro refund pending link
  rcases isProtected with ⟨locked, _⟩ | ⟨run, reservation, hold, isVoid, locked, found, tagged, own⟩
  · exact compatible _ (shared refund pending id link) _ locked ⟨rfl, rfl⟩
  · rcases covered.links refund pending id link with ⟨named, _⟩ | ⟨_, _, ⟨entry, member, same, usage,
      _⟩ | ⟨reservation', hold', locked', found', _, own'⟩⟩
    · cases isCall : label.2 with
      | reverseCharge req =>
        rw [isCall] at named
        cases named
        exact spares req run reservation hold isCall isVoid found tagged own locked
      | refund req =>
        rw [isCall] at named
        cases (unlinked req isCall).symm.trans named
      | _ =>
        rw [isCall] at named
        cases named
    · obtain ⟨settle, stored, isSettle, kind, _⟩ := wf.settleLink found own
      have equal := List.inj_on_of_nodup_map wf.entryIds member stored (same.trans isSettle.symm)
      subst equal
      cases usage.symm.trans kind
    · obtain ⟨settle, stored, isSettle, _, of, _⟩ := wf.settleLink found own
      obtain ⟨settle', stored', isSettle', _, of', _⟩ := wf.settleLink found' own'
      have equal := List.inj_on_of_nodup_map wf.entryIds stored stored'
        (isSettle.trans isSettle'.symm)
      subst equal
      cases of.symm.trans of'
      exact locked'.exclusive compatible locked

end

/-! ### Refunds as programs -/

section

variable {label : Label} {locks : List Lock} {writes : List Write} {point : Point State Label}

/-- What must hold before a program, for the pact. -/
abbrev Refunds {α : Type} (label : Label) (program : Prog Stmt α)
    (post : α → List Lock → List Write → Point State Label → Prop) (locks : List Lock)
    (writes : List Write) (point : Point State Label) : Prop :=
  (engine true).wp (refundPact.Rely label) Refunded program post locks writes point

/-- A later state of a call that refunds. -/
structure Later (label : Label) (locks : List Lock) (point : Point State Label)
    (locks' : List Lock) (writes' : List Write) (point' : Point State Label) : Prop where
  inv : Refunded point'
  refunding : Refunding label.2 locks' writes' point'
  sub : locks ⊆ locks'
  rely : refundPact.Rely label locks point point'

variable {α β : Type} {goal : α → List Lock → List Write → Point State Label → Prop}

/-- One statement, with the locks it takes from then on. -/
theorem refunds_issue {statement : Stmt β} {next : β → Prog Stmt α}
    (holds : ∀ point' locks', refundPact.Rely label locks point point' → Refunded point' →
      locks ⊆ locks' → statement.locks true (after point'.db writes) ⊆ locks' →
      ∀ answer more, statement.exec (after point'.db writes) = .ok (answer, more) →
        Refunds label (next answer) goal locks' (writes ++ more) point') :
    Refunds label (Prog.issue statement >>= next) goal locks writes point :=
  fun point' rely inv answer more result => holds point' _ rely inv
    (List.subset_append_left _ _) (List.subset_append_right _ _) answer more result

/-- One program, then another. -/
theorem refunds_then {program : Prog Stmt β} {next : β → Prog Stmt α}
    {between : β → List Lock → List Write → Point State Label → Prop}
    (first : Refunds label program between locks writes point)
    (rest : ∀ answer locks' writes' point', between answer locks' writes' point' →
      Refunds label (next answer) goal locks' writes' point') :
    Refunds label (program >>= next) goal locks writes point :=
  Engine.wp_bind _ (Engine.wp_mono _ (fun _ => id) rest first)

/-- One statement of a call that refunds, which writes nothing. -/
theorem refunds_read {statement : Stmt β} {next : β → Prog Stmt α} (value : State → β)
    (reads : ∀ db, statement.exec db = .ok (value db, [])) (inv : Refunded point)
    (refunding : Refunding label.2 locks writes point)
    (rest : ∀ point' locks', Later label locks point locks' writes point' →
      statement.locks true (after point'.db writes) ⊆ locks' →
      Refunds label (next (value (after point'.db writes))) goal locks' writes point') :
    Refunds label (Prog.issue statement >>= next) goal locks writes point := by
  refine refunds_issue fun point' locks' rely inv' sub own answer more result => ?_
  rw [reads] at result
  cases result
  rw [List.append_nil]
  exact rest point' locks' ⟨inv', (refunding.rely inv.intact inv' rely).mono sub, sub, rely⟩ own

/-- **A refund of what is left of a protected entry.** -/
theorem refunds_post {amb : Ambient} {mint : Mint} {posting : Posting} {amount : Credit}
    {target : EntryId} {charge : LedgerEntry} (inv : Refunded point)
    (refunding : Refunding label.2 locks writes point)
    (refers : Refers label.2 locks point.db target) (kind : posting.entryType = .refund)
    (link : posting.reversesEntryId = some target) (member : charge ∈ point.db.entries)
    (named : charge.id = target)
    (left : amount = -charge.deltaCredits - (after point.db writes).reversed target)
    (exact : Exact amount) :
    Refunds label (post amb mint posting amount) (fun _ => Later label locks point) locks writes
      point := by
  refine refunds_issue fun point₁ locks₁ rely₁ inv₁ sub₁ _ balance more₁ result₁ => ?_
  obtain ⟨_, _, _, rfl⟩ := exec_addSettled result₁
  refine refunds_issue fun point₂ locks₂ rely₂ inv₂ sub₂ _ _ more₂ result₂ => ?_
  obtain ⟨rfl, _⟩ := exec_insertEntry result₂
  have rely : refundPact.Rely label locks point point₂ :=
    refundPact.trans rely₁ (refundPact_anti sub₁ rely₂)
  have sub : locks ⊆ locks₂ := List.Subset.trans sub₁ sub₂
  have later := refunding.rely inv.intact inv₂ rely
  have new : inserted (writes ++ [.setSettled posting.accountId balance] ++
      [.insertEntry (roundedEntry (postingEntry posting amb mint amount balance))]) =
      inserted writes ++ [roundedEntry (postingEntry posting amb mint amount balance)] := by
    simp [inserted, List.filterMap_append]
  have own : (roundedEntry (postingEntry posting amb mint amount balance)).reversesEntryId =
      some target := link
  have delta : (roundedEntry (postingEntry posting amb mint amount balance)).deltaCredits =
      amount := round5_of_exact exact
  refine ⟨inv₂, ⟨⟨?_, ?_⟩, ?_⟩, sub, rely⟩
  · intro entry pending id isLink
    rw [new, List.mem_append, List.mem_singleton] at pending
    rcases pending with old | rfl
    · exact (later.covered.links entry old id isLink).mono sub
    · cases own.symm.trans isLink
      exact (refers.frame rely.1.2).mono sub
  · intro entry stored spending
    have before := later.covered.within entry stored spending
    rw [reversed_after] at before ⊢
    rw [new, linkedSum_append, linkedSum_singleton, own, delta]
    split
    · rename_i isTarget
      cases isTarget
      have same : charge = entry := List.inj_on_of_nodup_map inv₂.intact.wellFormed.entryIds
        (rely.1.2.grows.entries.subset member) stored named
      subst same
      rw [reversed_after] at left
      rw [rely.2 _ refers.protected, left]
      linarith
    · linarith
  · intro entry pending
    rw [new, List.mem_append, List.mem_singleton] at pending
    rcases pending with old | rfl
    · exact later.refunds entry old
    · exact ⟨kind, by rw [delta]; exact exact⟩

theorem Later.trans {locks' locks'' : List Lock} {writes' writes'' : List Write}
    {point' point'' : Point State Label} (earlier : Later label locks point locks' writes' point')
    (later : Later label locks' point' locks'' writes'' point'') :
    Later label locks point locks'' writes'' point'' :=
  ⟨later.inv, later.refunding, List.Subset.trans earlier.sub later.sub,
    refundPact.trans earlier.rely (refundPact_anti earlier.sub later.rely)⟩

theorem Later.refl (inv : Refunded point) (refunding : Refunding label.2 locks writes point) :
    Later label locks point locks writes point :=
  ⟨inv, refunding, List.Subset.refl _, refundPact.refl _ _ _⟩

/-- What is left of an entry has five decimals. -/
theorem Refunding.exact (refunding : Refunding label.2 locks writes point) (inv : Refunded point)
    {charge : LedgerEntry} (member : charge ∈ point.db.entries) (id : EntryId) :
    Exact (-charge.deltaCredits - (after point.db writes).reversed id) := by
  refine (inv.intact.scaled.delta charge member).neg.sub (Exact.sum fun amount inside => ?_)
  obtain ⟨refund, linked, rfl⟩ := List.mem_map.mp inside
  have stored := (List.mem_filter.mp linked).1
  rw [after_entries, List.mem_append] at stored
  rcases stored with old | pending
  · exact inv.intact.scaled.delta refund old
  · exact (refunding.refunds refund pending).2

/-- **What is left of a committed entry**, as a program reads it. -/
theorem refunds_unreversedRemainder {id : EntryId} {rest : Credit → Prog Stmt α}
    (inv : Refunded point) (refunding : Refunding label.2 locks writes point)
    (known : id ∈ point.db.entryIds)
    (next : ∀ charge point' locks', Later label locks point locks' writes point' →
      charge ∈ point'.db.entries → charge.id = id →
      Refunds label (rest (-charge.deltaCredits - (after point'.db writes).reversed id)) goal locks'
        writes point') :
    Refunds label (unreversedRemainder id >>= rest) goal locks writes point := by
  refine Engine.wp_bind _ (refunds_issue fun point₁ locks₁ rely₁ inv₁ sub₁ _ charge more result => ?_)
  obtain ⟨found, rfl⟩ := exec_readEntry result
  rw [List.append_nil]
  have refunding₁ := (refunding.rely inv.intact inv₁ rely₁).mono sub₁
  -- the entry is a committed one, which comes before the pending ones
  obtain ⟨old, memberOld, named⟩ := List.mem_map.mp (rely₁.1.2.grows.mem_entryIds known)
  have isSome : (point₁.db.entries.find? fun row => row.id = id).isSome := by
    rw [List.find?_isSome]
    exact ⟨old, memberOld, by simpa using named⟩
  rw [after_entries, List.find?_append, Option.or_of_isSome isSome] at found
  have member := List.mem_of_find?_eq_some found
  have isId : charge.id = id := of_decide_eq_true (List.find?_some found :)
  refine refunds_read (fun db => db.reversed id) (fun _ => rfl) inv₁ refunding₁
    fun point₂ locks₂ later₂ _ => ?_
  exact next charge point₂ locks₂ (Later.trans ⟨inv₁, refunding₁, sub₁, rely₁⟩ later₂)
    (later₂.rely.1.2.grows.entries.subset member) isId

theorem refunds_refundRemainder {amb : Ambient} {target : EntryId} {posting : Posting}
    {summary : RunVoidSummary} (inv : Refunded point)
    (refunding : Refunding label.2 locks writes point)
    (refers : Refers label.2 locks point.db target) (kind : posting.entryType = .refund)
    (link : posting.reversesEntryId = some target) :
    Refunds label (refundRemainder amb target posting summary) (fun _ => Later label locks point)
      locks writes point := by
  have known := refers.protected.known inv.intact.wellFormed
  refine refunds_unreversedRemainder inv refunding known
    fun charge point₁ locks₁ later₁ member named => ?_
  show Refunds label (ite _ _ _) _ _ _ _
  split
  · exact later₁
  · refine refunds_then (refunds_post later₁.inv later₁.refunding
      ((refers.frame later₁.rely.1.2).mono later₁.sub) kind link member named rfl
      (later₁.refunding.exact later₁.inv member target)) fun entry locks₂ writes₂ point₂ later₂ => ?_
    exact later₁.trans later₂

theorem refunds_reverseCharge (amb : Ambient) (req : ReverseChargeRequest)
    (isCall : label.2 = .reverseCharge req) (inv : Refunded point) :
    Refunds label (reverseCharge amb req)
      (fun _ locks' writes' point' => Later label [] point locks' writes' point') [] [] point := by
  refine refunds_read (fun db => db.accounts.get? req.account) (fun _ => rfl) inv (.nil inv)
    fun point₁ locks₁ later₁ _ => ?_
  cases (after point₁.db []).accounts.get? req.account with
  | none => exact later₁
  | some row =>
    refine refunds_read (fun db => db.findKeyed req.account req.idempotencyKey) (fun _ => rfl)
      later₁.inv later₁.refunding fun point₂ locks₂ later₂ _ => ?_
    cases (after point₂.db []).findKeyed req.account req.idempotencyKey with
    | some existing => exact later₁.trans later₂
    | none =>
      refine refunds_read (fun db => db.entries.find? fun row => row.id = req.chargeEntryId)
        (fun _ => rfl) later₂.inv later₂.refunding fun point₃ locks₃ later₃ own => ?_
      have later := (later₁.trans later₂).trans later₃
      cases found : (after point₃.db []).entries.find? fun row => row.id = req.chargeEntryId with
      | none => exact later
      | some charge =>
        show Refunds label (ite _ _ _) _ _ _ _
        split
        · exact later
        · have known : req.chargeEntryId ∈ point₃.db.entryIds := List.mem_map.mpr
            ⟨charge, List.mem_of_find?_eq_some found, of_decide_eq_true (List.find?_some found :)⟩
          have refers : Refers label.2 locks₃ point₃.db req.chargeEntryId := by
            refine Or.inl ⟨by rw [isCall]; rfl, own (forUpdate_lockEntry ?_), known⟩
            exact known
          refine refunds_unreversedRemainder later.inv later.refunding known
            fun charge point₄ locks₄ later₄ member named => ?_
          split
          · exact later.trans later₄
          · refine refunds_then (refunds_post later₄.inv later₄.refunding
              ((refers.frame later₄.rely.1.2).mono later₄.sub) rfl rfl member named rfl
              (later₄.refunding.exact later₄.inv member _))
              fun entry locks₅ writes₅ point₅ later₅ => ?_
            exact (later.trans later₄).trans later₅

/-! ### Run voids -/

/-- A locked hold of the run, as it was when it was locked. -/
def LockedHold (run : RunId) (locks : List Lock) (db : State) (member : ReservationId × Hold) :
    Prop :=
  Locked locks (.hold member.1) ∧ db.holds.get? member.1 = some member.2 ∧
    member.2.runId = some run

/-- A locked charge. -/
def LockedCharge (locks : List Lock) (db : State) (charge : LedgerEntry) : Prop :=
  charge ∈ db.entries ∧ charge.entryType = .usage ∧ ⟨.forUpdate, .entry charge.id⟩ ∈ locks

theorem LockedHold.later {run : RunId} {member : ReservationId × Hold} {locks' : List Lock}
    {writes' : List Write} {point' : Point State Label}
    (isLocked : LockedHold run locks point.db member)
    (later : Later label locks point locks' writes' point') :
    LockedHold run locks' point'.db member :=
  ⟨isLocked.1.mono later.sub, (later.rely.1.2.hold isLocked.1).trans isLocked.2.1, isLocked.2.2⟩

theorem LockedCharge.later {charge : LedgerEntry} {locks' : List Lock} {writes' : List Write}
    {point' : Point State Label} (isLocked : LockedCharge locks point.db charge)
    (later : Later label locks point locks' writes' point') :
    LockedCharge locks' point'.db charge :=
  ⟨later.rely.1.2.grows.entries.subset isLocked.1, isLocked.2.1, later.sub isLocked.2.2⟩

theorem refunds_lockRunHolds {run : RunId} (rows : List (ReservationId × Hold)) :
    ∀ {locks point}, Refunded point → Refunding label.2 locks [] point →
      Refunds label (lockRunHolds run rows) (fun members locks' writes' point' => writes' = [] ∧
        Later label locks point locks' writes' point' ∧
        ∀ member ∈ members, LockedHold run locks' point'.db member) locks [] point := by
  induction rows with
  | nil =>
    exact fun inv refunding => ⟨rfl, .refl inv refunding, fun _ inside => absurd inside List.not_mem_nil⟩
  | cons row rows ih =>
    intro locks point inv refunding
    refine refunds_read (fun db => db.holds.get? row.1) (fun _ => rfl) inv refunding
      fun point₁ locks₁ later₁ own => ?_
    refine refunds_then (ih later₁.inv later₁.refunding) ?_
    rintro members locks₂ writes₂ point₂ ⟨rfl, later₂, each⟩
    refine ⟨rfl, later₁.trans later₂, ?_⟩
    cases found : (after point₁.db []).holds.get? row.1 with
    | none => exact each
    | some hold =>
      dsimp only
      split
      · rename_i tagged
        intro member inside
        rcases List.mem_cons.mp inside with rfl | inside
        · have isLocked : LockedHold run locks₁ point₁.db (row.1, hold) :=
            ⟨(locked_lockHold found).mono own, found, tagged⟩
          exact isLocked.later later₂
        · exact each member inside
      · exact each

theorem refunds_voidMembers {amb : Ambient} {run : RunId} (isCall : label.2 = .voidRun run)
    (members : List (ReservationId × Hold)) : ∀ {summary locks writes point}, Refunded point →
      Refunding label.2 locks writes point →
      (∀ member ∈ members, LockedHold run locks point.db member) →
      Refunds label (voidMembers amb run members summary) (fun _ => Later label locks point) locks
        writes point := by
  induction members with
  | nil => exact fun inv refunding _ => .refl inv refunding
  | cons member members ih =>
    intro summary locks writes point inv refunding each
    have first := each member List.mem_cons_self
    have rest : ∀ {summary locks₁ writes₁ point₁}, Later label locks point locks₁ writes₁ point₁ →
        Refunds label (voidMembers amb run members summary) (fun _ => Later label locks point) locks₁
          writes₁ point₁ := by
      intro summary locks₁ writes₁ point₁ later₁
      refine Engine.wp_mono _ (fun _ => id) (fun _ _ _ _ later₂ => later₁.trans later₂)
        (ih later₁.inv later₁.refunding fun other inside => ?_)
      exact (each other (List.mem_cons_of_mem _ inside)).later later₁
    refine Engine.wp_bind _ ?_
    unfold voidMember
    cases member.2.status with
    | voided => exact rest (.refl inv refunding)
    | «open» =>
      refine refunds_issue fun point₁ locks₁ rely₁ inv₁ sub₁ _ _ more result => ?_
      cases result
      refine rest ⟨inv₁, ?_, sub₁, rely₁⟩
      have kept := (refunding.rely inv.intact inv₁ rely₁).mono sub₁
      have same : inserted (writes ++ [.voidHold member.1]) = inserted writes := by
        simp [inserted, List.filterMap_append]
      refine ⟨⟨?_, fun entry stored spending => ?_⟩, ?_⟩
      · rw [same]
        exact kept.covered.links
      · have before := kept.covered.within entry stored spending
        rw [reversed_after] at before ⊢
        rwa [same]
      · rw [same]
        exact kept.refunds
    | settled =>
      refine refunds_issue fun point₁ locks₁ rely₁ inv₁ sub₁ _ settleId more result => ?_
      obtain ⟨link, rfl⟩ := exec_decode result
      rw [List.append_nil]
      have later₁ : Later label locks point locks₁ writes point₁ :=
        ⟨inv₁, (refunding.rely inv.intact inv₁ rely₁).mono sub₁, sub₁, rely₁⟩
      obtain ⟨locked, found, tagged⟩ := first.later later₁
      refine Engine.wp_mono _ (fun _ => id) (fun _ _ _ _ later₂ => rest (later₁.trans later₂))
        (refunds_refundRemainder inv₁ later₁.refunding ?_ rfl rfl)
      exact Or.inr ⟨run, isCall, Or.inr ⟨member.1, member.2, locked, found, tagged, link⟩⟩

theorem refunds_lockRunCharges {run : RunId} (rows : List LedgerEntry) :
    ∀ {locks writes point}, Refunded point → Refunding label.2 locks writes point →
      Refunds label (lockRunCharges run rows) (fun charges locks' writes' point' =>
        Later label locks point locks' writes' point' ∧
        ∀ charge ∈ charges, LockedCharge locks' point'.db charge) locks writes point := by
  induction rows with
  | nil => exact fun inv refunding => ⟨.refl inv refunding, fun _ inside => absurd inside List.not_mem_nil⟩
  | cons row rows ih =>
    intro locks writes point inv refunding
    refine refunds_read (fun db => db.entries.find? fun other => other.id = row.id) (fun _ => rfl)
      inv refunding fun point₁ locks₁ later₁ own => ?_
    refine refunds_then (ih later₁.inv later₁.refunding) ?_
    rintro charges locks₂ writes₂ point₂ ⟨later₂, each⟩
    refine ⟨later₁.trans later₂, ?_⟩
    cases found : (after point₁.db writes).entries.find? fun other => other.id = row.id with
    | none => exact each
    | some charge =>
      dsimp only
      split
      · rename_i tagged
        intro other inside
        rcases List.mem_cons.mp inside with rfl | inside
        · have member := List.mem_of_find?_eq_some found
          have named : other.id = row.id := of_decide_eq_true (List.find?_some found :)
          have locked : LockedCharge locks₁ point₁.db other := by
            refine ⟨?_, tagged.2, own ?_⟩
            · rw [after_entries, List.mem_append] at member
              rcases member with old | pending
              · exact old
              · cases (later₁.refunding.refunds _ pending).1.symm.trans tagged.2
            · rw [named]
              exact forUpdate_lockEntry (named ▸ List.mem_map_of_mem member)
          exact locked.later later₂
        · exact each other inside
      · exact each

theorem refunds_voidCharges {amb : Ambient} {run : RunId} (isCall : label.2 = .voidRun run)
    (charges : List LedgerEntry) : ∀ {summary locks writes point}, Refunded point →
      Refunding label.2 locks writes point →
      (∀ charge ∈ charges, LockedCharge locks point.db charge) →
      Refunds label (voidCharges amb run charges summary) (fun _ => Later label locks point) locks
        writes point := by
  induction charges with
  | nil => exact fun inv refunding _ => .refl inv refunding
  | cons charge charges ih =>
    intro summary locks writes point inv refunding each
    obtain ⟨member, usage, locked⟩ := each charge List.mem_cons_self
    refine refunds_then (refunds_refundRemainder inv refunding ?_ rfl rfl)
      fun summary locks₁ writes₁ point₁ later₁ => ?_
    · exact Or.inr ⟨run, isCall, Or.inl ⟨charge, member, rfl, usage, locked⟩⟩
    · refine Engine.wp_mono _ (fun _ => id) (fun _ _ _ _ later₂ => later₁.trans later₂)
        (ih later₁.inv later₁.refunding fun other inside => ?_)
      exact (each other (List.mem_cons_of_mem _ inside)).later later₁

theorem refunds_voidRun (amb : Ambient) (run : RunId) (isCall : label.2 = .voidRun run)
    (inv : Refunded point) : Refunds label (voidRun amb run)
      (fun _ locks' writes' point' => Later label [] point locks' writes' point') [] [] point := by
  refine refunds_read _ (fun _ => rfl) inv (.nil inv) fun point₁ locks₁ later₁ _ => ?_
  refine refunds_then (refunds_lockRunHolds _ later₁.inv later₁.refunding) ?_
  rintro members locks₂ writes₂ point₂ ⟨rfl, later₂, each⟩
  refine refunds_then (refunds_voidMembers isCall members later₂.inv later₂.refunding each)
    fun summary locks₃ writes₃ point₃ later₃ => ?_
  refine refunds_read _ (fun _ => rfl) later₃.inv later₃.refunding fun point₄ locks₄ later₄ _ => ?_
  refine refunds_then (refunds_lockRunCharges _ later₄.inv later₄.refunding) ?_
  rintro charges locks₅ writes₅ point₅ ⟨later₅, each⟩
  refine refunds_then (refunds_voidCharges isCall charges later₅.inv later₅.refunding each)
    fun summary locks₆ writes₆ point₆ later₆ => ?_
  exact ((((later₁.trans later₂).trans later₃).trans later₄).trans later₅).trans later₆

end

/-! ### Interleavings -/

/-- A legal action keeps settles and charges drawn. -/
theorem Drawn.store {scaled : Prop} {locks : List Lock} {db : State} {action : Action}
    (legal : Legal none scaled locks db action) (drawn : Drawn db) :
    Drawn (Action.store db action) := by
  intro entry member spending
  rw [store_entries legal, List.mem_append] at member
  rcases member with old | posted
  · exact drawn entry old spending
  · exact legal.spend_nonpos posted spending.symm

theorem keeps_drawn (admits : Point State Label → Label → Prop) :
    Keeps none admits fun point => Intact point.db ∧ Drawn point.db := by
  intro point label locks actions kept _ _ legals _ _
  exact legals.invariant (P := fun db => Intact db ∧ Drawn db) (fun db action before legal =>
    ⟨legal.intact before.1, before.2.store legal⟩) kept

/-- A call that references nothing has covered what it wrote. -/
theorem covered_plain (label : Label) {point : Point State Label}
    (other : ∀ run, label.2 ≠ .voidRun run) (unlinked : Call.links label.2 = none) :
    Refunds label (program label) (Engine.Committing (refundPact.Rely label) Refunded
      fun locks writes point => Covered label.2 locks writes point.db) [] [] point := by
  have plain : Refunds label (program label) (fun _ _ writes _ => ∀ entry ∈ inserted writes,
      entry.reversesEntryId = none) [] [] point := by
    refine (engine true).wp_every (Q := fun _ writes => ∀ entry ∈ inserted writes,
      entry.reversesEntryId = none) (fun statement db answer more locks writes isPlain result before =>
        ?_) (plain_program label unlinked other) fun _ member => absurd member List.not_mem_nil
    intro entry member
    rw [inserted_append, List.mem_append] at member
    rcases member with old | new
    · exact before entry old
    · rw [Stmt.link_of_inserted result entry new, isPlain]
  refine Engine.wp_mono _ (fun _ => id) (fun exit locks writes point before => ?_) plain
  cases exit with
  | rollback _ => trivial
  | commit _ =>
    intro point' _ inv
    refine ⟨fun entry member id link => ?_, fun entry member spending => ?_⟩
    · cases (before entry member).symm.trans link
    · have none : linkedSum (inserted writes) entry.id = 0 :=
        linkedSum_unlinked fun refund pending link => by cases (before refund pending).symm.trans link
      rw [reversed_after, none, add_zero]
      exact inv.bounded entry member spending

/-- What every call has written when it commits is covered. -/
theorem covered_program (label : Label) {point : Point State Label} (inv : Refunded point)
    (unlinked : Unlinked point label) :
    Refunds label (program label) (Engine.Committing (refundPact.Rely label) Refunded
      fun locks writes point => Covered label.2 locks writes point.db) [] [] point := by
  have answered : ∀ {γ : Type} {transaction : Prog Stmt (Answer γ)} {wrap : γ → Reply},
      Refunds label transaction (fun _ locks' writes' point' =>
        Later label [] point locks' writes' point') [] [] point →
      Refunds label (replying transaction wrap) (Engine.Committing (refundPact.Rely label) Refunded
        fun locks writes point => Covered label.2 locks writes point.db) [] [] point := by
    intro γ transaction wrap refunds
    refine refunds_then refunds fun answer locks' writes' point' later => ?_
    cases answer with
    | rollback _ => trivial
    | commit _ => exact fun point'' rely inv' => later.refunding.covered.rely later.inv.intact inv' rely
  obtain ⟨amb, call⟩ := label
  cases call with
  | voidRun run => exact answered (refunds_voidRun amb run rfl inv)
  | reverseCharge req => exact answered (refunds_reverseCharge amb req rfl inv)
  | refund req => exact covered_plain _ (fun _ same => by cases same) (unlinked req rfl)
  | _ => exact covered_plain _ (fun _ same => by cases same) rfl

/-- **Every call honours the pact.** -/
theorem honest_program (label : Label) (point : Point State Label)
    (inv : Refunded (Engine.begin point label)) :
    (engine true).Honest refundPact Unlinked SparesVoid label (program label) [] []
      (Engine.begin point label) := by
  by_cases unlinked : Unlinked point label
  · have base : Refunds label (program label) (Engine.Committing (Rely none)
        (fun point => Intact point.db ∧ Drawn point.db) ((engine true).Owes
          (contract none fun point => Intact point.db ∧ Drawn point.db) Unlinked label)) [] []
        (Engine.begin point label) :=
      (engine true).wp_anti (fun _ _ _ rely => rely.1) (fun _ kept => ⟨kept.intact, kept.drawn⟩)
        (safe_program (keeps_drawn _) (fun point label _ => sparesRun_none point label.2)
          (fun _ => And.left) label point)
    refine Engine.wp_mono _ (fun _ => id) ?_ ((engine true).wp_and ((engine true).wp_and base
      (covered_program label inv unlinked)) (wp_shared _ fun _ member => absurd member List.not_mem_nil))
    rintro exit locks writes last ⟨⟨owes, covers⟩, shared⟩
    cases exit with
    | rollback _ => trivial
    | commit _ =>
      intro point' rely inv' admitted
      obtain ⟨kept, guarantee⟩ := owes point' rely.1 ⟨inv'.intact, inv'.drawn⟩ admitted
      have covered := covers point' rely inv'
      refine ⟨⟨kept.1, kept.2, covered.bounded inv' kept.1 kept.2⟩, fun other others compatible
        permitted => ⟨guarantee others compatible, ?_⟩⟩
      exact covered.kept inv'.intact.wellFormed shared compatible permitted admitted
  · refine Engine.wp_mono _ (fun _ => id) ?_ (wp_shared _ fun _ member =>
      absurd member List.not_mem_nil)
    rintro exit locks writes last _
    cases exit with
    | rollback _ => trivial
    | commit _ => exact fun _ _ _ admitted => absurd admitted unlinked

/-- **No double refund.** Any transactions, statement by statement and in any order, none of which
refunds an entry by hand: as long as no reversal of a settle commits while a void of the run has the
hold locked, the linked refunds of every settle and charge are within its amount. -/
theorem refunds_bounded {world : World Stmt State Write Lock Label (Except LedgerError Reply)}
    (steps : Relation.ReflTransGen ((engine true).PermittedStep program Unlinked SparesVoid)
      (Engine.idle State.new) world) :
    ∀ entry ∈ world.point.db.entries, entry.entryType = .settle ∨ entry.entryType = .usage →
      world.point.db.reversed entry.id ≤ |entry.deltaCredits| := by
  have start : refundPact.Inv ⟨State.new, []⟩ :=
    ⟨.new, fun _ member => absurd member List.not_mem_nil,
      fun _ member => absurd member List.not_mem_nil⟩
  have begins : ∀ label point, refundPact.Inv point → refundPact.Inv (Engine.begin point label) ∧
      ∀ other locks, refundPact.Rely other locks point (Engine.begin point label) :=
    fun label point inv => ⟨⟨inv.intact, inv.drawn, inv.bounded⟩,
      fun other locks => ⟨⟨List.prefix_append _ _, .refl _ _ _ _⟩, fun _ _ => rfl⟩⟩
  obtain ⟨inv, _⟩ := Engine.pact_sound begins honest_program start steps
  intro entry member spending
  exact (inv.bounded entry member spending).trans (neg_le_abs _)

/-- A check for `SparesVoid`: the reversal is not of a settle. -/
def sparesVoid (point : Point State Label) (label _other : Label) (_others : List Lock) : Bool :=
  match label.2 with
  | .reverseCharge req => point.db.holds.rows.all fun row =>
      row.2.settleEntry ≠ some req.chargeEntryId
  | _ => true

theorem sparesVoid_of_check (point : Point State Label) (label other : Label) (others : List Lock)
    (passes : sparesVoid point label other others = true) :
    SparesVoid point label other others := by
  intro req run reservation hold isCall _ found _ own
  rw [sparesVoid, isCall, List.all_eq_true] at passes
  exact absurd own (of_decide_eq_true (passes (reservation, hold) (Table.mem_rows_iff.mpr found)))

/-- No call is a refund by hand. -/
def unlinked (_ : Point State Label) (label : Label) : Bool :=
  match label.2 with
  | .refund _ => false
  | _ => true

theorem unlinked_of_check (point : Point State Label) (label : Label)
    (passes : unlinked point label = true) : Unlinked point label := by
  intro req isCall
  rw [unlinked, isCall] at passes
  cases passes

/-- An account with 100 credits; run 8 was charged 5 and run 7 has settled 30. -/
def settledRun : List (Engine.Move Label) := [
  serially 0 (.openAccount ⟨1, .user, true, none⟩) 1,
  serially 1 (.grant ⟨1, 100, .paid, none⟩) 3,
  serially 2 (.charge ⟨1, 5, some 8, none⟩) 3,
  serially 3 (.reserve ⟨1, 11, 30, .hard, none, some 7⟩) 4,
  serially 4 (.settle ⟨11, 30⟩) 4].flatten

/-- A direct charge is reversed while a void of its run is running: the void waits for the charge,
and refunds nothing. -/
def reversedCharge : List (Engine.Move Label) := settledRun ++ [
  .start 0 (numbered 5, .voidRun 8), .exec 0,
  .start 1 (numbered 6, .reverseCharge ⟨1, 1006, none, "undo"⟩), .exec 1, .exec 1, .exec 1, .exec 0,
  .exec 1, .exec 1, .exec 1, .exec 1, .commit 1, .exec 0, .exec 0, .exec 0, .commit 0]

theorem refunds_bounded_settledRun : ∃ world,
    Relation.ReflTransGen ((engine true).PermittedStep program Unlinked SparesVoid)
      (Engine.idle State.new) world ∧
    ∃ charge ∈ world.point.db.entries, charge.entryType = .usage ∧
      world.point.db.reversed charge.id = 5 ∧
      world.point.db.reversed charge.id ≤ |charge.deltaCredits| := by
  have followed : (reversedCharge.foldlM ((engine true).followPermitted program unlinked sparesVoid
      2) (Engine.idle State.new)).any (fun world => world.point.db.entries.any fun charge =>
        charge.entryType = .usage ∧ world.point.db.reversed charge.id = 5) := by
    decide +kernel
  obtain ⟨world, result, facts⟩ := (Option.any_eq_true _ _).mp followed
  obtain ⟨charge, member, facts⟩ := List.any_eq_true.mp facts
  obtain ⟨usage, refunded⟩ := of_decide_eq_true facts
  have steps := Engine.permitted_of_follow unlinked_of_check sparesVoid_of_check (fun _ _ => rfl) result
  exact ⟨world, steps, charge, member, usage, refunded,
    refunds_bounded steps charge member (Or.inr usage)⟩

/-- **A double refund.** The void has read that 30 are left of the settle; the reversal of the settle
commits; the void refunds 30 again. -/
theorem reversal_under_void : ∃ world,
    (engine true).Reaches program Unlinked State.new world ∧
    ∃ settle ∈ world.point.db.entries, settle.entryType = .settle ∧
      |settle.deltaCredits| = 30 ∧ world.point.db.reversed settle.id = 60 := by
  have followed : ((engine true).followAll program unlinked 2 (Engine.idle State.new)
      (settledRun ++ [.start 0 (numbered 5, .voidRun 7), .exec 0, .exec 0, .exec 0, .exec 0, .exec 0,
        .start 1 (numbered 6, .reverseCharge ⟨1, 1012, none, "undo"⟩), .exec 1, .exec 1, .exec 1,
        .exec 1, .exec 1, .exec 1, .exec 1, .commit 1, .exec 0, .exec 0, .exec 0,
        .commit 0])).any (fun world => world.point.db.entries.any fun settle =>
          settle.entryType = .settle ∧ |settle.deltaCredits| = 30 ∧
            world.point.db.reversed settle.id = 60) := by
    decide +kernel
  obtain ⟨world, result, facts⟩ := (Option.any_eq_true _ _).mp followed
  obtain ⟨settle, member, facts⟩ := List.any_eq_true.mp facts
  exact ⟨world, Engine.reaches_of_follow unlinked_of_check result, settle, member,
    of_decide_eq_true facts⟩

end Meter.Postgres
