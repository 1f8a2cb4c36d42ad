/-
**What others may commit while some locks are held.**

* `Frame` — a database that others reached from another one, given the locks somebody holds. Locked
  rows are unchanged, open holds on a locked account only shrink (`Frame.held_le`), no new row takes
  a locked id or key, and nobody refunds an entry whose guard is locked (`Frame.remainder_eq`).
* `frame_of_legal` — **the guarantee**: legal actions respect the frame of every compatible holder.
* `Rely` — the frame between two committed points. `closed` says that a void of the watched run has
  begun, from which on no hold or charge of that run is added.
* `Always` — what holds from now on while some locks are held, the form in which a program carries
  what it knows.
-/

import Meter.Postgres.Commit

namespace Meter.Postgres

open Meter.Lib Meter.Ledger

/-! ### Growth -/

/-- Rows are kept: accounts with their terms, holds evolving, entries appended. -/
structure Grows (db db' : State) : Prop where
  account : ∀ {account row}, db.accounts.get? account = some row →
    ∃ row', db'.accounts.get? account = some row' ∧ row'.account = row.account
  hold : ∀ {reservation hold}, db.holds.get? reservation = some hold →
    ∃ hold', db'.holds.get? reservation = some hold' ∧ HoldEvolves hold hold'
  entries : db.entries <+: db'.entries

theorem Grows.refl (db : State) : Grows db db :=
  ⟨fun found => ⟨_, found, rfl⟩, fun found => ⟨_, found, .refl _⟩, List.prefix_rfl⟩

theorem Grows.trans {db middle db' : State} (earlier : Grows db middle) (later : Grows middle db') :
    Grows db db' where
  account := by
    intro account row found
    obtain ⟨row', found', same⟩ := earlier.account found
    obtain ⟨row'', found'', same'⟩ := later.account found'
    exact ⟨row'', found'', same'.trans same⟩
  hold := by
    intro reservation hold found
    obtain ⟨hold', found', evolves⟩ := earlier.hold found
    obtain ⟨hold'', found'', evolves'⟩ := later.hold found'
    exact ⟨hold'', found'', evolves.trans evolves'⟩
  entries := earlier.entries.trans later.entries

theorem Grows.mem_entryIds {db db' : State} (grows : Grows db db') {id : EntryId}
    (known : id ∈ db.entryIds) : id ∈ db'.entryIds :=
  (grows.entries.map LedgerEntry.id).subset known

/-- A guard stays a guard. -/
theorem Guards.forth {focus : Option RunId} {db db' : State} (grows : Grows db db') {id : EntryId}
    {resource : Resource} (guards : Guards focus db id resource) :
    Guards focus db' id resource := by
  obtain ⟨run, isFocus, entry, member, named, guard⟩ := guards
  refine ⟨run, isFocus, entry, grows.entries.subset member, named, ?_⟩
  rcases guard with usage | ⟨kind, reservation, hold, own, found, tagged, same⟩
  · exact Or.inl usage
  · obtain ⟨hold', found', evolves⟩ := grows.hold found
    exact Or.inr ⟨kind, reservation, hold', own, found', evolves.runId.trans tagged, same⟩

/-- A guard of an entry was its guard from the start. -/
theorem Guards.back {focus : Option RunId} {db db' : State} (grows : Grows db db')
    (wf : db.WellFormed) (distinct : db'.entryIds.Nodup) {id : EntryId} {resource : Resource}
    (known : id ∈ db.entryIds) (guards : Guards focus db' id resource) :
    Guards focus db id resource := by
  obtain ⟨run, isFocus, entry, member, named, guard⟩ := guards
  obtain ⟨old, memberOld, namedOld⟩ := List.mem_map.mp known
  have same : entry = old := List.inj_on_of_nodup_map distinct member
    (grows.entries.subset memberOld) (named.trans namedOld.symm)
  subst same
  refine ⟨run, isFocus, entry, memberOld, named, ?_⟩
  rcases guard with usage | ⟨kind, reservation, hold, own, found, tagged, same⟩
  · exact Or.inl usage
  · obtain ⟨reservation', hold', own', found', _⟩ := wf.settleHold entry memberOld kind
    rw [own, Option.some.injEq] at own'
    subst own'
    obtain ⟨new, foundNew, evolves⟩ := grows.hold found'
    rw [found, Option.some.injEq] at foundNew
    subst foundNew
    exact Or.inr ⟨kind, reservation, hold', own, found', evolves.runId ▸ tagged, same⟩

section

variable {focus : Option RunId} {scaled : Prop} {locks : List Lock} {db : State}

theorem Legal.grows {action : Action} (legal : Legal focus scaled locks db action) :
    Grows db (Action.store db action) where
  account := by
    intro account row found
    obtain ⟨row', found'⟩ := Table.contains_iff.mp
      (Action.contains_apply (Table.contains_iff.mpr ⟨row, found⟩) action)
    obtain ⟨row'', found'', same'⟩ := (store_alike legal).symm.row found'
    refine ⟨row'', found'', same'.trans ?_⟩
    rcases account_apply found' with ⟨old, foundOld, same⟩ | ⟨rfl, same⟩
    · rw [found, Option.some.injEq] at foundOld
      rw [same, foundOld]
    · rw [same, legal.1] at found
      cases found
  hold := by
    intro reservation hold found
    rw [(store_alike legal).holds]
    obtain ⟨new, found', evolves, _⟩ := hold_apply legal.fits found
    exact ⟨new, found', evolves⟩
  entries := by
    rw [store_entries legal]
    exact List.prefix_append _ _

theorem Legals.grows {actions : List Action} (legals : Legals focus scaled locks db actions) :
    Grows db (Action.stores db actions) := by
  induction actions generalizing db with
  | nil => exact .refl db
  | cons action actions ih =>
    rw [stores_cons]
    exact legals.1.grows.trans (ih legals.2)

end

/-! ### Frames -/

/-- An entry that others may append while some locks are held. -/
structure Foreign (focus : Option RunId) (closed : Prop) (locks : List Lock) (db : State)
    (entry : LedgerEntry) : Prop where
  id : ¬ Locked locks (.entry entry.id)
  key : ∀ key, entry.idempotencyKey = some key → ¬ Locked locks (.key entry.accountId key)
  link : ∀ id resource, entry.reversesEntryId = some id → Guards focus db id resource →
    ¬ Locked locks resource
  tag : closed → entry.entryType = .usage → entry.runId ≠ focus

/-- What others may commit while some locks are held. -/
structure Frame (focus : Option RunId) (closed : Prop) (locks : List Lock) (db db' : State) :
    Prop where
  grows : Grows db db'
  account : ∀ {account}, Locked locks (.account account) →
    db'.accounts.get? account = db.accounts.get? account
  hold : ∀ {reservation}, Locked locks (.hold reservation) →
    db'.holds.get? reservation = db.holds.get? reservation
  newHold : ∀ {reservation hold}, db.holds.get? reservation = none →
    db'.holds.get? reservation = some hold →
    ¬ Locked locks (.account hold.account) ∧ (closed → hold.runId ≠ focus)
  entries : ∃ new, db'.entries = db.entries ++ new ∧ ∀ entry ∈ new, Foreign focus closed locks db entry

namespace Frame

variable {focus : Option RunId} {closed : Prop} {locks : List Lock} {db db' : State}

theorem refl (focus : Option RunId) (closed : Prop) (locks : List Lock) (db : State) :
    Frame focus closed locks db db where
  grows := .refl db
  account := fun _ => rfl
  hold := fun _ => rfl
  newHold := fun absent found => by
    rw [absent] at found
    cases found
  entries := ⟨[], (List.append_nil _).symm, fun _ member => absurd member List.not_mem_nil⟩

theorem trans {closed' : Prop} {middle : State} (stays : closed → closed')
    (earlier : Frame focus closed locks db middle) (later : Frame focus closed' locks middle db') :
    Frame focus closed locks db db' where
  grows := earlier.grows.trans later.grows
  account := fun locked => (later.account locked).trans (earlier.account locked)
  hold := fun locked => (later.hold locked).trans (earlier.hold locked)
  newHold := by
    intro reservation hold absent found
    cases between : middle.holds.get? reservation with
    | none =>
      obtain ⟨unlocked, tag⟩ := later.newHold between found
      exact ⟨unlocked, fun isClosed => tag (stays isClosed)⟩
    | some placed =>
      obtain ⟨unlocked, tag⟩ := earlier.newHold absent between
      obtain ⟨hold', found', evolves⟩ := later.grows.hold between
      rw [found, Option.some.injEq] at found'
      rw [found', evolves.account, evolves.runId]
      exact ⟨unlocked, tag⟩
  entries := by
    obtain ⟨first, sameFirst, foreignFirst⟩ := earlier.entries
    obtain ⟨second, sameSecond, foreignSecond⟩ := later.entries
    refine ⟨first ++ second, by rw [sameSecond, sameFirst, List.append_assoc], fun entry member => ?_⟩
    rcases List.mem_append.mp member with old | new
    · exact foreignFirst entry old
    · have foreign := foreignSecond entry new
      exact ⟨foreign.id, foreign.key, fun id resource link guards =>
        foreign.link id resource link (guards.forth earlier.grows),
        fun isClosed => foreign.tag (stays isClosed)⟩

/-- Fewer locks promise less. -/
theorem anti {more : List Lock} (sub : locks ⊆ more) (frame : Frame focus closed more db db') :
    Frame focus closed locks db db' where
  grows := frame.grows
  account := fun locked => frame.account (locked.mono sub)
  hold := fun locked => frame.hold (locked.mono sub)
  newHold := fun absent found =>
    ⟨fun locked => (frame.newHold absent found).1 (locked.mono sub), (frame.newHold absent found).2⟩
  entries := by
    obtain ⟨new, same, foreign⟩ := frame.entries
    refine ⟨new, same, fun entry member => ?_⟩
    have apart := foreign entry member
    exact ⟨fun locked => apart.id (locked.mono sub),
      fun key own locked => apart.key key own (locked.mono sub),
      fun id resource link guards locked => apart.link id resource link guards (locked.mono sub),
      apart.tag⟩

/-- **What is held on a locked account only falls.** -/
theorem held_le (frame : Frame focus closed locks db db') (wf : db.WellFormed)
    {account : AccountId} (locked : Locked locks (.account account)) :
    db'.held account ≤ db.held account := by
  rw [State.held_eq_sum, State.held_eq_sum]
  refine Table.sum_le_sum_get fun reservation => ?_
  rw [Table.measureAt, Table.measureAt]
  cases found : db.holds.get? reservation with
  | none =>
    cases found' : db'.holds.get? reservation with
    | none => exact le_rfl
    | some hold =>
      have other : ¬ (hold.account = account ∧ hold.status = .open) := by
        rintro ⟨same, _⟩
        exact (frame.newHold found found').1 (same ▸ locked)
      exact (if_neg other).le
  | some hold =>
    obtain ⟨hold', found', evolves⟩ := frame.grows.hold found
    rw [found']
    show hold'.locks account ≤ hold.locks account
    rw [Hold.locks, Hold.locks, evolves.account, evolves.amount]
    by_cases isOpen : hold.status = .open
    · have nonneg := (wf.holdTerms found).2
      simp only [isOpen, and_true]
      split
      · rename_i both
        rw [if_pos both.1]
      · split
        · exact nonneg
        · exact le_rfl
    · rw [(evolves.closed isOpen).1]

end Frame

/-! ### The guarantee -/

/-- An action that leaves the refunds of the watched run alone, and adds nothing to it once
closed. -/
def Spares (focus : Option RunId) (closed : Prop) (db : State) : Action → Prop
  | .credit entry => ∀ id resource, entry.reversesEntryId = some id → ¬ Guards focus db id resource
  | .charge entry => closed → entry.runId ≠ focus
  | .place _ hold => closed → hold.runId ≠ focus
  | .openAccount _ | .settle _ _ | .reverse _ | .transfer _ _ | .release _ | .extend _ _ => True

/-- The same for actions one after another. -/
def Spared (focus : Option RunId) (closed : Prop) : State → List Action → Prop
  | _, [] => True
  | db, action :: actions => Spares focus closed db action ∧
      Spared focus closed (Action.store db action) actions

section

variable {shares : Bool} {focus : Option RunId} {scaled closed : Prop} {locks others : List Lock}
  {db : State}

/-- What an action posts is foreign to every compatible holder. -/
theorem Legal.foreign (compatible : (engine shares).Compatible locks others) {action : Action}
    (legal : Legal focus scaled locks db action) (spares : Spares focus closed db action) :
    ∀ entry ∈ action.posted, Foreign focus closed others db entry := by
  have single : ∀ {amount : Credit} {entry : LedgerEntry}, Stores scaled locks db amount entry →
      (∀ id resource, entry.reversesEntryId = some id → Guards focus db id resource →
        ¬ Locked others resource) → (closed → entry.entryType = .usage → entry.runId ≠ focus) →
      ∀ other ∈ [entry], Foreign focus closed others db other := by
    intro amount entry stores link tag other member
    rw [List.mem_singleton.mp member]
    exact ⟨stores.lockedEntry.exclusive compatible,
      fun key own => (stores.lockedKey key own).exclusive compatible, link, tag⟩
  cases action with
  | credit entry =>
    obtain ⟨amount, _, stores, kind⟩ := legal
    refine single stores (fun id resource link guards => absurd guards (spares id resource link))
      fun _ usage => ?_
    rcases kind with ⟨kind, _⟩ | kind <;> rw [kind] at usage <;> cases usage
  | charge entry =>
    obtain ⟨amount, _, stores, _, plain⟩ := legal
    refine single stores (fun id resource link => ?_) fun isClosed _ => spares isClosed
    rw [plain] at link
    cases link
  | reverse entry =>
    obtain ⟨amount, _, stores, kind, id, own, guarded⟩ := legal
    refine single stores (fun id' resource link guards => ?_) fun _ usage => ?_
    · rw [own, Option.some.injEq] at link
      exact (guarded resource (link ▸ guards)).1.exclusive compatible
    · rw [kind] at usage
      cases usage
  | settle reservation entry =>
    obtain ⟨amount, _, stores, kind, plain, _⟩ := legal
    refine single stores (fun id resource link => ?_) fun _ usage => ?_
    · rw [plain] at link
      cases link
    · rw [kind] at usage
      cases usage
  | transfer out into =>
    obtain ⟨amount, stores⟩ := legal
    obtain ⟨plainOut, plainInto, keyOut, keyInto⟩ := stores.plain
    intro entry member
    rcases List.mem_pair.mp member with rfl | rfl
    · refine ⟨stores.lockedEntries.1.exclusive compatible, ?_, ?_, ?_⟩
      · rw [keyOut]
        exact fun _ none => by cases none
      · rw [plainOut]
        exact fun _ _ none => by cases none
      · rw [stores.kinds.1]
        exact fun _ usage => by cases usage
    · refine ⟨stores.lockedEntries.2.exclusive compatible, ?_, ?_, ?_⟩
      · rw [keyInto]
        exact fun _ none => by cases none
      · rw [plainInto]
        exact fun _ _ none => by cases none
      · rw [stores.kinds.2]
        exact fun _ usage => by cases usage
  | openAccount _ | place _ _ | release _ | extend _ _ =>
    exact fun _ member => absurd member List.not_mem_nil

/-- A row that is rewritten is not one that a compatible holder has locked. -/
theorem get?_modify_of_locked {K V : Type} [DecidableEq K] (resource : K → Resource)
    {table : Table K V} {written read : K} {change : V → V}
    (compatible : (engine shares).Compatible locks others)
    (mine : Locked locks (resource written)) (theirs : Locked others (resource read)) :
    (table.modify written change).get? read = table.get? read := by
  rw [Table.get?_modify, if_neg]
  rintro rfl
  exact mine.exclusive compatible theirs

theorem get?_set_of_locked {K V : Type} [DecidableEq K] (resource : K → Resource)
    {table : Table K V} {written read : K} {value : V}
    (compatible : (engine shares).Compatible locks others)
    (mine : Locked locks (resource written)) (theirs : Locked others (resource read)) :
    (table.set written value).get? read = table.get? read := by
  rw [Table.get?_set, if_neg]
  rintro rfl
  exact mine.exclusive compatible theirs

theorem Legal.account_eq (compatible : (engine shares).Compatible locks others) {action : Action}
    (legal : Legal focus scaled locks db action) {account : AccountId}
    (locked : Locked others (.account account)) :
    (Action.store db action).accounts.get? account = db.accounts.get? account := by
  cases action with
  | openAccount opened =>
    exact get?_set_of_locked .account compatible legal.2.2 locked
  | credit entry | charge entry | reverse entry | settle reservation entry =>
    obtain ⟨amount, _, stores, _⟩ := legal
    exact get?_modify_of_locked .account compatible stores.lockedAccount locked
  | transfer out into =>
    obtain ⟨amount, stores⟩ := legal
    exact (get?_modify_of_locked .account compatible stores.lockedAccounts.2 locked).trans
      (get?_modify_of_locked .account compatible stores.lockedAccounts.1 locked)
  | place reservation hold | extend reservation expiresAt => rfl
  | release reservations =>
    obtain ⟨reservation, rfl, _⟩ := legal
    rfl

theorem Legal.hold_eq (compatible : (engine shares).Compatible locks others) {action : Action}
    (legal : Legal focus scaled locks db action) {reservation : ReservationId}
    (locked : Locked others (.hold reservation)) :
    (Action.store db action).holds.get? reservation = db.holds.get? reservation := by
  cases action with
  | openAccount _ | credit _ | charge _ | reverse _ | transfer _ _ => rfl
  | settle settled entry =>
    obtain ⟨amount, _, _, _, _, _, _, mine, _⟩ := legal
    exact get?_modify_of_locked .hold compatible mine locked
  | place placed hold =>
    obtain ⟨_, _, _, mine, _⟩ := legal
    exact get?_set_of_locked .hold compatible mine locked
  | release reservations =>
    obtain ⟨released, rfl, mine, _⟩ := legal
    exact get?_modify_of_locked .hold compatible mine locked
  | extend extended expiresAt =>
    exact get?_modify_of_locked .hold compatible legal.1 locked

/-- **The guarantee**: a legal action respects the frame of every compatible holder. -/
theorem frame_of_legal (compatible : (engine shares).Compatible locks others) {action : Action}
    (legal : Legal focus scaled locks db action) (spares : Spares focus closed db action) :
    Frame focus closed others db (Action.store db action) where
  grows := legal.grows
  account := legal.account_eq compatible
  hold := legal.hold_eq compatible
  newHold := by
    intro reservation hold absent found
    rw [(store_alike legal).holds] at found
    rcases hold_apply_new found with ⟨old, foundOld⟩ | rfl
    · rw [absent] at foundOld
      cases foundOld
    · exact ⟨legal.2.2.2.2.1.exclusive compatible, spares⟩
  entries := ⟨action.posted, store_entries legal, legal.foreign compatible spares⟩

theorem frame_of_legals (compatible : (engine shares).Compatible locks others)
    {actions : List Action} (legals : Legals focus scaled locks db actions)
    (spared : Spared focus closed db actions) :
    Frame focus closed others db (Action.stores db actions) := by
  induction actions generalizing db with
  | nil => exact .refl _ _ _ db
  | cons action actions ih =>
    rw [stores_cons]
    exact (frame_of_legal compatible legals.1 spared.1).trans id (ih legals.2 spared.2)

end

/-! ### Views -/

/-- The entries among some writes. -/
def inserted (writes : List Write) : List LedgerEntry :=
  writes.filterMap fun
    | .insertEntry entry => some entry
    | _ => none

theorem after_entries (db : State) (writes : List Write) :
    (after db writes).entries = db.entries ++ inserted writes := by
  induction writes generalizing db with
  | nil => exact (List.append_nil _).symm
  | cons write writes ih =>
    show (after (Write.apply db write) writes).entries = _
    rw [ih]
    cases write with
    | insertEntry entry => simp [Write.apply, inserted]
    | _ => rfl

/-- A row of a view depends on the row below it only. -/
theorem after_account_congr {db db' : State} {account : AccountId}
    (same : db'.accounts.get? account = db.accounts.get? account) (writes : List Write) :
    (after db' writes).accounts.get? account = (after db writes).accounts.get? account := by
  induction writes generalizing db db' with
  | nil => exact same
  | cons write writes ih =>
    refine ih ?_
    cases write with
    | insertAccount opened =>
      simp only [Write.apply, Table.get?_set]
      split
      · rfl
      · exact same
    | setSettled set settled =>
      simp only [Write.apply, Table.get?_modify]
      split
      · rename_i isSet
        rw [← isSet, same]
      · exact same
    | _ => exact same

theorem after_hold_congr {db db' : State} {reservation : ReservationId}
    (same : db'.holds.get? reservation = db.holds.get? reservation) (writes : List Write) :
    (after db' writes).holds.get? reservation = (after db writes).holds.get? reservation := by
  induction writes generalizing db db' with
  | nil => exact same
  | cons write writes ih =>
    refine ih ?_
    cases write with
    | insertHold placed hold =>
      simp only [Write.apply, Table.get?_set]
      split
      · rfl
      · exact same
    | settleHold changed _ | voidHold changed | extendHold changed _ =>
      simp only [Write.apply, Table.get?_modify]
      split
      · rename_i isChanged
        rw [← isChanged, same]
      · exact same
    | _ => exact same

/-- A view keeps what was below it. -/
theorem Grows.mem_view {db db' : State} (grows : Grows db db') {writes : List Write}
    {entry : LedgerEntry} (member : entry ∈ (after db writes).entries) :
    entry ∈ (after db' writes).entries := by
  rw [after_entries, List.mem_append] at member ⊢
  rcases member with old | mine
  · exact Or.inl (grows.entries.subset old)
  · exact Or.inr mine

theorem Grows.known {db db' : State} (grows : Grows db db') {writes : List Write} {id : EntryId}
    (known : id ∈ (after db writes).entryIds) : id ∈ (after db' writes).entryIds := by
  obtain ⟨entry, member, rfl⟩ := List.mem_map.mp known
  exact List.mem_map_of_mem (grows.mem_view member)

namespace Frame

variable {focus : Option RunId} {closed : Prop} {locks : List Lock} {db db' : State}

/-- The entries of a view after others committed: those it had, and foreign ones. -/
theorem mem_view (frame : Frame focus closed locks db db') (writes : List Write)
    {entry : LedgerEntry} (member : entry ∈ (after db' writes).entries) :
    entry ∈ (after db writes).entries ∨ Foreign focus closed locks db entry := by
  obtain ⟨new, same, foreign⟩ := frame.entries
  rw [after_entries, same, List.mem_append, List.mem_append] at member
  rw [after_entries, List.mem_append]
  rcases member with (old | isNew) | mine
  · exact Or.inl (Or.inl old)
  · exact Or.inr (foreign entry isNew)
  · exact Or.inl (Or.inr mine)

/-- **A locked id stays new.** -/
theorem fresh (frame : Frame focus closed locks db db') {writes : List Write} {id : EntryId}
    (locked : Locked locks (.entry id)) (fresh : id ∉ (after db writes).entryIds) :
    id ∉ (after db' writes).entryIds := by
  intro known
  obtain ⟨entry, member, rfl⟩ := List.mem_map.mp known
  rcases frame.mem_view writes member with old | foreign
  · exact fresh (List.mem_map_of_mem old)
  · exact foreign.id locked

/-- **A locked key stays unused.** -/
theorem unused (frame : Frame focus closed locks db db') {writes : List Write}
    {entry : LedgerEntry}
    (locked : ∀ key, entry.idempotencyKey = some key → Locked locks (.key entry.accountId key))
    (unused : Unused (after db writes) entry) : Unused (after db' writes) entry := by
  intro key own
  have before := unused key own
  rw [State.findKeyed, List.find?_eq_none] at before ⊢
  intro other member matched
  rcases frame.mem_view writes member with old | foreign
  · exact before other old matched
  · obtain ⟨account, keyed⟩ := of_decide_eq_true matched
    exact foreign.key key keyed (account ▸ locked key own)

/-- **Nobody refunds an entry whose guard is locked.** -/
theorem remainder_eq (frame : Frame focus closed locks db db') (writes : List Write) {id : EntryId}
    {resource : Resource} (guards : Guards focus db id resource) (locked : Locked locks resource) :
    (after db' writes).unreversedRemainder id = (after db writes).unreversedRemainder id := by
  obtain ⟨new, same, foreign⟩ := frame.entries
  have known : id ∈ db.entryIds := by
    obtain ⟨_, _, entry, member, rfl, _⟩ := guards
    exact List.mem_map_of_mem member
  have unlinked : linkedSum new id = 0 := by
    refine List.sum_eq_zero fun amount member => ?_
    obtain ⟨entry, linked, rfl⟩ := List.mem_map.mp member
    obtain ⟨isNew, link⟩ := List.mem_filter.mp linked
    exact absurd locked ((foreign entry isNew).link id resource (of_decide_eq_true link) guards)
  have later : (after db' writes).entries = db.entries ++ (new ++ inserted writes) := by
    rw [after_entries, same, List.append_assoc]
  rw [State.unreversedRemainder_append later known, linkedSum_append, unlinked, zero_add,
    State.unreversedRemainder_append (after_entries db writes) known]

end Frame

/-! ### Points -/

/-- A call, with what it draws from outside. -/
abbrev Label := Ambient × Call

/-- A void of the watched run has begun. -/
def Closed (focus : Option RunId) (log : List (Happened Label)) : Prop :=
  ∃ run amb, focus = some run ∧ Happened.began (amb, Call.voidRun run) ∈ log

/-- What a holder of locks may rely on. -/
def Rely (focus : Option RunId) (locks : List Lock) (point point' : Point State Label) : Prop :=
  point.log <+: point'.log ∧ Frame focus (Closed focus point.log) locks point.db point'.db

/-- What holds from a point on, whatever others commit while some locks are held. -/
def Always (focus : Option RunId) (locks : List Lock) (point : Point State Label)
    (P : State → Prop) : Prop :=
  ∀ point', Rely focus locks point point' → Intact point'.db → P point'.db

section

variable {focus : Option RunId} {locks more : List Lock} {point point' : Point State Label}
  {P Q : State → Prop}

theorem Closed.mono {log log' : List (Happened Label)} (longer : log <+: log')
    (closed : Closed focus log) : Closed focus log' := by
  obtain ⟨run, amb, isFocus, began⟩ := closed
  exact ⟨run, amb, isFocus, longer.subset began⟩

theorem Rely.refl (focus : Option RunId) (locks : List Lock) (point : Point State Label) :
    Rely focus locks point point := ⟨List.prefix_rfl, .refl _ _ _ _⟩

theorem Rely.trans {point'' : Point State Label} (earlier : Rely focus locks point point')
    (later : Rely focus locks point' point'') : Rely focus locks point point'' :=
  ⟨earlier.1.trans later.1, earlier.2.trans (Closed.mono earlier.1) later.2⟩

theorem Rely.anti (sub : locks ⊆ more) (rely : Rely focus more point point') :
    Rely focus locks point point' := ⟨rely.1, rely.2.anti sub⟩

theorem Always.now (always : Always focus locks point P) (intact : Intact point.db) : P point.db :=
  always point (.refl _ _ _) intact

/-- What always holds still does later, with more locks. -/
theorem Always.further (always : Always focus locks point P) (rely : Rely focus locks point point')
    (sub : locks ⊆ more) : Always focus more point' P :=
  fun later rest => always later (rely.trans (rest.anti sub))

theorem Always.mp (always : Always focus locks point P)
    (implies : ∀ db, Intact db → P db → Q db) : Always focus locks point Q :=
  fun later rest intact => implies _ intact (always later rest intact)

theorem Always.and (first : Always focus locks point P) (second : Always focus locks point Q) :
    Always focus locks point fun db => P db ∧ Q db :=
  fun later rest intact => ⟨first later rest intact, second later rest intact⟩

/-- A locked row stays as it is, in every view. -/
theorem Always.account {account : AccountId} (locked : Locked locks (.account account))
    (writes : List Write) : Always focus locks point fun db =>
      (after db writes).accounts.get? account = (after point.db writes).accounts.get? account :=
  fun _ rest _ => after_account_congr (rest.2.account locked) writes

theorem Always.hold {reservation : ReservationId} (locked : Locked locks (.hold reservation))
    (writes : List Write) : Always focus locks point fun db =>
      (after db writes).holds.get? reservation = (after point.db writes).holds.get? reservation :=
  fun _ rest _ => after_hold_congr (rest.2.hold locked) writes

end

end Meter.Postgres
