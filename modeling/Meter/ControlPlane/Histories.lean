/-
**What becomes of a row, whatever the service does.**

* `Updated` — one row comes from another by the updates that the repositories make.
* `Db.Continues` — **no row is ever deleted, every old row was at most updated, and every new one was
  inserted first** (`continues_exec`). It holds of every statement, so of every program.
* `history` — the discipline that allows everything. A condition that the updates keep holds of a row
  for good (`Db.Continues.kept`), and one that the inserts establish holds of all rows
  (`Db.Continues.invariant`).
* `notification_lifecycle` — a notification that was acknowledged once has a time of acknowledgement for
  good, which is set only together with the status; a status other than `unread` comes with the time of
  reading, and nothing else of it changes.
-/

import Meter.ControlPlane.Confinement

namespace Meter.ControlPlane

open Meter.Lib Meter.Lib.Discipline

/-! ### Rows -/

section

variable {table : TableName} {row row' row'' : Row table}

/-- The repositories' updates lead from one row to the other. -/
def Updated (row row' : Row table) : Prop :=
  Relation.ReflTransGen (fun before after => ∃ change : Change table, after = change.apply before)
    row row'

theorem Updated.refl (row : Row table) : Updated row row := Relation.ReflTransGen.refl

theorem Updated.trans (first : Updated row row') (second : Updated row' row'') : Updated row row'' :=
  Relation.ReflTransGen.trans first second

theorem updated_apply (change : Change table) (row : Row table) : Updated row (change.apply row) :=
  .single ⟨change, rfl⟩

/-- **What every update keeps holds for good.** -/
theorem Updated.kept {P : Row table → Prop}
    (keeps : ∀ (change : Change table) row, P row → P (change.apply row))
    (updated : Updated row row') (holds : P row) : P row' := by
  induction updated with
  | refl => exact holds
  | tail _ step ih =>
    obtain ⟨change, rfl⟩ := step
    exact keeps change _ ih

end

/-- A row was inserted, and updated since or not. -/
def Inserted {table : TableName} (row : Row table) : Prop :=
  ∃ (values : Values table) (id : Uuid) (createdAt : OffsetDateTime),
    Updated (values.row id createdAt) row

/-! ### Databases -/

namespace Db

variable {db db' db'' : Db} {table : TableName}

/-- **No row is deleted or moved**, old ones are at most updated, and new ones were inserted. -/
structure Continues (db db' : Db) : Prop where
  kept : ∀ {table : TableName} {i : Nat} {row : Row table}, (db table)[i]? = some row →
    ∃ row', (db' table)[i]? = some row' ∧ Updated row row'
  made : ∀ {table : TableName} {i : Nat} {row : Row table}, (db' table)[i]? = some row →
    (db table)[i]? = none → Inserted row

theorem Continues.refl (db : Db) : Continues db db where
  kept stored := ⟨_, stored, .refl _⟩
  made stored absent := by
    rw [absent] at stored
    cases stored

theorem Continues.trans (first : Continues db db') (second : Continues db' db'') :
    Continues db db'' where
  kept stored := by
    obtain ⟨row', stored', updated⟩ := first.kept stored
    obtain ⟨row'', stored'', updated'⟩ := second.kept stored'
    exact ⟨row'', stored'', updated.trans updated'⟩
  made := by
    intro table i row stored absent
    cases before : (db' table)[i]? with
    | none => exact second.made stored before
    | some row' =>
      obtain ⟨values, id, createdAt, updated⟩ := first.made before absent
      obtain ⟨row'', stored'', updated'⟩ := second.kept before
      cases stored.symm.trans stored''
      exact ⟨values, id, createdAt, updated.trans updated'⟩

/-- What becomes of a row. -/
theorem Continues.row (continues : Continues db db') {row : Row table} (stored : row ∈ db table) :
    ∃ row' ∈ db' table, Updated row row' := by
  obtain ⟨i, found⟩ := List.mem_iff_getElem?.mp stored
  obtain ⟨row', found', updated⟩ := continues.kept found
  exact ⟨row', List.mem_of_getElem? found', updated⟩

/-- Where a row comes from. -/
theorem Continues.origin (continues : Continues db db') {row' : Row table} (stored : row' ∈ db' table) :
    (∃ row ∈ db table, Updated row row') ∨ Inserted row' := by
  obtain ⟨i, found⟩ := List.mem_iff_getElem?.mp stored
  cases before : (db table)[i]? with
  | none => exact .inr (continues.made found before)
  | some row =>
    obtain ⟨row'', found', updated⟩ := continues.kept before
    cases found.symm.trans found'
    exact .inl ⟨row, List.mem_of_getElem? before, updated⟩

/-- **What every insert establishes and every update keeps holds of all rows.** -/
theorem Continues.invariant {P : Row table → Prop}
    (made : ∀ (values : Values table) id createdAt, P (values.row id createdAt))
    (keeps : ∀ (change : Change table) row, P row → P (change.apply row))
    (continues : Continues db db') (before : ∀ row ∈ db table, P row) : ∀ row ∈ db' table, P row := by
  intro row' stored
  rcases continues.origin stored with ⟨row, old, updated⟩ | ⟨values, id, createdAt, updated⟩
  · exact updated.kept keeps (before row old)
  · exact updated.kept keeps (made values id createdAt)

theorem continues_insert (db : Db) {row : Row table} (inserted : Inserted row) :
    Continues db (db.insert row) where
  kept := by
    intro other i old stored
    by_cases same : other = table
    · subst same
      refine ⟨old, ?_, .refl old⟩
      rw [rows_insert_self, List.getElem?_append_left (List.getElem?_eq_some_iff.mp stored).1]
      exact stored
    · exact ⟨old, by rw [rows_insert_ne db row same]; exact stored, .refl old⟩
  made := by
    intro other i new stored absent
    by_cases same : other = table
    · subst same
      rw [rows_insert_self, List.getElem?_append_right (List.getElem?_eq_none_iff.mp absent)] at stored
      rw [List.mem_singleton.mp (List.mem_of_getElem? stored)]
      exact inserted
    · rw [rows_insert_ne db row same, absent] at stored
      cases stored

theorem continues_update (db : Db) (keep : Row table → Bool) (change : Change table) :
    Continues db (db.update keep change) where
  kept := by
    intro other i old stored
    by_cases same : other = table
    · subst same
      refine ⟨if keep old then change.apply old else old, ?_, ?_⟩
      · rw [rows_update_self, List.getElem?_map, stored]
        rfl
      · split
        · exact updated_apply change old
        · exact .refl old
    · exact ⟨old, by rw [rows_update_ne db keep change same]; exact stored, .refl old⟩
  made := by
    intro other i new stored absent
    by_cases same : other = table
    · subst same
      rw [rows_update_self, List.getElem?_map, absent] at stored
      cases stored
    · rw [rows_update_ne db keep change same, absent] at stored
      cases stored

end Db

/-! ### Everything that the service can do -/

/-- Rows are kept, and so are the constraints of the schema. -/
structure World.Continues (world world' : World) : Prop where
  rows : world.db.Continues world'.db
  valid : world.db.Valid → world'.db.Valid

/-- **What a statement does to the rows.** -/
theorem continues_exec (env : Env) (nature : Nature) {α : Type} (statement : Stmt α) (world : World) :
    world.Continues (exec env nature statement world).2 := by
  have wrote := exec_wrote env nature statement world
  generalize (exec env nature statement world).2 = world' at wrote
  cases wrote with
  | quiet posts => exact ⟨.refl _, id⟩
  | @inserted table values row made accepted performed =>
    subst made
    exact ⟨Db.continues_insert _ ⟨values, _, _, .refl _⟩, fun valid => valid.insert accepted⟩
  | @updated table keep change =>
    exact ⟨Db.continues_update _ keep change, fun valid => valid.congr (Db.cores_update _ _ _)⟩

/-- **The discipline that allows everything.** -/
def history (env : Env) (nature : Nature) : Discipline (machine env nature) where
  Allowed _ _ := True
  Later := World.Continues
  refl _ := ⟨.refl _, id⟩
  trans first second := ⟨first.rows.trans second.rows, second.valid ∘ first.valid⟩
  later _ := continues_exec env nature _ _

/-- **Whatever runs, the rows are kept.** -/
theorem continues_run (env : Env) (nature : Nature) {α : Type} (program : Prog Stmt α) (world : World) :
    world.Continues ((machine env nature).run program world).2 :=
  (abides_of_allowed (D := history env nature) (fun _ _ => trivial) program Eq world).run.2

/-! ### Queries, whatever else is done -/

section

variable {env : Env} {nature : Nature} {world : World} {table : TableName}

theorem answers_query {α : Type} {statement : Stmt (Option α)} {Q : α → World → Prop}
    (answers : ∀ w w' value, world.Continues w → (exec env nature statement w).2.Continues w' →
      (exec env nature statement w).1 = some value → Q value w') :
    (history env nature).Succeeds (history env nature).Later (query statement) Q world := by
  refine fun w later => ⟨trivial, fun w' later' value same => answers w w' value later later' ?_⟩
  have answered : orRepoError (exec env nature statement w).1 = .ok value := same
  cases answer : (exec env nature statement w).1 with
  | none =>
    rw [answer] at answered
    cases answered
  | some found =>
    rw [answer] at answered
    cases answered
    rfl

theorem answers_column {α : Type} (value : Option α) :
    (history env nature).Succeeds (history env nature).Later (column value) (fun _ _ => True) world :=
  fun _ _ _ _ => trivial

theorem answers_call {α : Type} (statement : Stmt α) :
    (history env nature).Succeeds (history env nature).Later (call statement) (fun _ _ => True) world :=
  fun _ _ => ⟨trivial, fun _ _ _ _ => trivial⟩

/-- Rows that were read were stored. -/
theorem answers_select {keep : Row table → Bool} :
    (history env nature).Succeeds (history env nature).Later (query (.select table keep))
      (fun rows _ => ∀ row ∈ rows, keep row = true ∧ ∃ w, world.Continues w ∧ row ∈ w.db table)
      world := by
  refine answers_query fun w w' rows later later' answer row member => ?_
  have read : Draw.read _ _ = some rows := answer
  unfold Draw.read at read
  split at read
  · cases read
    obtain ⟨stored, kept⟩ := List.mem_filter.mp (((nature w.draws).arrange_perm _).mem_iff.mp member)
    exact ⟨kept, w, later, stored⟩
  · cases read

/-- A row that was inserted was stored. -/
theorem answers_insertInto {values : Values table} :
    (history env nature).Succeeds (history env nature).Later (insertInto table values)
      (fun row w => ∃ before : World, row ∈ before.db table ∧ before.Continues w ∧
        ∃ id createdAt, row = values.row id createdAt) world := by
  refine answers_query fun w w' row later later' answer => ?_
  dsimp only [exec] at answer later'
  unfold Draw.write at answer later'
  split at answer
  · rename_i accepted
    rw [if_pos accepted] at later'
    split at answer
    · rename_i performed
      rw [performed] at later'
      cases answer
      refine ⟨_, ?_, later', _, _, rfl⟩
      show _ ∈ (w.db.insert _) table
      rw [Db.rows_insert_self]
      exact List.mem_append_right _ List.mem_cons_self
    · cases answer
    · cases answer
  · cases answer

/-- Rows that were updated were stored. -/
theorem answers_update {keep : Row table → Bool} {change : Change table} :
    (history env nature).Succeeds (history env nature).Later (query (.update table keep change))
      (fun rows w => ∀ row ∈ rows, (∃ before : World, row ∈ before.db table ∧ before.Continues w) ∧
        ∃ old, keep old = true ∧ row = change.apply old) world := by
  refine answers_query fun w w' rows later later' answer row member => ?_
  dsimp only [exec] at answer later'
  unfold Draw.write at answer later'
  split at answer
  · rename_i performed
    rw [performed] at later'
    cases answer
    obtain ⟨old, chosen, rfl⟩ := List.mem_map.mp (((nature w.draws).arrange_perm _).mem_iff.mp member)
    obtain ⟨stored, kept⟩ := List.mem_filter.mp chosen
    refine ⟨⟨_, ?_, later'⟩, old, kept, rfl⟩
    show _ ∈ (w.db.update keep change) table
    rw [Db.rows_update_self]
    exact List.mem_map.mpr ⟨old, stored, if_pos kept⟩
  · cases answer
  · cases answer

end

/-! ### Notifications -/

namespace NotificationRow

/-- The status and the two times of a notification agree. -/
structure Consistent (row : NotificationRow) : Prop where
  status : row.status ∈ ["unread", "read", "acked"]
  unread : row.status = "unread" ↔ row.readAt = none
  acked : row.status = "acked" → row.ackedAt.isSome = true
  read : row.ackedAt.isSome = true → row.readAt.isSome = true

/-- What a notification says, which is everything but how it was received. -/
def content (row : NotificationRow) :
    Uuid × OrgId × String × String × String × String × Json × OffsetDateTime :=
  (row.id, row.orgId, row.type, row.severity, row.title, row.body, row.data, row.createdAt)

/-- Between two states of a row it was acknowledged, at the time that the later one has. -/
def Acknowledged (row row' : NotificationRow) : Prop :=
  ∃ acked : NotificationRow, @Updated .notifications row acked ∧
    @Updated .notifications acked row' ∧ acked.status = "acked" ∧ acked.ackedAt = row'.ackedAt

/-- **A notification later**: it says the same, what was received is not unread again, and the time of
acknowledgement is the same unless the notification was acknowledged again. -/
structure Advances (row row' : NotificationRow) : Prop where
  content : row'.content = row.content
  read : row.status ≠ "unread" → row'.status ≠ "unread"
  readAt : row.readAt.isSome = true → row'.readAt.isSome = true
  ackedAt : row.ackedAt.isSome = true → row'.ackedAt.isSome = true
  acknowledged : row'.ackedAt = row.ackedAt ∨ Acknowledged row row'

theorem consistent_row (values : Values .notifications) (id : Uuid) (createdAt : OffsetDateTime) :
    Consistent (values.row id createdAt) :=
  ⟨by simp [Values.row], by simp [Values.row], by simp [Values.row], by simp [Values.row]⟩

theorem consistent_apply (change : Change .notifications) (row : NotificationRow) :
    Consistent (change.apply row) := by
  cases change with
  | read readAt =>
    exact ⟨by simp [Change.apply], by simp [Change.apply], by simp [Change.apply], fun _ => rfl⟩
  | acked now => exact ⟨by simp [Change.apply], by simp [Change.apply], fun _ => rfl, fun _ => rfl⟩

theorem Advances.refl (row : NotificationRow) : Advances row row :=
  ⟨rfl, fun read => read, fun readAt => readAt, fun ackedAt => ackedAt, Or.inl rfl⟩

/-- One more update. Marking as read keeps the time of acknowledgement; acknowledging sets it. -/
theorem Advances.apply {row row' : NotificationRow} (advances : Advances row row')
    (updated : @Updated .notifications row row') (change : Change .notifications) :
    Advances row (change.apply row') := by
  have later := updated_apply change row'
  cases change with
  | read readAt =>
    refine ⟨advances.content, fun _ => by simp [Change.apply], fun _ => rfl, advances.ackedAt, ?_⟩
    rcases advances.acknowledged with same | ⟨acked, before, after, status, time⟩
    · exact Or.inl same
    · exact Or.inr ⟨acked, before, after.trans later, status, time⟩
  | acked now =>
    exact ⟨advances.content, fun _ => by simp [Change.apply], fun _ => rfl, fun _ => rfl,
      Or.inr ⟨_, updated.trans later, .refl _, rfl, rfl⟩⟩

theorem advances_of_updated {row row' : NotificationRow}
    (updated : @Updated .notifications row row') : Advances row row' := by
  induction updated with
  | refl => exact .refl row
  | tail before step ih =>
    obtain ⟨change, rfl⟩ := step
    exact ih.apply before change

end NotificationRow

/-- **The life of a notification**, whatever the service does. -/
theorem notification_lifecycle (env : Env) (nature : Nature) {α : Type} (program : Prog Stmt α)
    (world : World) (consistent : ∀ row ∈ world.db .notifications, NotificationRow.Consistent row) :
    let later := ((machine env nature).run program world).2
    (∀ row ∈ later.db .notifications, NotificationRow.Consistent row) ∧
      ∀ (i : Nat) row, (world.db .notifications)[i]? = some row →
        ∃ row', (later.db .notifications)[i]? = some row' ∧ NotificationRow.Advances row row' := by
  have continues := (continues_run env nature program world).rows
  refine ⟨?_, fun i row stored => ?_⟩
  · exact continues.invariant (P := NotificationRow.Consistent) NotificationRow.consistent_row
      (fun change row _ => NotificationRow.consistent_apply change row) consistent
  · obtain ⟨row', found, updated⟩ := continues.kept stored
    exact ⟨row', found, NotificationRow.advances_of_updated updated⟩

/-- An organization with one notification. -/
def notified : World :=
  let row : Row .notifications :=
    Values.row ⟨7⟩ 0 ⟨orgA, "budget.alert", "warning", "Budget", none, none⟩
  { sampleStart with db := sampleStart.db.insert row }

/-- It is acknowledged, and then marked as read. -/
def acknowledging : Prog Stmt (Except AppError Notification) := ExceptT.run do
  let now ← call .now
  let _ ← ackNotification plainEnv (⟨7⟩ : Uuid).toString none now
  markNotificationRead plainEnv (⟨7⟩ : Uuid).toString none now

theorem notification_lifecycle_acknowledging :
    let later := ((machine plainEnv smoothly).run acknowledging notified).2
    (∀ row ∈ later.db .notifications, NotificationRow.Consistent row) ∧
      (later.db .notifications).map (fun row => (row.status, row.ackedAt.isSome)) = [("read", true)] :=
  ⟨(notification_lifecycle plainEnv smoothly acknowledging notified fun row member => by
    rw [List.mem_singleton.mp member]
    exact NotificationRow.consistent_row ⟨orgA, "budget.alert", "warning", "Budget", none, none⟩ _ _).1,
    by decide +kernel⟩

end Meter.ControlPlane
