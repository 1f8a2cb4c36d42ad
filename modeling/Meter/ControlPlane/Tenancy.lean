/-
**What a tenant may do to the database.**

* `Grows` — one database comes from another by updates and by new rows of one organization.
* `Allowed` — the statements that keep to an organization: they read and update only its rows, and
  insert only rows of it, a key only with scope `org`.
* `Later` — what such statements lead to. The rows of all others stay the same (`outside`), and
  everything that was inserted or updated belongs to the organization (`touched`).
* `Tenant.discipline` — the two of them together. If it is strict, a budget query must be for an account of
  the organization too, and generated ids and tokens are new.
-/

import Meter.ControlPlane.Routes

namespace Meter.ControlPlane

open Meter.Lib Meter.Lib.Discipline

/-! ### Identity columns -/

namespace Db

variable {db db' : Db} {A : OrgId} {table : TableName}

/-- Whose something is depends on the webhooks only. -/
theorem owns_congr (same : db'.cores .webhooks = db.cores .webhooks) (row : Core) :
    db'.owns A row = db.owns A row := by
  unfold owns
  rw [same]

theorem owns_org {row : Core} {org : OrgId} (holder : row.holder = .org org) :
    db.owns A row = decide (org = A) := by
  unfold owns
  rw [holder]

/-- Only deliveries refer to a webhook. -/
theorem holder_webhook {row : Row table} {hook : Uuid}
    (holder : (core table row).holder = .webhook hook) : table = .webhookDeliveries := by
  cases table with
  | webhookDeliveries => rfl
  | _ => cases holder

theorem cores_insert_self (db : Db) (row : Row table) :
    (db.insert row).cores table = db.cores table ++ [core table row] := by
  unfold cores insert
  rw [Function.update_self, List.map_append, List.map_singleton]

theorem cores_insert_ne (db : Db) (row : Row table) {other : TableName} (different : other ≠ table) :
    (db.insert row).cores other = db.cores other := by
  unfold cores insert
  rw [Function.update_of_ne different]

theorem subset_insert (db : Db) (row : Row table) (other : TableName) :
    db.cores other ⊆ (db.insert row).cores other := by
  intro old member
  by_cases same : other = table
  · subst same
    rw [cores_insert_self]
    exact List.mem_append_left _ member
  · rwa [cores_insert_ne db row same]

/-- An update changes no identity column. -/
theorem cores_update (db : Db) (keep : Row table → Bool) (change : Change table) :
    (db.update keep change).cores = db.cores := by
  funext other
  by_cases same : other = table
  · subst same
    unfold cores update
    rw [Function.update_self, List.map_map]
    refine List.map_congr_left fun row _ => ?_
    show core _ (if keep row then change.apply row else row) = core _ row
    split
    · exact core_apply change row
    · rfl
  · unfold cores update
    rw [Function.update_of_ne same]

/-! ### Growth -/

/-- Updates, and new rows of an organization, its keys with scope `org`. -/
def Grows (A : OrgId) (db db' : Db) : Prop :=
  ∀ table, ∃ added, db'.cores table = db.cores table ++ added ∧ ∀ row ∈ added,
    db'.owns A row = true ∧ ∀ hash scope, row.key = some (hash, scope) → scope = Scope.org.text

theorem Grows.refl (db : Db) : Grows A db db := fun _ => ⟨[], (List.append_nil _).symm, nofun⟩

theorem Grows.mem (grows : Grows A db db') {row : Core} (member : row ∈ db.cores table) :
    row ∈ db'.cores table := by
  obtain ⟨added, cores, _⟩ := grows table
  rw [cores]
  exact List.mem_append_left _ member

theorem owns_of_subset {row : Core} (subset : db.cores .webhooks ⊆ db'.cores .webhooks)
    (owned : db.owns A row = true) : db'.owns A row = true := by
  unfold owns at owned ⊢
  split at owned
  · exact owned
  · obtain ⟨hook, member, found⟩ := List.any_eq_true.mp owned
    exact List.any_eq_true.mpr ⟨hook, subset member, found⟩

/-- What belongs to the organization still does. -/
theorem Grows.owns (grows : Grows A db db') {row : Core} (owned : db.owns A row = true) :
    db'.owns A row = true := owns_of_subset (fun _ => grows.mem) owned

theorem Grows.trans {db'' : Db} (first : Grows A db db') (second : Grows A db' db'') :
    Grows A db db'' := by
  intro table
  obtain ⟨added, cores, owned⟩ := first table
  obtain ⟨added', cores', owned'⟩ := second table
  refine ⟨added ++ added', by rw [cores', cores, List.append_assoc], fun row member => ?_⟩
  rcases List.mem_append.mp member with earlier | later
  · exact ⟨second.owns (owned row earlier).1, (owned row earlier).2⟩
  · exact owned' row later

/-! ### Constraints -/

/-- The constraints are about identity columns only. -/
theorem valid_iff {db : Db} : db.Valid ↔ (∀ table, ((db.cores table).map Core.id).Nodup) ∧
    ((db.cores .apiKeys).map fun row => row.key.map Prod.fst).Nodup ∧
    ∀ row ∈ db.cores .webhookDeliveries, ∃ hook ∈ db.cores .webhooks,
      row.holder = .webhook hook.id := by
  have hashes : ((db.cores .apiKeys).map fun row => row.key.map Prod.fst) = db.hashes.map some := by
    rw [cores, Db.hashes, List.map_map, List.map_map]
    rfl
  rw [hashes, List.nodup_map_iff (Option.some_injective _)]
  refine ⟨fun valid => ⟨valid.ids, valid.hashes, fun row member => ?_⟩,
    fun ⟨ids, hashes, hooks⟩ => ⟨ids, hashes, fun delivery member => ?_⟩⟩
  · obtain ⟨delivery, stored, rfl⟩ := List.mem_map.mp member
    obtain ⟨hook, found, same⟩ := List.mem_map.mp (valid.hooks delivery stored)
    exact ⟨core .webhooks hook, List.mem_map_of_mem found, congrArg Holder.webhook same.symm⟩
  · obtain ⟨hook, found, same⟩ := hooks (core .webhookDeliveries delivery) (List.mem_map_of_mem member)
    obtain ⟨row, stored, rfl⟩ := List.mem_map.mp found
    exact List.mem_map.mpr ⟨row, stored, (Holder.webhook.inj same).symm⟩

theorem Valid.congr (valid : db.Valid) (same : db'.cores = db.cores) : db'.Valid := by
  rw [valid_iff] at valid ⊢
  rwa [same]

/-- Two rows of one table with the same id have the same identity columns. -/
theorem Valid.core_of_id (valid : db.Valid) {row row' : Core} (member : row ∈ db.cores table)
    (member' : row' ∈ db.cores table) (same : row.id = row'.id) : row = row' :=
  List.inj_on_of_nodup_map (valid.ids table) member member' same

/-- Two keys with the same token are one. -/
theorem Valid.core_of_hash (valid : db.Valid) {row row' : Core} (member : row ∈ db.cores .apiKeys)
    (member' : row' ∈ db.cores .apiKeys) (same : row.key.map Prod.fst = row'.key.map Prod.fst) :
    row = row' :=
  List.inj_on_of_nodup_map (valid_iff.mp valid).2.1 member member' same

theorem mem_hashes {hash : String} : hash ∈ db.hashes ↔
    ∃ row ∈ db.cores .apiKeys, ∃ scope, row.key = some (hash, scope) := by
  constructor
  · intro member
    obtain ⟨row, stored, rfl⟩ := List.mem_map.mp member
    exact ⟨core .apiKeys row, List.mem_map_of_mem stored, row.scope, rfl⟩
  · rintro ⟨_, member, scope, key⟩
    obtain ⟨row, stored, rfl⟩ := List.mem_map.mp member
    cases key
    exact List.mem_map_of_mem stored

/-- An accepted row has a new id. -/
theorem accepts_id {row : Row table} (accepted : db.accepts row = true) {other : Core}
    (member : other ∈ db.cores table) : other.id ≠ (core table row).id := by
  unfold accepts at accepted
  simp only [decide_eq_true_eq, List.all_eq_true, ne_eq] at accepted
  exact accepted.1 other member

theorem accepts_admits {row : Row table} (accepted : db.accepts row = true) :
    db.admits table row = true := by
  unfold accepts at accepted
  simp only [decide_eq_true_eq] at accepted
  exact accepted.2

/-- **The constraints hold again after an insert.** -/
theorem Valid.insert (valid : db.Valid) {row : Row table} (accepted : db.accepts row = true) :
    (db.insert row).Valid := by
  obtain ⟨ids, hashes, hooks⟩ := valid_iff.mp valid
  refine valid_iff.mpr ⟨fun other => ?_, ?_, fun delivery member => ?_⟩
  · by_cases same : other = table
    · subst same
      rw [cores_insert_self, List.map_append, List.map_singleton, List.nodup_append]
      refine ⟨ids other, List.nodup_singleton _, fun id member new first => ?_⟩
      obtain ⟨old, stored, rfl⟩ := List.mem_map.mp member
      rw [List.mem_singleton.mp first]
      exact accepts_id accepted stored
    · rw [cores_insert_ne db row same]
      exact ids other
  · by_cases same : TableName.apiKeys = table
    · subst same
      have admitted := accepts_admits accepted
      unfold admits at admitted
      simp only [decide_eq_true_eq, List.all_eq_true, ne_eq] at admitted
      rw [cores_insert_self, List.map_append, List.map_singleton, List.nodup_append]
      refine ⟨hashes, List.nodup_singleton _, fun hash member new first => ?_⟩
      obtain ⟨old, stored, rfl⟩ := List.mem_map.mp member
      obtain ⟨other, found, rfl⟩ := List.mem_map.mp stored
      rw [List.mem_singleton.mp first]
      exact fun same => admitted.2 other found (Option.some_injective _ same)
    · rw [cores_insert_ne db row same]
      exact hashes
  · by_cases same : TableName.webhookDeliveries = table
    · subst same
      rw [cores_insert_self] at member
      rcases List.mem_append.mp member with old | new
      · obtain ⟨hook, found, holder⟩ := hooks delivery old
        exact ⟨hook, subset_insert db row _ found, holder⟩
      · have admitted := accepts_admits accepted
        unfold admits at admitted
        obtain ⟨hook, found, id⟩ := List.any_eq_true.mp admitted
        rw [List.mem_singleton.mp new]
        exact ⟨core .webhooks hook, subset_insert db row _ (List.mem_map_of_mem found),
          congrArg Holder.webhook (of_decide_eq_true id).symm⟩
    · rw [cores_insert_ne db row same] at member
      obtain ⟨hook, found, holder⟩ := hooks delivery member
      exact ⟨hook, subset_insert db row _ found, holder⟩

/-- An insert does not change whose an existing row is. -/
theorem Valid.owns_insert (valid : db.Valid) {row : Row table} (accepted : db.accepts row = true)
    {other : TableName} {old : Core} (member : old ∈ db.cores other) :
    (db.insert row).owns A old = db.owns A old := by
  by_cases hooked : TableName.webhooks = table
  · subst hooked
    obtain ⟨stored, found, rfl⟩ := List.mem_map.mp member
    unfold owns
    split
    · rfl
    · rename_i hook holder
      cases holder_webhook holder
      obtain ⟨first, present, same⟩ := (valid_iff.mp valid).2.2 _ member
      rw [cores_insert_self, List.any_append, List.any_cons, List.any_nil, Bool.or_false]
      have new : (core .webhooks row).id ≠ hook := by
        rw [holder] at same
        rw [Holder.webhook.inj same]
        exact (accepts_id accepted present).symm
      rw [decide_eq_false (fun both => new both.1), Bool.or_false]
  · exact owns_congr (cores_insert_ne db row hooked) old

/-! ### The rows of an organization, and of all others -/

section

variable {α : Type} {p : α → Bool} {f : α → α} {rows : List α}

/-- Rows that change are all left out. -/
theorem filter_map_of_fixed (keeps : ∀ row ∈ rows, p (f row) = p row)
    (fixed : ∀ row ∈ rows, p row = true → f row = row) : (rows.map f).filter p = rows.filter p := by
  have same : rows.filter (p ∘ f) = rows.filter p := List.filter_congr keeps
  rw [List.filter_map, same]
  refine (List.map_congr_left fun row member => ?_).trans (List.map_id _)
  obtain ⟨stored, chosen⟩ := List.mem_filter.mp member
  exact fixed row stored chosen

theorem filter_map_of_keeps (keeps : ∀ row ∈ rows, p (f row) = p row) :
    (rows.map f).filter p = (rows.filter p).map f := by
  have same : rows.filter (p ∘ f) = rows.filter p := List.filter_congr keeps
  rw [List.filter_map, same]

end

/-- What keeps to an organization's rows keeps to its part of the table. -/
theorem filter_inside {keep : Row table → Bool}
    (owned : ∀ row ∈ db table, keep row = true → db.owns A (core table row) = true) :
    (db table).filter keep = (db.inside A table).filter keep := by
  rw [inside, List.filter_filter]
  refine List.filter_congr fun row member => ?_
  by_cases kept : keep row = true
  · rw [kept, owned row member kept]
    rfl
  · rw [Bool.eq_false_of_not_eq_true kept]
    rfl

section

variable {row : Row table} {keep : Row table → Bool} {change : Change table}

/-- **An organization's new row is a new row of it.** -/
theorem grows_insert (owned : db.owns A (core table row) = true)
    (minted : ∀ hash scope, (core table row).key = some (hash, scope) → scope = Scope.org.text) :
    Grows A db (db.insert row) := by
  intro other
  by_cases same : other = table
  · subst same
    refine ⟨[core other row], cores_insert_self db row, fun new member => ?_⟩
    rw [List.mem_singleton.mp member]
    exact ⟨owns_of_subset (subset_insert db row _) owned, minted⟩
  · exact ⟨[], by rw [cores_insert_ne db row same, List.append_nil], nofun⟩

theorem grows_update (keep : Row table → Bool) (change : Change table) :
    Grows A db (db.update keep change) := by
  intro other
  refine ⟨[], ?_, nofun⟩
  rw [cores_update, List.append_nil]

theorem rows_insert_self (db : Db) (row : Row table) : (db.insert row) table = db table ++ [row] :=
  Function.update_self ..

theorem rows_insert_ne (db : Db) (row : Row table) {other : TableName} (different : other ≠ table) :
    (db.insert row) other = db other := Function.update_of_ne different ..

/-- The old rows are whose they were. -/
theorem filter_owns_insert (valid : db.Valid) (accepted : db.accepts row = true) (other : TableName)
    (choose : Bool → Bool) :
    ((db other).filter fun old => choose ((db.insert row).owns A (core other old))) =
      (db other).filter fun old => choose (db.owns A (core other old)) :=
  List.filter_congr fun old member => by
    rw [valid.owns_insert accepted (List.mem_map_of_mem member)]

theorem inside_insert (valid : db.Valid) (accepted : db.accepts row = true)
    (owned : db.owns A (core table row) = true) :
    (db.insert row).inside A = Function.update (db.inside A) table (db.inside A table ++ [row]) := by
  funext other
  have old := filter_owns_insert (A := A) valid accepted other id
  by_cases same : other = table
  · subst same
    rw [Function.update_self, inside, rows_insert_self, List.filter_append]
    refine congrArg₂ _ old (List.filter_eq_self.mpr fun new member => ?_)
    rw [List.mem_singleton.mp member]
    exact owns_of_subset (subset_insert db row _) owned
  · rw [Function.update_of_ne same, inside, rows_insert_ne db row same]
    exact old

/-- **An insert of an organization leaves the rows of all others alone.** -/
theorem outside_insert (valid : db.Valid) (accepted : db.accepts row = true)
    (owned : db.owns A (core table row) = true) :
    (db.insert row).outside A = db.outside A := by
  funext other
  have old := filter_owns_insert (A := A) valid accepted other not
  by_cases same : other = table
  · subst same
    rw [outside, rows_insert_self, List.filter_append]
    refine (congrArg₂ _ old (List.filter_eq_nil_iff.mpr fun new member => ?_)).trans
      (List.append_nil _)
    rw [List.mem_singleton.mp member, owns_of_subset (subset_insert db row _) owned]
    decide
  · rw [outside, rows_insert_ne db row same]
    exact old

theorem rows_update_self (db : Db) (keep : Row table → Bool) (change : Change table) :
    (db.update keep change) table =
      (db table).map fun row => if keep row then change.apply row else row := Function.update_self ..

theorem rows_update_ne (db : Db) (keep : Row table → Bool) (change : Change table)
    {other : TableName} (different : other ≠ table) :
    (db.update keep change) other = db other := Function.update_of_ne different ..

/-- An update does not change whose a row is. -/
theorem owns_update (db : Db) (keep : Row table → Bool) (change : Change table) (row : Core) :
    (db.update keep change).owns A row = db.owns A row :=
  owns_congr (congrFun (cores_update db keep change) _) row

theorem core_ite (keep : Bool) (change : Change table) (row : Row table) :
    core table (if keep then change.apply row else row) = core table row := by
  split
  · exact core_apply change row
  · rfl

theorem inside_update (db : Db) (keep : Row table → Bool) (change : Change table) :
    (db.update keep change).inside A = Function.update (db.inside A) table
      ((db.inside A table).map fun row => if keep row then change.apply row else row) := by
  funext other
  simp only [inside, owns_update]
  by_cases same : other = table
  · subst same
    rw [Function.update_self, rows_update_self]
    exact filter_map_of_keeps fun row _ => by rw [core_ite]
  · rw [Function.update_of_ne same, rows_update_ne db keep change same]
    rfl

/-- **An update of an organization's rows leaves the rows of all others alone.** -/
theorem outside_update (owned : ∀ row ∈ db table, keep row = true → db.owns A (core table row) = true)
    (change : Change table) : (db.update keep change).outside A = db.outside A := by
  funext other
  simp only [outside, owns_update]
  by_cases same : other = table
  · subst same
    rw [rows_update_self]
    refine filter_map_of_fixed (fun row _ => by rw [core_ite]) fun row member foreign => ?_
    refine if_neg fun kept => ?_
    rw [owned row member kept] at foreign
    cases foreign
  · rw [rows_update_ne db keep change same]

end

end Db

/-! ### What a statement can do -/

/-- **What a statement does to the world**: nothing but to be made and to be posted, or one write. -/
inductive Wrote (nature : Nature) (world : World) : {α : Type} → Stmt α → World → Prop
  | quiet {α : Type} {statement : Stmt α} (posts : List Post) :
      Wrote nature world statement { world.next with posts }
  | inserted {table : TableName} {values : Values table} {row : Row table} :
      row = values.row (nature world.draws).id (nature world.draws).createdAt →
      world.db.accepts row = true → (nature world.draws).fate ≠ .refused → Wrote nature world (.insert table values)
        { world.next with
          db := world.db.insert row
          touched := world.touched ++ [⟨table, core table row⟩] }
  | updated {table : TableName} {keep : Row table → Bool} {change : Change table} :
      Wrote nature world (.update table keep change)
        { world.next with
          db := world.db.update keep change
          touched := world.touched ++
            (((world.db table).filter keep).map change.apply).map fun row => ⟨table, core table row⟩ }

theorem Wrote.write {nature : Nature} {world before after : World} {α β : Type} {statement : Stmt β}
    (draw : Draw) (answer : α) (refused : Wrote nature world statement before)
    (performed : draw.fate ≠ .refused → Wrote nature world statement after) :
    Wrote nature world statement (draw.write answer before after).2 := by
  unfold Draw.write
  split
  all_goals rename_i fate
  · exact performed (by rw [fate]; decide)
  · exact refused
  · exact performed (by rw [fate]; decide)

theorem exec_wrote (env : Env) (nature : Nature) {α : Type} (statement : Stmt α) (world : World) :
    Wrote nature world statement (exec env nature statement world).2 := by
  cases statement with
  | insert table values =>
    dsimp only [exec]
    split
    · rename_i accepted
      exact .write _ _ (.quiet world.posts) (.inserted rfl accepted)
    · exact .quiet world.posts
  | update table keep change => exact .write _ _ (.quiet world.posts) fun _ => .updated
  | post post => exact .quiet _
  | _ => exact .quiet world.posts

/-! ### The discipline -/

/-- An account of the engine belongs to an organization. -/
def OwnsAccount (A : OrgId) (ledger : Ledger.State) (account : AccountId) : Prop :=
  ∃ row, ledger.accounts.get? account = some row ∧ row.account.orgId = A

/-- An account belongs to an organization, from now on. -/
def World.Owns (world : World) (A : OrgId) (account : AccountId) : Prop :=
  ∀ n, world.draws ≤ n → OwnsAccount A (world.engine n) account

/-- The hash of the `n`-th random token. -/
def tokenHash (env : Env) (nature : Nature) (n : Nat) : String :=
  env.hashToken ("mk_" ++ (nature n).random)

/-- Generated ids, as far as they are used, and tokens do not repeat. -/
structure Distinct (env : Env) (nature : Nature) : Prop where
  ids : ∀ m n, (nature m).fate ≠ .refused → (nature n).fate ≠ .refused →
    (nature m).id = (nature n).id → m = n
  hashes : ∀ m n, tokenHash env nature m = tokenHash env nature n → m = n

/-- A hash is not one of a stored key, nor will it be generated. -/
def Unseen (env : Env) (nature : Nature) (world : World) (hash : String) : Prop :=
  hash ∉ world.db.hashes ∧ ∀ n, world.draws ≤ n → tokenHash env nature n ≠ hash

/-- What will be generated is not in the database. -/
structure Fresh (env : Env) (nature : Nature) (world : World) : Prop where
  ids : ∀ n, world.draws ≤ n → (nature n).fate ≠ .refused →
    ∀ table, ∀ row ∈ world.db.cores table, row.id ≠ (nature n).id
  hashes : ∀ n, world.draws ≤ n → tokenHash env nature n ∉ world.db.hashes

section

variable (env : Env) (nature : Nature) (A : OrgId) (strict : Prop)

/-- **The statements that keep to an organization.** -/
def Allowed {α : Type} : Stmt α → World → Prop
  | .select table keep, world =>
    ∀ row ∈ world.db table, keep row = true → world.db.owns A (core table row) = true
  | .deliveries org, _ => org = A
  | .insert table values, world => ∀ id createdAt,
    world.db.owns A (core table (values.row id createdAt)) = true ∧
      ∀ hash scope, (core table (values.row id createdAt)).key = some (hash, scope) →
        scope = Scope.org.text ∧ (strict → Unseen env nature world hash)
  | .update table keep _, world =>
    ∀ row ∈ world.db table, keep row = true → world.db.owns A (core table row) = true
  | .budget query, world => strict → world.Owns A query.accountId
  | .probe, _ | .now, _ | .random, _ | .turns, _ | .post _, _ => True

/-- **What they lead to.** -/
structure Later (world world' : World) : Prop where
  draws : world.draws ≤ world'.draws
  engine : world'.engine = world.engine
  grows : world.db.Grows A world'.db
  valid : world.db.Valid → world'.db.Valid
  outside : world.db.Valid → world'.db.outside A = world.db.outside A
  touched : ∃ added, world'.touched = world.touched ++ added ∧
    ∀ touch ∈ added, world'.db.owns A touch.row = true
  fresh : strict → Fresh env nature world → Fresh env nature world'

variable {env nature A strict} {world world' world'' : World}

theorem Later.refl (world : World) : Later env nature A strict world world :=
  ⟨le_rfl, rfl, .refl _, id, fun _ => rfl, ⟨[], (List.append_nil _).symm, nofun⟩, fun _ => id⟩

theorem Later.trans (first : Later env nature A strict world world')
    (second : Later env nature A strict world' world'') : Later env nature A strict world world'' := by
  obtain ⟨added, touched, owned⟩ := first.touched
  obtain ⟨added', touched', owned'⟩ := second.touched
  refine ⟨first.draws.trans second.draws, second.engine.trans first.engine,
    first.grows.trans second.grows, second.valid ∘ first.valid,
    fun valid => (second.outside (first.valid valid)).trans (first.outside valid),
    ⟨added ++ added', by rw [touched', touched, List.append_assoc], fun touch member => ?_⟩,
    fun isStrict => second.fresh isStrict ∘ first.fresh isStrict⟩
  rcases List.mem_append.mp member with earlier | later
  · exact second.grows.owns (owned touch earlier)
  · exact owned' touch later

/-- Without a write, nothing but the count of statements and the posts changes. -/
theorem later_quiet (world : World) (posts : List Post) :
    Later env nature A strict world { world.next with posts } where
  draws := Nat.le_succ _
  engine := rfl
  grows := .refl _
  valid := id
  outside _ := rfl
  touched := ⟨[], (List.append_nil _).symm, nofun⟩
  fresh _ fresh := ⟨fun n later => fresh.ids n (Nat.le_of_succ_le later),
    fun n later => fresh.hashes n (Nat.le_of_succ_le later)⟩

theorem later_of_allowed (distinct : strict → Distinct env nature) {α : Type} {statement : Stmt α}
    (allowed : Allowed env nature A strict statement world) :
    Later env nature A strict world (exec env nature statement world).2 := by
  have wrote := exec_wrote env nature statement world
  generalize (exec env nature statement world).2 = world' at wrote
  cases wrote with
  | quiet posts => exact later_quiet world posts
  | @inserted table values row made accepted performed =>
    obtain ⟨owned, minted⟩ := allowed (nature world.draws).id (nature world.draws).createdAt
    rw [← made] at owned minted
    have grows := Db.grows_insert owned fun hash scope key => (minted hash scope key).1
    have owned' := grows.owns owned
    refine ⟨Nat.le_succ _, rfl, grows, fun valid => valid.insert accepted,
      fun valid => Db.outside_insert valid accepted owned, ⟨_, rfl, fun touch member => ?_⟩,
      fun isStrict fresh => ⟨fun n later used other old member => ?_, fun n later member => ?_⟩⟩
    · rw [List.mem_singleton.mp member]
      exact owned'
    · by_cases same : other = table
      · subst same
        rw [Db.cores_insert_self] at member
        rcases List.mem_append.mp member with earlier | new
        · exact fresh.ids n (Nat.le_of_succ_le later) used other old earlier
        · rw [List.mem_singleton.mp new, made, core_row_id]
          intro again
          exact absurd ((distinct isStrict).ids _ _ performed used again ▸ later) (Nat.not_succ_le_self _)
      · rw [Db.cores_insert_ne _ _ same] at member
        exact fresh.ids n (Nat.le_of_succ_le later) used other old member
    · obtain ⟨key, stored, scope, hash⟩ := Db.mem_hashes.mp member
      by_cases same : TableName.apiKeys = table
      · subst same
        rw [Db.cores_insert_self] at stored
        rcases List.mem_append.mp stored with earlier | new
        · exact fresh.hashes n (Nat.le_of_succ_le later) (Db.mem_hashes.mpr ⟨key, earlier, scope, hash⟩)
        · rw [List.mem_singleton.mp new] at hash
          exact ((minted _ scope hash).2 isStrict).2 n (Nat.le_of_succ_le later) rfl
      · rw [Db.cores_insert_ne _ _ same] at stored
        exact fresh.hashes n (Nat.le_of_succ_le later) (Db.mem_hashes.mpr ⟨key, stored, scope, hash⟩)
  | @updated table keep change =>
    refine ⟨Nat.le_succ _, rfl, Db.grows_update keep change,
      fun valid => valid.congr (Db.cores_update _ _ _), fun _ => Db.outside_update allowed change,
      ⟨_, rfl, fun touch member => ?_⟩,
      fun isStrict fresh => ⟨fun n later used other row member => ?_, fun n later member => ?_⟩⟩
    · obtain ⟨_, changed, rfl⟩ := List.mem_map.mp member
      obtain ⟨row, chosen, rfl⟩ := List.mem_map.mp changed
      obtain ⟨stored, kept⟩ := List.mem_filter.mp chosen
      show Db.owns _ A (core table (change.apply row)) = true
      rw [core_apply, Db.owns_update]
      exact allowed row stored kept
    · rw [Db.cores_update] at member
      exact fresh.ids n (Nat.le_of_succ_le later) used other row member
    · rw [Db.mem_hashes, Db.cores_update, ← Db.mem_hashes] at member
      exact fresh.hashes n (Nat.le_of_succ_le later) member

end

/-- An organization, and what its requests are served under. Budget queries are restricted too if
`strict` holds, and then generated ids and tokens have to be new. -/
structure Tenant where
  env : Env
  nature : Nature
  org : OrgId
  strict : Prop
  distinct : strict → Distinct env nature
  parses : ∀ uuid : Uuid, env.parseUuid uuid.toString = some uuid

/-- **Keeping to an organization.** -/
def Tenant.discipline (T : Tenant) : Discipline (machine T.env T.nature) where
  Allowed := Allowed T.env T.nature T.org T.strict
  Later := Later T.env T.nature T.org T.strict
  refl := .refl
  trans := .trans
  later := later_of_allowed T.distinct

end Meter.ControlPlane
