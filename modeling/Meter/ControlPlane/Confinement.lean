/-
**A tenant's requests keep to its organization.**

Every program of the routes, for a caller with scope `org`, keeps to the discipline: it reads, updates
and inserts only rows of the caller's organization.

* `succeeds_select`, `succeeds_insertInto`, `succeeds_updateById` — one rule for each kind of query.
* `steady_deliver`, `steady_processRule` — the concurrent programs, whatever the others do meanwhile.
* `abides_serve` — **every request of the organization abides.**
* `Confined` — what a whole session leaves alone: `session_confined`.
-/

import Meter.ControlPlane.Tenancy

namespace Meter.ControlPlane

open Meter.Lib Meter.Lib.Discipline

section

variable {T : Tenant} {rely : World → World → Prop} {world : World} {α : Type}

/-! ### Queries -/

/-- A row of an organization. Only its identity columns stay as they are. -/
def Held (org : OrgId) (world : World) (table : TableName) (row : Core) : Prop :=
  row ∈ world.db.cores table ∧ world.db.owns org row = true

theorem Held.later {table : TableName} {row : Core} {world' : World} (held : Held T.org world table row)
    (later : T.discipline.Later world world') : Held T.org world' table row :=
  ⟨later.grows.mem held.1, later.grows.owns held.2⟩

/-- A query that succeeds has an answer of the database. -/
theorem succeeds_query {statement : Stmt (Option α)} {Q : α → World → Prop}
    (relies : T.discipline.Relies rely)
    (allowed : ∀ w, rely world w → T.discipline.Allowed statement w)
    (answers : ∀ w w' value, rely world w → T.discipline.Later w w' →
      (exec T.env T.nature statement w).1 = some value → Q value w') :
    T.discipline.Succeeds rely (query statement) Q world := by
  refine fun w relied => ⟨allowed w relied, fun w' relied' value same => ?_⟩
  refine answers w w' value relied (T.discipline.trans (later_of_allowed T.distinct (allowed w relied))
    (relies.within _ _ relied')) ?_
  show (exec T.env T.nature statement w).1 = some value
  have same' : orRepoError (exec T.env T.nature statement w).1 = .ok value := same
  generalize (exec T.env T.nature statement w).1 = answer at same'
  cases answer with
  | none => cases same'
  | some answer =>
    cases same'
    rfl

/-- A query that keeps to an organization's rows answers some of them. -/
theorem succeeds_select {table : TableName} {keep : Row table → Bool}
    (relies : T.discipline.Relies rely)
    (owned : ∀ w, rely world w → ∀ row ∈ w.db table, keep row = true →
      w.db.owns T.org (core table row) = true) :
    T.discipline.Succeeds rely (query (.select table keep))
      (fun rows w' => ∀ row ∈ rows, keep row = true ∧ Held T.org w' table (core table row) ∧
        ∃ w, rely world w ∧ row ∈ w.db table) world := by
  refine succeeds_query relies owned fun w w' rows relied later answer row member => ?_
  have answer' : (T.nature w.draws).read ((T.nature w.draws).arrange ((w.db table).filter keep)) = some rows :=
    answer
  unfold Draw.read at answer'
  split at answer'
  · cases answer'
    obtain ⟨stored, kept⟩ := List.mem_filter.mp
      (((T.nature w.draws).arrange_perm _).mem_iff.mp member)
    exact ⟨kept, Held.later ⟨List.mem_map_of_mem stored, owned w relied row stored kept⟩ later,
      w, relied, stored⟩
  · cases answer'

/-- An insert answers the row with the given columns. -/
theorem succeeds_insertInto {table : TableName} {values : Values table}
    (relies : T.discipline.Relies rely)
    (owned : ∀ w, rely world w → ∀ id createdAt,
      w.db.owns T.org (core table (values.row id createdAt)) = true)
    (minted : ∀ w, rely world w → ∀ id createdAt hash scope,
      (core table (values.row id createdAt)).key = some (hash, scope) →
        scope = Scope.org.text ∧ (T.strict → Unseen T.env T.nature w hash)) :
    T.discipline.Succeeds rely (insertInto table values)
      (fun row _ => ∃ id createdAt, row = values.row id createdAt) world := by
  refine succeeds_query relies (fun w relied id createdAt => ⟨owned w relied id createdAt,
    minted w relied id createdAt⟩) fun w w' row relied later answer => ?_
  dsimp only [exec] at answer
  split at answer
  · unfold Draw.write at answer
    split at answer
    · cases answer
      exact ⟨_, _, rfl⟩
    · cases answer
    · cases answer
  · cases answer

/-- The organization's own row, in a table that refers to it. -/
theorem succeeds_insertOrg {table : TableName} {values : Values table}
    (relies : T.discipline.Relies rely)
    (own : ∀ id createdAt, (core table (values.row id createdAt)).holder = .org T.org)
    (plain : ∀ id createdAt, (core table (values.row id createdAt)).key = none) :
    T.discipline.Succeeds rely (insertInto table values)
      (fun row _ => ∃ id createdAt, row = values.row id createdAt) world := by
  refine succeeds_insertInto relies (fun w _ id createdAt => ?_) fun w _ id createdAt hash scope key => ?_
  · rw [Db.owns_org (own id createdAt)]
    exact decide_eq_true rfl
  · rw [plain] at key
    cases key

/-- Rows of the organization, by a further condition. -/
theorem succeeds_selectOf {table : TableName} {keep : Row table → Bool}
    (relies : T.discipline.Relies rely) :
    T.discipline.Succeeds rely (selectOf table T.org keep)
      (fun rows w' => ∀ row ∈ rows, keep row = true ∧ Held T.org w' table (core table row) ∧
        ∃ w, rely world w ∧ row ∈ w.db table) world := by
  refine (succeeds_select relies fun w _ row _ kept => ?_).mono fun rows w holds row member => ?_
  · rw [Db.owns_org (of_decide_eq_true kept).1]
    exact decide_eq_true rfl
  · obtain ⟨kept, rest⟩ := holds row member
    exact ⟨(of_decide_eq_true kept).2, rest⟩

/-- The text of the organization's id. -/
theorem orgColumn_own : orgColumn T.env T.org.toString = pure T.org := by
  show column ((T.env.parseUuid T.org.value.toString).map Id.mk) = _
  rw [T.parses]
  rfl

theorem succeeds_orgColumn :
    T.discipline.Succeeds rely (orgColumn T.env T.org.toString) (fun org _ => T.org = org) world := by
  rw [orgColumn_own]
  exact succeeds_pure fun _ _ => rfl

theorem succeeds_column (value : Option α) :
    T.discipline.Succeeds rely (column value) (fun _ _ => True) world := fun _ _ _ _ => trivial

theorem succeeds_decoded (value : Decoded α) :
    T.discipline.Succeeds rely (decoded value) (fun result _ => value = .ok result) world :=
  fun _ _ _ same => same

/-- A call that is always allowed. -/
theorem succeeds_call {statement : Stmt α} (allowed : ∀ w, T.discipline.Allowed statement w) :
    T.discipline.Succeeds rely (call statement) (fun _ _ => True) world :=
  fun w _ => ⟨allowed w, fun _ _ _ _ => trivial⟩

theorem succeeds_now : T.discipline.Succeeds rely (call .now) (fun _ _ => True) world :=
  succeeds_call fun _ => trivial

/-- An update by id that is confined to the organization. -/
theorem succeeds_updateById {table : TableName} {resource id : String} {change : Change table}
    (relies : T.discipline.Relies rely) :
    T.discipline.Succeeds rely (updateById T.env table resource id (some T.org.toString) change)
      (fun _ _ => True) world := by
  unfold updateById
  refine (succeeds_column _).seq relies fun uuid _ _ _ => ?_
  dsimp only
  rw [orgColumn_own, map_pure, pure_bind]
  refine Succeeds.next relies (succeeds_query relies (fun w _ row _ kept => ?_)
    fun _ _ _ _ _ _ => trivial) fun rows _ _ => ?_
  · rw [Db.owns_org ((of_decide_eq_true kept).2 T.org rfl)]
    exact decide_eq_true rfl
  · cases rows with
    | nil => exact succeeds_throw _
    | cons row rest => exact succeeds_pure fun _ _ => trivial

/-! ### Authentication -/

/-- A token is that of an organization's key with scope `org`. -/
def World.HasKey (env : Env) (org : OrgId) (world : World) (token : String) : Prop :=
  ∃ row ∈ world.db .apiKeys, row.tokenHash = env.hashToken token ∧ row.orgId = org ∧
    toScope row.scope = .org

theorem hasKey_iff {env : Env} {org : OrgId} {token : String} : world.HasKey env org token ↔
    ∃ key ∈ world.db.cores .apiKeys, ∃ scope, key.key = some (env.hashToken token, scope) ∧
      key.holder = .org org ∧ toScope scope = .org := by
  constructor
  · rintro ⟨row, stored, hash, holder, scope⟩
    refine ⟨core .apiKeys row, List.mem_map_of_mem stored, row.scope, ?_, ?_, scope⟩
    · rw [← hash]
      rfl
    · rw [← holder]
      rfl
  · rintro ⟨_, member, scope, key, holder, least⟩
    obtain ⟨row, stored, rfl⟩ := List.mem_map.mp member
    obtain ⟨hash, rfl⟩ := Prod.mk.inj (Option.some.inj key)
    exact ⟨row, stored, hash, Holder.org.inj holder, least⟩

theorem World.HasKey.later {token : String} {world' : World}
    (key : world.HasKey T.env T.org token) (later : T.discipline.Later world world') :
    world'.HasKey T.env T.org token := by
  obtain ⟨row, stored, rest⟩ := hasKey_iff.mp key
  exact hasKey_iff.mpr ⟨row, later.grows.mem stored, rest⟩

/-- A row with the token of the organization's key is that key. -/
theorem World.HasKey.row {token : String} (key : world.HasKey T.env T.org token)
    (valid : world.db.Valid) {row : Core} (stored : row ∈ world.db.cores .apiKeys)
    {scope : String} (hash : row.key = some (T.env.hashToken token, scope)) :
    row.holder = .org T.org ∧ toScope scope = .org := by
  obtain ⟨other, member, scope', same, holder, least⟩ := hasKey_iff.mp key
  have equal := valid.core_of_hash stored member (by rw [hash, same]; rfl)
  subst equal
  cases hash.symm.trans same
  exact ⟨holder, least⟩

theorem key_of_hash {row : ApiKeyRow} {hash : String} (same : row.tokenHash = hash) :
    (core .apiKeys row).key = some (hash, row.scope) := same ▸ rfl

/-- **A verified key of the organization acts for it alone.** -/
theorem succeeds_verifyApiKey {token : String} (valid : world.db.Valid)
    (key : world.HasKey T.env T.org token) :
    T.discipline.Succeeds T.discipline.Later (verifyApiKey T.env token) (fun found _ =>
      ∀ principal, found = some principal →
        principal.orgId = T.org.toString ∧ principal.scope = .org) world := by
  unfold verifyApiKey
  refine (succeeds_select relies_later fun w later row stored kept => ?_).seq relies_later
    fun rows w later chosen => ?_
  · have found := (key.later later).row (later.valid valid) (List.mem_map_of_mem stored)
      (key_of_hash (of_decide_eq_true kept).1)
    rw [Db.owns_org found.1]
    exact decide_eq_true rfl
  · cases rows with
    | nil => exact succeeds_pure fun _ _ => nofun
    | cons row rest =>
      obtain ⟨kept, held, _⟩ := chosen row List.mem_cons_self
      obtain ⟨holder, least⟩ := (key.later later).row (later.valid valid) held.1
        (key_of_hash (of_decide_eq_true kept).1)
      refine succeeds_now.seq relies_later fun now w' later' _ => ?_
      refine Succeeds.next relies_later (succeeds_query relies_later
        (fun w'' later'' other stored same => ?_) fun _ _ _ _ _ _ => trivial) fun _ _ _ => ?_
      · have held'' := (held.later later').later later''
        have valid'' := later''.valid (later'.valid (later.valid valid))
        rw [valid''.core_of_id (List.mem_map_of_mem stored) held''.1 (of_decide_eq_true same)]
        exact held''.2
      · refine succeeds_pure fun _ _ principal same => ?_
        obtain rfl := Option.some.inj same
        exact ⟨congrArg Id.toString (Holder.org.inj holder), least⟩

/-! ### Concurrent programs -/

theorem steady_issue {statement : Stmt α}
    (allowed : ∀ w, T.discipline.Later world w → T.discipline.Allowed statement w) :
    T.discipline.Steady (Prog.issue statement) world :=
  fun w later => ⟨allowed w later, fun _ _ => trivial⟩

theorem steady_turns : T.discipline.Steady (Prog.issue .turns) world :=
  steady_issue fun _ _ => trivial

theorem steady_send (post : Post) (retries tries : Nat) :
    T.discipline.Steady (send post retries tries) world := by
  induction retries generalizing tries world with
  | zero => exact fun w _ => ⟨trivial, fun _ _ => trivial⟩
  | succ retries ih =>
    refine fun w _ => ⟨trivial, ?_⟩
    dsimp only
    split
    · exact fun _ _ => trivial
    · split
      · exact ih _
      · exact fun _ _ => trivial

/-- A delivery to an endpoint of the organization is one of its rows. -/
theorem succeeds_recordDelivery {hook : WebhookRow} {delivery : RecordDelivery}
    (held : Held T.org world .webhooks (core .webhooks hook)) (same : delivery.webhookId = hook.id) :
    T.discipline.Succeeds T.discipline.Later (recordDelivery T.env delivery) (fun _ _ => True) world := by
  refine Succeeds.map ((succeeds_insertInto relies_later (fun w later id createdAt => ?_)
    fun _ _ _ _ hash scope key => ?_).mono fun _ _ _ => trivial)
  · obtain ⟨stored, owned⟩ := held.later later
    rw [Db.owns_org rfl] at owned
    refine List.any_eq_true.mpr ⟨core .webhooks hook, stored, decide_eq_true ⟨same.symm, ?_⟩⟩
    exact congrArg Holder.org (of_decide_eq_true owned)
  · cases key

theorem steady_deliver {hook : WebhookRow} (notification : Notification)
    (held : Held T.org world .webhooks (core .webhooks hook)) :
    T.discipline.Steady (deliver T.env hook notification) world := by
  refine (steady_send _ _ _).seq fun outcome w later => ?_
  refine Steady.seq (Succeeds.steady (Q := fun _ _ => True) ?_) fun _ _ _ => steady_done _
  refine (succeeds_column _).seq relies_later fun id w' later' _ => ?_
  refine succeeds_recordDelivery ((held.later later).later later') ?_
  obtain ⟨outcome, tries⟩ := outcome
  cases outcome <;> rfl

theorem steady_dispatchForNotification {notification : Notification}
    (own : notification.orgId = T.org.toString) :
    T.discipline.Steady (dispatchForNotification T.env notification) world := by
  have hooks : T.discipline.Succeeds T.discipline.Later (enabledWebhooks T.env notification.orgId)
      (fun hooks w => ∀ hook ∈ hooks, Held T.org w .webhooks (core .webhooks hook)) world := by
    rw [own]
    refine succeeds_orgColumn.seq relies_later fun org w _ same => ?_
    subst same
    refine Succeeds.map ((succeeds_selectOf relies_later).mono fun rows w' chosen hook member => ?_)
    exact (chosen hook (List.mem_of_mem_filter member)).2.1
  refine Abides.seq relies_later hooks fun outcome w _ held => ?_
  cases outcome with
  | error error => exact steady_done _
  | ok hooks =>
    refine steady_turns.seq fun turns w' later => Steady.seq ?_ fun _ _ _ => steady_done _
    refine steady_interleave fun program member => ?_
    obtain ⟨hook, chosen, rfl⟩ := List.mem_map.mp member
    exact steady_deliver notification
      ((held hooks rfl hook (List.mem_of_mem_filter chosen)).later later)

/-! ### Evaluation -/

theorem succeeds_createNotification {input : NewNotification} (relies : T.discipline.Relies rely)
    (own : input.orgId = T.org) :
    T.discipline.Succeeds rely (createNotification T.env input)
      (fun notification _ => notification.orgId = T.org.toString) world := by
  refine Succeeds.map (Succeeds.mono (succeeds_insertOrg relies (fun id createdAt => ?_) ?_)
    fun row _ given => ?_)
  · exact congrArg Holder.org own
  · exact fun _ _ => rfl
  · obtain ⟨id, createdAt, rfl⟩ := given
    exact congrArg Id.toString own

theorem steady_persist {rule : EvaluableRule} {row : Core} (valid : world.db.Valid)
    (held : Held T.org world .alertRules row) (same : row.id = rule.id) (budget : BudgetStatus)
    (raised : Nat) : T.discipline.Steady (persist rule budget raised) world := by
  refine Steady.seq (Succeeds.steady (Q := fun _ _ => True) ?_) fun outcome w later => ?_
  · refine Succeeds.next relies_later (succeeds_query relies_later
      (fun w later other stored kept => ?_) fun _ _ _ _ _ _ => trivial)
      fun _ _ _ => succeeds_pure fun _ _ => trivial
    rw [(later.valid valid).core_of_id (List.mem_map_of_mem stored) (held.later later).1
      ((of_decide_eq_true kept).trans same.symm)]
    exact (held.later later).2
  · cases outcome with
    | error error => exact steady_done _
    | ok _ => exact steady_done _

theorem World.Owns.later {account : AccountId} {world' : World} (owns : world.Owns T.org account)
    (later : T.discipline.Later world world') : world'.Owns T.org account := by
  intro n since
  rw [later.engine]
  exact owns n (later.draws.trans since)

/-- **A rule of the organization may be evaluated concurrently with others of it.** -/
theorem steady_processRule {rule : EvaluableRule} {row : Core} (now : Date) (valid : world.db.Valid)
    (held : Held T.org world .alertRules row) (same : row.id = rule.id) (own : rule.orgId = T.org)
    (account : T.strict → world.Owns T.org rule.accountId) :
    T.discipline.Steady (processRule T.env rule now) world := by
  unfold processRule
  split
  · refine Steady.seq (steady_issue fun w later isStrict => (account isStrict).later later)
      fun answer w later => ?_
    cases answer with
    | none => exact steady_done _
    | some budget =>
      have persists : ∀ raised w', T.discipline.Later w w' →
          T.discipline.Steady (persist rule budget raised) w' := fun raised w' later' =>
        steady_persist (later'.valid (later.valid valid)) ((held.later later).later later') same _ _
      dsimp only
      split
      · refine Abides.seq relies_later (succeeds_createNotification relies_later own)
          fun outcome w' later' raised => ?_
        cases outcome with
        | error error => exact steady_done _
        | ok notification =>
          refine (steady_dispatchForNotification (raised notification rfl)).seq
            fun delivered w'' later'' => ?_
          cases delivered with
          | none => exact steady_done _
          | some _ => exact persists _ _ (T.discipline.trans later' later'')
      · exact persists _ _ (T.discipline.refl w)
  · exact steady_done _

/-- The enabled budget rules of an organization name only accounts of it. -/
def World.OwnAccounts (world : World) (org : OrgId) : Prop :=
  ∀ row ∈ world.db .alertRules, row.orgId = org → row.metric = "budget" → row.enabled = true →
    ∀ rule, toEvaluable row = some rule → world.Owns org rule.accountId

theorem toEvaluable_some {row : AlertRuleRow} {rule : EvaluableRule}
    (evaluable : toEvaluable row = some rule) : rule.id = row.id ∧ rule.orgId = row.orgId := by
  obtain ⟨account, _, limited⟩ := Option.bind_eq_some_iff.mp evaluable
  obtain ⟨limit, _, same⟩ := Option.bind_eq_some_iff.mp limited
  obtain rfl := Option.some.inj same
  exact ⟨rfl, rfl⟩

theorem succeeds_evaluableRules :
    T.discipline.Succeeds Eq (evaluableRules T.env T.org.toString) (fun rules w => ∀ rule ∈ rules,
      rule.orgId = T.org ∧ (∃ row, Held T.org w .alertRules row ∧ row.id = rule.id) ∧
        (world.OwnAccounts T.org → world.Owns T.org rule.accountId)) world := by
  unfold evaluableRules
  rw [orgColumn_own, pure_bind]
  refine Succeeds.seq relies_eq (succeeds_selectOf relies_eq) fun rows w later chosen => ?_
  refine succeeds_pure fun w' same rule member => ?_
  subst same
  obtain ⟨row, picked, evaluable⟩ := List.mem_filterMap.mp member
  obtain ⟨listed, enabled⟩ := List.mem_filter.mp picked
  obtain ⟨budget, held, _, rfl, stored⟩ := chosen row listed
  obtain ⟨id, org⟩ := toEvaluable_some evaluable
  have own := held.2
  rw [Db.owns_org rfl] at own
  refine ⟨org.trans (of_decide_eq_true own), ⟨_, held, id.symm⟩, fun accounts => ?_⟩
  exact accounts row stored (of_decide_eq_true own) (of_decide_eq_true budget) enabled rule evaluable

/-- **An evaluation keeps to the organization.** -/
theorem abides_evaluateOrgAlertRules (now : Date) (valid : world.db.Valid)
    (accounts : T.strict → world.OwnAccounts T.org) :
    T.discipline.Abides Eq (evaluateOrgAlertRules T.env T.org.toString now) (fun _ _ => True)
      world := by
  refine Abides.seq relies_eq succeeds_evaluableRules fun outcome w later holds => ?_
  cases outcome with
  | error error => exact fun _ _ => trivial
  | ok rules =>
    refine Abides.alone (steady_turns.seq fun turns w' later' =>
      Steady.seq (steady_interleave fun program member => ?_) fun _ _ _ => steady_done _)
    obtain ⟨rule, listed, rfl⟩ := List.mem_map.mp member
    obtain ⟨own, ⟨row, held, same⟩, account⟩ := holds rules rfl rule listed
    exact steady_processRule now (later'.valid (later.valid valid)) (held.later later') same own
      fun isStrict => ((account (accounts isStrict)).later later).later later'

/-! ### Minting -/

/-- **A minted key has scope `org`, and its token is new.** -/
theorem succeeds_createApiKey {input : NewApiKey} (own : input.orgId = T.org.toString)
    (least : input.scope.getD .org = .org)
    (fresh : T.strict → Fresh T.env T.nature world) :
    T.discipline.Succeeds Eq (createApiKey T.env input) (fun _ _ => True) world := by
  have drawn : T.discipline.Succeeds Eq (call .random) (fun random w => w.db = world.db ∧
      w.draws = world.draws + 1 ∧ random = (T.nature world.draws).random) world := by
    rintro _ rfl
    refine ⟨trivial, ?_⟩
    rintro _ rfl random same
    obtain rfl := Except.ok.inj same
    exact ⟨rfl, rfl, rfl⟩
  refine drawn.seq relies_eq ?_
  rintro random w later ⟨sameDb, draws, rfl⟩
  dsimp only
  rw [own, orgColumn_own, pure_bind]
  refine Succeeds.seq relies_eq (succeeds_insertInto relies_eq ?_ ?_) fun _ _ _ _ =>
    succeeds_pure fun _ _ => trivial
  · rintro _ rfl id createdAt
    rw [Db.owns_org rfl]
    exact decide_eq_true rfl
  · rintro _ rfl id createdAt hash scope key
    obtain ⟨rfl, rfl⟩ := Prod.mk.inj (Option.some.inj key)
    refine ⟨congrArg Scope.text least, fun isStrict => ⟨?_, fun n since again => ?_⟩⟩
    · rw [sameDb]
      exact (fresh isStrict).hashes _ le_rfl
    · have same := (T.distinct isStrict).hashes _ _ again
      omega

/-! ### Routes -/

/-- The caller acts for the organization alone. -/
structure Acts (org : OrgId) (principal : Principal) : Prop where
  orgId : principal.orgId = org.toString
  scope : principal.scope = .org

section

variable {principal : Principal}

theorem Acts.orgScope (acts : Acts T.org principal) :
    orgScope (some principal) = some T.org.toString := by
  simp [ControlPlane.orgScope, acts.scope, acts.orgId]

theorem Acts.canManagePlatform (acts : Acts T.org principal) :
    canManagePlatform (some principal) = false := by
  simp [ControlPlane.canManagePlatform, acts.scope]

theorem succeeds_inOrg (acts : Acts T.org principal) {requested : String}
    {answer : String → Effect Response}
    (own : T.org.toString = requested →
      T.discipline.Succeeds rely (answer T.org.toString) (fun _ _ => True) world) :
    T.discipline.Succeeds rely (inOrg (some principal) requested answer) (fun _ _ => True) world := by
  by_cases named : T.org.toString = requested
  · have allowed : authorizeOrg (some principal) requested = some T.org.toString := by
      simp [authorizeOrg, acts.scope, acts.orgId, named]
    rw [inOrg, allowed]
    exact own named
  · have denied : authorizeOrg (some principal) requested = none := by
      simp [authorizeOrg, acts.scope, acts.orgId, named]
    rw [inOrg, denied]
    exact succeeds_pure fun _ _ => trivial

theorem succeeds_listRoute (relies : T.discipline.Relies rely) (acts : Acts T.org principal)
    {orgId : Decoded String} {list : String → Effect (List α)} {payload : List α → Payload}
    (lists : ∀ w, T.discipline.Succeeds rely (list T.org.toString) (fun _ _ => True) w) :
    T.discipline.Succeeds rely (listRoute (some principal) orgId list payload) (fun _ _ => True)
      world :=
  (succeeds_decoded orgId).seq relies fun _ w _ _ => succeeds_inOrg acts fun _ =>
    (lists w).seq relies fun _ _ _ _ => succeeds_pure fun _ _ => trivial

theorem succeeds_updateRoute (relies : T.discipline.Relies rely) {id : Decoded String}
    {update : String → Effect α} {payload : α → Payload}
    (updates : ∀ id w, T.discipline.Succeeds rely (update id) (fun _ _ => True) w) :
    T.discipline.Succeeds rely (updateRoute id update payload) (fun _ _ => True) world :=
  (succeeds_decoded id).seq relies fun id w _ _ => (updates id w).seq relies fun _ _ _ _ =>
    succeeds_pure fun _ _ => trivial

theorem succeeds_orDefect (relies : T.discipline.Relies rely) {program : Prog Stmt (Option α)}
    {answer : α → Response} (abides : T.discipline.Abides rely program (fun _ _ => True) world) :
    T.discipline.Succeeds rely (orDefect program answer) (fun _ _ => True) world := by
  refine Succeeds.next relies
    (Abides.map (f := Except.ok) (fun _ => rfl) (abides.mono fun _ _ _ _ _ => trivial))
    fun found _ _ => ?_
  cases found with
  | none | some _ => exact succeeds_pure fun _ _ => trivial

/-- A list of the organization's rows. -/
theorem succeeds_listed (relies : T.discipline.Relies rely) {table : TableName}
    {keep : Row table → Bool} {result : List (Row table) → α} :
    T.discipline.Succeeds rely (do
      let org ← orgColumn T.env T.org.toString
      let rows ← selectOf table org keep
      return result rows) (fun _ _ => True) world := by
  rw [orgColumn_own, pure_bind]
  exact (succeeds_selectOf relies).seq relies fun _ _ _ _ => succeeds_pure fun _ _ => trivial

/-- An insert in the organization. -/
theorem succeeds_created (relies : T.discipline.Relies rely) {table : TableName}
    {values : OrgId → Values table} {result : Row table → α}
    (own : ∀ id createdAt, (core table ((values T.org).row id createdAt)).holder = .org T.org)
    (plain : ∀ id createdAt, (core table ((values T.org).row id createdAt)).key = none) :
    T.discipline.Succeeds rely (do
      let org ← orgColumn T.env T.org.toString
      result <$> insertInto table (values org)) (fun _ _ => True) world := by
  rw [orgColumn_own, pure_bind]
  exact Succeeds.map ((succeeds_insertOrg relies own plain).mono fun _ _ _ => trivial)

theorem succeeds_createAlertRule (relies : T.discipline.Relies rely) {input : NewAlertRule}
    (own : input.orgId = T.org.toString) :
    T.discipline.Succeeds rely (createAlertRule T.env input) (fun _ _ => True) world := by
  have nullable : ∀ {α : Type} (convert : String → Option α) (text : Option String) w,
      T.discipline.Succeeds rely (nullable convert text) (fun _ _ => True) w := by
    intro α convert text w
    cases text with
    | none => exact succeeds_pure fun _ _ => trivial
    | some text => exact Succeeds.map (succeeds_column _)
  unfold createAlertRule
  rw [own, orgColumn_own, pure_bind]
  refine (succeeds_column _).seq relies fun threshold _ _ _ => ?_
  refine (nullable _ _ _).seq relies fun accountId _ _ _ => ?_
  refine (nullable _ _ _).seq relies fun creditLimit _ _ _ => ?_
  refine (succeeds_column _).seq relies fun windowDays _ _ _ => ?_
  exact Succeeds.map ((succeeds_insertOrg relies (fun _ _ => rfl) fun _ _ => rfl).mono
    fun _ _ _ => trivial)

/-- What was decoded is used, and what was not fails. -/
theorem succeeds_decoded_bind {value : Decoded α} {β : Type} {rest : α → Effect β}
    (succeeds : ∀ result, value = .ok result →
      T.discipline.Succeeds rely (rest result) (fun _ _ => True) world) :
    T.discipline.Succeeds rely (decoded value >>= rest) (fun _ _ => True) world := by
  cases value with
  | error error => exact succeeds_throw error
  | ok result => exact succeeds result rfl

/-- A route that creates a row in the organization that its body names. -/
theorem succeeds_createRoute {value : Decoded α} {orgId : α → String}
    {create : α → String → Effect Response} (acts : Acts T.org principal)
    (creates : ∀ body, value = .ok body → T.org.toString = orgId body →
      T.discipline.Succeeds rely (create body T.org.toString) (fun _ _ => True) world) :
    T.discipline.Succeeds rely (decoded value >>= fun body =>
      inOrg (some principal) (orgId body) (create body)) (fun _ _ => True) world :=
  succeeds_decoded_bind fun body same => succeeds_inOrg acts (creates body same)

theorem World.OwnAccounts.later {world' : World} (accounts : world.OwnAccounts T.org)
    (same : world'.db .alertRules = world.db .alertRules) (later : T.discipline.Later world world') :
    world'.OwnAccounts T.org := by
  intro row stored own budget enabled rule evaluable
  rw [same] at stored
  exact (accounts row stored own budget enabled rule evaluable).later later

/-- Reading the clock changes nothing. -/
theorem succeeds_now_alone :
    T.discipline.Succeeds Eq (call .now) (fun _ w => w.db = world.db) world := by
  rintro _ rfl
  refine ⟨trivial, ?_⟩
  rintro _ rfl _ _
  rfl

theorem succeeds_evaluateRoute {requested : Decoded String} (acts : Acts T.org principal)
    (valid : world.db.Valid)
    (accounts : T.strict → requested = .ok T.org.toString → world.OwnAccounts T.org) :
    T.discipline.Succeeds Eq (dispatch T.env (some principal) (.evaluateAlertRules requested))
      (fun _ _ => True) world := by
  refine succeeds_createRoute acts fun orgId same own => ?_
  refine succeeds_now_alone.seq relies_eq fun now w later unchanged => ?_
  refine succeeds_orDefect relies_eq (abides_evaluateOrgAlertRules now (later.valid valid)
    fun isStrict => ?_)
  exact (accounts isStrict (own ▸ same)).later (congrFun unchanged _) later

/-- **Only keys with scope `org` are minted.** -/
theorem succeeds_mintRoute {body : Decoded NewApiKeyBody} (acts : Acts T.org principal)
    (fresh : T.strict → Fresh T.env T.nature world) :
    T.discipline.Succeeds Eq (dispatch T.env (some principal) (.createApiKey body))
      (fun _ _ => True) world := by
  refine succeeds_createRoute acts fun body _ _ => ?_
  dsimp only
  generalize wanted : body.scope.getD .org = scope
  cases scope with
  | platform =>
    have denied : canMintScope (some principal) .platform = false := acts.canManagePlatform
    rw [denied]
    exact succeeds_pure fun _ _ => trivial
  | org =>
    have created : T.discipline.Succeeds Eq (ControlPlane.createApiKey T.env
        ⟨T.org.toString, body.name, body.role, some .org⟩) (fun _ _ => True) world :=
      succeeds_createApiKey rfl rfl fresh
    exact created.seq relies_eq fun _ _ _ _ => succeeds_pure fun _ _ => trivial

theorem succeeds_notifyRoute {body : Decoded NewNotificationBody} (acts : Acts T.org principal) :
    T.discipline.Succeeds Eq (dispatch T.env (some principal) (.createNotification body))
      (fun _ _ => True) world := by
  refine succeeds_createRoute acts fun body _ _ => ?_
  rw [orgColumn_own, pure_bind]
  exact (succeeds_createNotification relies_eq rfl).seq relies_eq fun notification w own' own =>
    succeeds_orDefect relies_eq (Abides.alone (steady_dispatchForNotification own))

/-- **Every route keeps to the organization of its caller.** -/
theorem succeeds_dispatch {endpoint : Endpoint} (acts : Acts T.org principal)
    (valid : world.db.Valid) (fresh : T.strict → Fresh T.env T.nature world)
    (accounts : T.strict → endpoint = .evaluateAlertRules (.ok T.org.toString) →
      world.OwnAccounts T.org) :
    T.discipline.Succeeds Eq (dispatch T.env (some principal) endpoint) (fun _ _ => True) world := by
  cases endpoint with
  | notFound | health | openApi => exact succeeds_pure fun _ _ => trivial
  | ready =>
    refine Succeeds.seq relies_eq (succeeds_call fun _ => trivial) fun up _ _ _ => ?_
    cases up with
    | true | false => exact succeeds_pure fun _ _ => trivial
  | listOrganizations | createOrganization body =>
    unfold dispatch
    rw [acts.canManagePlatform]
    exact succeeds_pure fun _ _ => trivial
  | listAgents orgId =>
    refine succeeds_listRoute relies_eq acts fun w => ?_
    unfold ControlPlane.listAgents
    rw [orgColumn_own, pure_bind]
    exact Succeeds.map ((succeeds_selectOf relies_eq).mono fun _ _ _ => trivial)
  | listAlertRules orgId | listWebhooks orgId | listApiKeys orgId =>
    exact succeeds_listRoute relies_eq acts fun w => succeeds_listed relies_eq
  | listNotifications query =>
    exact (succeeds_decoded query).seq relies_eq fun query w _ _ =>
      succeeds_listRoute relies_eq acts fun w => succeeds_listed relies_eq
  | listDeliveries orgId =>
    refine succeeds_listRoute relies_eq acts fun w => ?_
    unfold ControlPlane.listDeliveries
    rw [orgColumn_own, pure_bind]
    exact Succeeds.next relies_eq
      (succeeds_query relies_eq (fun _ _ => rfl) fun _ _ _ _ _ _ => trivial)
      fun _ _ _ => succeeds_pure fun _ _ => trivial
  | createAgent body =>
    exact succeeds_createRoute acts fun body _ _ => Succeeds.next relies_eq
      (succeeds_created relies_eq (fun _ _ => rfl) fun _ _ => rfl)
      fun _ _ _ => succeeds_pure fun _ _ => trivial
  | createWebhook body =>
    exact succeeds_createRoute acts fun body _ _ => Succeeds.next relies_eq
      (succeeds_created relies_eq (fun _ _ => rfl) fun _ _ => rfl)
      fun _ _ _ => succeeds_pure fun _ _ => trivial
  | createAlertRule body =>
    refine succeeds_createRoute acts fun body _ _ => ?_
    have created : T.discipline.Succeeds Eq
        (ControlPlane.createAlertRule T.env { body with orgId := T.org.toString }) (fun _ _ => True)
        world := succeeds_createAlertRule relies_eq rfl
    exact created.seq relies_eq fun _ _ _ _ => succeeds_pure fun _ _ => trivial
  | createNotification body => exact succeeds_notifyRoute acts
  | evaluateAlertRules orgId =>
    exact succeeds_evaluateRoute acts valid fun isStrict own => accounts isStrict (own ▸ rfl)
  | createApiKey body => exact succeeds_mintRoute acts fresh
  | readNotification id | ackNotification id | revokeApiKey id =>
    refine succeeds_updateRoute relies_eq fun id w => succeeds_now.seq relies_eq fun now w' _ _ => ?_
    rw [acts.orgScope]
    exact Succeeds.map (succeeds_updateById relies_eq)
  | enableAlertRule id enabled | enableWebhook id enabled =>
    refine succeeds_updateRoute relies_eq fun id w =>
      (succeeds_decoded enabled).seq relies_eq fun enabled w' _ _ => ?_
    rw [acts.orgScope]
    exact Succeeds.map (succeeds_updateById relies_eq)

theorem abides_handle {handler : Effect Response}
    (succeeds : T.discipline.Succeeds Eq handler (fun _ _ => True) world) :
    T.discipline.Abides Eq (handle handler) (fun _ _ => True) world := by
  refine Abides.seq relies_eq succeeds fun outcome w _ _ => ?_
  cases outcome with
  | ok response | error error => exact fun _ _ => trivial

end

/-! ### Requests -/

/-- A statement writes to a table. -/
def Stmt.Writes (table : TableName) : Stmt α → Prop
  | .insert written _ | .update written _ _ => written = table
  | _ => False

/-- Leaving a table alone. -/
def frame (env : Env) (nature : Nature) (table : TableName) : Discipline (machine env nature) where
  Allowed statement _ := ¬statement.Writes table
  Later world world' := world'.db table = world.db table
  refl _ := rfl
  trans first second := second.trans first
  later := by
    intro β statement world allowed
    have wrote := exec_wrote env nature statement world
    show (exec env nature statement world).2.db table = world.db table
    generalize (exec env nature statement world).2 = world' at wrote
    cases wrote with
    | quiet _ => rfl
    | inserted _ _ _ => exact Db.rows_insert_ne _ _ (Ne.symm allowed)
    | updated => exact Db.rows_update_ne _ _ _ (Ne.symm allowed)

/-- Authentication leaves the alert rules alone. -/
theorem verifyApiKey_alertRules (env : Env) (nature : Nature) (token : String) (world : World) :
    ((machine env nature).run (verifyApiKey env token).run world).2.db .alertRules =
      world.db .alertRules := by
  have quiet : ∀ {β : Type} {statement : Stmt (Option β)} w, ¬statement.Writes .alertRules →
      (frame env nature .alertRules).Succeeds Eq (query statement) (fun _ _ => True) w :=
    fun w silent w' _ => ⟨silent, fun _ _ _ _ => trivial⟩
  have clock : ∀ w, (frame env nature .alertRules).Succeeds Eq (call .now) (fun _ _ => True) w :=
    fun w w' _ => ⟨id, fun _ _ _ _ => trivial⟩
  have abides : (frame env nature .alertRules).Succeeds Eq (verifyApiKey env token)
      (fun _ _ => True) world := by
    refine (quiet world id).seq relies_eq fun rows w _ _ => ?_
    cases rows with
    | nil => exact succeeds_pure fun _ _ => trivial
    | cons row rest =>
      refine (clock w).seq relies_eq fun now w' _ _ => ?_
      refine (quiet w' ?_).seq relies_eq fun _ _ _ _ => succeeds_pure fun _ _ => trivial
      exact fun same => by cases same
  exact (Abides.run abides).2

/-- The router knows `/health`, and nothing else under an exempt path. -/
def RoutesHealth (route : Request → Endpoint) : Prop :=
  ∀ request, isExempt request.url = true → route request = .health ∨ route request = .notFound

/-- **A request that presents a key of the organization keeps to it.** -/
theorem abides_serve {route : Request → Endpoint} (routes : RoutesHealth route) {request : Request}
    (valid : world.db.Valid)
    (keys : ∀ token, bearerToken request.authorization = some token →
      world.HasKey T.env T.org token)
    (fresh : T.strict → Fresh T.env T.nature world)
    (accounts : T.strict → route request = .evaluateAlertRules (.ok T.org.toString) →
      world.OwnAccounts T.org) :
    T.discipline.Abides Eq (serve T.env route request) (fun _ _ => True) world := by
  unfold serve requireApiKey
  split
  · rename_i exempt
    rcases routes request exempt with health | notFound
    · rw [health]
      exact fun _ _ => trivial
    · rw [notFound]
      exact fun _ _ => trivial
  · split
    · exact fun _ _ => trivial
    · rename_i token presented
      have verified := (Abides.alone (succeeds_verifyApiKey valid (keys token presented))).and_run
      refine Abides.seq relies_eq verified fun outcome w later holds => ?_
      obtain ⟨found, ran⟩ := holds
      have rules := verifyApiKey_alertRules T.env T.nature token world
      rw [ran] at rules
      rcases outcome with error | _ | principal
      · exact fun _ _ => trivial
      · exact fun _ _ => trivial
      · dsimp only
        split
        · obtain ⟨org, scope⟩ := found _ rfl principal rfl
          exact abides_handle (succeeds_dispatch ⟨org, scope⟩ (later.valid valid)
            (fun isStrict => later.fresh isStrict (fresh isStrict)) fun isStrict evaluates =>
              (accounts isStrict evaluates).later rules later)
        · exact fun _ _ => trivial

end

/-! ### Sessions -/

section

variable {env : Env} {nature : Nature} {org : OrgId}

/-- A token of a key that was minted since the session began. -/
def Minted (env : Env) (start world : World) (token : String) : Prop :=
  ∃ row ∈ world.db .apiKeys, row.tokenHash = env.hashToken token ∧
    row.id ∉ (start.db .apiKeys).map ApiKeyRow.id

/-- A request is made with a given key, or with one that was minted since. -/
def MadeWith (env : Env) (start : World) (token : String) (request : Request) (world : World) : Prop :=
  ∃ presented, bearerToken request.authorization = some presented ∧
    (presented = token ∨ Minted env start world presented)

/-- **What a session leaves alone.** The rows of all other organizations are what they were, every row
that was inserted or updated belongs to the organization, and so does every minted key, with scope
`org`. -/
structure Confined (org : OrgId) (start last : World) : Prop where
  outside : last.db.outside org = start.db.outside org
  touched : ∀ touch ∈ last.touched, touch ∈ start.touched ∨ last.db.owns org touch.row = true
  minted : ∀ row ∈ last.db .apiKeys, row.id ∉ (start.db .apiKeys).map ApiKeyRow.id →
    row.orgId = org ∧ row.scope = "org"

variable {start world : World}

/-- A key that is not an old one belongs to the organization. -/
theorem minted_of_later {strict : Prop} (later : Later env nature org strict start world)
    {row : ApiKeyRow} (stored : row ∈ world.db .apiKeys)
    (new : row.id ∉ (start.db .apiKeys).map ApiKeyRow.id) : row.orgId = org ∧ row.scope = "org" := by
  obtain ⟨added, cores, owned⟩ := later.grows .apiKeys
  have member : core .apiKeys row ∈ world.db.cores .apiKeys := List.mem_map_of_mem stored
  rw [cores] at member
  rcases List.mem_append.mp member with old | recent
  · obtain ⟨other, present, same⟩ := List.mem_map.mp old
    refine absurd (List.mem_map.mpr ⟨other, present, ?_⟩) new
    exact congrArg Core.id same
  · obtain ⟨own, least⟩ := owned _ recent
    rw [Db.owns_org rfl] at own
    exact ⟨of_decide_eq_true own, least _ _ rfl⟩

/-- **Tenant confinement.** From any database, and with any outcome of what the program does not
decide, a session of requests that are all made with one key of an organization, or with keys that
the session has minted, changes no row of another organization, writes only rows of its own, and
mints only keys of it with scope `org`. -/
theorem session_confined (parses : ∀ uuid : Uuid, env.parseUuid uuid.toString = some uuid)
    {route : Request → Endpoint} (routes : RoutesHealth route) {token : String}
    (valid : start.db.Valid) (key : start.HasKey env org token) {requests : List Request}
    (made : (machine env nature).Each (serve env route) (MadeWith env start token) requests start) :
    Confined org start ((machine env nature).session (serve env route) requests start).2 := by
  let T : Tenant := ⟨env, nature, org, False, False.elim, parses⟩
  have keeps : ∀ request world, MadeWith env start token request world →
      T.discipline.Later start world → T.discipline.Later start
        ((machine env nature).run (serve env route request) world).2 := by
    rintro request world ⟨presented, bearer, known⟩ later
    have held : world.HasKey env org presented := by
      rcases known with rfl | ⟨row, stored, hash, new⟩
      · exact World.HasKey.later (T := T) key later
      · obtain ⟨own, least⟩ := minted_of_later later stored new
        exact ⟨row, stored, hash, own, by rw [least]; decide⟩
    have abides : T.discipline.Abides Eq (serve env route request) (fun _ _ => True) world :=
      abides_serve (T := T) routes (later.valid valid) (fun token same => by
        obtain rfl := Option.some.inj (bearer.symm.trans same)
        exact held) False.elim False.elim
    exact T.discipline.trans later (Abides.run abides).2
  have later := made.invariant keeps (T.discipline.refl start)
  obtain ⟨added, touched, owned⟩ := later.touched
  refine ⟨later.outside valid, fun touch member => ?_, fun row stored new =>
    minted_of_later later stored new⟩
  rw [touched] at member
  exact (List.mem_append.mp member).imp_right (owned touch)

end

/-! ### Two organizations -/

def orgA : OrgId := 10

def orgB : OrgId := 11

/-- An admin key of the first organization, and a key and a webhook of the second one. -/
def tenants : Db
  | .organizations => [⟨orgA, "org-a", "Org A", "USD", 0⟩, ⟨orgB, "org-b", "Org B", "USD", 0⟩]
  | .apiKeys => [⟨⟨1⟩, orgA, "a-admin", "admin", "org", "mk_a", "mk_a", 0, none, none⟩,
      ⟨⟨2⟩, orgB, "b-key", "member", "org", "mk_b", "mk_b", 0, none, none⟩]
  | .webhooks => [⟨⟨3⟩, orgB, "https://example.test/hook", "s", [], true, 0⟩]
  | _ => []

theorem tenants_valid : tenants.Valid where
  ids table := by cases table <;> decide
  hashes := by decide
  hooks := nofun

/-- Hashes that keep the token, and decimals with at most one place. -/
def plainEnv : Env where
  parseUuid := Uuid.parseHyphenated
  isoString _ := "2023-11-14T22:13:20.000Z"
  hashToken := id
  signPayload secret body := "sha256=" ++ secret ++ body
  stringify _ := "..."
  numeric := some
  integer text := some (Nat.ofDigitChars 10 text.toList 0)
  parseDecimal text := some (Nat.ofDigitChars 10 text.toList 0)
  showDecimal value :=
    if value.den = 1 then Nat.repr value.num.toNat
    else Nat.repr ⌊value⌋₊ ++ "." ++ Nat.repr (⌊value * 10⌋₊ % 10)

/-- A thousand statements that succeed, one after another. -/
def smoothly : Nature := fun n =>
  { fate := if n < 1000 then .done else .refused
    id := ⟨BitVec.ofNat 128 (1000 + n)⟩
    createdAt := n
    arrange := id
    arrange_perm := fun _ => .refl _
    now := ⟨1700000000000, by decide⟩
    random := String.ofList (List.replicate (n + 2) 'a')
    turns := []
    reachable := true
    reply := .response 200 }

/-- Two requests: mint a key, and create an agent with it. -/
def mintAndCreate : List Request := [
  ⟨"POST", "/v1/api-keys", some "Bearer mk_a",
    "\x7b\"orgId\":\"00000000-0000-0000-0000-00000000000a\",\"name\":\"ci\"\x7d"⟩,
  ⟨"POST", "/v1/agents", some "Bearer mk_aaaaa",
    "\x7b\"orgId\":\"00000000-0000-0000-0000-00000000000a\",\"key\":\"p\",\"name\":\"P\"\x7d"⟩]

/-- The router and the schemas, for these requests. -/
def sampleRoute (request : Request) : Endpoint :=
  if isExempt request.url then .health
  else if request.url = "/v1/api-keys" then
    .createApiKey (.ok ⟨orgA.toString, "ci", none, none⟩)
  else if request.url = "/v1/agents" then .createAgent (.ok ⟨orgA.toString, "p", "P"⟩)
  else .notFound

def sampleStart : World := ⟨tenants, fun _ => Ledger.State.new, 0, [], []⟩

theorem session_confined_mints :
    Confined orgA sampleStart
      ((machine plainEnv smoothly).session (serve plainEnv sampleRoute) mintAndCreate sampleStart).2 ∧
    ((((machine plainEnv smoothly).session (serve plainEnv sampleRoute) mintAndCreate
      sampleStart).2.db .agents).map AgentRow.key = ["p"]) := by
  refine ⟨session_confined Uuid.parseHyphenated_toString (fun request exempt => ?_) tenants_valid
    ?_ ⟨⟨"mk_a", by decide +kernel, Or.inl rfl⟩, ⟨"mk_aaaaa", by decide +kernel, Or.inr ?_⟩, trivial⟩,
    by decide +kernel⟩
  · exact Or.inl (if_pos exempt)
  · exact ⟨_, List.mem_cons_self, rfl, rfl, rfl⟩
  · unfold Minted
    decide +kernel

end Meter.ControlPlane
