/-
**What a tenant can learn about the others.**

Two worlds are `Alike` for an organization if they agree on its rows, its engine accounts, and the
posts to its endpoints, whatever the others have in them.

* `alike_exec` — an allowed statement answers the same in both, and leaves two alike worlds.
* `session_alike` — so does a session of the organization's requests, **as long as no rule of it
  that is evaluated names an account of another organization**.
* `foreign_account_interferes` — the engine is asked with the service's own credential about the
  account that the tenant has named, and nothing checks whose account that is.
-/

import Meter.ControlPlane.Confinement

namespace Meter.ControlPlane

open Meter.Lib Meter.Lib.Discipline

/-! ### Alike worlds -/

/-- Two ledgers agree on the accounts of an organization. -/
structure SameAccounts (org : OrgId) (ledger ledger' : Ledger.State) : Prop where
  owns : ∀ account, OwnsAccount org ledger account ↔ OwnsAccount org ledger' account
  entries : ∀ account, OwnsAccount org ledger account →
    ledger.entries.filter (fun entry => entry.accountId = account) =
      ledger'.entries.filter fun entry => entry.accountId = account

/-- Two worlds agree on all data of an organization, on its engine accounts at any time, and on what
was posted. -/
structure Alike (org : OrgId) (world world' : World) : Prop where
  inside : world.db.inside org = world'.db.inside org
  engine : ∀ n, SameAccounts org (world.engine n) (world'.engine n)
  draws : world.draws = world'.draws
  posts : world.posts = world'.posts

section

variable {org : OrgId} {world world' : World} {env : Env}

/-- The engine's answer is about the account's own entries. -/
theorem budgetStatus_congr {ledger ledger' : Ledger.State} (same : SameAccounts org ledger ledger')
    {query : BudgetQuery} (owns : OwnsAccount org ledger query.accountId) :
    budgetStatus env ledger query = budgetStatus env ledger' query := by
  have usage : ∀ start stop, Postgres.periodUsage ledger query.accountId start stop =
      Postgres.periodUsage ledger' query.accountId start stop := by
    intro start stop
    have rows : ∀ db : Ledger.State, (db.entries.filter fun entry =>
        entry.accountId = query.accountId ∧ Postgres.IsSpend entry ∧
          Postgres.timestamp start ≤ entry.createdAt ∧ entry.createdAt < Postgres.timestamp stop) =
        (db.entries.filter fun entry => entry.accountId = query.accountId).filter fun entry =>
          Postgres.IsSpend entry ∧ Postgres.timestamp start ≤ entry.createdAt ∧
            entry.createdAt < Postgres.timestamp stop := by
      intro db
      rw [List.filter_filter]
      refine List.filter_congr fun entry _ => ?_
      rw [Bool.decide_and, Bool.and_comm]
    unfold Postgres.periodUsage
    rw [rows, rows, same.entries _ owns]
  unfold budgetStatus
  rw [usage]

theorem mem_inside {db : Db} {table : TableName} {row : Row table} :
    row ∈ db.inside org table ↔ row ∈ db table ∧ db.owns org (core table row) = true :=
  List.mem_filter

/-- An organization's keys are the same in alike worlds. -/
theorem World.HasKey.alike {token : String} (key : world.HasKey env org token)
    (alike : Alike org world world') : world'.HasKey env org token := by
  obtain ⟨row, stored, hash, own, least⟩ := key
  have inside : row ∈ world.db.inside org .apiKeys :=
    mem_inside.mpr ⟨stored, (Db.owns_org rfl).trans (decide_eq_true own)⟩
  rw [alike.inside] at inside
  exact ⟨row, (mem_inside.mp inside).1, hash, own, least⟩

theorem World.OwnAccounts.alike (accounts : world.OwnAccounts org) (alike : Alike org world world') :
    world'.OwnAccounts org := by
  intro row stored own budget enabled rule evaluable n since
  have inside : row ∈ world'.db.inside org .alertRules :=
    mem_inside.mpr ⟨stored, (Db.owns_org rfl).trans (decide_eq_true own)⟩
  rw [← alike.inside] at inside
  rw [← (alike.engine n).owns]
  exact accounts row (mem_inside.mp inside).1 own budget enabled rule evaluable n
    (alike.draws.trans_le since)

/-! ### Statements -/

/-- What only an organization's rows can satisfy, and what only they can violate. -/
theorem any_inside {db : Db} {table : TableName} {wanted : Row table → Bool}
    (owned : ∀ row, wanted row = true → db.owns org (core table row) = true) :
    (db table).any wanted = (db.inside org table).any wanted := by
  rw [Db.inside, List.any_filter]
  refine congrArg _ (funext fun row => ?_)
  by_cases found : wanted row = true
  · rw [found, owned row found]
    rfl
  · rw [Bool.eq_false_of_not_eq_true found, Bool.and_false]

theorem all_inside {db : Db} {table : TableName} {wanted : Row table → Bool}
    (owned : ∀ row, wanted row = false → db.owns org (core table row) = true) :
    (db table).all wanted = (db.inside org table).all wanted := by
  rw [Db.inside, List.all_filter]
  refine congrArg _ (funext fun row => ?_)
  by_cases fails : wanted row = false
  · rw [fails, owned row fails]
    rfl
  · rw [Bool.eq_true_of_not_eq_false fails, Bool.or_true]

theorem hasOrg_alike (alike : Alike org world world') :
    world.db.hasOrg org = world'.db.hasOrg org := by
  have inside : ∀ db : Db, db.hasOrg org =
      (db.inside org .organizations).any fun row => row.id = org := fun db =>
    any_inside fun row found => (Db.owns_org rfl).trans found
  rw [inside, inside, alike.inside]

/-- **An organization's new row is accepted in both worlds or in none.** -/
theorem admits_alike {nature : Nature} (alike : Alike org world world') {table : TableName}
    {values : Values table} {id : Uuid} {createdAt : OffsetDateTime}
    (allowed : Allowed env nature org True (.insert table values) world)
    (allowed' : Allowed env nature org True (.insert table values) world') :
    world.db.admits table (values.row id createdAt) =
      world'.db.admits table (values.row id createdAt) := by
  have exists' := hasOrg_alike alike
  obtain ⟨owned, minted⟩ := allowed id createdAt
  cases table with
  | organizations =>
    have first := (allowed ⟨0⟩ createdAt).1
    have second := (allowed ⟨1⟩ createdAt).1
    rw [Db.owns_org rfl] at first second
    have same : (⟨⟨0⟩⟩ : OrgId) = ⟨⟨1⟩⟩ :=
      (of_decide_eq_true first).trans (of_decide_eq_true second).symm
    exact absurd same (by decide)
  | alertRules | notifications | webhooks =>
    rw [Db.owns_org rfl] at owned
    show world.db.hasOrg values.orgId = world'.db.hasOrg values.orgId
    rw [show values.orgId = org from of_decide_eq_true owned]
    exact exists'
  | agents =>
    rw [Db.owns_org rfl] at owned
    have own : values.orgId = org := of_decide_eq_true owned
    subst own
    have others : ∀ db : Db, ((db .agents).all fun other =>
        ¬(other.orgId = values.orgId ∧ other.key = values.key)) =
        (db.inside values.orgId .agents).all fun other =>
          ¬(other.orgId = values.orgId ∧ other.key = values.key) := fun db =>
      all_inside fun row conflict => (Db.owns_org rfl).trans
        (decide_eq_true (not_not.mp (of_decide_eq_false conflict)).1)
    show decide (world.db.hasOrg values.orgId = true ∧ ((world.db .agents).all fun other =>
        ¬(other.orgId = values.orgId ∧ other.key = values.key)) = true) =
      decide (world'.db.hasOrg values.orgId = true ∧ ((world'.db .agents).all fun other =>
        ¬(other.orgId = values.orgId ∧ other.key = values.key)) = true)
    rw [others world.db, others world'.db, alike.inside, exists']
  | apiKeys =>
    rw [Db.owns_org rfl] at owned
    have own : values.orgId = org := of_decide_eq_true owned
    subst own
    have new : ∀ db : Db, values.tokenHash ∉ db.hashes →
        ((db .apiKeys).all fun other => other.tokenHash ≠ values.tokenHash) = true :=
      fun db unseen => List.all_eq_true.mpr fun other stored =>
        decide_eq_true fun same => unseen (same ▸ List.mem_map_of_mem stored)
    show decide (world.db.hasOrg values.orgId = true ∧ ((world.db .apiKeys).all fun other =>
        other.tokenHash ≠ values.tokenHash) = true) =
      decide (world'.db.hasOrg values.orgId = true ∧ ((world'.db .apiKeys).all fun other =>
        other.tokenHash ≠ values.tokenHash) = true)
    rw [new _ ((minted _ _ rfl).2 trivial).1,
      new _ (((allowed' id createdAt).2 _ _ rfl).2 trivial).1, exists']
  | webhookDeliveries =>
    have known : ∀ db : Db, db.owns org (core .webhookDeliveries (values.row id createdAt)) = true →
        ((db .webhooks).any fun hook => hook.id = values.webhookId) = true := by
      intro db owned
      obtain ⟨_, found, same⟩ := List.any_eq_true.mp owned
      obtain ⟨hook, stored, rfl⟩ := List.mem_map.mp found
      exact List.any_eq_true.mpr ⟨hook, stored, decide_eq_true (of_decide_eq_true same).1⟩
    exact (known _ owned).trans (known _ (allowed' id createdAt).1).symm

theorem accepts_alike {nature : Nature} (alike : Alike org world world') {table : TableName}
    {values : Values table} {id : Uuid} (createdAt : OffsetDateTime)
    (unused : ∀ row ∈ world.db.cores table, row.id ≠ id)
    (unused' : ∀ row ∈ world'.db.cores table, row.id ≠ id)
    (allowed : Allowed env nature org True (.insert table values) world)
    (allowed' : Allowed env nature org True (.insert table values) world') :
    world.db.accepts (values.row id createdAt) = world'.db.accepts (values.row id createdAt) := by
  have new : ∀ db : Db, (∀ row ∈ db.cores table, row.id ≠ id) → ((db.cores table).all fun other =>
      other.id ≠ (core table (values.row id createdAt)).id) = true := fun db unused =>
    List.all_eq_true.mpr fun row stored => decide_eq_true (by
      rw [core_row_id]
      exact unused row stored)
  unfold Db.accepts
  rw [new _ unused, new _ unused', admits_alike alike allowed allowed']

theorem Alike.next (alike : Alike org world world') : Alike org world.next world'.next :=
  ⟨alike.inside, alike.engine, congrArg Nat.succ alike.draws, alike.posts⟩

theorem write_alike {α : Type} {draw : Draw} {answer : α} {after after' : World}
    (before : Alike org world world') (performed : Alike org after after') :
    (draw.write answer world after).1 = (draw.write answer world' after').1 ∧
      Alike org (draw.write answer world after).2 (draw.write answer world' after').2 := by
  unfold Draw.write
  split
  · exact ⟨rfl, performed⟩
  · exact ⟨rfl, before⟩
  · exact ⟨rfl, performed⟩

/-- What is alike, and in order. -/
structure Same (env : Env) (nature : Nature) (org : OrgId) (world world' : World) : Prop where
  alike : Alike org world world'
  valid : world.db.Valid
  valid' : world'.db.Valid
  fresh : Fresh env nature world
  fresh' : Fresh env nature world'

theorem exec_insert_refused {nature : Nature} {table : TableName} {values : Values table}
    (refused : (nature world.draws).fate = .refused) :
    exec env nature (.insert table values) world = (none, world.next) := by
  dsimp only [exec]
  split
  · simp only [Draw.write, refused]
  · rfl

/-- **An allowed statement answers the same in alike worlds, and leaves alike worlds.** -/
theorem alike_exec {nature : Nature} {α : Type} {statement : Stmt α}
    (same : Same env nature org world world')
    (allowed : Allowed env nature org True statement world)
    (allowed' : Allowed env nature org True statement world') :
    (exec env nature statement world).1 = (exec env nature statement world').1 ∧
      Alike org (exec env nature statement world).2 (exec env nature statement world').2 := by
  obtain ⟨alike, valid, valid', fresh, fresh'⟩ := same
  cases statement with
  | select table keep =>
    refine ⟨?_, alike.next⟩
    dsimp only [exec]
    rw [Db.filter_inside allowed, Db.filter_inside allowed', alike.inside, alike.draws]
  | deliveries wanted =>
    obtain rfl : wanted = org := allowed
    refine ⟨?_, alike.next⟩
    dsimp only [exec]
    rw [alike.inside, alike.draws]
  | insert table values =>
    by_cases refused : (nature world.draws).fate = .refused
    · rw [exec_insert_refused refused, exec_insert_refused (alike.draws ▸ refused)]
      exact ⟨rfl, alike.next⟩
    · have accepts := accepts_alike alike (nature world.draws).createdAt
        (fresh.ids _ le_rfl refused table)
        (alike.draws ▸ fresh'.ids _ le_rfl (alike.draws ▸ refused) table) allowed allowed'
      dsimp only [exec]
      rw [← alike.draws, ← accepts]
      split
      · rename_i accepted
        refine write_alike alike.next ⟨?_, alike.engine, congrArg Nat.succ alike.draws, alike.posts⟩
        rw [Db.inside_insert valid accepted (allowed _ _).1,
          Db.inside_insert valid' (accepts ▸ accepted) (allowed' _ _).1, alike.inside]
      · exact ⟨rfl, alike.next⟩
  | update table keep change =>
    dsimp only [exec]
    rw [Db.filter_inside allowed, Db.filter_inside allowed', alike.inside, alike.draws]
    refine write_alike alike.next ⟨?_, alike.engine, congrArg Nat.succ alike.draws, alike.posts⟩
    rw [Db.inside_update, Db.inside_update, alike.inside]
  | budget query =>
    refine ⟨?_, alike.next⟩
    dsimp only [exec]
    rw [alike.draws, budgetStatus_congr (alike.engine _) (allowed trivial _ alike.draws.le)]
  | post post =>
    refine ⟨?_, alike.inside, alike.engine, congrArg Nat.succ alike.draws, ?_⟩
    · dsimp only [exec]
      rw [alike.draws]
    · exact congrArg (· ++ [post]) alike.posts
  | probe | now | random | turns =>
    refine ⟨?_, alike.next⟩
    dsimp only [exec]
    rw [alike.draws]

end

/-! ### Sessions -/

section

variable {env : Env} {nature : Nature} {org : OrgId}

/-- An organization with restricted budget queries. -/
def strictly (org : OrgId) (distinct : Distinct env nature)
    (parses : ∀ uuid : Uuid, env.parseUuid uuid.toString = some uuid) : Tenant :=
  ⟨env, nature, org, True, fun _ => distinct, parses⟩

/-- **No allowed statement tells alike worlds apart.** -/
def twin (org : OrgId) (distinct : Distinct env nature)
    (parses : ∀ uuid : Uuid, env.parseUuid uuid.toString = some uuid) :
    Twin (strictly org distinct parses).discipline where
  Same := Same env nature org
  exec same allowed allowed' :=
    have alike := alike_exec same allowed allowed'
    have later := later_of_allowed (fun _ => distinct) allowed
    have later' := later_of_allowed (fun _ => distinct) allowed'
    ⟨alike.1, alike.2, later.valid same.valid, later'.valid same.valid',
      later.fresh trivial same.fresh, later'.fresh trivial same.fresh'⟩

/-- A request is made with a key of an organization with scope `org`. -/
def Presents (env : Env) (org : OrgId) (request : Request) (world : World) : Prop :=
  ∃ token, bearerToken request.authorization = some token ∧ world.HasKey env org token

/-- **The condition**: if the request evaluates the organization's rules, the enabled budget rules
name only accounts of the organization. -/
def EvaluatesOwn (route : Request → Endpoint) (org : OrgId) (request : Request) (world : World) :
    Prop :=
  route request = .evaluateAlertRules (.ok org.toString) → world.OwnAccounts org

/-- **Tenant noninterference, as long as a tenant evaluates only rules about its own accounts.** In
two worlds that agree on everything of an organization, whatever the others have in them, a session of
the organization's requests has the same responses, notifications and webhook posts. -/
theorem session_alike (parses : ∀ uuid : Uuid, env.parseUuid uuid.toString = some uuid)
    {route : Request → Endpoint} (routes : RoutesHealth route) (distinct : Distinct env nature)
    {first second : World} (same : Same env nature org first second) {requests : List Request}
    (made : (machine env nature).Each (serve env route)
      (fun request world => Presents env org request world ∧ EvaluatesOwn route org request world)
      requests first) :
    ((machine env nature).session (serve env route) requests first).1 =
        ((machine env nature).session (serve env route) requests second).1 ∧
      ((machine env nature).session (serve env route) requests first).2.db.inside org .notifications =
        ((machine env nature).session (serve env route) requests second).2.db.inside org
          .notifications ∧
      ((machine env nature).session (serve env route) requests first).2.posts =
        ((machine env nature).session (serve env route) requests second).2.posts := by
  have abides : ∀ {request world}, world.db.Valid → Fresh env nature world →
      Presents env org request world → EvaluatesOwn route org request world →
      (strictly org distinct parses).discipline.Abides Eq (serve env route request)
        (fun _ _ => True) world := by
    intro request world valid fresh presents own
    obtain ⟨token, bearer, key⟩ := presents
    refine abides_serve (T := strictly org distinct parses) routes valid (fun presented again => ?_)
      (fun _ => fresh) fun _ => own
    obtain rfl := Option.some.inj (bearer.symm.trans again)
    exact key
  have both : ∀ request world world', Same env nature org world world' →
      Presents env org request world ∧ EvaluatesOwn route org request world →
      (strictly org distinct parses).discipline.Abides Eq (serve env route request)
          (fun _ _ => True) world ∧
        (strictly org distinct parses).discipline.Abides Eq (serve env route request)
          (fun _ _ => True) world' := by
    rintro request world world' same ⟨⟨token, bearer, key⟩, own⟩
    refine ⟨abides same.valid same.fresh ⟨token, bearer, key⟩ own,
      abides same.valid' same.fresh' ⟨token, bearer, key.alike same.alike⟩ fun evaluates => ?_⟩
    exact (own evaluates).alike same.alike
  obtain ⟨answers, after⟩ := (twin org distinct parses).session both same made
  exact ⟨answers, congrFun after.alike.inside _, after.alike.posts⟩

end

/-! ### An account of another organization -/

theorem smoothly_used {n : Nat} (used : (smoothly n).fate ≠ .refused) : n < 1000 := by
  by_contra late
  exact used (if_neg late)

theorem smoothly_id {n : Nat} (used : (smoothly n).fate ≠ .refused) :
    (smoothly n).id.bits.toNat = 1000 + n := by
  have early := smoothly_used used
  show (BitVec.ofNat 128 (1000 + n)).toNat = 1000 + n
  rw [BitVec.toNat_ofNat]
  omega

theorem tokenHash_length (n : Nat) : (tokenHash plainEnv smoothly n).toList.length = n + 5 := by
  show ("mk_" ++ String.ofList (List.replicate (n + 2) 'a')).toList.length = n + 5
  simp only [String.toList_append, List.length_append, String.toList_ofList, List.length_replicate]
  exact Nat.add_comm 3 (n + 2)

theorem smoothly_distinct : Distinct plainEnv smoothly where
  ids m n used used' same := by
    have first := smoothly_id used
    rw [same, smoothly_id used'] at first
    omega
  hashes m n same := by
    have lengths := congrArg (fun text => text.toList.length) same
    rw [tokenHash_length, tokenHash_length] at lengths
    omega

/-- The engine, with an account of either organization. -/
def engineWith (entries : List Ledger.LedgerEntry) : Ledger.State where
  accounts := (Ledger.State.new.accounts.set 20 (.new ⟨20, orgA, .user, false, none⟩)).set 21
    (.new ⟨21, orgB, .user, false, none⟩)
  holds := Table.empty
  entries

/-- A charge of 80, within the last month. -/
def chargeOf (account : AccountId) : Ledger.LedgerEntry where
  id := 30
  accountId := account
  pairedAccountId := Ledger.systemAccount
  entryType := .usage
  deltaCredits := -80
  balanceAfter := -80
  source := none
  revenueRecognizable := true
  reversesEntryId := none
  reservationId := none
  runId := none
  idempotencyKey := none
  createdAt := 1699999999000000000

/-- The second organization has used nothing, or 80 credits. -/
def idle : World := ⟨tenants, fun _ => engineWith [], 0, [], []⟩

def busy : World := ⟨tenants, fun _ => engineWith [chargeOf 21], 0, [], []⟩

theorem ownsAccount_engineWith {entries : List Ledger.LedgerEntry} {account : AccountId} :
    OwnsAccount orgA (engineWith entries) account ↔ account = 20 := by
  have stored : ∀ account, (engineWith entries).accounts.get? account =
      if account = 21 then some (.new ⟨21, orgB, .user, false, none⟩)
      else if account = 20 then some (.new ⟨20, orgA, .user, false, none⟩)
      else Ledger.State.new.accounts.get? account := by
    intro account
    rw [engineWith, Table.get?_set, Table.get?_set]
  constructor
  · rintro ⟨row, found, own⟩
    rw [stored] at found
    split at found
    · obtain rfl := Option.some.inj found
      exact absurd own (by decide)
    · split at found
      · assumption
      · rw [Ledger.State.new, Table.get?_set] at found
        split at found
        · obtain rfl := Option.some.inj found
          exact absurd own (by decide)
        · cases found
  · rintro rfl
    exact ⟨_, stored 20, rfl⟩

theorem tenants_fresh (engine : Nat → Ledger.State) :
    Fresh plainEnv smoothly ⟨tenants, engine, 0, [], []⟩ where
  ids n _ used table row stored same := by
    have small : ∀ row ∈ tenants.cores table, row.id.bits.toNat < 1000 := by
      cases table <;> decide
    have early := small row stored
    rw [same, smoothly_id used] at early
    omega
  hashes n _ member := by
    have short : ∀ hash ∈ tenants.hashes, hash.toList.length = 4 := by decide
    have length := short _ member
    rw [tokenHash_length] at length
    omega

theorem idle_busy : Same plainEnv smoothly orgA idle busy where
  alike := {
    inside := rfl
    engine := fun _ => ⟨fun _ => ownsAccount_engineWith.trans ownsAccount_engineWith.symm,
      fun account own => by
        obtain rfl := ownsAccount_engineWith.mp own
        rfl⟩
    draws := rfl
    posts := rfl }
  valid := tenants_valid
  valid' := tenants_valid
  fresh := tenants_fresh _
  fresh' := tenants_fresh _

/-- Three requests: register a webhook, watch an account, and evaluate. -/
def watch (account : AccountId) : List Request := [
  ⟨"POST", "/v1/webhooks", some "Bearer mk_a", "\x7b\"orgId\":\"" ++ orgA.toString ++
    "\",\"url\":\"https://example.test/a\",\"secret\":\"s\"\x7d"⟩,
  ⟨"POST", "/v1/alert-rules", some "Bearer mk_a", "\x7b\"orgId\":\"" ++ orgA.toString ++
    "\",\"name\":\"cap\",\"scope\":\"org\",\"metric\":\"budget\",\"threshold\":80," ++
    "\"action\":\"notify\",\"accountId\":\"" ++ account.toString ++
    "\",\"creditLimit\":100\x7d"⟩,
  ⟨"POST", "/v1/alert-rules/evaluate?orgId=" ++ orgA.toString, some "Bearer mk_a", ""⟩]

/-- The router and the schemas, for these requests. -/
def watchRoute (account : AccountId) (request : Request) : Endpoint :=
  if isExempt request.url then .health
  else if request.url = "/v1/webhooks" then
    .createWebhook (.ok ⟨orgA.toString, "https://example.test/a", "s", none⟩)
  else if request.url = "/v1/alert-rules" then
    .createAlertRule (.ok
      { orgId := orgA.toString
        name := "cap"
        scope := "org"
        metric := "budget"
        threshold := "80"
        action := "notify"
        enabled := none
        accountId := some account.toString
        creditLimit := some "100"
        windowDays := none })
  else .evaluateAlertRules (.ok orgA.toString)

theorem watchRoute_health (account : AccountId) : RoutesHealth (watchRoute account) :=
  fun _ exempt => Or.inl (if_pos exempt)

/-- These requests, and what they leave. -/
def watched (account : AccountId) (world : World) : List Response × World :=
  (machine plainEnv smoothly).session (serve plainEnv (watchRoute account)) (watch account) world

/-- The summary that a response carries. -/
def summaryOf : Response → Option EvaluationSummary
  | ⟨_, .summary summary⟩ => some summary
  | _ => none

/-- No request changes the engine. -/
theorem run_engine {env : Env} {nature : Nature} {α : Type} (program : Prog Stmt α) (world : World) :
    ((machine env nature).run program world).2.engine = world.engine := by
  induction program generalizing world with
  | done result => rfl
  | stmt statement next ih =>
    have wrote := exec_wrote env nature statement world
    refine (ih _ _).trans ?_
    show (exec env nature statement world).2.engine = world.engine
    generalize (exec env nature statement world).2 = world' at wrote
    cases wrote with
    | quiet _ | inserted _ _ _ | updated => rfl

theorem ownAccounts_of_rules {world : World} {entries : List Ledger.LedgerEntry}
    (engine : world.engine = fun _ => engineWith entries)
    (accounts : ∀ rule ∈ (world.db .alertRules).filterMap toEvaluable, rule.accountId = 20) :
    world.OwnAccounts orgA := by
  intro row stored _ _ _ rule evaluable n _
  rw [engine, ownsAccount_engineWith]
  exact accounts rule (List.mem_filterMap.mpr ⟨row, stored, evaluable⟩)

/-- The second organization's usage makes no difference to a rule about the first one's account. -/
theorem session_alike_own_account : (watched 20 idle).1 = (watched 20 busy).1 := by
  have key : World.HasKey plainEnv orgA idle "mk_a" := ⟨_, List.mem_cons_self, rfl, rfl, rfl⟩
  have made : (machine plainEnv smoothly).Each (serve plainEnv (watchRoute 20))
      (fun request world => Presents plainEnv orgA request world ∧
        EvaluatesOwn (watchRoute 20) orgA request world) (watch 20) idle := by
    refine ⟨⟨⟨"mk_a", by decide +kernel, key⟩, fun _ => ?_⟩,
      ⟨⟨"mk_a", by decide +kernel, ?_⟩, fun _ => ?_⟩,
      ⟨⟨"mk_a", by decide +kernel, ?_⟩, fun _ => ?_⟩, trivial⟩
    · exact ownAccounts_of_rules rfl nofun
    · unfold World.HasKey
      decide +kernel
    · exact ownAccounts_of_rules (run_engine _ _) (by decide +kernel)
    · unfold World.HasKey
      decide +kernel
    · exact ownAccounts_of_rules ((run_engine _ _).trans (run_engine _ _)) (by decide +kernel)
  exact (session_alike Uuid.parseHyphenated_toString (watchRoute_health 20) smoothly_distinct
    idle_busy made).1

/-- **The defect.** The rule of the first organization names an account of the second one, and what is
raised depends on what that one has used: the first organization's responses, its notifications and
the posts to its webhook differ. -/
theorem foreign_account_interferes :
    (∀ uuid : Uuid, plainEnv.parseUuid uuid.toString = some uuid) ∧ RoutesHealth (watchRoute 21) ∧
    Distinct plainEnv smoothly ∧ Same plainEnv smoothly orgA idle busy ∧
    (machine plainEnv smoothly).Each (serve plainEnv (watchRoute 21)) (Presents plainEnv orgA)
      (watch 21) idle ∧
    (watched 21 idle).1 ≠ (watched 21 busy).1 ∧
    (watched 21 idle).2.db.inside orgA .notifications ≠
      (watched 21 busy).2.db.inside orgA .notifications ∧
    (watched 21 idle).2.posts ≠ (watched 21 busy).2.posts := by
  have key : World.HasKey plainEnv orgA idle "mk_a" := ⟨_, List.mem_cons_self, rfl, rfl, rfl⟩
  have made : (machine plainEnv smoothly).Each (serve plainEnv (watchRoute 21))
      (Presents plainEnv orgA) (watch 21) idle := by
    refine ⟨⟨"mk_a", by decide +kernel, key⟩, ⟨"mk_a", by decide +kernel, ?_⟩,
      ⟨"mk_a", by decide +kernel, ?_⟩, trivial⟩
    · unfold World.HasKey
      decide +kernel
    · unfold World.HasKey
      decide +kernel
  have outcomes : (watched 21 idle).1.map summaryOf ≠ (watched 21 busy).1.map summaryOf ∧
      ((watched 21 idle).2.db.inside orgA .notifications).length ≠
        ((watched 21 busy).2.db.inside orgA .notifications).length ∧
      (watched 21 idle).2.posts ≠ (watched 21 busy).2.posts := by decide +kernel
  exact ⟨Uuid.parseHyphenated_toString, watchRoute_health 21, smoothly_distinct, idle_busy, made,
    fun same => outcomes.1 (congrArg _ same), fun same => outcomes.2.1 (congrArg _ same),
    outcomes.2.2⟩

end Meter.ControlPlane
