/-
**The control plane's database, statement by statement** (`apps/control-plane/src/db/schema.ts`).

Seven tables, each with its rows (`Row`), the columns that an insert gives (`Values`) and the updates
that the repositories make (`Change`). A delivery belongs to the organization of its webhook; every
other row names its organization (`Core`, `Db.owns`).

* `Stmt` — the queries, and what else a request does: draw a token, read the clock, ask the engine,
  post to an endpoint.
* `Nature` — everything that the program does not decide: generated ids and tokens, the clock, in
  which order rows are returned and fibers take turns, which calls fail, what endpoints reply.
* `exec` — what a statement answers, and the world that it leaves. An insert enforces the primary
  keys, the unique indexes and the foreign keys.
* `budgetStatus` — the engine's classification of an account's usage
  (`crates/meter-api/src/routes/budgets.rs`).
-/

import Meter.ControlPlane.Alerts
import Meter.Lib.Discipline
import Meter.Postgres.Report
import Meter.Pricing.Price

namespace Meter.ControlPlane

open Meter.Lib

/-! ### Dates -/

/-- A valid `Date`: milliseconds since 1970, no further away than a `Date` can be. -/
structure Date where
  millis : Int
  valid : millis.natAbs ≤ 8640000000000000

/-- `new Date(millis)`, if that is valid. -/
def Date.ofMillis (millis : Int) : Option Date :=
  if valid : millis.natAbs ≤ 8640000000000000 then some ⟨millis, valid⟩ else none

/-- The instant of a date. -/
def Date.instant (date : Date) : OffsetDateTime := date.millis * 1000000

/-- The year is one of 0 to 9999, as RFC 3339 requires. -/
def Date.Plain (date : Date) : Prop :=
  -62167219200000 ≤ date.millis ∧ date.millis < 253402300800000

instance (date : Date) : Decidable date.Plain := instDecidableAnd

/-! ### Tables -/

/-- The tables of the schema that the routes read or write. -/
inductive TableName where
  | organizations
  | agents
  | alertRules
  | notifications
  | apiKeys
  | webhooks
  | webhookDeliveries
  deriving DecidableEq

/-- A tenant. Its slug is unique. -/
structure OrganizationRow where
  id : OrgId
  slug : String
  name : String
  defaultCurrency : String
  createdAt : OffsetDateTime

/-- A workload. Its key is unique in its organization. -/
structure AgentRow where
  id : Uuid
  orgId : OrgId
  key : String
  name : String
  createdAt : OffsetDateTime

/-- Thresholds that, when crossed, raise notifications. A `numeric` column is kept as its text. -/
structure AlertRuleRow where
  id : Uuid
  orgId : OrgId
  name : String
  scope : String
  metric : String
  threshold : String
  action : String
  enabled : Bool
  accountId : Option AccountId
  creditLimit : Option String
  windowDays : Int
  lastStatus : Option String
  createdAt : OffsetDateTime

/-- A notification, with when it was read and acknowledged. -/
structure NotificationRow where
  id : Uuid
  orgId : OrgId
  type : String
  severity : String
  title : String
  body : String
  data : Json
  status : String
  createdAt : OffsetDateTime
  readAt : Option OffsetDateTime
  ackedAt : Option OffsetDateTime

/-- Only a hash of the token is stored. -/
structure ApiKeyRow where
  id : Uuid
  orgId : OrgId
  name : String
  role : String
  scope : String
  keyPrefix : String
  tokenHash : String
  createdAt : OffsetDateTime
  lastUsedAt : Option OffsetDateTime
  revokedAt : Option OffsetDateTime

/-- An endpoint, with the secret that signs what it gets. -/
structure WebhookRow where
  id : Uuid
  orgId : OrgId
  url : String
  secret : String
  eventTypes : List String
  enabled : Bool
  createdAt : OffsetDateTime

/-- What came of a delivery. The notification is not a foreign key. -/
structure DeliveryRow where
  id : Uuid
  webhookId : Uuid
  notificationId : Option Uuid
  event : String
  payload : Json
  status : String
  responseStatus : Option Nat
  error : Option String
  attempts : Nat
  createdAt : OffsetDateTime

/-- The rows of a table. -/
@[reducible] def Row : TableName → Type
  | .organizations => OrganizationRow
  | .agents => AgentRow
  | .alertRules => AlertRuleRow
  | .notifications => NotificationRow
  | .apiKeys => ApiKeyRow
  | .webhooks => WebhookRow
  | .webhookDeliveries => DeliveryRow

/-! ### Inserts and updates -/

/-- The columns of a new tenant. Its currency is the default one. -/
structure NewOrganization where
  slug : String
  name : String

/-- The columns of a new workload. -/
structure AgentValues where
  orgId : OrgId
  key : String
  name : String

/-- The columns of a new rule, which has no status yet. -/
structure AlertRuleValues where
  orgId : OrgId
  name : String
  scope : String
  metric : String
  threshold : String
  action : String
  enabled : Bool
  accountId : Option AccountId
  creditLimit : Option String
  windowDays : Int

/-- The columns of a new key, which is neither used nor revoked. -/
structure ApiKeyValues where
  orgId : OrgId
  name : String
  role : String
  scope : String
  keyPrefix : String
  tokenHash : String

/-- The columns of a new endpoint, which is enabled. -/
structure WebhookValues where
  orgId : OrgId
  url : String
  secret : String
  eventTypes : List String

/-- The columns of a new record of the delivery log. -/
structure RecordDelivery where
  webhookId : Uuid
  notificationId : Option Uuid
  event : String
  payload : Json
  status : String
  responseStatus : Option Nat
  error : Option String
  attempts : Nat

/-- The columns that an insert gives. -/
@[reducible] def Values : TableName → Type
  | .organizations => NewOrganization
  | .agents => AgentValues
  | .alertRules => AlertRuleValues
  | .notifications => NewNotification
  | .apiKeys => ApiKeyValues
  | .webhooks => WebhookValues
  | .webhookDeliveries => RecordDelivery

/-- The inserted row, with a generated id, the time, and the defaults of the other columns. -/
def Values.row (id : Uuid) (createdAt : OffsetDateTime) : {table : TableName} → Values table → Row table
  | .organizations, ⟨slug, name⟩ =>
    { id := ⟨id⟩, slug, name, defaultCurrency := "USD", createdAt : OrganizationRow }
  | .agents, ⟨orgId, key, name⟩ => { id, orgId, key, name, createdAt : AgentRow }
  | .alertRules, ⟨orgId, name, scope, metric, threshold, action, enabled, accountId, creditLimit,
      windowDays⟩ =>
    { id, orgId, name, scope, metric, threshold, action, enabled, accountId, creditLimit, windowDays,
      lastStatus := none, createdAt : AlertRuleRow }
  | .notifications, ⟨orgId, type, severity, title, body, data⟩ =>
    { id, orgId, type, severity, title, body := body.getD "", data := data.getD (.object []),
      status := "unread", createdAt, readAt := none, ackedAt := none : NotificationRow }
  | .apiKeys, ⟨orgId, name, role, scope, keyPrefix, tokenHash⟩ =>
    { id, orgId, name, role, scope, keyPrefix, tokenHash, createdAt, lastUsedAt := none,
      revokedAt := none : ApiKeyRow }
  | .webhooks, ⟨orgId, url, secret, eventTypes⟩ =>
    { id, orgId, url, secret, eventTypes, enabled := true, createdAt : WebhookRow }
  | .webhookDeliveries, ⟨webhookId, notificationId, event, payload, status, responseStatus, error,
      attempts⟩ =>
    { id, webhookId, notificationId, event, payload, status, responseStatus, error, attempts,
      createdAt : DeliveryRow }

/-- The columns that an update sets. -/
inductive Change : TableName → Type
  | ruleEnabled (enabled : Bool) : Change .alertRules
  | lastStatus (status : String) : Change .alertRules
  | read (readAt : OffsetDateTime) : Change .notifications
  | acked (now : OffsetDateTime) : Change .notifications
  | lastUsedAt (now : OffsetDateTime) : Change .apiKeys
  | revokedAt (now : OffsetDateTime) : Change .apiKeys
  | webhookEnabled (enabled : Bool) : Change .webhooks

/-- A row after an update. -/
def Change.apply : {table : TableName} → Change table → Row table → Row table
  | _, .ruleEnabled enabled, row => { row with enabled }
  | _, .lastStatus status, row => { row with lastStatus := some status }
  | _, .read readAt, row => { row with status := "read", readAt := some readAt }
  | _, .acked now, row => { row with status := "acked", readAt := some now, ackedAt := some now }
  | _, .lastUsedAt now, row => { row with lastUsedAt := some now }
  | _, .revokedAt now, row => { row with revokedAt := some now }
  | _, .webhookEnabled enabled, row => { row with enabled }

/-! ### Whose row it is -/

/-- What a row refers to: its organization, or the webhook whose organization it is. -/
inductive Holder where
  | org (id : OrgId)
  | webhook (id : Uuid)
  deriving DecidableEq

/-- What no update changes in a row: its id, whom it belongs to, and for a key the hash of its token
and its scope. -/
structure Core where
  id : Uuid
  holder : Holder
  key : Option (String × String)
  deriving DecidableEq

/-- The columns of a row that decide who may touch it. -/
def core : (table : TableName) → Row table → Core
  | .organizations, row => ⟨row.id.value, .org row.id, none⟩
  | .agents, row => ⟨row.id, .org row.orgId, none⟩
  | .alertRules, row => ⟨row.id, .org row.orgId, none⟩
  | .notifications, row => ⟨row.id, .org row.orgId, none⟩
  | .apiKeys, row => ⟨row.id, .org row.orgId, some (row.tokenHash, row.scope)⟩
  | .webhooks, row => ⟨row.id, .org row.orgId, none⟩
  | .webhookDeliveries, row => ⟨row.id, .webhook row.webhookId, none⟩

@[simp] theorem core_apply {table : TableName} (change : Change table) (row : Row table) :
    core table (change.apply row) = core table row := by
  cases change <;> rfl

@[simp] theorem core_row_id {table : TableName} (id : Uuid) (createdAt : OffsetDateTime)
    (values : Values table) : (core table (values.row id createdAt)).id = id := by
  cases table <;> rfl

/-- The tables, each with its rows in the order in which they were inserted. -/
abbrev Db := (table : TableName) → List (Row table)

namespace Db

/-- The cores of a table, in the order of its rows. -/
def cores (db : Db) (table : TableName) : List Core := (db table).map (core table)

/-- Something belongs to an organization. -/
def owns (db : Db) (org : OrgId) (row : Core) : Bool :=
  match row.holder with
  | .org id => id = org
  | .webhook id => (db.cores .webhooks).any fun hook => hook.id = id ∧ hook.holder = .org org

/-- The rows of an organization. -/
def inside (db : Db) (org : OrgId) (table : TableName) : List (Row table) :=
  (db table).filter fun row => db.owns org (core table row)

/-- The rows of all others. -/
def outside (db : Db) (org : OrgId) (table : TableName) : List (Row table) :=
  (db table).filter fun row => !db.owns org (core table row)

/-- The hashes of all tokens. -/
def hashes (db : Db) : List String := (db .apiKeys).map ApiKeyRow.tokenHash

/-- What the constraints of the schema promise: primary keys, the unique index on token hashes, and
the foreign key of deliveries. -/
structure Valid (db : Db) : Prop where
  ids : ∀ table, ((db.cores table).map Core.id).Nodup
  hashes : db.hashes.Nodup
  hooks : ∀ delivery ∈ db .webhookDeliveries, delivery.webhookId ∈ (db .webhooks).map WebhookRow.id

/-- An organization exists. -/
def hasOrg (db : Db) (org : OrgId) : Bool := (db .organizations).any fun row => row.id = org

/-- The unique indexes and the foreign keys accept a row. -/
def admits (db : Db) : (table : TableName) → Row table → Bool
  | .organizations, row => (db .organizations).all fun other => other.slug ≠ row.slug
  | .agents, row => db.hasOrg row.orgId ∧
      (db .agents).all fun other => ¬(other.orgId = row.orgId ∧ other.key = row.key)
  | .alertRules, row => db.hasOrg row.orgId
  | .notifications, row => db.hasOrg row.orgId
  | .apiKeys, row => db.hasOrg row.orgId ∧
      (db .apiKeys).all fun other => other.tokenHash ≠ row.tokenHash
  | .webhooks, row => db.hasOrg row.orgId
  | .webhookDeliveries, row => (db .webhooks).any fun hook => hook.id = row.webhookId

/-- The primary key is unused, and all other constraints hold. -/
def accepts (db : Db) {table : TableName} (row : Row table) : Bool :=
  (db.cores table).all (fun other => other.id ≠ (core table row).id) ∧ db.admits table row

/-- A table with one more row, the last one. -/
def insert (db : Db) {table : TableName} (row : Row table) : Db :=
  Function.update db table (db table ++ [row])

/-- A table whose chosen rows are changed, each in its place. -/
def update (db : Db) {table : TableName} (keep : Row table → Bool) (change : Change table) : Db :=
  Function.update db table ((db table).map fun row => if keep row then change.apply row else row)

end Db

/-! ### The engine -/

/-- What the engine is asked. -/
structure BudgetQuery where
  accountId : AccountId
  limit : String
  start : Date
  stop : Date

/-- Classify usage against a limit: `exceeded` at 100 % and `warning` at 80 % of it. -/
def classify (used limit : ℚ) : ℚ × Level :=
  if limit ≤ 0 then (0, .ok)
  else
    let ratio := Pricing.roundDp (used / limit) 4
    if limit ≤ used then (ratio, .exceeded)
    else if limit * (8 / 10) ≤ used then (ratio, .warning)
    else (ratio, .ok)

/-! ### The outside -/

/-- A webhook delivery. -/
structure Post where
  url : String
  event : String
  signature : String
  body : String
  deriving DecidableEq

/-- What comes of a delivery attempt: the status of a response, or why there is none. -/
inductive Reply where
  | response (status : Nat)
  | failure (message : String)

/-- What decides the outcome of one statement. -/
structure Draw where
  fate : Fate
  /-- `gen_random_uuid()` and `now()` of an inserted row. -/
  id : Uuid
  createdAt : OffsetDateTime
  /-- In which order a query returns its rows. -/
  arrange : {α : Type} → List α → List α
  arrange_perm : ∀ {α : Type} (rows : List α), (arrange rows).Perm rows
  now : Date
  /-- `randomBytes(24).toString("base64url")`. -/
  random : String
  /-- In which order concurrent fibers make their calls. -/
  turns : List Nat
  /-- The engine can be reached. -/
  reachable : Bool
  reply : Reply

/-- What decides the outcome of the `n`-th statement. -/
abbrev Nature := Nat → Draw

/-- A row that was inserted or updated. -/
structure Touch where
  table : TableName
  row : Core

/-- The database, the engine's ledger at the time of every statement, how many statements were made,
every delivery attempt, and every row that was inserted or updated. -/
structure World where
  db : Db
  engine : Nat → Ledger.State
  draws : Nat
  posts : List Post
  touched : List Touch

/-- What the service calls and what is not defined here. -/
structure Env where
  /-- The text of a UUID, as PostgreSQL reads it. -/
  parseUuid : String → Option Uuid
  /-- `Date.toISOString` of a timestamp. -/
  isoString : OffsetDateTime → String
  /-- SHA-256, in hexadecimal. -/
  hashToken : String → String
  /-- HMAC-SHA256 of a body under a secret. -/
  signPayload : String → String → String
  /-- `JSON.stringify`. -/
  stringify : Json → String
  /-- What a `numeric` column makes of the text of a number. -/
  numeric : String → Option String
  /-- What an `integer` column makes of it. -/
  integer : String → Option Int
  /-- `Decimal::from_str` and `Decimal::normalize().to_string()`. -/
  parseDecimal : String → Option ℚ
  showDecimal : ℚ → String

/-- `GET /v1/accounts/{id}/budget`, or nothing if the engine refuses the request. -/
def budgetStatus (env : Env) (ledger : Ledger.State) (query : BudgetQuery) : Option BudgetStatus :=
  if query.start.Plain ∧ query.stop.Plain then
    (env.parseDecimal query.limit).map fun limit =>
      let used := (Postgres.periodUsage ledger query.accountId query.start.instant
        query.stop.instant).totalCredits
      let (ratio, status) := classify used limit
      { usedCredits := env.showDecimal used
        limitCredits := env.showDecimal limit
        remainingCredits := env.showDecimal (limit - used)
        ratio := env.showDecimal ratio
        status }
  else none

/-! ### Statements -/

/-- One call, with the type of its answer. A query answers nothing if it fails. -/
inductive Stmt : Type → Type where
  | select (table : TableName) (keep : Row table → Bool) : Stmt (Option (List (Row table)))
  /-- The deliveries, joined with the webhooks of an organization. -/
  | deliveries (org : OrgId) : Stmt (Option (List DeliveryRow))
  | insert (table : TableName) (values : Values table) : Stmt (Option (Row table))
  | update (table : TableName) (keep : Row table → Bool) (change : Change table) :
      Stmt (Option (List (Row table)))
  /-- `select 1`. -/
  | probe : Stmt Bool
  | now : Stmt Date
  | random : Stmt String
  | turns : Stmt (List Nat)
  | budget (query : BudgetQuery) : Stmt (Option BudgetStatus)
  | post (post : Post) : Stmt Reply

/-- A query that does not change anything. -/
def Draw.read {α : Type} (draw : Draw) (answer : α) : Option α :=
  if draw.fate = .done then some answer else none

/-- What comes of a write: it may be performed and its answer lost. -/
def Draw.write {α : Type} (draw : Draw) (answer : α) (before after : World) : Option α × World :=
  match draw.fate with
  | .done => (some answer, after)
  | .refused => (none, before)
  | .lost => (none, after)

/-- One more statement was made. -/
def World.next (world : World) : World := { world with draws := world.draws + 1 }

/-- What a statement answers, and the world after it. -/
def exec (env : Env) (nature : Nature) : {α : Type} → Stmt α → World → α × World
  | _, .select table keep, world =>
    let draw := nature world.draws
    (draw.read (draw.arrange ((world.db table).filter keep)), world.next)
  | _, .deliveries org, world =>
    let draw := nature world.draws
    (draw.read (draw.arrange (world.db.inside org .webhookDeliveries)), world.next)
  | _, .insert table values, world =>
    let draw := nature world.draws
    let row := values.row draw.id draw.createdAt
    if world.db.accepts row then
      draw.write row world.next { world.next with
        db := world.db.insert row
        touched := world.touched ++ [⟨table, core table row⟩] }
    else (none, world.next)
  | _, .update table keep change, world =>
    let draw := nature world.draws
    let rows := ((world.db table).filter keep).map change.apply
    draw.write (draw.arrange rows) world.next { world.next with
      db := world.db.update keep change
      touched := world.touched ++ rows.map fun row => ⟨table, core table row⟩ }
  | _, .probe, world => (decide ((nature world.draws).fate = .done), world.next)
  | _, .now, world => ((nature world.draws).now, world.next)
  | _, .random, world => ((nature world.draws).random, world.next)
  | _, .turns, world => ((nature world.draws).turns, world.next)
  | _, .budget query, world =>
    let draw := nature world.draws
    (if draw.reachable then budgetStatus env (world.engine world.draws) query else none, world.next)
  | _, .post post, world =>
    ((nature world.draws).reply, { world.next with posts := world.posts ++ [post] })

/-- **The control plane as a machine.** -/
def machine (env : Env) (nature : Nature) : Machine Stmt World := ⟨exec env nature⟩

end Meter.ControlPlane
