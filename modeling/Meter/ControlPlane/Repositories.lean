/-
**Tenants and repositories** (`http/tenant.ts`, `http/rbac.ts`, `repository/*.ts`, `*/repository.ts`).

A key acts for its own organization (`org`), or across all of them (`platform`). A handler confines
its caller in one of two ways: `authorizeOrg` compares the organization that a request names, and
`orgScope` with `byIdInOrg` restricts an update by id to the caller's rows.

The repositories are programs of queries that may fail (`Effect`), and answer with the records that
the API returns, in which ids and times are texts.
-/

import Meter.ControlPlane.Schema
import Mathlib.Data.List.Sort

namespace Meter.ControlPlane

open Meter.Lib

/-! ### Tenants -/

/-- What a key acts for. -/
inductive Scope where
  | platform
  | org
  deriving DecidableEq

/-- How a scope is stored. -/
def Scope.text : Scope → String
  | .platform => "platform"
  | .org => "org"

/-- Coerce a stored scope. Unknown values get the least privilege. -/
def toScope (value : String) : Scope := if value = "platform" then .platform else .org

/-- The authenticated caller behind a verified key. A role is a string. -/
structure Principal where
  orgId : String
  role : String
  scope : Scope

/-- Platform-only routes. Without authentication there is no caller, and no restriction. -/
def canManagePlatform : Option Principal → Bool
  | none => true
  | some principal => principal.scope = .platform

/-- The scopes that a caller may give a new key: its own organization's is open to all. -/
def canMintScope (principal : Option Principal) : Scope → Bool
  | .org => true
  | .platform => canManagePlatform principal

/-- The organization that a handler should use, if the caller may target it. -/
def authorizeOrg (principal : Option Principal) (requestedOrgId : String) : Option String :=
  match principal with
  | none => some requestedOrgId
  | some principal =>
    if principal.scope = .platform then some requestedOrgId
    else if principal.orgId = requestedOrgId then some principal.orgId
    else none

/-- The organization that an update by id is confined to, if any. -/
def orgScope : Option Principal → Option String
  | none => none
  | some principal => if principal.scope = .platform then none else some principal.orgId

/-! ### Roles -/

/-- `RANK[role]`, if that is a number. -/
def rank (role : String) : Option Nat :=
  if role = "viewer" then some 0
  else if role = "member" then some 1
  else if role = "admin" then some 2
  else none

/-- Coerce a stored role: what is a property of the record `RANK` is kept. -/
def toRole (value : String) : String :=
  if (rank value).isSome ∨ Inherited value then value else "admin"

/-- `String.prototype.startsWith`. -/
def startsWith (start text : String) : Bool := start.toList.isPrefixOf text.toList

/-- The least role that may perform a method on a path. -/
def requiredRole (method path : String) : String :=
  if method.toUpper ∈ ["GET", "HEAD", "OPTIONS"] then "viewer"
  else if ["/v1/api-keys", "/v1/webhooks"].any (startsWith · path) then "admin"
  else "member"

/-- A comparison with something that is not a number is false. -/
def roleSatisfies (actual required : String) : Bool :=
  match rank actual, rank required with
  | some actual, some required => required ≤ actual
  | _, _ => false

/-! ### Programs that may fail -/

/-- Every failure that a handler can surface. -/
inductive AppError where
  | repoError
  | notFound (resource id : String)
  | parseError (message : String)
  | requestError
  deriving DecidableEq

/-- A program that answers, or fails. -/
abbrev Effect (α : Type) := ExceptT AppError (Prog Stmt) α

/-- A call that does not fail. -/
def call {α : Type} (statement : Stmt α) : Effect α := ExceptT.lift (.issue statement)

/-- What a database error becomes. -/
def orRepoError {α : Type} : Option α → Except AppError α
  | some value => .ok value
  | none => .error .repoError

/-- A query. -/
def query {α : Type} (statement : Stmt (Option α)) : Effect α :=
  ExceptT.mk (.stmt statement fun answer => .done (orRepoError answer))

/-- A value that the database converts. -/
def column {α : Type} (value : Option α) : Effect α := ExceptT.mk (.done (orRepoError value))

/-- The row of an update, or 404 if it hit none. -/
def requireRow {α : Type} (resource id : String) : Option α → Effect α
  | some row => return row
  | none => throw (.notFound resource id)

section

variable (env : Env)

/-- The text of an organization's id, in a query. -/
def orgColumn (orgId : String) : Effect OrgId := column ((env.parseUuid orgId).map Id.mk)

/-- A row by its id, of one organization unless that is absent. -/
def byIdInOrg (table : TableName) (id : Uuid) (orgId : Option OrgId) (row : Row table) : Bool :=
  (core table row).id = id ∧ ∀ org ∈ orgId, (core table row).holder = .org org

/-- Update the row with an id. -/
def updateById (table : TableName) (resource id : String) (orgId : Option String)
    (change : Change table) : Effect (Row table) := do
  let uuid ← column (env.parseUuid id)
  let org ← match orgId with
    | none => pure none
    | some orgId => some <$> orgColumn env orgId
  let rows ← query (.update table (byIdInOrg table uuid org) change)
  requireRow resource id rows.head?

/-- Newest first. -/
def newestFirst {α : Type} (createdAt : α → OffsetDateTime) (rows : List α) : List α :=
  rows.insertionSort fun first second => createdAt second ≤ createdAt first

/-- Insert a row. -/
def insertInto (table : TableName) (values : Values table) : Effect (Row table) :=
  query (.insert table values)

/-- An organization's rows. -/
def selectOf (table : TableName) (orgId : OrgId) (keep : Row table → Bool) :
    Effect (List (Row table)) :=
  query (.select table fun row => (core table row).holder = .org orgId ∧ keep row)

/-! ### Organizations and agents -/

/-- A tenant, as the API returns it. -/
structure Organization where
  id : String
  slug : String
  name : String
  defaultCurrency : String

/-- The record of a row. -/
def toOrganization (row : OrganizationRow) : Organization :=
  ⟨row.id.toString, row.slug, row.name, row.defaultCurrency⟩

/-- Create a tenant. Only the platform may, which the route checks. -/
def createOrganization (input : NewOrganization) : Effect Organization :=
  toOrganization <$> insertInto .organizations input

/-- All tenants, for the platform. -/
def listOrganizations : Effect (List Organization) :=
  List.map toOrganization <$> query (.select .organizations fun _ => true)

/-- A workload of an organization, known by a key of the caller's choice. -/
structure Agent where
  id : String
  orgId : String
  key : String
  name : String

/-- What `createAgent` is given, the organization as a text. -/
structure NewAgent where
  orgId : String
  key : String
  name : String

/-- The record of a row. -/
def toAgent (row : AgentRow) : Agent := ⟨row.id.toString, row.orgId.toString, row.key, row.name⟩

/-- Register a workload. A key is used once in an organization. -/
def createAgent (input : NewAgent) : Effect Agent := do
  let orgId ← orgColumn env input.orgId
  toAgent <$> insertInto .agents ⟨orgId, input.key, input.name⟩

/-- The workloads of an organization, in the order of the database. -/
def listAgents (orgId : String) : Effect (List Agent) := do
  let org ← orgColumn env orgId
  List.map toAgent <$> selectOf .agents org fun _ => true

/-! ### API keys -/

/-- A key without its token. Unknown stored roles and scopes are coerced. -/
structure ApiKey where
  id : String
  orgId : String
  name : String
  role : String
  scope : Scope
  keyPrefix : String
  createdAt : String
  lastUsedAt : Option String
  revokedAt : Option String

/-- A freshly created key: the only time the plaintext token is available. -/
structure CreatedApiKey extends ApiKey where
  token : String

/-- What `createApiKey` is given. Without a role a key is an admin's, without a scope its
organization's. -/
structure NewApiKey where
  orgId : String
  name : String
  role : Option String
  scope : Option Scope

/-- The record of a row, which leaves the hash out. -/
def toApiKey (row : ApiKeyRow) : ApiKey where
  id := row.id.toString
  orgId := row.orgId.toString
  name := row.name
  role := toRole row.role
  scope := toScope row.scope
  keyPrefix := row.keyPrefix
  createdAt := env.isoString row.createdAt
  lastUsedAt := row.lastUsedAt.map env.isoString
  revokedAt := row.revokedAt.map env.isoString

/-- Mint a key. Only the hash of its token is persisted. -/
def createApiKey (input : NewApiKey) : Effect CreatedApiKey := do
  let random ← call .random
  let token := "mk_" ++ random
  let orgId ← orgColumn env input.orgId
  let row ← insertInto .apiKeys
    { orgId, name := input.name, role := input.role.getD "admin",
      scope := (input.scope.getD .org).text, keyPrefix := String.ofList (token.toList.take 11),
      tokenHash := env.hashToken token }
  return { toApiKey env row with token }

/-- An organization's keys, never their tokens or hashes. -/
def listApiKeys (orgId : String) : Effect (List ApiKey) := do
  let org ← orgColumn env orgId
  let rows ← selectOf .apiKeys org fun _ => true
  return (newestFirst ApiKeyRow.createdAt rows).map (toApiKey env)

/-- Revoke a key, of one organization if that is given. Revoking again moves the time. -/
def revokeApiKey (id : String) (orgId : Option String) (now : Date) : Effect ApiKey :=
  toApiKey env <$> updateById env .apiKeys "api_key" id orgId (.revokedAt now.instant)

/-- Resolve a presented token to its principal, or nothing if it is unknown or revoked. -/
def verifyApiKey (token : String) : Effect (Option Principal) := do
  let rows ← query (.select .apiKeys fun row =>
    row.tokenHash = env.hashToken token ∧ row.revokedAt.isNone)
  match rows.head? with
  | none => return none
  | some row =>
    let now ← call .now
    let _ ← query (.update .apiKeys (fun other => other.id = row.id) (.lastUsedAt now.instant))
    return some { orgId := row.orgId.toString, role := toRole row.role, scope := toScope row.scope }

/-! ### Notifications -/

/-- A notification, as the API and the webhooks see it. -/
structure Notification where
  id : String
  orgId : String
  type : String
  severity : String
  title : String
  body : String
  data : Json
  status : String
  createdAt : String
  readAt : Option String
  ackedAt : Option String

/-- The record of a row. -/
def toNotification (row : NotificationRow) : Notification where
  id := row.id.toString
  orgId := row.orgId.toString
  type := row.type
  severity := row.severity
  title := row.title
  body := row.body
  data := row.data
  status := row.status
  createdAt := env.isoString row.createdAt
  readAt := row.readAt.map env.isoString
  ackedAt := row.ackedAt.map env.isoString

/-- Raise a notification. -/
def createNotification (input : NewNotification) : Effect Notification :=
  toNotification env <$> insertInto .notifications input

/-- An organization's notifications, newest first, of one status if that is given. -/
def listNotifications (orgId : String) (status : Option String) : Effect (List Notification) := do
  let org ← orgColumn env orgId
  let rows ← selectOf .notifications org fun row => ∀ wanted ∈ status, row.status = wanted
  return (newestFirst NotificationRow.createdAt rows).map (toNotification env)

/-- Mark a notification as read, whatever its status was. -/
def markNotificationRead (id : String) (orgId : Option String) (now : Date) : Effect Notification :=
  toNotification env <$> updateById env .notifications "notification" id orgId (.read now.instant)

/-- Acknowledge a notification, which also marks it as read. -/
def ackNotification (id : String) (orgId : Option String) (now : Date) : Effect Notification :=
  toNotification env <$> updateById env .notifications "notification" id orgId (.acked now.instant)

/-! ### Alert rules -/

/-- An alert rule, as the API returns it. -/
structure AlertRule where
  id : String
  orgId : String
  name : String
  scope : String
  metric : String
  threshold : String
  action : String
  enabled : Bool
  accountId : Option String
  creditLimit : Option String
  windowDays : Int
  lastStatus : Option String
  createdAt : String

/-- A number is given by its text, as `String` prints it. -/
structure NewAlertRule where
  orgId : String
  name : String
  scope : String
  metric : String
  threshold : String
  action : String
  enabled : Option Bool
  accountId : Option String
  creditLimit : Option String
  windowDays : Option String

/-- The record of a row. -/
def toAlertRule (row : AlertRuleRow) : AlertRule where
  id := row.id.toString
  orgId := row.orgId.toString
  name := row.name
  scope := row.scope
  metric := row.metric
  threshold := row.threshold
  action := row.action
  enabled := row.enabled
  accountId := row.accountId.map Id.toString
  creditLimit := row.creditLimit
  windowDays := row.windowDays
  lastStatus := row.lastStatus
  createdAt := env.isoString row.createdAt

/-- A rule that names an account and a limit. Others are not evaluated. -/
def toEvaluable (row : AlertRuleRow) : Option EvaluableRule := do
  let accountId ← row.accountId
  let creditLimit ← row.creditLimit
  return ⟨row.id, row.orgId, row.name, accountId, creditLimit, row.windowDays, row.lastStatus⟩

/-- A column that may be null. -/
def nullable {α : Type} (convert : String → Option α) : Option String → Effect (Option α)
  | none => return none
  | some text => some <$> column (convert text)

/-- Create a rule. The account is any id: that it is the organization's own is not checked. -/
def createAlertRule (input : NewAlertRule) : Effect AlertRule := do
  let orgId ← orgColumn env input.orgId
  let threshold ← column (env.numeric input.threshold)
  let accountId ← nullable (fun text => (env.parseUuid text).map Id.mk) input.accountId
  let creditLimit ← nullable env.numeric input.creditLimit
  let windowDays ← column (env.integer (input.windowDays.getD "30"))
  toAlertRule env <$> insertInto .alertRules
    { orgId, name := input.name, scope := input.scope, metric := input.metric, threshold,
      action := input.action, enabled := input.enabled.getD true, accountId, creditLimit, windowDays }

/-- An organization's rules, newest first. -/
def listAlertRules (orgId : String) : Effect (List AlertRule) := do
  let org ← orgColumn env orgId
  let rows ← selectOf .alertRules org fun _ => true
  return (newestFirst AlertRuleRow.createdAt rows).map (toAlertRule env)

/-- Switch a rule on or off. -/
def setAlertRuleEnabled (id : String) (orgId : Option String) (enabled : Bool) : Effect AlertRule :=
  toAlertRule env <$> updateById env .alertRules "alert_rule" id orgId (.ruleEnabled enabled)

/-- Enabled budget rules with an account and a credit limit to evaluate. -/
def evaluableRules (orgId : String) : Effect (List EvaluableRule) := do
  let org ← orgColumn env orgId
  let rows ← selectOf .alertRules org fun row => row.metric = "budget"
  return (rows.filter AlertRuleRow.enabled).filterMap toEvaluable

/-- Record the most recent classification. -/
def setAlertRuleStatus (id : Uuid) (status : String) : Effect Unit := do
  let _ ← query (.update .alertRules (fun row => row.id = id) (.lastStatus status))

/-! ### Webhooks -/

/-- An endpoint without its secret. -/
structure Webhook where
  id : String
  orgId : String
  url : String
  eventTypes : List String
  enabled : Bool
  createdAt : String

/-- What `createWebhook` is given. Without event types an endpoint gets every event. -/
structure NewWebhook where
  orgId : String
  url : String
  secret : String
  eventTypes : Option (List String)

/-- A record of the delivery log, as the API returns it. -/
structure WebhookDelivery where
  id : String
  webhookId : String
  notificationId : Option String
  event : String
  payload : Json
  status : String
  responseStatus : Option Nat
  error : Option String
  attempts : Nat
  createdAt : String

/-- The record of a row, which leaves the secret out. -/
def toWebhook (row : WebhookRow) : Webhook where
  id := row.id.toString
  orgId := row.orgId.toString
  url := row.url
  eventTypes := row.eventTypes
  enabled := row.enabled
  createdAt := env.isoString row.createdAt

/-- The record of a row. -/
def toDelivery (row : DeliveryRow) : WebhookDelivery where
  id := row.id.toString
  webhookId := row.webhookId.toString
  notificationId := row.notificationId.map Uuid.toString
  event := row.event
  payload := row.payload
  status := row.status
  responseStatus := row.responseStatus
  error := row.error
  attempts := row.attempts
  createdAt := env.isoString row.createdAt

/-- Register an endpoint. Its secret is stored but never returned. -/
def createWebhook (input : NewWebhook) : Effect Webhook := do
  let orgId ← orgColumn env input.orgId
  toWebhook env <$> insertInto .webhooks
    ⟨orgId, input.url, input.secret, input.eventTypes.getD []⟩

/-- An organization's endpoints, newest first. -/
def listWebhooks (orgId : String) : Effect (List Webhook) := do
  let org ← orgColumn env orgId
  let rows ← selectOf .webhooks org fun _ => true
  return (newestFirst WebhookRow.createdAt rows).map (toWebhook env)

/-- The enabled endpoints with their secrets, for the dispatcher. -/
def enabledWebhooks (orgId : String) : Effect (List WebhookRow) := do
  let org ← orgColumn env orgId
  List.filter WebhookRow.enabled <$> selectOf .webhooks org fun _ => true

/-- Switch an endpoint on or off. -/
def setWebhookEnabled (id : String) (orgId : Option String) (enabled : Bool) : Effect Webhook :=
  toWebhook env <$> updateById env .webhooks "webhook" id orgId (.webhookEnabled enabled)

/-- Record the outcome of a delivery. -/
def recordDelivery (delivery : RecordDelivery) : Effect WebhookDelivery :=
  toDelivery env <$> insertInto .webhookDeliveries delivery

/-- An organization's delivery log. -/
def listDeliveries (orgId : String) : Effect (List WebhookDelivery) := do
  let org ← orgColumn env orgId
  let rows ← query (.deliveries org)
  return (newestFirst DeliveryRow.createdAt rows).map (toDelivery env)

end

end Meter.ControlPlane
