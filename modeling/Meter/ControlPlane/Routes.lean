/-
**Alert evaluation, webhook dispatch and the routes** (`alerts/evaluate.ts`, `webhooks/dispatch.ts`,
`http/auth.ts`, `http/errors.ts`, `http/routes/*.ts`).

Evaluations of rules and deliveries to endpoints run concurrently (`interleave`). A defect, which only
a window that reaches beyond every date causes, ends all of them and the request.

* `dispatch` — what a route does for a caller. Which route a request is for, and whether its
  parameters and its body decode, is up to the router (`Endpoint`).
* `serve` — a request with authentication on.
-/

import Meter.ControlPlane.Repositories

namespace Meter.ControlPlane

open Meter.Lib

/-! ### Webhook dispatch -/

/-- A response that is not a success, or no response. -/
structure DeliveryFailed where
  responseStatus : Option Nat
  message : String

/-- Retry only transient failures: no response, or a 5xx. -/
def isRetryable (failure : DeliveryFailed) : Bool :=
  failure.responseStatus.all fun status => 500 ≤ status

def maxRetries : Nat := 2

/-- An empty list of event types means all events. -/
def matchesEvent (eventTypes : List String) (type : String) : Bool :=
  eventTypes = [] ∨ type ∈ eventTypes

/-- The delivered body. -/
def buildBody (notification : Notification) : Json :=
  .object [("event", .string notification.type), ("notification", .object [
    ("id", .string notification.id), ("orgId", .string notification.orgId),
    ("type", .string notification.type), ("severity", .string notification.severity),
    ("title", .string notification.title), ("body", .string notification.body),
    ("data", notification.data), ("createdAt", .string notification.createdAt)])]

def toOutcome : Reply → Except DeliveryFailed Nat
  | .response status =>
    if 200 ≤ status ∧ status < 300 then .ok status
    else .error ⟨some status, "endpoint responded " ++ toString status⟩
  | .failure message => .error ⟨none, message⟩

/-- Send, and retry while that may help. Answers the outcome and the number of attempts. -/
def send (post : Post) : Nat → Nat → Prog Stmt (Except DeliveryFailed Nat × Nat)
  | 0, tries => .stmt (.post post) fun reply => .done (toOutcome reply, tries + 1)
  | retries + 1, tries => .stmt (.post post) fun reply =>
    match toOutcome reply with
    | .ok status => .done (.ok status, tries + 1)
    | .error failure =>
      if isRetryable failure then send post retries (tries + 1)
      else .done (.error failure, tries + 1)

section

variable (env : Env)

/-- What is recorded of a delivery. -/
def deliveryRecord (webhook : WebhookRow) (notification : Notification) (notificationId : Uuid) :
    Except DeliveryFailed Nat × Nat → RecordDelivery
  | (.ok status, attempts) => ⟨webhook.id, some notificationId, notification.type,
      buildBody notification, "delivered", some status, none, attempts⟩
  | (.error failure, attempts) => ⟨webhook.id, some notificationId, notification.type,
      buildBody notification, "failed", failure.responseStatus, some failure.message, attempts⟩

/-- Deliver to one endpoint. What the delivery log does with it is ignored. -/
def deliver (webhook : WebhookRow) (notification : Notification) : Prog Stmt (Option Unit) := do
  let body := env.stringify (buildBody notification)
  let outcome ← send ⟨webhook.url, notification.type, env.signPayload webhook.secret body, body⟩
    maxRetries 0
  let _ ← ExceptT.run do
    let notificationId ← column (env.parseUuid notification.id)
    recordDelivery env (deliveryRecord webhook notification notificationId outcome)
  return some ()

/-- Deliver a notification to every matching enabled webhook of its organization. -/
def dispatchForNotification (notification : Notification) : Prog Stmt (Option Unit) := do
  match ← (enabledWebhooks env notification.orgId).run with
  | .error _ => return some ()
  | .ok hooks =>
    let turns ← Prog.issue .turns
    let delivered ← interleave turns
      ((hooks.filter fun hook => matchesEvent hook.eventTypes notification.type).map fun hook =>
        deliver env hook notification)
    return delivered.map fun _ => ()

/-! ### Evaluation -/

structure EvaluationSummary where
  evaluated : Nat
  raised : Nat
  deriving DecidableEq

def dayMs : Int := 86400000

/-- Record a status. Answers how many notifications were raised. -/
def persist (rule : EvaluableRule) (budget : BudgetStatus) (raised : Nat) :
    Prog Stmt (Option Nat) := do
  match ← (setAlertRuleStatus rule.id budget.status.text).run with
  | .error _ => return some 0
  | .ok _ => return some raised

/-- Evaluate one rule. A failure counts as nothing raised, and `toISOString` of an invalid date is a
defect. -/
def processRule (rule : EvaluableRule) (now : Date) : Prog Stmt (Option Nat) := do
  let some start := Date.ofMillis (now.millis - rule.windowDays * dayMs) | return none
  let some budget ← Prog.issue (.budget ⟨rule.accountId, rule.creditLimit, start, now⟩)
    | return some 0
  if isEscalation budget.status.text rule.previous then
    match ← (createNotification env (rule.notification budget)).run with
    | .error _ => return some 0
    | .ok notification =>
      let some _ ← dispatchForNotification env notification | return none
      persist rule budget 1
  else persist rule budget 0

/-- Evaluate every budget rule of an organization. -/
def evaluateOrgAlertRules (orgId : String) (now : Date) : Prog Stmt (Option EvaluationSummary) := do
  match ← (evaluableRules env orgId).run with
  | .error _ => return some ⟨0, 0⟩
  | .ok rules =>
    let turns ← Prog.issue .turns
    let raised ← interleave turns (rules.map fun rule => processRule env rule now)
    return raised.map fun counts => ⟨rules.length, counts.sum⟩

/-! ### Responses -/

/-- The body of a response. -/
inductive Payload where
  | empty
  | error (code : String)
  | notFound (resource id : String)
  | invalid (detail : String)
  | health (status : String)
  | ready (status : String) (database : Bool)
  | document
  | organizations (items : List Organization)
  | organization (item : Organization)
  | agents (items : List Agent)
  | agent (item : Agent)
  | alertRules (items : List AlertRule)
  | alertRule (item : AlertRule)
  | summary (summary : EvaluationSummary)
  | apiKeys (items : List ApiKey)
  | createdApiKey (item : CreatedApiKey)
  | apiKey (item : ApiKey)
  | notifications (items : List Notification)
  | notification (item : Notification)
  | webhooks (items : List Webhook)
  | webhook (item : Webhook)
  | deliveries (items : List WebhookDelivery)

structure Response where
  status : Nat
  payload : Payload

/-- A caller acting outside its tenant. -/
def forbidden : Response := ⟨403, .error "forbidden"⟩

def unauthorized : Response := ⟨401, .error "unauthorized"⟩

def serverError : Response := ⟨500, .error "internal"⟩

/-- What the server answers to a defect, and to a request that no route matches. -/
def defect : Response := ⟨500, .empty⟩

def routeNotFound : Response := ⟨404, .empty⟩

def errorResponse : AppError → Response
  | .repoError => serverError
  | .notFound resource id => ⟨404, .notFound resource id⟩
  | .parseError message => ⟨400, .invalid message⟩
  | .requestError => ⟨400, .error "invalid_request"⟩

/-- Run a handler, turning a failure into a response. -/
def handle (handler : Effect Response) : Prog Stmt Response := do
  match ← handler.run with
  | .ok response => return response
  | .error error => return errorResponse error

/-! ### Endpoints -/

/-- The body of a request that mints a key. -/
structure NewApiKeyBody where
  orgId : String
  name : String
  role : Option String
  scope : Option Scope

structure NewNotificationBody where
  orgId : String
  type : String
  severity : String
  title : String
  body : Option String
  data : Option Json

/-- The parameters of the list of notifications. -/
structure ListQuery where
  orgId : String
  status : Option String

/-- What the schemas make of a request: a value, or why it is invalid. -/
abbrev Decoded (α : Type) := Except AppError α

/-- The route that a request is for, with what it decodes. -/
inductive Endpoint where
  | notFound
  | health
  | ready
  | openApi
  | listOrganizations
  | createOrganization (body : Decoded NewOrganization)
  | listAgents (orgId : Decoded String)
  | createAgent (body : Decoded NewAgent)
  | listNotifications (query : Decoded ListQuery)
  | createNotification (body : Decoded NewNotificationBody)
  | readNotification (id : Decoded String)
  | ackNotification (id : Decoded String)
  | listAlertRules (orgId : Decoded String)
  | createAlertRule (body : Decoded NewAlertRule)
  | evaluateAlertRules (orgId : Decoded String)
  | enableAlertRule (id : Decoded String) (enabled : Decoded Bool)
  | listWebhooks (orgId : Decoded String)
  | createWebhook (body : Decoded NewWebhook)
  | enableWebhook (id : Decoded String) (enabled : Decoded Bool)
  | listDeliveries (orgId : Decoded String)
  | listApiKeys (orgId : Decoded String)
  | createApiKey (body : Decoded NewApiKeyBody)
  | revokeApiKey (id : Decoded String)

/-- What a schema decoded. -/
def decoded {α : Type} (value : Decoded α) : Effect α := ExceptT.mk (.done value)

/-- Answer in the organization that a request names, if its caller may act there. -/
def inOrg (principal : Option Principal) (requestedOrgId : String)
    (answer : String → Effect Response) : Effect Response :=
  match authorizeOrg principal requestedOrgId with
  | none => return forbidden
  | some orgId => answer orgId

/-- A route that lists rows of an organization. -/
def listRoute {α : Type} (principal : Option Principal) (orgId : Decoded String)
    (list : String → Effect (List α)) (payload : List α → Payload) : Effect Response := do
  let requested ← decoded orgId
  inOrg principal requested fun orgId => do return ⟨200, payload (← list orgId)⟩

/-- A route that updates a row by its id. -/
def updateRoute {α : Type} (id : Decoded String) (update : String → Effect α)
    (payload : α → Payload) : Effect Response := do
  return ⟨200, payload (← update (← decoded id))⟩

/-- A program that may end in a defect. -/
def orDefect {α : Type} (program : Prog Stmt (Option α)) (answer : α → Response) :
    Effect Response := do
  match ← ExceptT.lift program with
  | none => return defect
  | some value => return answer value

/-- What a route does for a caller. -/
def dispatch (principal : Option Principal) : Endpoint → Effect Response
  | .notFound => return routeNotFound
  | .health => return ⟨200, .health "ok"⟩
  | .ready => do
    if ← call .probe then return ⟨200, .ready "ok" true⟩
    else return ⟨503, .ready "unavailable" false⟩
  | .openApi => return ⟨200, .document⟩
  | .listOrganizations => do
    if !canManagePlatform principal then return forbidden
    else return ⟨200, .organizations (← ControlPlane.listOrganizations)⟩
  | .createOrganization body => do
    if !canManagePlatform principal then return forbidden
    else return ⟨201, .organization (← ControlPlane.createOrganization (← decoded body))⟩
  | .listAgents orgId => listRoute principal orgId (ControlPlane.listAgents env) .agents
  | .createAgent body => do
    let body ← decoded body
    inOrg principal body.orgId fun orgId => do
      return ⟨201, .agent (← ControlPlane.createAgent env { body with orgId })⟩
  | .listNotifications query => do
    let query ← decoded query
    listRoute principal (.ok query.orgId)
      (fun orgId => ControlPlane.listNotifications env orgId query.status) .notifications
  | .createNotification body => do
    let body ← decoded body
    inOrg principal body.orgId fun orgId => do
      let orgId ← orgColumn env orgId
      let notification ← ControlPlane.createNotification env
        ⟨orgId, body.type, body.severity, body.title, body.body, body.data⟩
      orDefect (dispatchForNotification env notification) fun _ => ⟨201, .notification notification⟩
  | .readNotification id =>
    updateRoute id (fun id => do
      markNotificationRead env id (orgScope principal) (← call .now)) .notification
  | .ackNotification id =>
    updateRoute id (fun id => do
      ControlPlane.ackNotification env id (orgScope principal) (← call .now)) .notification
  | .listAlertRules orgId => listRoute principal orgId (ControlPlane.listAlertRules env) .alertRules
  | .createAlertRule body => do
    let body ← decoded body
    inOrg principal body.orgId fun orgId => do
      return ⟨201, .alertRule (← ControlPlane.createAlertRule env { body with orgId })⟩
  | .evaluateAlertRules orgId => do
    let requested ← decoded orgId
    inOrg principal requested fun orgId => do
      let now ← call .now
      orDefect (evaluateOrgAlertRules env orgId now) fun summary => ⟨200, .summary summary⟩
  | .enableAlertRule id enabled =>
    updateRoute id (fun id => do
      setAlertRuleEnabled env id (orgScope principal) (← decoded enabled)) .alertRule
  | .listWebhooks orgId => listRoute principal orgId (ControlPlane.listWebhooks env) .webhooks
  | .createWebhook body => do
    let body ← decoded body
    inOrg principal body.orgId fun orgId => do
      return ⟨201, .webhook (← ControlPlane.createWebhook env { body with orgId })⟩
  | .enableWebhook id enabled =>
    updateRoute id (fun id => do
      setWebhookEnabled env id (orgScope principal) (← decoded enabled)) .webhook
  | .listDeliveries orgId => listRoute principal orgId (ControlPlane.listDeliveries env) .deliveries
  | .listApiKeys orgId => listRoute principal orgId (ControlPlane.listApiKeys env) .apiKeys
  | .createApiKey body => do
    let body ← decoded body
    inOrg principal body.orgId fun orgId => do
      let scope := body.scope.getD .org
      if !canMintScope principal scope then return forbidden
      else
        let created ← ControlPlane.createApiKey env ⟨orgId, body.name, body.role, some scope⟩
        return ⟨201, .createdApiKey created⟩
  | .revokeApiKey id =>
    updateRoute id (fun id => do
      ControlPlane.revokeApiKey env id (orgScope principal) (← call .now)) .apiKey

/-! ### Authentication -/

/-- A request, as far as the middleware reads it. -/
structure Request where
  method : String
  url : String
  authorization : Option String
  body : String

def isExempt (url : String) : Bool := url = "/health" ∨ startsWith "/health?" url

/-- What `trim` removes. -/
def isSpace (char : Char) : Bool :=
  (9 ≤ char.toNat ∧ char.toNat ≤ 13) ∨ (0x2000 ≤ char.toNat ∧ char.toNat ≤ 0x200a) ∨
    char.toNat ∈ [0x20, 0xa0, 0x1680, 0x2028, 0x2029, 0x202f, 0x205f, 0x3000, 0xfeff]

def trim (text : List Char) : List Char :=
  ((text.dropWhile isSpace).reverse.dropWhile isSpace).reverse

/-- The token of an `Authorization: Bearer` header. -/
def bearerToken (authorization : Option String) : Option String := do
  let header ← authorization
  guard ((header.toList.take 7).map Char.toLower = "bearer ".toList)
  let token := trim (header.toList.drop 7)
  guard (token ≠ [])
  return String.ofList token

/-- Require a valid key on every request except `/health`. -/
def requireApiKey (request : Request) (app : Option Principal → Prog Stmt Response) :
    Prog Stmt Response :=
  if isExempt request.url then app none
  else match bearerToken request.authorization with
    | none => return unauthorized
    | some token => do
      match ← (verifyApiKey env token).run with
      | .error _ => return serverError
      | .ok none => return unauthorized
      | .ok (some principal) =>
        if roleSatisfies principal.role (requiredRole request.method request.url) then
          app (some principal)
        else return ⟨403, .error "forbidden"⟩

/-- **A request, with authentication on.** -/
def serve (route : Request → Endpoint) (request : Request) : Prog Stmt Response :=
  requireApiKey env request fun principal => handle (dispatch env principal (route request))

end

end Meter.ControlPlane
