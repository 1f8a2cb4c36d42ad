/-
**What the dispatch of a notification sends and records** (`webhooks/dispatch.ts`).

The deliveries run concurrently, every attempt may fail, and every write of the delivery log may be
refused or its answer lost. A `Delivery` is an endpoint with the replies to all attempts.

* `Delivery.Policy` — at most `maxRetries` retries, each after a transient failure, and no transient
  failure is final while a retry is left.
* `trace_send`, `trace_deliver` — one delivery, read off its program.
* `dispatch_delivers` — **one delivery to each enabled endpoint that wants the event and to nobody
  else, signed with the endpoint's own secret; the log gets at most one record of each, and a record
  says what the delivery came to. The caller never fails.**
-/

import Meter.ControlPlane.Tenancy
import Meter.ControlPlane.Routes
import Meter.Lib.Trace

namespace Meter.ControlPlane

open Meter.Lib

/-! ### Deliveries -/

/-- A reply after which a retry may help. -/
def Reply.transient (reply : Reply) : Bool :=
  match toOutcome reply with
  | .ok _ => false
  | .error failed => isRetryable failed

/-- A delivery to an endpoint: the replies that led to a retry, and the last one. -/
structure Delivery where
  hook : WebhookRow
  retried : List Reply
  final : Reply

namespace Delivery

def attempts (delivery : Delivery) : Nat := delivery.retried.length + 1

/-- **When a delivery is retried**: after transient failures, as long as retries are left. -/
structure Policy (delivery : Delivery) (retries : Nat) : Prop where
  bounded : delivery.retried.length ≤ retries
  transient : ∀ reply ∈ delivery.retried, reply.transient = true
  settled : delivery.retried.length < retries → delivery.final.transient = false

variable (env : Env) (notification : Notification) (delivery : Delivery)

/-- What every attempt sends, signed with the endpoint's own secret. -/
def post : Post :=
  let body := env.stringify (buildBody notification)
  ⟨delivery.hook.url, notification.type, env.signPayload delivery.hook.secret body, body⟩

/-- The record of a delivery, if the notification's id is one. -/
def record : Option RecordDelivery := (env.parseUuid notification.id).map fun id =>
  deliveryRecord delivery.hook notification id (toOutcome delivery.final, delivery.attempts)

variable {env notification} in
theorem record_hook {record : RecordDelivery} (made : delivery.record env notification = some record) :
    record.webhookId = delivery.hook.id := by
  obtain ⟨id, _, rfl⟩ := Option.map_eq_some_iff.mp made
  unfold deliveryRecord
  split <;> rfl

end Delivery

/-- The endpoints that a notification is for. -/
def World.endpoints (world : World) (org : OrgId) (type : String) : List WebhookRow :=
  (world.db .webhooks).filter fun hook =>
    hook.orgId = org ∧ hook.enabled = true ∧ matchesEvent hook.eventTypes type = true

/-- A row of the log without its generated columns. -/
def DeliveryRow.recorded (row : DeliveryRow) : RecordDelivery :=
  ⟨row.webhookId, row.notificationId, row.event, row.payload, row.status, row.responseStatus,
    row.error, row.attempts⟩

/-! ### What a statement adds -/

/-- The delivery attempt that a statement is. -/
def postsOf : Event Stmt → List Post
  | ⟨_, .post post, _⟩ => [post]
  | _ => []

/-- The record that a statement inserts into the log. -/
def recordsOf : Event Stmt → List RecordDelivery
  | ⟨_, .insert .webhookDeliveries values, _⟩ => [values]
  | _ => []

/-- A statement of a delivery: it writes the delivery log at most, and does not ask the engine. -/
def Logging : Event Stmt → Prop
  | ⟨_, .insert table _, _⟩ => table = .webhookDeliveries
  | ⟨_, .update _ _ _, _⟩ => False
  | ⟨_, .budget _, _⟩ => False
  | _ => True

section

variable {env : Env} {nature : Nature} {world last : World} {events : List (Event Stmt)}

theorem follows_posts (follows : (machine env nature).Follows events world last) :
    last.posts = world.posts ++ events.flatMap postsOf := by
  have step : ∀ {α : Type} (statement : Stmt α) (w : World), ∃ new,
      new = postsOf ⟨_, statement, (exec env nature statement w).1⟩ ∧
        (exec env nature statement w).2.posts = w.posts ++ new := by
    intro α statement w
    refine ⟨_, rfl, ?_⟩
    cases statement with
    | insert table values =>
      rw [exec]
      split
      · unfold Draw.write
        split <;> exact (List.append_nil _).symm
      · exact (List.append_nil _).symm
    | update table keep change =>
      rw [exec, Draw.write]
      split <;> exact (List.append_nil _).symm
    | post post => rfl
    | _ => exact (List.append_nil _).symm
  obtain ⟨news, added, grown⟩ := follows.log World.posts (fun event new => new = postsOf event) step
  have same : news = events.map postsOf := by
    clear grown follows
    induction added with
    | nil => rfl
    | cons one _ ih => rw [one, ih, List.map_cons]
  rw [grown, same, List.flatMap_def]

theorem follows_log (follows : (machine env nature).Follows events world last) :
    ∃ rows, last.db .webhookDeliveries = world.db .webhookDeliveries ++ rows ∧
      List.Sublist (rows.map DeliveryRow.recorded) (events.flatMap recordsOf) := by
  have step : ∀ {α : Type} (statement : Stmt α) (w : World), ∃ new : List DeliveryRow,
      List.Sublist (new.map DeliveryRow.recorded)
          (recordsOf ⟨_, statement, (exec env nature statement w).1⟩) ∧
        (exec env nature statement w).2.db .webhookDeliveries =
          w.db .webhookDeliveries ++ new := by
    intro α statement w
    have wrote := exec_wrote env nature statement w
    generalize (exec env nature statement w).1 = answer
    generalize (exec env nature statement w).2 = w' at wrote ⊢
    cases wrote with
    | quiet posts => exact ⟨[], List.nil_sublist _, (List.append_nil _).symm⟩
    | @inserted table values row same _ _ =>
      by_cases log : table = .webhookDeliveries
      · subst log
        refine ⟨[row], ?_, w.db.rows_insert_self row⟩
        rw [same]
        exact .refl _
      · exact ⟨[], List.nil_sublist _,
          (w.db.rows_insert_ne row (Ne.symm log)).trans (List.append_nil _).symm⟩
    | @updated table keep change =>
      have different : TableName.webhookDeliveries ≠ table := by
        rintro rfl
        cases change
      exact ⟨[], List.nil_sublist _,
        (w.db.rows_update_ne keep change different).trans (List.append_nil _).symm⟩
  obtain ⟨news, added, grown⟩ := follows.log (fun w => w.db .webhookDeliveries)
    (fun event rows => List.Sublist (rows.map DeliveryRow.recorded) (recordsOf event)) step
  refine ⟨news.flatten, grown, ?_⟩
  clear grown follows
  induction added with
  | nil => exact .slnil
  | cons one _ ih =>
    rw [List.flatten_cons, List.map_append, List.flatMap_cons]
    exact one.append ih

/-- The other tables stay as they are. -/
theorem follows_logging (follows : (machine env nature).Follows events world last)
    (logging : ∀ event ∈ events, Logging event) {table : TableName}
    (other : table ≠ .webhookDeliveries) : last.db table = world.db table := by
  induction events generalizing world with
  | nil => rw [follows]
  | cons event events ih =>
    obtain ⟨β, statement, answer⟩ := event
    obtain ⟨_, follows⟩ := follows
    rw [ih follows fun event member => logging event (List.mem_cons_of_mem _ member)]
    have one := logging _ List.mem_cons_self
    have wrote := exec_wrote env nature statement world
    show (exec env nature statement world).2.db table = _
    generalize (exec env nature statement world).2 = w at wrote ⊢
    cases wrote with
    | quiet posts => rfl
    | inserted same _ _ =>
      obtain rfl : _ = TableName.webhookDeliveries := one
      exact world.db.rows_insert_ne _ other
    | updated => exact one.elim

/-! ### A log that accepts every record -/

/-- From here on no write is refused, and the generated ids are new. -/
structure Accepting (nature : Nature) (world : World) : Prop where
  performed : ∀ n, world.draws ≤ n → (nature n).fate ≠ .refused
  unused : ∀ n, world.draws ≤ n → ∀ row ∈ world.db .webhookDeliveries, row.id ≠ (nature n).id
  distinct : ∀ m n, (nature m).id = (nature n).id → m = n

/-- The endpoint of every inserted record exists. -/
def Known (world : World) (event : Event Stmt) : Prop :=
  ∀ record ∈ recordsOf event, record.webhookId ∈ (world.db .webhooks).map WebhookRow.id

/-- **A statement of a delivery, where the log accepts every record**: its record is there. -/
theorem Accepting.keeps (env : Env) (accepting : Accepting nature world) {α : Type} {statement : Stmt α}
    {answer : α} (logging : Logging ⟨_, statement, answer⟩)
    (known : Known world ⟨_, statement, answer⟩) :
    Accepting nature (exec env nature statement world).2 ∧
      (exec env nature statement world).2.db .webhooks = world.db .webhooks ∧
      ∃ rows, (exec env nature statement world).2.db .webhookDeliveries =
          world.db .webhookDeliveries ++ rows ∧
        rows.map DeliveryRow.recorded = recordsOf ⟨_, statement, answer⟩ := by
  have next : ∀ posts, Accepting nature { world.next with posts } := fun posts =>
    ⟨fun n later => accepting.performed n (Nat.le_of_succ_le later),
      fun n later => accepting.unused n (Nat.le_of_succ_le later), accepting.distinct⟩
  cases statement with
  | insert table values =>
    obtain rfl : table = .webhookDeliveries := logging
    have fate := accepting.performed world.draws le_rfl
    let row : Row .webhookDeliveries :=
      values.row (nature world.draws).id (nature world.draws).createdAt
    have accepted : world.db.accepts row = true := by
      refine decide_eq_true ⟨List.all_eq_true.mpr fun other member => decide_eq_true ?_, ?_⟩
      · obtain ⟨stored, inside, rfl⟩ := List.mem_map.mp member
        exact accepting.unused _ le_rfl stored inside
      · obtain ⟨hook, stored, same⟩ := List.mem_map.mp (known values List.mem_cons_self)
        exact List.any_eq_true.mpr ⟨hook, stored, decide_eq_true same⟩
    have performed : (exec env nature (.insert .webhookDeliveries values) world).2 =
        { world.next with
          db := world.db.insert row
          touched := world.touched ++ [⟨.webhookDeliveries, core .webhookDeliveries row⟩] } := by
      rw [exec]
      dsimp only
      rw [if_pos accepted, Draw.write]
      split
      · rfl
      · rename_i refused
        exact absurd refused fate
      · rfl
    rw [performed]
    have grown := world.db.rows_insert_self row
    have kept : (world.db.insert row) .webhooks = world.db .webhooks :=
      world.db.rows_insert_ne row (by decide)
    refine ⟨⟨(next world.posts).performed, fun n later other member => ?_, accepting.distinct⟩,
      kept, [row], grown, rfl⟩
    have inside : other ∈ (world.db.insert row) .webhookDeliveries := member
    rw [grown] at inside
    rcases List.mem_append.mp inside with old | new
    · exact (next world.posts).unused n later other old
    · intro same
      rw [List.mem_singleton.mp new] at same
      exact absurd (accepting.distinct _ _ same) (Nat.ne_of_lt later)
  | update table keep change => exact logging.elim
  | post post => exact ⟨next _, rfl, [], (List.append_nil _).symm, rfl⟩
  | _ => exact ⟨next world.posts, rfl, [], (List.append_nil _).symm, rfl⟩

/-- **Where the log accepts every record, it has them all.** -/
theorem follows_log_all (follows : (machine env nature).Follows events world last)
    (accepting : Accepting nature world) (logging : ∀ event ∈ events, Logging event)
    (known : ∀ event ∈ events, Known world event) :
    ∃ rows, last.db .webhookDeliveries = world.db .webhookDeliveries ++ rows ∧
      rows.map DeliveryRow.recorded = events.flatMap recordsOf := by
  induction events generalizing world with
  | nil =>
    subst follows
    exact ⟨[], (List.append_nil _).symm, rfl⟩
  | cons event events ih =>
    obtain ⟨β, statement, answer⟩ := event
    obtain ⟨_, follows⟩ := follows
    obtain ⟨accepting', hooks, rows, grown, records⟩ := accepting.keeps env
      (logging _ List.mem_cons_self) (known _ List.mem_cons_self)
    obtain ⟨rows', grown', records'⟩ := ih follows accepting'
      (fun event member => logging event (List.mem_cons_of_mem _ member)) fun event member => by
        have here := known event (List.mem_cons_of_mem _ member)
        unfold Known at here ⊢
        exact hooks.symm ▸ here
    refine ⟨rows ++ rows', ?_, ?_⟩
    · rw [grown', ← List.append_assoc]
      exact congrArg (· ++ rows') grown
    · rw [List.map_append, records, records', List.flatMap_cons]

theorem trace_column {α : Type} {value : Option α} {outcome : Except AppError α} :
    Prog.Trace (column value).run events outcome ↔ events = [] ∧ orRepoError value = outcome := Iff.rfl

theorem trace_query {α : Type} {statement : Stmt (Option α)} {outcome : Except AppError α} :
    Prog.Trace (query statement).run events outcome ↔
      ∃ answer, events = [⟨_, statement, answer⟩] ∧ orRepoError answer = outcome := by
  constructor
  · rintro ⟨answer, _, rfl, rfl, same⟩
    exact ⟨answer, rfl, same⟩
  · rintro ⟨answer, rfl, same⟩
    exact ⟨answer, [], rfl, rfl, same⟩

/-! ### One delivery -/

theorem transient_iff {reply : Reply} : reply.transient = true ↔
    ∃ failed, toOutcome reply = .error failed ∧ isRetryable failed = true := by
  unfold Reply.transient
  cases toOutcome reply with
  | ok status => simp
  | error failed => simp

/-- **The attempts of one delivery**: the post and a reply each time, until a reply is final. -/
theorem trace_send {post : Post} {retries tries : Nat} {outcome : Except DeliveryFailed Nat × Nat}
    (trace : (send post retries tries).Trace events outcome) (hook : WebhookRow) :
    ∃ delivery : Delivery, delivery.hook = hook ∧ delivery.Policy retries ∧
      outcome = (toOutcome delivery.final, tries + delivery.attempts) ∧
      events = (delivery.retried ++ [delivery.final]).map fun reply => ⟨_, .post post, reply⟩ := by
  induction retries generalizing tries events with
  | zero =>
    obtain ⟨reply, _, rfl, rfl, rfl⟩ := trace
    exact ⟨⟨hook, [], reply⟩, rfl, ⟨le_rfl, nofun, nofun⟩, rfl, rfl⟩
  | succ retries ih =>
    obtain ⟨reply, rest, rfl, trace⟩ := trace
    dsimp only at trace
    split at trace
    · rename_i status success
      obtain ⟨rfl, rfl⟩ := trace
      refine ⟨⟨hook, [], reply⟩, rfl, ⟨Nat.zero_le _, nofun, fun _ => ?_⟩, ?_, rfl⟩
      · rw [Reply.transient, success]
      · rw [success]
        rfl
    · rename_i failed failure
      split at trace
      · rename_i retryable
        obtain ⟨delivery, own, policy, rfl, rfl⟩ := ih trace
        refine ⟨⟨hook, reply :: delivery.retried, delivery.final⟩, rfl, ⟨?_, ?_, ?_⟩, ?_, rfl⟩
        · exact Nat.succ_le_succ policy.bounded
        · intro other member
          rcases List.mem_cons.mp member with rfl | member
          · exact transient_iff.mpr ⟨failed, failure, retryable⟩
          · exact policy.transient other member
        · exact fun left => policy.settled (Nat.lt_of_succ_lt_succ left)
        · refine Prod.ext rfl ?_
          show tries + 1 + (delivery.retried.length + 1) = tries + (delivery.retried.length + 1 + 1)
          omega
      · rename_i final
        obtain ⟨rfl, rfl⟩ := trace
        refine ⟨⟨hook, [], reply⟩, rfl, ⟨Nat.zero_le _, nofun, fun _ => ?_⟩, ?_, rfl⟩
        · rw [Reply.transient, failure]
          exact Bool.eq_false_iff.mpr final
        · rw [failure]
          rfl

/-- What attempts add. -/
theorem sent_adds (post : Post) (replies : List Reply) :
    let sent : List (Event Stmt) := replies.map fun reply => ⟨_, .post post, reply⟩
    sent.flatMap postsOf = List.replicate replies.length post ∧ sent.flatMap recordsOf = [] ∧
      ∀ event ∈ sent, Logging event := by
  induction replies with
  | nil => exact ⟨rfl, rfl, fun event member => absurd member List.not_mem_nil⟩
  | cons reply replies ih =>
    obtain ⟨posts, records, logging⟩ := ih
    refine ⟨congrArg (post :: ·) posts, records, fun event member => ?_⟩
    rcases List.mem_cons.mp member with rfl | member
    · trivial
    · exact logging event member

/-- A record is one insert, if the notification's id is one. -/
theorem trace_recording {hook : WebhookRow} {notification : Notification}
    {outcome : Except DeliveryFailed Nat × Nat} {answer : Except AppError WebhookDelivery}
    (trace : Prog.Trace (ExceptT.run (m := Prog Stmt) do
      let notificationId ← column (env.parseUuid notification.id)
      recordDelivery env (deliveryRecord hook notification notificationId outcome)) events answer) :
    events.flatMap postsOf = [] ∧ events.flatMap recordsOf = ((env.parseUuid notification.id).map
      fun id => deliveryRecord hook notification id outcome).toList ∧
        ∀ event ∈ events, Logging event := by
  rcases trace_exceptBind.mp trace with ⟨error, failing, rfl⟩ | ⟨_, id, rest, parsing, inserting, rfl⟩
  · obtain ⟨rfl, failed⟩ := trace_column.mp failing
    cases parsed : env.parseUuid notification.id with
    | none => exact ⟨rfl, rfl, fun event member => absurd member List.not_mem_nil⟩
    | some id =>
      rw [parsed] at failed
      cases failed
  · obtain ⟨rfl, found⟩ := trace_column.mp parsing
    obtain ⟨before, one, rfl⟩ := trace_exceptMap.mp inserting
    obtain ⟨_, rfl, _⟩ := trace_query.mp one
    cases parsed : env.parseUuid notification.id with
    | none =>
      rw [parsed] at found
      cases found
    | some parsed' =>
      rw [parsed] at found
      cases found
      refine ⟨rfl, rfl, fun event member => ?_⟩
      obtain rfl := List.mem_singleton.mp member
      rfl

/-- **One delivery**: its attempts, and one record in the log. -/
theorem trace_deliver {hook : WebhookRow} {notification : Notification} {result : Option Unit}
    (trace : (deliver env hook notification).Trace events result) : result = some () ∧
      ∃ delivery : Delivery, delivery.hook = hook ∧ delivery.Policy maxRetries ∧
        events.flatMap postsOf =
          List.replicate delivery.attempts (delivery.post env notification) ∧
        events.flatMap recordsOf = (delivery.record env notification).toList ∧
        ∀ event ∈ events, Logging event := by
  obtain ⟨sent, outcome, logged, sending, rest, rfl⟩ := trace_bind.mp trace
  obtain ⟨delivery, rfl, policy, rfl, rfl⟩ := trace_send sending hook
  obtain ⟨recorded, answer, last, recording, ⟨rfl, rfl⟩, rfl⟩ := trace_bind.mp rest
  obtain ⟨quiet, records, logging⟩ := trace_recording recording
  obtain ⟨posts, silent, logging'⟩ := sent_adds (delivery.post env notification)
    (delivery.retried ++ [delivery.final])
  rw [List.append_nil]
  refine ⟨rfl, delivery, rfl, policy, ?_, ?_, fun event member => ?_⟩
  · rw [List.flatMap_append, quiet, List.append_nil]
    refine posts.trans ?_
    rw [List.length_append]
    rfl
  · rw [List.flatMap_append, records, Nat.zero_add]
    exact congrArg (· ++ (delivery.record env notification).toList) silent
  · rcases List.mem_append.mp member with sent | recorded
    · exact logging' event sent
    · exact logging event recorded

/-! ### The dispatch -/

/-- The endpoints of the notification's organization can be read. -/
def Listed (env : Env) (nature : Nature) (world : World) (notification : Notification)
    (org : OrgId) : Prop :=
  (env.parseUuid notification.orgId).map Id.mk = some org ∧ (nature world.draws).fate = .done

/-- **What a dispatch does**: deliveries, with what they send and what the log gets of them. -/
structure Dispatched (env : Env) (nature : Nature) (notification : Notification)
    (world last : World) (deliveries : List Delivery) : Prop where
  /-- One delivery to each endpoint, and none if the endpoints cannot be read. -/
  hooks : ∀ org, Listed env nature world notification org →
    (deliveries.map Delivery.hook).Perm (world.endpoints org notification.type)
  nobody : (∀ org, ¬ Listed env nature world notification org) → deliveries = []
  policy : ∀ delivery ∈ deliveries, delivery.Policy maxRetries
  posts : ∃ posts, last.posts = world.posts ++ posts ∧
    posts.Perm (deliveries.flatMap fun delivery =>
      List.replicate delivery.attempts (delivery.post env notification))
  /-- No endpoint is recorded twice, and every record is that of its delivery. -/
  log : ∃ rows, last.db .webhookDeliveries = world.db .webhookDeliveries ++ rows ∧
    List.Subperm (rows.map DeliveryRow.recorded)
      (deliveries.filterMap (Delivery.record env notification))
  /-- Where the log accepts every record, it has them all. -/
  complete : Accepting nature world → ∃ rows,
    last.db .webhookDeliveries = world.db .webhookDeliveries ++ rows ∧
    (rows.map DeliveryRow.recorded).Perm (deliveries.filterMap (Delivery.record env notification))
  others : ∀ table, table ≠ .webhookDeliveries → last.db table = world.db table

theorem dispatched_nobody {notification : Notification}
    (unlisted : ∀ org, ¬ Listed env nature world notification org)
    (posts : last.posts = world.posts) (db : last.db = world.db) :
    Dispatched env nature notification world last [] where
  hooks := fun org listed => absurd listed (unlisted org)
  nobody := fun _ => rfl
  policy := nofun
  posts := ⟨[], by rw [posts, List.append_nil], .refl _⟩
  log := ⟨[], by rw [db, List.append_nil], List.nil_subperm⟩
  complete := fun _ => ⟨[], by rw [db, List.append_nil], .refl _⟩
  others := fun table _ => congrFun db table

/-- The deliveries of a list of endpoints, and what all of them add. -/
theorem trace_deliveries {hooks : List WebhookRow} {notification : Notification}
    {parts : List (List (Event Stmt) × Unit)}
    (traces : Traces (hooks.map fun hook => deliver env hook notification) parts) :
    ∃ deliveries : List Delivery, deliveries.map Delivery.hook = hooks ∧
      (∀ delivery ∈ deliveries, delivery.Policy maxRetries) ∧
      (parts.flatMap Prod.fst).flatMap postsOf = (deliveries.flatMap fun delivery =>
        List.replicate delivery.attempts (delivery.post env notification)) ∧
      (parts.flatMap Prod.fst).flatMap recordsOf =
        deliveries.filterMap (Delivery.record env notification) ∧
      ∀ event ∈ parts.flatMap Prod.fst, Logging event := by
  induction hooks generalizing parts with
  | nil =>
    cases traces
    exact ⟨[], rfl, nofun, rfl, rfl, fun event member => absurd member List.not_mem_nil⟩
  | cons hook hooks ih =>
    cases traces with
    | @cons _ part _ parts one traces =>
      obtain ⟨_, delivery, rfl, policy, posts, records, logging⟩ := trace_deliver one
      obtain ⟨deliveries, rfl, policies, posts', records', logging'⟩ := ih traces
      refine ⟨delivery :: deliveries, rfl, ?_, ?_, ?_, ?_⟩
      · exact List.forall_mem_cons.mpr ⟨policy, policies⟩
      · rw [List.flatMap_cons, List.flatMap_append, posts, posts', List.flatMap_cons]
      · rw [List.flatMap_cons, List.flatMap_append, records, records', List.filterMap_cons]
        cases delivery.record env notification <;> rfl
      · intro event member
        rcases List.mem_append.mp member with first | rest
        · exact logging event first
        · exact logging' event rest

theorem orgColumn_listed {notification : Notification} {org : OrgId}
    (found : orRepoError ((env.parseUuid notification.orgId).map Id.mk) = .ok org) :
    (env.parseUuid notification.orgId).map Id.mk = some org := by
  generalize (env.parseUuid notification.orgId).map Id.mk = parsed at found
  cases parsed with
  | none => cases found
  | some parsed =>
    cases found
    rfl

/-- The endpoints, however a query returned them. -/
theorem endpoints_perm {org : OrgId} {type : String} {rows : List WebhookRow}
    (arranged : rows.Perm ((world.db .webhooks).filter fun row =>
      (core .webhooks row).holder = .org org ∧ true)) :
    ((rows.filter WebhookRow.enabled).filter fun hook => matchesEvent hook.eventTypes type).Perm
      (world.endpoints org type) := by
  refine ((arranged.filter _).filter _).trans (.of_eq ?_)
  rw [List.filter_filter, List.filter_filter, World.endpoints]
  refine List.filter_congr fun hook _ => ?_
  have own : (core .webhooks hook).holder = .org org ↔ hook.orgId = org := by
    simp [core]
  by_cases same : hook.orgId = org <;>
    cases hook.enabled <;> cases matchesEvent hook.eventTypes type <;> simp [own, same]

/-- **Every dispatch delivers to each endpoint that wants the event, and to nobody else.** -/
theorem dispatch_delivers (env : Env) (nature : Nature) (notification : Notification)
    (world : World) :
    ((machine env nature).run (dispatchForNotification env notification) world).1 = some () ∧
      ∃ deliveries, Dispatched env nature notification world
        ((machine env nature).run (dispatchForNotification env notification) world).2 deliveries := by
  obtain ⟨events, trace, follows⟩ := (machine env nature).run_trace
    (dispatchForNotification env notification) world
  generalize (machine env nature).run (dispatchForNotification env notification) world = ended
    at trace follows ⊢
  obtain ⟨result, last⟩ := ended
  obtain ⟨listing, outcome, rest, list, after, rfl⟩ := trace_bind.mp trace
  rcases trace_exceptBind.mp list with ⟨error, failing, rfl⟩ | ⟨_, org, more, parsing, selecting, rfl⟩
  · obtain ⟨rfl, failed⟩ := trace_column.mp failing
    obtain ⟨rfl, rfl⟩ := after
    obtain rfl : world = last := follows
    refine ⟨rfl, [], dispatched_nobody (fun org listed => ?_) rfl rfl⟩
    rw [listed.1] at failed
    cases failed
  · obtain ⟨rfl, found⟩ := trace_column.mp parsing
    have parsed := orgColumn_listed found
    obtain ⟨before, one, rfl⟩ := trace_exceptMap.mp selecting
    obtain ⟨answer, rfl, rfl⟩ := trace_query.mp one
    obtain ⟨selected, follows⟩ := follows
    change Draw.read _ _ = answer at selected
    unfold Draw.read at selected
    split at selected
    · rename_i fate
      subst selected
      obtain ⟨turning, turns, rest, taken, concurrent, rfl⟩ := trace_bind.mp after
      obtain rfl := trace_issue.mp taken
      obtain ⟨delivering, delivered, ending, interleaved, ⟨rfl, rfl⟩, rfl⟩ := trace_bind.mp concurrent
      obtain ⟨_, follows⟩ := follows
      rw [List.append_nil] at follows
      change (machine env nature).Follows delivering world.next.next last at follows
      cases delivered with
      | none =>
        refine absurd interleaved (interleave_completes fun program member events ended => ?_)
        obtain ⟨hook, _, rfl⟩ := List.mem_map.mp member
        cases (trace_deliver ended).1
      | some results =>
        obtain ⟨parts, traces, _, shuffled⟩ := trace_interleave interleaved
        obtain ⟨deliveries, hooks, policy, posts, records, logging⟩ := trace_deliveries traces
        have logged : ∀ event ∈ delivering, Logging event := fun event member =>
          logging event (shuffled.mem_iff.mp member)
        have reached : (delivering.flatMap recordsOf).Perm
            (deliveries.filterMap (Delivery.record env notification)) :=
          records ▸ shuffled.flatMap_right recordsOf
        have endpoints := @endpoints_perm world org notification.type _
          ((nature world.draws).arrange_perm _)
        rw [← hooks] at endpoints
        refine ⟨rfl, deliveries, fun other listed => ?_, fun unlisted => ?_, policy, ?_, ?_, ?_, ?_⟩
        · cases parsed.symm.trans listed.1
          exact endpoints
        · exact absurd ⟨parsed, fate⟩ (unlisted org)
        · have grown := follows_posts follows
          exact ⟨_, grown, posts ▸ shuffled.flatMap_right postsOf⟩
        · obtain ⟨rows, grown, sublist⟩ := follows_log follows
          exact ⟨rows, grown, sublist.subperm.trans reached.subperm⟩
        · intro accepting
          have known : ∀ event ∈ delivering, Known world.next.next event := by
            intro event member record recorded
            obtain ⟨delivery, made, same⟩ := List.mem_filterMap.mp
              (reached.mem_iff.mp (List.mem_flatMap.mpr ⟨event, member, recorded⟩))
            rw [delivery.record_hook same]
            have inside := endpoints.mem_iff.mp (List.mem_map_of_mem made)
            exact List.mem_map_of_mem (List.mem_of_mem_filter inside)
          obtain ⟨rows, grown, same⟩ := follows_log_all follows
            ⟨fun n later => accepting.performed n (Nat.le_of_succ_le (Nat.le_of_succ_le later)),
              fun n later => accepting.unused n (Nat.le_of_succ_le (Nat.le_of_succ_le later)),
              accepting.distinct⟩ logged known
          exact ⟨rows, grown, same ▸ reached⟩
        · intro table other
          have same := follows_logging follows logged other
          exact same
    · subst selected
      obtain ⟨rfl, rfl⟩ := after
      obtain rfl : world.next = last := follows
      rename_i fate
      exact ⟨rfl, [], dispatched_nobody (fun org listed => fate listed.2) rfl rfl⟩

end

end Meter.ControlPlane
