/-
**The layers around the routes** (`crates/meter-api/src/routes/{mod,request_id,metrics,audit}.rs`,
`crates/meter-api/src/metrics.rs`).

A request goes through three layers: it gets a correlation id, it is counted, and it is written to the
audit log if it may change something. The routes are any programs inside that read neither the counters
nor the log, and requests run concurrently.

* `trace_served`, `wraps_served` — one request, read off its program.
* `layers_transparent` — **the layers change nothing**: every answer is the route's own, with the id of
  its request, and the routes leave what they would leave without layers.
* `layers_account` — **every request is accounted for**: the log gets at most one row of each mutating
  request, and none of another; every counter gets exactly what the answers and latencies add up to,
  and every latency is an answer of the clock (`Clocked`).
* `scrape_counts` — **what a scrape shows**: the buckets of the histogram are cumulative, and they end
  with the number of requests.
-/

import Mathlib.Data.BitVec
import Meter.Clickhouse.Audit
import Meter.Lib.Layers

namespace Meter.Front

open Meter.Lib Meter.Clickhouse

/-! ### Requests and counters -/

inductive Method where
  | get
  | head
  | options
  | connect
  | trace
  | post
  | put
  | patch
  | delete
  | extension (name : String)
  deriving DecidableEq

def Method.asStr : Method → String
  | .get => "GET"
  | .head => "HEAD"
  | .options => "OPTIONS"
  | .connect => "CONNECT"
  | .trace => "TRACE"
  | .post => "POST"
  | .put => "PUT"
  | .patch => "PATCH"
  | .delete => "DELETE"
  | .extension name => name

def isMutating : Method → Bool
  | .post | .put | .patch | .delete => true
  | .get | .head | .options | .connect | .trace | .extension _ => false

/-- What the layers read of a request. A header that is no text counts as missing. -/
structure Request where
  method : Method
  path : String
  /-- `x-meter-actor`. -/
  actor : Option String
  /-- `x-request-id`. -/
  requestId : Option String

/-- An answer, with its `x-request-id` header. -/
structure Response (Body : Type) where
  status : Nat
  body : Body
  requestId : Option String
  deriving DecidableEq

/-- The atomic counters of `RequestMetrics`. -/
inductive Counter where
  | total
  | clientErrors
  | serverErrors
  | latencyBucket (index : Nat)
  | latencyOverflow
  | latencySumMicros
  deriving DecidableEq

/-- The inclusive upper bounds of the histogram, in nanoseconds. -/
def latencyBuckets : List Nat :=
  [1000000, 5000000, 10000000, 25000000, 50000000, 100000000, 250000000, 500000000, 1000000000,
    2500000000, 5000000000, 10000000000]

/-- Whole microseconds, as far as they fit. -/
def asMicros (nanos : Nat) : Nat := min (nanos / 1000) (2 ^ 64 - 1)

/-- A statement of a layer. -/
inductive LayerStmt : Type → Type where
  /-- `Uuid::now_v7`. -/
  | nowV7 : LayerStmt Uuid
  /-- `record_audit`. Its error is not looked at. -/
  | recordAudit (actor method path : String) (status : Int) (requestId : String) : LayerStmt Bool
  /-- `started.elapsed()`, in nanoseconds. -/
  | elapsed : LayerStmt Nat
  | fetchAdd (counter : Counter) (amount : BitVec 64) : LayerStmt Unit
  | load (counter : Counter) : LayerStmt (BitVec 64)

section

variable {Stmt : Type → Type} {Body α : Type}

/-- A program of routes and layers. -/
abbrev Layered (Stmt : Type → Type) (α : Type) := Prog (Around LayerStmt Stmt) α

def own (statement : LayerStmt α) : Layered Stmt α := .issue (.own statement)

/-! ### The layers -/

/-- `RequestMetrics::record`. -/
def record (status : Nat) : Layered Stmt Unit := do
  own (.fetchAdd .total 1)
  if 400 ≤ status ∧ status ≤ 499 then own (.fetchAdd .clientErrors 1)
  else if 500 ≤ status ∧ status ≤ 599 then own (.fetchAdd .serverErrors 1)

/-- `RequestMetrics::record_latency`. -/
def recordLatency (nanos : Nat) : Layered Stmt Unit := do
  own (.fetchAdd .latencySumMicros (asMicros nanos))
  match latencyBuckets.findIdx? (fun bound => nanos ≤ bound) with
  | some index => own (.fetchAdd (.latencyBucket index) 1)
  | none => own (.fetchAdd .latencyOverflow 1)

/-- Records mutating requests. A failure to do so does not fail the request. -/
def auditMiddleware (request : Request) (requestId : String) (next : Layered Stmt (Response Body)) :
    Layered Stmt (Response Body) := do
  let response ← next
  if isMutating request.method then
    let _ ← own (.recordAudit (request.actor.getD "system") request.method.asStr request.path
      response.status requestId)
    return response
  else return response

/-- Records the status and the latency of every request. -/
def recordMetrics (next : Layered Stmt (Response Body)) : Layered Stmt (Response Body) := do
  let response ← next
  record response.status
  let nanos ← own .elapsed
  recordLatency nanos
  return response

/-- The correlation id of a request: its own one, or a new one. -/
def correlationId (request : Request) : Layered Stmt String :=
  match request.requestId with
  | some id => return id
  | none => Uuid.toString <$> own .nowV7

/-- Every request has a correlation id, and the answer gets it too. -/
def propagate (request : Request) (next : String → Layered Stmt (Response Body)) :
    Layered Stmt (Response Body) := do
  let id ← correlationId request
  let response ← next id
  return { response with requestId := some id }

/-- A request to a route, in its layers. -/
def served (route : Request → Prog Stmt (Response Body)) (request : Request) :
    Layered Stmt (Response Body) :=
  propagate request fun id => recordMetrics (auditMiddleware request id (route request).lift)

end

/-- The numbers that `GET /metrics` shows. -/
structure Scrape where
  total : BitVec 64
  clientErrors : BitVec 64
  serverErrors : BitVec 64
  /-- A cumulative number for each bound of the histogram. -/
  buckets : List (BitVec 64)
  observed : BitVec 64
  sumMicros : BitVec 64
  deriving DecidableEq

/-- The loop over the buckets: the cumulative numbers, and the last one. -/
def cumulate {Stmt : Type → Type} :
    List Nat → Nat → BitVec 64 → Layered Stmt (List (BitVec 64) × BitVec 64)
  | [], _, cumulative => return ([], cumulative)
  | _ :: bounds, index, cumulative => do
    let bucket ← own (.load (.latencyBucket index))
    let later ← cumulate bounds (index + 1) (cumulative + bucket)
    return ((cumulative + bucket) :: later.1, later.2)

/-- `RequestMetrics::render`, which loads one counter after the other. -/
def render {Stmt : Type → Type} : Layered Stmt Scrape := do
  let total ← own (.load .total)
  let clientErrors ← own (.load .clientErrors)
  let serverErrors ← own (.load .serverErrors)
  let (buckets, cumulative) ← cumulate latencyBuckets 0 0
  let overflow ← own (.load .latencyOverflow)
  let sumMicros ← own (.load .latencySumMicros)
  return { total, clientErrors, serverErrors, buckets, observed := cumulative + overflow, sumMicros }

/-! ### The machine -/

/-- What becomes of an insert into the log: it may be refused, or done without an answer. -/
inductive AuditFate where
  | done
  | refused
  | lost
  deriving DecidableEq

/-- What the clocks, the generators and the log say at each draw. -/
structure Nature where
  uuid : Nat → Uuid
  now : Nat → OffsetDateTime
  elapsed : Nat → Nat
  fate : Nat → AuditFate

/-- What the routes work on, with the log and the counters. -/
structure World (T : Type) where
  inner : T
  audit : List AuditRow
  counters : Counter → BitVec 64
  draws : Nat

variable {Stmt : Type → Type} {T Body : Type}

def World.next (world : World T) : World T := { world with draws := world.draws + 1 }

/-- What a statement of a layer does. -/
def execLayer (nature : Nature) {γ : Type} : LayerStmt γ → World T → γ × World T
  | .nowV7, world => (nature.uuid world.draws, world.next)
  | .recordAudit actor method path status requestId, world =>
    let row := auditRow (nature.uuid world.draws) (nature.now world.draws) actor method path status
      requestId
    match nature.fate world.draws with
    | .done => (true, { world.next with audit := world.audit ++ [row] })
    | .refused => (false, world.next)
    | .lost => (false, { world.next with audit := world.audit ++ [row] })
  | .elapsed, world => (nature.elapsed world.draws, world.next)
  | .fetchAdd counter amount, world =>
    ((), { world with
      counters := Function.update world.counters counter (world.counters counter + amount) })
  | .load counter, world => (world.counters counter, world)

def exec (N : Machine Stmt T) (nature : Nature) {γ : Type} :
    Around LayerStmt Stmt γ → World T → γ × World T
  | .bare statement, world =>
    ((N.exec statement world.inner).1, { world with inner := (N.exec statement world.inner).2 })
  | .own statement, world => execLayer nature statement world

def machine (N : Machine Stmt T) (nature : Nature) : Machine (Around LayerStmt Stmt) (World T) :=
  ⟨exec N nature⟩

/-- Requests that are served concurrently. -/
def serveAll (route : Request → Prog Stmt (Response Body)) (requests : List Request)
    (turns : List Nat) : Layered Stmt (Option (List (Response Body))) :=
  interleave turns (requests.map fun request => some <$> served route request)

/-! ### What a request is accounted for -/

/-- What a row of the log says of a request. -/
structure AuditNote where
  actor : String
  method : String
  path : String
  status : Int
  requestId : String
  deriving DecidableEq

def note (row : AuditRow) : AuditNote := ⟨row.actor, row.method, row.path, row.status, row.requestId⟩

/-- What the log is to say of a request that was answered, if anything. -/
def noteOf (request : Request) (response : Response Body) : Option AuditNote :=
  if isMutating request.method then some {
    actor := request.actor.getD "system"
    method := request.method.asStr
    path := request.path
    status := response.status
    requestId := response.requestId.getD "" }
  else none

/-- What a status adds to a counter. -/
def statusTally (status : Nat) : Counter → BitVec 64
  | .total => 1
  | .clientErrors => if 400 ≤ status ∧ status ≤ 499 then 1 else 0
  | .serverErrors => if 500 ≤ status ∧ status ≤ 599 then 1 else 0
  | .latencyBucket _ | .latencyOverflow | .latencySumMicros => 0

/-- What a latency adds to a counter. -/
def latencyTally (nanos : Nat) : Counter → BitVec 64
  | .total | .clientErrors | .serverErrors => 0
  | .latencyBucket index =>
    if latencyBuckets.findIdx? (fun bound => nanos ≤ bound) = some index then 1 else 0
  | .latencyOverflow => if latencyBuckets.findIdx? (fun bound => nanos ≤ bound) = none then 1 else 0
  | .latencySumMicros => asMicros nanos

/-- What the statements of layers write to the log. -/
def notesOf : Event (Around LayerStmt Stmt) → List AuditNote
  | ⟨_, .own (.recordAudit actor method path status requestId), _⟩ =>
    [⟨actor, method, path, status, requestId⟩]
  | _ => []

/-- What they add to a counter. -/
def addsTo (counter : Counter) : Event (Around LayerStmt Stmt) → BitVec 64
  | ⟨_, .own (.fetchAdd other amount), _⟩ => if other = counter then amount else 0
  | _ => 0

/-- What the clock answers them. -/
def clockOf : Event (Around LayerStmt Stmt) → List Nat
  | ⟨_, .own .elapsed, nanos⟩ => [nanos]
  | _ => []

/-- **What some statements come to**: notes for the log, sums for the counters, and latencies. -/
structure Accounts (events : List (Event (Around LayerStmt Stmt))) (notes : List AuditNote)
    (tally : Counter → BitVec 64) (latencies : List Nat) : Prop where
  notes : events.flatMap notesOf = notes
  counters : ∀ counter, (events.map (addsTo counter)).sum = tally counter
  clock : events.flatMap clockOf = latencies

theorem accounts_nil : Accounts ([] : List (Event (Around LayerStmt Stmt))) [] 0 [] :=
  ⟨rfl, fun _ => rfl, rfl⟩

theorem Accounts.append {first second : List (Event (Around LayerStmt Stmt))}
    {notes notes' : List AuditNote} {tally tally' : Counter → BitVec 64} {latencies latencies' : List Nat}
    (accounts : Accounts first notes tally latencies)
    (accounts' : Accounts second notes' tally' latencies') :
    Accounts (first ++ second) (notes ++ notes') (tally + tally') (latencies ++ latencies') := by
  refine ⟨?_, fun counter => ?_, ?_⟩
  · rw [List.flatMap_append, accounts.notes, accounts'.notes]
  · rw [List.map_append, List.sum_append, accounts.counters, accounts'.counters]
    rfl
  · rw [List.flatMap_append, accounts.clock, accounts'.clock]

/-! ### The layers, read off their programs -/

section

variable {α : Type} {events : List (Event (Around LayerStmt Stmt))}

theorem trace_own {statement : LayerStmt α} {result : α} :
    (own statement : Layered Stmt α).Trace events result ↔
      events = [⟨_, .own statement, result⟩] := trace_issue

theorem accounts_fetchAdd {counter : Counter} {amount : BitVec 64} {result : Unit}
    (trace : (own (.fetchAdd counter amount) : Layered Stmt Unit).Trace events result) :
    Accounts events [] (fun other => if counter = other then amount else 0) [] := by
  obtain rfl := trace_own.mp trace
  exact ⟨rfl, fun other => add_zero _, rfl⟩

theorem accounts_record {status : Nat} {result : Unit}
    (trace : (record status : Layered Stmt Unit).Trace events result) :
    Accounts events [] (statusTally status) [] := by
  obtain ⟨first, _, second, counted, classified, rfl⟩ := trace_bind.mp trace
  have one := accounts_fetchAdd counted
  have same : ∀ tally, Accounts second [] tally [] →
      (∀ counter, (if Counter.total = counter then 1 else 0) + tally counter =
        statusTally status counter) → Accounts (first ++ second) [] (statusTally status) [] :=
    fun tally two sum => by
      have both := one.append two
      exact ⟨both.notes, fun counter => (both.counters counter).trans (sum counter), both.clock⟩
  split at classified
  · rename_i client
    refine same _ (accounts_fetchAdd classified) fun counter => ?_
    have notServer : ¬ (500 ≤ status ∧ status ≤ 599) := by omega
    cases counter <;> simp [statusTally, client, notServer]
  · rename_i notClient
    split at classified
    · rename_i server
      refine same _ (accounts_fetchAdd classified) fun counter => ?_
      cases counter <;> simp [statusTally, notClient, server]
    · rename_i notServer
      obtain ⟨rfl, _⟩ := classified
      refine same _ accounts_nil fun counter => ?_
      cases counter <;> simp [statusTally, notClient, notServer]

theorem accounts_recordLatency {nanos : Nat} {result : Unit}
    (trace : (recordLatency nanos : Layered Stmt Unit).Trace events result) :
    Accounts events [] (latencyTally nanos) [] := by
  obtain ⟨first, _, second, summed, counted, rfl⟩ := trace_bind.mp trace
  have one := accounts_fetchAdd summed
  have same : ∀ tally, Accounts second [] tally [] →
      (∀ counter, (if Counter.latencySumMicros = counter then (asMicros nanos : BitVec 64) else 0) +
        tally counter = latencyTally nanos counter) →
          Accounts (first ++ second) [] (latencyTally nanos) [] := fun tally two sum => by
    have both := one.append two
    exact ⟨both.notes, fun counter => (both.counters counter).trans (sum counter), both.clock⟩
  split at counted
  · rename_i index found
    refine same _ (accounts_fetchAdd counted) fun counter => ?_
    cases counter <;> simp [latencyTally, found, eq_comm]
  · rename_i none
    refine same _ (accounts_fetchAdd counted) fun counter => ?_
    cases counter <;> simp [latencyTally, none]

theorem accounts_lift {program : Prog Stmt α} {result : α}
    (trace : (program.lift : Layered Stmt α).Trace events result) : Accounts events [] 0 [] := by
  induction program generalizing events with
  | done _ =>
    obtain ⟨rfl, _⟩ := trace
    exact accounts_nil
  | stmt statement next ih =>
    obtain ⟨answer, rest, rfl, trace⟩ := trace
    obtain ⟨notes, counters, clock⟩ := ih answer trace
    exact ⟨notes, fun counter => (zero_add _).trans (counters counter), clock⟩

theorem trace_correlationId {request : Request} {id : String}
    (trace : (correlationId request : Layered Stmt String).Trace events id) :
    Accounts events [] 0 [] ∧ ∀ given, request.requestId = some given → id = given := by
  unfold correlationId at trace
  split at trace
  · rename_i given isGiven
    obtain ⟨rfl, rfl⟩ := trace
    refine ⟨accounts_nil, fun other isOther => ?_⟩
    exact Option.some.inj (isGiven.symm.trans isOther)
  · rename_i missing
    obtain ⟨first, uuid, second, drawn, ⟨rfl, _⟩, rfl⟩ := trace_bind.mp trace
    obtain rfl := trace_own.mp drawn
    refine ⟨⟨rfl, fun _ => rfl, rfl⟩, fun given isGiven => ?_⟩
    rw [missing] at isGiven
    cases isGiven

theorem accounts_auditMiddleware {request : Request} {id : String}
    {next : Layered Stmt (Response Body)} {response : Response Body}
    (inside : ∀ events response, next.Trace events response → Accounts events [] 0 [])
    (trace : (auditMiddleware request id next).Trace events response) :
    Accounts events (noteOf request { response with requestId := some id }).toList 0 [] := by
  obtain ⟨first, answer, second, answered, after, rfl⟩ := trace_bind.mp trace
  have one := inside first answer answered
  split at after
  · rename_i mutating
    obtain ⟨recording, _, ending, recorded, ⟨rfl, rfl⟩, rfl⟩ := trace_bind.mp after
    obtain rfl := trace_own.mp recorded
    obtain ⟨notes, counters, clock⟩ := one
    refine ⟨?_, fun counter => ?_, ?_⟩
    · rw [List.flatMap_append, notes, noteOf, if_pos mutating]
      rfl
    · rw [List.map_append, List.sum_append, counters]
      rfl
    · rw [List.flatMap_append, clock]
      rfl
  · rename_i reading
    obtain ⟨rfl, rfl⟩ := after
    rw [noteOf, if_neg reading, List.append_nil]
    exact one

theorem accounts_recordMetrics {next : Layered Stmt (Response Body)} {response : Response Body}
    (trace : (recordMetrics next).Trace events response) : ∃ nanos inside,
      next.Trace inside response ∧ ∀ notes, Accounts inside notes 0 [] →
        Accounts events notes (statusTally response.status + latencyTally nanos) [nanos] := by
  obtain ⟨inside, answer, rest₁, answered, trace₁, rfl⟩ := trace_bind.mp trace
  obtain ⟨counting, _, rest₂, counted, trace₂, rfl⟩ := trace_bind.mp trace₁
  obtain ⟨timing, nanos, rest₃, timed, trace₃, rfl⟩ := trace_bind.mp trace₂
  obtain ⟨measuring, _, rest₄, measured, ⟨rfl, rfl⟩, rfl⟩ := trace_bind.mp trace₃
  obtain rfl := trace_own.mp timed
  have clock : Accounts [(⟨_, .own .elapsed, nanos⟩ : Event (Around LayerStmt Stmt))] [] 0 [nanos] :=
    ⟨rfl, fun _ => rfl, rfl⟩
  refine ⟨nanos, inside, answered, fun notes own => ?_⟩
  have all := own.append ((accounts_record counted).append (clock.append
    ((accounts_recordLatency measured).append accounts_nil)))
  simpa only [List.append_nil, List.nil_append, zero_add, add_zero] using all

/-- **What a request is accounted for.** -/
theorem trace_served {route : Request → Prog Stmt (Response Body)} {request : Request}
    {response : Response Body} (trace : (served route request).Trace events response) :
    ∃ nanos, Accounts events (noteOf request response).toList
        (statusTally response.status + latencyTally nanos) [nanos] ∧
      ∃ id, response.requestId = some id ∧ ∀ given, request.requestId = some given → id = given := by
  obtain ⟨before, id, rest, correlated, propagated, rfl⟩ := trace_bind.mp trace
  obtain ⟨quiet, own⟩ := trace_correlationId correlated
  obtain ⟨layers, answer, last, metered, ⟨rfl, rfl⟩, rfl⟩ := trace_bind.mp propagated
  obtain ⟨nanos, inside, audited, counts⟩ := accounts_recordMetrics metered
  have notes := accounts_auditMiddleware (fun _ _ trace => accounts_lift trace) audited
  have all := quiet.append ((counts _ notes).append accounts_nil)
  refine ⟨nanos, ?_, id, rfl, own⟩
  simpa only [List.nil_append, List.append_nil, zero_add, add_zero] using all

end

/-! ### The layers change nothing -/

/-- An answer with a correlation id. -/
def Tagged (reply answer : Response Body) : Prop :=
  ∃ id, reply = { answer with requestId := some id }

section

variable {α : Type}

theorem owned_own (statement : LayerStmt α) : Owned (own statement : Layered Stmt α) :=
  fun _ => trivial

theorem owned_record (status : Nat) : Owned (record status : Layered Stmt Unit) := by
  refine Owned.bind (owned_own _) fun _ => ?_
  split
  · exact owned_own _
  · split
    · exact owned_own _
    · trivial

theorem owned_recordLatency (nanos : Nat) : Owned (recordLatency nanos : Layered Stmt Unit) := by
  refine Owned.bind (owned_own _) fun _ => ?_
  split
  · exact owned_own _
  · exact owned_own _

theorem owned_correlationId (request : Request) :
    Owned (correlationId request : Layered Stmt String) := by
  unfold correlationId
  split
  · trivial
  · exact Owned.bind (owned_own _) fun _ => trivial

end

theorem wraps_auditMiddleware (request : Request) (id : String)
    (program : Prog Stmt (Response Body)) :
    Wraps Eq (auditMiddleware request id program.lift) program := by
  refine (wraps_lift program).after fun response answer same => ?_
  subst same
  split
  · exact .own fun _ => .done rfl
  · exact .done rfl

theorem wraps_recordMetrics {next : Layered Stmt (Response Body)}
    {program : Prog Stmt (Response Body)} (wraps : Wraps Eq next program) :
    Wraps Eq (recordMetrics next) program := by
  refine wraps.after fun response answer same => ?_
  subst same
  refine Wraps.before (owned_record _) fun _ => Wraps.before (owned_own _) fun nanos => ?_
  exact Wraps.before (owned_recordLatency nanos) fun _ => .done rfl

/-- **A request in its layers is the route, and a correlation id.** -/
theorem wraps_served (route : Request → Prog Stmt (Response Body)) (request : Request) :
    Wraps (Option.Rel Tagged) (some <$> served route request) (some <$> route request) := by
  have tagged : Wraps Tagged (served route request) (route request) := by
    refine Wraps.before (owned_correlationId request) fun id => ?_
    refine (wraps_recordMetrics (wraps_auditMiddleware request id _)).after fun reply answer same => ?_
    subst same
    exact .done ⟨id, rfl⟩
  exact tagged.bind fun reply answer fits => .done (.some fits)

theorem transparent_machine (N : Machine Stmt T) (nature : Nature) :
    Transparent (machine N nature) N World.inner := by
  refine ⟨fun _ _ => ⟨rfl, rfl⟩, fun statement world => ?_⟩
  cases statement with
  | recordAudit actor method path status requestId =>
    show (execLayer nature _ world).2.inner = _
    unfold execLayer
    dsimp only
    split <;> rfl
  | _ => rfl

/-! ### What the machine keeps -/

section

variable {N : Machine Stmt T} {nature : Nature} {world last : World T}
variable {events : List (Event (Around LayerStmt Stmt))}

theorem exec_draws {γ : Type} (statement : Around LayerStmt Stmt γ) (world : World T) :
    world.draws ≤ (exec N nature statement world).2.draws := by
  cases statement with
  | bare statement => exact le_rfl
  | own statement =>
    cases statement with
    | recordAudit actor method path status requestId =>
      unfold exec execLayer
      dsimp only
      split <;> exact Nat.le_succ _
    | nowV7 | elapsed => exact Nat.le_succ _
    | fetchAdd _ _ | load _ => exact le_rfl

theorem follows_audit (follows : (machine N nature).Follows events world last) :
    ∃ rows, last.audit = world.audit ++ rows ∧
      List.Sublist (rows.map note) (events.flatMap notesOf) ∧
      ((∀ draw, nature.fate draw ≠ .refused) → rows.map note = events.flatMap notesOf) := by
  have step : ∀ {γ : Type} (statement : Around LayerStmt Stmt γ) (w : World T), ∃ new : List AuditRow,
      (List.Sublist (new.map note) (notesOf ⟨_, statement, (exec N nature statement w).1⟩) ∧
        ((∀ draw, nature.fate draw ≠ .refused) →
          new.map note = notesOf ⟨_, statement, (exec N nature statement w).1⟩)) ∧
        (exec N nature statement w).2.audit = w.audit ++ new := by
    intro γ statement w
    cases statement with
    | bare statement => exact ⟨[], ⟨.slnil, fun _ => rfl⟩, (List.append_nil _).symm⟩
    | own statement =>
      cases statement with
      | recordAudit actor method path status requestId =>
        unfold exec execLayer
        dsimp only
        split
        · exact ⟨[_], ⟨.refl _, fun _ => rfl⟩, rfl⟩
        · rename_i refused
          exact ⟨[], ⟨List.nil_sublist _, fun never => absurd refused (never _)⟩,
            (List.append_nil _).symm⟩
        · exact ⟨[_], ⟨.refl _, fun _ => rfl⟩, rfl⟩
      | _ => exact ⟨[], ⟨.slnil, fun _ => rfl⟩, (List.append_nil _).symm⟩
  obtain ⟨news, added, grown⟩ := follows.log World.audit (fun event new =>
    List.Sublist (new.map note) (notesOf event) ∧
      ((∀ draw, nature.fate draw ≠ .refused) → new.map note = notesOf event)) step
  refine ⟨news.flatten, grown, ?_⟩
  clear grown follows
  induction added with
  | nil => exact ⟨.slnil, fun _ => rfl⟩
  | cons one _ ih =>
    rw [List.flatten_cons, List.map_append, List.flatMap_cons]
    refine ⟨one.1.append ih.1, fun never => ?_⟩
    rw [one.2 never, ih.2 never]

theorem follows_counters (follows : (machine N nature).Follows events world last)
    (counter : Counter) :
    last.counters counter = world.counters counter + (events.map (addsTo counter)).sum := by
  refine follows.sum (fun w => w.counters counter) (addsTo counter) fun {γ} statement w => ?_
  cases statement with
  | bare statement => exact (add_zero _).symm
  | own statement =>
    cases statement with
    | fetchAdd other amount =>
      show Function.update w.counters other _ counter = w.counters counter +
        if other = counter then amount else 0
      by_cases same : other = counter
      · subst same
        rw [Function.update_self, if_pos rfl]
      · rw [Function.update_of_ne (Ne.symm same), if_neg same, add_zero]
    | recordAudit actor method path status requestId =>
      show (exec N nature _ w).2.counters counter = _ + 0
      unfold exec execLayer
      dsimp only
      split <;> exact (add_zero _).symm
    | _ => exact (add_zero _).symm

/-- What the clock answers, at draws of its own. -/
theorem follows_clock (follows : (machine N nature).Follows events world last) :
    world.draws ≤ last.draws ∧ ∃ draws : List Nat, draws.Nodup ∧
      (∀ draw ∈ draws, world.draws ≤ draw ∧ draw < last.draws) ∧
      events.flatMap clockOf = draws.map nature.elapsed := by
  induction events generalizing world with
  | nil =>
    subst follows
    exact ⟨le_rfl, [], List.nodup_nil, nofun, rfl⟩
  | cons event events ih =>
    obtain ⟨γ, statement, answer⟩ := event
    obtain ⟨answered, follows⟩ := follows
    obtain ⟨grows, draws, distinct, later, same⟩ := ih follows
    have advances : world.draws ≤ (exec N nature statement world).2.draws := exec_draws statement world
    have keep : ∀ draw ∈ draws, world.draws ≤ draw ∧ draw < last.draws := fun draw member =>
      ⟨advances.trans (later draw member).1, (later draw member).2⟩
    refine ⟨advances.trans grows, ?_⟩
    cases statement with
    | bare statement => exact ⟨draws, distinct, keep, same⟩
    | own statement =>
      cases statement with
      | elapsed =>
        refine ⟨world.draws :: draws, List.nodup_cons.mpr ⟨fun again => ?_, distinct⟩, ?_, ?_⟩
        · exact absurd (later _ again).1 (Nat.not_succ_le_self _)
        · exact List.forall_mem_cons.mpr ⟨⟨le_rfl, grows⟩, keep⟩
        · rw [List.flatMap_cons, same, List.map_cons, ← answered]
          rfl
      | _ => exact ⟨draws, distinct, keep, same⟩

end

/-! ### Any requests -/

/-- **Every latency is an answer of the clock**, at a draw of its own. -/
def Clocked (nature : Nature) (world : World T) (latencies : List Nat) : Prop :=
  ∃ draws : List Nat, draws.Nodup ∧ (∀ draw ∈ draws, world.draws ≤ draw) ∧
    latencies.Perm (draws.map nature.elapsed)

section

variable (N : Machine Stmt T) (nature : Nature) (route : Request → Prog Stmt (Response Body))

theorem trace_some {α : Type} {program : Layered Stmt α}
    {events : List (Event (Around LayerStmt Stmt))} {result : Option α}
    (trace : Prog.Trace (some <$> program) events result) :
    ∃ value, result = some value ∧ program.Trace events value := by
  obtain ⟨first, value, second, one, ⟨rfl, rfl⟩, rfl⟩ := trace_bind.mp trace
  exact ⟨value, rfl, (List.append_nil first).symm ▸ one⟩

/-- Every request is answered, in some order of the statements of all of them. -/
theorem traces_serveAll (requests : List Request) (turns : List Nat) (world : World T) :
    ∃ replies parts events, ((machine N nature).run (serveAll route requests turns) world).1 =
        some replies ∧
      (machine N nature).Follows events world
        ((machine N nature).run (serveAll route requests turns) world).2 ∧
      Traces (requests.map fun request => some <$> served route request) parts ∧
      replies = parts.map Prod.snd ∧ events.Perm (parts.flatMap Prod.fst) := by
  obtain ⟨events, trace, follows⟩ := (machine N nature).run_trace (serveAll route requests turns) world
  cases ended : ((machine N nature).run (serveAll route requests turns) world).1 with
  | none =>
    rw [ended] at trace
    refine absurd trace (interleave_completes fun program member events failed => ?_)
    obtain ⟨request, _, rfl⟩ := List.mem_map.mp member
    obtain ⟨_, impossible, _⟩ := trace_some failed
    cases impossible
  | some replies =>
    rw [ended] at trace
    obtain ⟨parts, traces, results, shuffled⟩ := trace_interleave trace
    exact ⟨replies, parts, events, rfl, follows, traces, results, shuffled⟩

/-- **The layers change nothing.** Requests that are served concurrently get the answers of their routes,
with correlation ids, and the routes leave what they would leave without layers, at some turns. -/
theorem layers_transparent (requests : List Request) (turns : List Nat) (world : World T) :
    ∃ turns' replies answers,
      ((machine N nature).run (serveAll route requests turns) world).1 = some replies ∧
      N.run (interleave turns' (requests.map fun request => some <$> route request)) world.inner =
        (some answers, ((machine N nature).run (serveAll route requests turns) world).2.inner) ∧
      List.Forall₂ Tagged replies answers := by
  have wraps : List.Forall₂ (Wraps (Option.Rel Tagged))
      (requests.map fun request => some <$> served route request)
      (requests.map fun request => some <$> route request) :=
    List.forall₂_map_left_iff.mpr (List.forall₂_map_right_iff.mpr
      (List.forall₂_same.mpr fun request _ => wraps_served route request))
  obtain ⟨turns', fits, left⟩ := (transparent_machine N nature).interleave turns wraps world
  obtain ⟨replies, _, _, answered, _⟩ := traces_serveAll N nature route requests turns world
  change Option.Rel _ ((machine N nature).run (serveAll route requests turns) world).1 _ at fits
  rw [answered] at fits
  cases bare : (N.run (interleave turns' _) world.inner).1 with
  | none =>
    rw [bare] at fits
    cases fits
  | some answers =>
    rw [bare] at fits
    cases fits with
    | some fits => exact ⟨turns', replies, answers, answered, Prod.ext bare left.symm, fits⟩

/-- What the log is to say of some requests that were answered. -/
def notesFor (requests : List Request) (replies : List (Response Body)) : List AuditNote :=
  (requests.zip replies).flatMap fun served => (noteOf served.1 served.2).toList

/-- What statuses and latencies add to a counter. -/
def tallyOf (replies : List (Response Body)) (latencies : List Nat) (counter : Counter) : BitVec 64 :=
  ((replies.zip latencies).map fun served =>
    statusTally served.1.status counter + latencyTally served.2 counter).sum

/-- The traces of the requests, accounted for one by one. -/
theorem accounts_traces {requests : List Request}
    {parts : List (List (Event (Around LayerStmt Stmt)) × Response Body)}
    (traces : Traces (requests.map fun request => some <$> served route request) parts) :
    ∃ latencies : List Nat, latencies.length = requests.length ∧
      Accounts (parts.flatMap Prod.fst) (notesFor requests (parts.map Prod.snd))
        (tallyOf (parts.map Prod.snd) latencies) latencies ∧
      List.Forall₂ (fun request reply => ∃ id, reply.requestId = some id ∧
        ∀ given, request.requestId = some given → id = given) requests (parts.map Prod.snd) := by
  induction requests generalizing parts with
  | nil =>
    cases traces
    exact ⟨[], rfl, accounts_nil, .nil⟩
  | cons request requests ih =>
    cases traces with
    | @cons _ part _ parts one traces =>
      obtain ⟨latencies, length, accounts, ids⟩ := ih traces
      obtain ⟨_, same, trace⟩ := trace_some one
      obtain rfl := Option.some.inj same
      obtain ⟨nanos, account, id⟩ := trace_served trace
      refine ⟨nanos :: latencies, congrArg (· + 1) length, ?_, .cons id ids⟩
      exact account.append accounts

/-- What the requests write, count and time together. -/
theorem accounts_serveAll (requests : List Request) (turns : List Nat) (world : World T) :
    ∃ (replies : List (Response Body)) (latencies : List Nat)
      (events : List (Event (Around LayerStmt Stmt))),
      ((machine N nature).run (serveAll route requests turns) world).1 = some replies ∧
      latencies.length = requests.length ∧
      List.Forall₂ (fun request reply => ∃ id, reply.requestId = some id ∧
        ∀ given, request.requestId = some given → id = given) requests replies ∧
      (machine N nature).Follows events world
        ((machine N nature).run (serveAll route requests turns) world).2 ∧
      (events.flatMap notesOf).Perm (notesFor requests replies) ∧
      (∀ counter, ((machine N nature).run (serveAll route requests turns) world).2.counters counter =
        world.counters counter + tallyOf replies latencies counter) ∧
      Clocked nature world latencies := by
  obtain ⟨replies, parts, events, answered, follows, traces, rfl, shuffled⟩ :=
    traces_serveAll N nature route requests turns world
  obtain ⟨latencies, length, accounts, ids⟩ := accounts_traces route traces
  refine ⟨_, latencies, events, answered, length, ids, follows,
    accounts.notes ▸ shuffled.flatMap_right notesOf, fun counter => ?_, ?_⟩
  · rw [follows_counters follows counter, ← accounts.counters counter,
      (shuffled.map (addsTo counter)).sum_eq]
  · obtain ⟨_, draws, distinct, later, same⟩ := follows_clock follows
    refine ⟨draws, distinct, fun draw member => (later draw member).1, ?_⟩
    rw [← same, ← accounts.clock]
    exact (shuffled.flatMap_right clockOf).symm

/-- **Every request is accounted for**, whatever is served at the same time. -/
theorem layers_account (requests : List Request) (turns : List Nat) (world : World T) :
    ∃ (replies : List (Response Body)) (latencies : List Nat) (rows : List AuditRow),
      ((machine N nature).run (serveAll route requests turns) world).1 = some replies ∧
      latencies.length = requests.length ∧ Clocked nature world latencies ∧
      List.Forall₂ (fun request reply => ∃ id, reply.requestId = some id ∧
        ∀ given, request.requestId = some given → id = given) requests replies ∧
      ((machine N nature).run (serveAll route requests turns) world).2.audit = world.audit ++ rows ∧
      List.Subperm (rows.map note) (notesFor requests replies) ∧
      ((∀ draw, nature.fate draw ≠ .refused) →
        (rows.map note).Perm (notesFor requests replies)) ∧
      ∀ counter, ((machine N nature).run (serveAll route requests turns) world).2.counters counter =
        world.counters counter + tallyOf replies latencies counter := by
  obtain ⟨replies, latencies, events, answered, length, ids, follows, notes, counters, clocked⟩ :=
    accounts_serveAll N nature route requests turns world
  obtain ⟨rows, grown, sublist, complete⟩ := follows_audit follows
  exact ⟨replies, latencies, rows, answered, length, clocked, ids, grown,
    sublist.subperm.trans notes.subperm, fun never => complete never ▸ notes, counters⟩

end

/-! ### Scrapes -/

section

variable {α : Type}

/-- How many, as a counter has it. -/
theorem sum_indicator (p : α → Prop) [DecidablePred p] (items : List α) :
    (items.map fun item => if p item then (1 : BitVec 64) else 0).sum =
      (items.countP fun item => decide (p item) : Nat) := by
  induction items with
  | nil => rfl
  | cons item items ih =>
    rw [List.map_cons, List.sum_cons, ih, List.countP_cons]
    by_cases holds : p item
    · simp [holds, add_comm]
    · simp [holds]

/-- The first bound that a latency fits is the next one. -/
theorem findIdx?_next (done rest : List Nat) (bound nanos : Nat) :
    (done ++ bound :: rest).findIdx? (fun bound => nanos ≤ bound) = some done.length ↔
      (∀ lower ∈ done, ¬ nanos ≤ lower) ∧ nanos ≤ bound := by
  induction done with
  | nil => simp [List.findIdx?_cons]
  | cons lower done ih =>
    rw [List.cons_append, List.findIdx?_cons]
    by_cases fits : nanos ≤ lower
    · simp [fits]
    · simp only [fits, decide_false, Bool.false_eq_true, if_false, List.length_cons,
        Option.map_eq_some_iff, Nat.add_right_cancel_iff, exists_eq_right, ih, List.forall_mem_cons,
        not_false_eq_true, true_and]

variable {N : Machine Stmt T} {nature : Nature} {world : World T} {latencies : List Nat}

theorem countP_add_countP {p q r : α → Prop} [DecidablePred p] [DecidablePred q] [DecidablePred r]
    (split : ∀ item, r item ↔ p item ∨ q item) (apart : ∀ item, p item → ¬ q item) (items : List α) :
    (items.countP fun item => decide (p item)) + (items.countP fun item => decide (q item)) =
      items.countP fun item => decide (r item) := by
  induction items with
  | nil => rfl
  | cons item items ih =>
    rw [List.countP_cons, List.countP_cons, List.countP_cons, ← ih]
    by_cases first : p item
    · have both : ¬ q item ∧ r item := ⟨apart item first, (split item).mpr (.inl first)⟩
      simp [first, both.1, both.2]
      omega
    · by_cases second : q item
      · have whole : r item := (split item).mpr (.inr second)
        simp [first, second, whole]
        omega
      · have neither : ¬ r item := fun holds => ((split item).mp holds).elim first second
        simp [first, second, neither]

/-- **The loop over the buckets**: behind the bounds that are done, it shows how many latencies fit each
of the others. -/
theorem run_cumulate (done rest : List Nat) (ascending : (done ++ rest).Pairwise (· ≤ ·))
    (buckets : ∀ index, world.counters (.latencyBucket index) = (latencies.countP fun nanos =>
      decide ((done ++ rest).findIdx? (fun bound => nanos ≤ bound) = some index) : Nat)) :
    (machine N nature).run (cumulate rest done.length
        (latencies.countP fun nanos => decide (∃ lower ∈ done, nanos ≤ lower) : Nat)) world =
      ((rest.map fun bound => ((latencies.countP fun nanos => decide (nanos ≤ bound) : Nat) : BitVec 64),
        ((latencies.countP fun nanos => decide (∃ bound ∈ done ++ rest, nanos ≤ bound) : Nat) :
          BitVec 64)), world) := by
  induction rest generalizing done with
  | nil =>
    rw [List.append_nil]
    rfl
  | cons bound rest ih =>
    have next : done ++ bound :: rest = (done ++ [bound]) ++ rest := by simp
    have lower : ∀ nanos, (∃ lower ∈ done ++ [bound], nanos ≤ lower) ↔ nanos ≤ bound := fun nanos => by
      refine ⟨?_, fun fits => ⟨bound, by simp, fits⟩⟩
      rintro ⟨lower, listed, fits⟩
      rcases List.mem_append.mp listed with inside | last
      · exact fits.trans ((List.pairwise_append.mp ascending).2.2 lower inside bound
          List.mem_cons_self)
      · exact List.mem_singleton.mp last ▸ fits
    have counted : ((latencies.countP fun nanos => decide (∃ lower ∈ done, nanos ≤ lower) : Nat) :
        BitVec 64) + world.counters (.latencyBucket done.length) =
          (latencies.countP fun nanos => decide (∃ lower ∈ done ++ [bound], nanos ≤ lower) : Nat) := by
      rw [buckets, ← Nat.cast_add]
      congr 1
      refine countP_add_countP (fun nanos => ?_) (fun nanos earlier => ?_) latencies
      · rw [lower, findIdx?_next]
        constructor
        · intro fits
          by_cases earlier : ∃ lower ∈ done, nanos ≤ lower
          · exact .inl earlier
          · exact .inr ⟨fun lower listed less => earlier ⟨lower, listed, less⟩, fits⟩
        · rintro (⟨other, listed, less⟩ | ⟨_, fits⟩)
          · exact (lower nanos).mp ⟨other, List.mem_append_left _ listed, less⟩
          · exact fits
      · rw [findIdx?_next]
        rintro ⟨none, _⟩
        obtain ⟨other, listed, less⟩ := earlier
        exact none other listed less
    have later := ih (done ++ [bound]) (next ▸ ascending) (by rw [← next]; exact buckets)
    rw [List.length_append, List.length_singleton, ← counted, ← next] at later
    show (machine N nature).run (Prog.bind (cumulate rest (done.length + 1)
      (_ + world.counters (.latencyBucket done.length))) _) world = _
    rw [Machine.run_bind, later, List.map_cons]
    refine Prod.ext (Prod.ext ?_ rfl) rfl
    show (_ + world.counters (.latencyBucket done.length)) :: _ = _ :: _
    rw [counted]
    simp only [lower]

/-- The loop over all buckets. -/
theorem run_buckets (buckets : ∀ index, world.counters (.latencyBucket index) =
      (latencies.countP fun nanos => decide
        (latencyBuckets.findIdx? (fun bound => nanos ≤ bound) = some index) : Nat)) :
    (machine N nature).run (cumulate latencyBuckets 0 0) world =
      ((latencyBuckets.map fun bound =>
          ((latencies.countP fun nanos => decide (nanos ≤ bound) : Nat) : BitVec 64),
        ((latencies.countP fun nanos => decide (∃ bound ∈ latencyBuckets, nanos ≤ bound) : Nat) :
          BitVec 64)), world) := by
  have looped := @run_cumulate _ _ N nature world latencies [] latencyBuckets (by decide) buckets
  have none : (latencies.countP fun nanos => decide (∃ lower ∈ ([] : List Nat), nanos ≤ lower)) = 0 := by
    simp
  rw [none, Nat.cast_zero] at looped
  exact looped

theorem run_load (counter : Counter) (rest : BitVec 64 → Layered Stmt α) :
    (machine N nature).run (own (.load counter) >>= rest) world =
      (machine N nature).run (rest (world.counters counter)) world := rfl

/-- What a scrape of a world shows. -/
theorem run_render {shown : List (BitVec 64) × BitVec 64}
    (looped : (machine N nature).run (cumulate latencyBuckets 0 0) world = (shown, world)) :
    (machine N nature).run render world =
      ({ total := world.counters .total
         clientErrors := world.counters .clientErrors
         serverErrors := world.counters .serverErrors
         buckets := shown.1
         observed := shown.2 + world.counters .latencyOverflow
         sumMicros := world.counters .latencySumMicros }, world) := by
  unfold render
  rw [run_load, run_load, run_load]
  refine (Machine.run_bind (cumulate latencyBuckets 0 0) _ world).trans ?_
  rw [looped]
  rfl

theorem toNat_count {count : Nat} (few : count < 2 ^ 64) : ((count : Nat) : BitVec 64).toNat = count := by
  rw [BitVec.natCast_eq_ofNat, BitVec.toNat_ofNat, Nat.mod_eq_of_lt few]

/-- What the statuses add, and what the latencies add. -/
theorem tallyOf_eq {replies : List (Response Body)} (length : replies.length = latencies.length)
    (counter : Counter) : tallyOf replies latencies counter =
      (replies.map fun reply => statusTally reply.status counter).sum +
        (latencies.map fun nanos => latencyTally nanos counter).sum := by
  unfold tallyOf
  induction replies generalizing latencies with
  | nil =>
    cases latencies with
    | nil => rfl
    | cons _ _ => cases length
  | cons reply replies ih =>
    cases latencies with
    | nil => cases length
    | cons nanos latencies =>
      simp only [List.zip_cons_cons, List.map_cons, List.sum_cons, ih (Nat.succ.inj length)]
      exact add_add_add_comm _ _ _ _

/-- A counter of statuses. -/
theorem tallyOf_statuses {replies : List (Response Body)} (length : replies.length = latencies.length)
    {p : Nat → Prop} [DecidablePred p] {counter : Counter}
    (status : ∀ status, statusTally status counter = if p status then 1 else 0)
    (latency : ∀ nanos, latencyTally nanos counter = 0) :
    tallyOf replies latencies counter =
      (replies.countP fun reply => decide (p reply.status) : Nat) := by
  rw [tallyOf_eq length]
  simp only [status, latency, sum_indicator fun reply : Response Body => p reply.status,
    List.map_const', List.sum_replicate, nsmul_zero, add_zero]

/-- A counter of latencies. -/
theorem tallyOf_latencies {replies : List (Response Body)} (length : replies.length = latencies.length)
    {p : Nat → Prop} [DecidablePred p] {counter : Counter}
    (status : ∀ status, statusTally status counter = 0)
    (latency : ∀ nanos, latencyTally nanos counter = if p nanos then 1 else 0) :
    tallyOf replies latencies counter = (latencies.countP fun nanos => decide (p nanos) : Nat) := by
  rw [tallyOf_eq length]
  simp only [status, latency, sum_indicator p, List.map_const', List.sum_replicate, nsmul_zero,
    zero_add]

/-- A latency fits a bound, or it is beyond all of them. -/
theorem countP_overflow (latencies : List Nat) :
    (latencies.countP fun nanos => decide (∃ bound ∈ latencyBuckets, nanos ≤ bound)) +
      (latencies.countP fun nanos =>
        decide (latencyBuckets.findIdx? (fun bound => nanos ≤ bound) = none)) = latencies.length := by
  have beyond : ∀ nanos, latencyBuckets.findIdx? (fun bound => nanos ≤ bound) = none ↔
      ∀ bound ∈ latencyBuckets, ¬ nanos ≤ bound := fun nanos => by
    simp only [List.findIdx?_eq_none_iff, decide_eq_false_iff_not]
  have all := @countP_add_countP _ (fun nanos => ∃ bound ∈ latencyBuckets, nanos ≤ bound)
    (fun nanos => latencyBuckets.findIdx? (fun bound => nanos ≤ bound) = none) (fun _ => True) _ _ _
    (fun nanos => ?_) (fun nanos => ?_) latencies
  · rw [all]
    exact List.countP_eq_length.mpr fun _ _ => rfl
  · rw [true_iff, beyond]
    by_cases fits : ∃ bound ∈ latencyBuckets, nanos ≤ bound
    · exact .inl fits
    · exact .inr fun bound listed less => fits ⟨bound, listed, less⟩
  · rw [beyond]
    rintro ⟨bound, listed, less⟩ none
    exact none bound listed less

/-- **What a scrape shows**, after any requests that were served concurrently by a new process. -/
theorem scrape_counts (N : Machine Stmt T) (nature : Nature)
    (route : Request → Prog Stmt (Response Body)) (requests : List Request) (turns : List Nat)
    {world : World T} (fresh : world.counters = 0) (few : requests.length < 2 ^ 64) :
    ∃ (replies : List (Response Body)) (latencies : List Nat) (scrape : Scrape),
      ((machine N nature).run (serveAll route requests turns) world).1 = some replies ∧
      latencies.length = requests.length ∧ Clocked nature world latencies ∧
      ((machine N nature).run render
        ((machine N nature).run (serveAll route requests turns) world).2).1 = scrape ∧
      scrape.total.toNat = requests.length ∧
      scrape.clientErrors.toNat =
        replies.countP (fun reply => decide (400 ≤ reply.status ∧ reply.status ≤ 499)) ∧
      scrape.serverErrors.toNat =
        replies.countP (fun reply => decide (500 ≤ reply.status ∧ reply.status ≤ 599)) ∧
      scrape.buckets.map BitVec.toNat =
        latencyBuckets.map (fun bound => latencies.countP fun nanos => decide (nanos ≤ bound)) ∧
      scrape.observed.toNat = requests.length ∧
      scrape.sumMicros = (latencies.map fun nanos => (asMicros nanos : BitVec 64)).sum := by
  obtain ⟨replies, latencies, _, answered, timed, ids, _, _, grown, clocked⟩ :=
    accounts_serveAll N nature route requests turns world
  have length : replies.length = latencies.length := ids.length_eq.symm.trans timed.symm
  have few' : latencies.length < 2 ^ 64 := timed.trans_lt few
  generalize ((machine N nature).run (serveAll route requests turns) world).2 = last at grown ⊢
  have counters : ∀ counter, last.counters counter = tallyOf replies latencies counter :=
    fun counter => by rw [grown, fresh, Pi.zero_apply, zero_add]
  have looped := @run_buckets _ _ N nature last latencies fun index =>
    (counters _).trans (tallyOf_latencies length (fun _ => rfl) fun _ => rfl)
  refine ⟨replies, latencies, _, answered, timed, clocked, congrArg Prod.fst (run_render looped),
    ?_, ?_, ?_, ?_, ?_, ?_⟩
  · show (last.counters .total).toNat = _
    rw [counters, @tallyOf_statuses _ _ _ length (fun _ => True) _ _ (fun _ => rfl) fun _ => rfl]
    simp only [decide_true, List.countP_true]
    rw [length, timed, toNat_count few]
  · show (last.counters .clientErrors).toNat = _
    rw [counters, @tallyOf_statuses _ _ _ length (fun status => 400 ≤ status ∧ status ≤ 499) _ _
      (fun _ => rfl) fun _ => rfl]
    exact toNat_count (List.countP_le_length.trans_lt (length.trans_lt few'))
  · show (last.counters .serverErrors).toNat = _
    rw [counters, @tallyOf_statuses _ _ _ length (fun status => 500 ≤ status ∧ status ≤ 599) _ _
      (fun _ => rfl) fun _ => rfl]
    exact toNat_count (List.countP_le_length.trans_lt (length.trans_lt few'))
  · dsimp only
    rw [List.map_map]
    exact List.map_congr_left fun bound _ => toNat_count (List.countP_le_length.trans_lt few')
  · show (_ + last.counters .latencyOverflow).toNat = _
    rw [counters, tallyOf_latencies length (fun _ => rfl) fun _ => rfl, ← Nat.cast_add,
      countP_overflow, timed, toNat_count few]
  · show last.counters .latencySumMicros = _
    rw [counters, tallyOf_eq length]
    simp only [statusTally, latencyTally, List.map_const', List.sum_replicate, nsmul_zero, zero_add]

end

/-! ### Two requests -/

/-- Routes that make no statements. -/
inductive NoStmt : Type → Type

def idle : Machine NoStmt Unit := ⟨fun statement _ => nomatch statement⟩

def sampleNature : Nature where
  uuid draw := ⟨BitVec.ofNat 128 draw⟩
  now draw := draw
  elapsed draw := 3000000 * draw
  fate _ := .done

def sampleRoute (request : Request) : Prog NoStmt (Response Unit) :=
  .done ⟨if request.path = "/v1/usage" then 200 else 404, (), none⟩

def sampleRequests : List Request :=
  [⟨.post, "/v1/usage", none, some "first"⟩, ⟨.get, "/v1/orders", none, none⟩]

def newWorld : World Unit := ⟨(), [], 0, 0⟩

/-- Both are counted, and both latencies. -/
theorem scrape_counts_sample : ∃ scrape,
    ((machine idle sampleNature).run render ((machine idle sampleNature).run
      (serveAll sampleRoute sampleRequests [1, 0, 1]) newWorld).2).1 = scrape ∧
    scrape.total.toNat = 2 ∧ scrape.observed.toNat = 2 := by
  obtain ⟨_, _, scrape, _, _, _, shown, total, _, _, _, observed, _⟩ :=
    scrape_counts idle sampleNature sampleRoute sampleRequests [1, 0, 1]
      (show newWorld.counters = 0 from rfl) (by decide)
  exact ⟨scrape, shown, total, observed⟩

end Meter.Front
