import Inferna.UpstreamGuard
import Inferna.Models
import Inferna.Lib.Run

/-!
# The inference gateway

`api/gateway.py`: a request is routed to an instance by `_resolve_target`, sent by
`_proxy` and streamed back by `_relay`.  The event loop runs one task at a time and
switches only where a task awaits, so a request is the place at which it waits, and
one step runs it from there to its next wait.  What the awaited call brings is the
input of the step: rows, an answer of the resolver, a response, an exception or the
cancellation of the task.

`_active_lock` is part of the state.  A task that finds it free goes on at once; one
that finds it taken waits.

Starlette is modelled by what it promises of a `StreamingResponse`: the background
task runs when the iteration of the body ends normally or because the client has
gone, and not when the body raises anything else.

## Main definitions

* `OpenAIError`, `Exc` — the errors of the API, and exceptions.
* `Routing` — the module's counters.
* `selectRow`, `reserve`, `releaseInstance` — the two sections of `_active_lock`.
* `connectHost`, `targetUrl` — the target of a routed request.
* `Phase`, `Request`, `Awaited` — where a request waits, and what it may get there.
* `resume` — one step of a request.
* `Gateway`, `GatewayEvent`, `Gateway.step` — all requests, interleaved.
-/

namespace Inferna

/-! ### Errors -/

/-- `OpenAIError`. -/
structure OpenAIError where
  statusCode : ℕ
  message : String
  type : String
  code : String
  deriving DecidableEq, Repr

namespace OpenAIError

def modelNotFound (modelName : String) : OpenAIError :=
  ⟨404, s!"model '{modelName}' not found", "invalid_request_error", "model_not_found"⟩

def noRunningInstance (modelName : String) : OpenAIError :=
  ⟨404, s!"model '{modelName}' has no running instance", "invalid_request_error",
    "model_not_found"⟩

def targetNotAllowed : OpenAIError :=
  ⟨502, "upstream target not allowed", "api_error", "upstream_not_allowed"⟩

def httpsNotAllowed : OpenAIError :=
  ⟨502, "https upstream requires an exact allowlist entry", "api_error", "upstream_not_allowed"⟩

def quotaExceeded : OpenAIError :=
  ⟨429, "usage quota exceeded", "insufficient_quota", "quota_exceeded"⟩

def upstreamUnreachable : OpenAIError :=
  ⟨502, "upstream unreachable", "api_error", "upstream_error"⟩

end OpenAIError

/-- An exception, as far as a handler tells it from others. -/
inductive Exc
  | openAI (e : OpenAIError)
  /-- `httpx.TransportError`. -/
  | transport
  /-- `httpx.InvalidURL`. -/
  | invalidUrl
  /-- `httpx.DecodingError`. -/
  | decoding
  /-- `asyncio.CancelledError`. -/
  | cancelled
  /-- Any other exception, by its class. -/
  | other (name : String)
  deriving DecidableEq, Repr

/-! ### The routing state -/

/-- The module's counters, its lock, and the increments of `inferna_requests` by
their labels. -/
structure Routing where
  activeByInstance : Dict Uuid ℤ := Dict.empty
  lastAssigned : Dict Uuid ℕ := Dict.empty
  assignSeq : ℕ := 1
  activeLock : Bool := false
  requestsCounter : List (String × ℕ) := []

namespace Routing

/-- `inferna_requests.labels(model=…, status=…).inc()`. -/
def countRequest (s : Routing) (model : String) (status : ℕ) : Routing :=
  { s with requestsCounter := s.requestsCounter ++ [(model, status)] }

/-- A section of `_active_lock`. -/
def locked (s : Routing) (body : Routing → Routing) : Routing :=
  { body { s with activeLock := true } with activeLock := false }

/-- Select, stamp and reserve: the update of `_resolve_target`. -/
def reserve (s : Routing) (id : Uuid) : Routing :=
  s.locked fun s =>
    { s with
      lastAssigned := s.lastAssigned.set id s.assignSeq
      assignSeq := s.assignSeq + 1
      activeByInstance := s.activeByInstance.set id (s.activeByInstance.getD id 0 + 1) }

/-- `_release_instance`, once it has the lock. -/
def releaseInstance (s : Routing) (id : Uuid) : Routing :=
  s.locked fun s =>
    let n := s.activeByInstance.getD id 1 - 1
    { s with
      activeByInstance :=
        if n ≤ 0 then s.activeByInstance.erase id else s.activeByInstance.set id n }

end Routing

/-! ### Selection -/

/-- A row of the query of `_resolve_target`, with the worker loaded for it. -/
structure RoutingRow where
  inst : Instance
  worker : Option Worker
  deriving DecidableEq, Repr

/-- The live instances of a model that have a port, heads only, by age. -/
def routingRows (db : Db) (modelId : Uuid) : List RoutingRow :=
  ((db.instances.filter fun i => i.modelId = modelId ∧ i.state.isLive = true ∧ i.port.isSome = true ∧
    (i.parallelGroupId = none ∨ i.nodeRank = some 0)).insertionSort
      fun a b => a.createdAt ≤ b.createdAt).map fun i => ⟨i, i.workerId.bind db.findWorker⟩

/-- `max(overlaps.values(), default=0)`. -/
def bestOverlap (overlap : Uuid → ℕ) (rows : List RoutingRow) : ℕ :=
  (rows.map fun r => overlap r.inst.id).foldr max 0

/-- The rows the selection picks from: those with the best overlap, if there is one. -/
def routingPool (overlap : Uuid → ℕ) (rows : List RoutingRow) : List RoutingRow :=
  if bestOverlap overlap rows = 0 then rows
  else rows.filter fun r => overlap r.inst.id = bestOverlap overlap rows

/-- The selection prefers the first row to the second: the lesser load, then the older
assignment. -/
def RoutingRow.Before (s : Routing) (a b : RoutingRow) : Prop :=
  s.activeByInstance.getD a.inst.id 0 < s.activeByInstance.getD b.inst.id 0 ∨
    s.activeByInstance.getD a.inst.id 0 = s.activeByInstance.getD b.inst.id 0 ∧
      s.lastAssigned.getD a.inst.id 0 < s.lastAssigned.getD b.inst.id 0

instance (s : Routing) : DecidableRel (RoutingRow.Before s) := fun _ _ => instDecidableOr

/-- The selected row, and its worker: a row without one is not routable. -/
def selectRow (s : Routing) (overlap : Uuid → ℕ) (rows : List RoutingRow) :
    Option (Instance × Worker) := do
  -- `min` keeps the first of several
  let row ← (routingPool overlap rows).foldl (List.argAux (RoutingRow.Before s)) none
  let worker ← row.worker
  return (row.inst, worker)

/-! ### The target -/

/-- `worker.address or worker.hostname`. -/
def rawHost (w : Worker) : List Char :=
  match w.address with
  | some address => if address = "" then w.hostname.toList else address.toList
  | none => w.hostname.toList

/-- The scheme of a raw host. -/
def schemeOf (u : Unicode) (raw : List Char) : List Char :=
  match splitAtScheme raw with
  | some (scheme, _) => u.lower scheme
  | none => "http".toList

/-- IPv6 literals go into brackets. -/
def bracketV6 (host : List Char) : List Char :=
  if (ipAddress host).isSome ∧ ':' ∈ host then '[' :: host ++ [']'] else host

/-- The host to connect to.  Over https an address cannot stand in for a name, which
is then passed on only if it is trusted itself. -/
def connectHost (u : Unicode) (settings : GuardSettings) (raw validated : List Char) :
    Except Exc (List Char) :=
  if schemeOf u raw = "https".toList then
    match extractHost u raw with
    | .error _ => .error (.other "ValueError")
    | .ok host =>
      if validated = host then .ok validated
      else if settings.environment = "development" ∨ hostnameInAllowlist u host settings then
        .ok (bracketV6 host)
      else .error (.openAI .httpsNotAllowed)
  else .ok validated

/-- The target of a request: the gateway's own path and query on the instance. -/
def targetUrl (u : Unicode) (raw host : List Char) (port : Option ℕ) (path query : List Char) :
    List Char :=
  schemeOf u raw ++ "://".toList ++ host ++ ':' :: ((port.map toString).getD "None").toList ++
    path ++ if query = [] then [] else '?' :: query

/-! ### Requests -/

/-- How the iteration of a body ends. -/
inductive BodyEnd
  | normal
  /-- The client has gone. -/
  | disconnected
  | raised (e : Exc)
  deriving DecidableEq, Repr

/-- How a request ends. -/
inductive Ending
  | streamed (status : ℕ)
  | raised (e : Exc)
  deriving DecidableEq, Repr

/-- Where a request waits. -/
inductive Phase
  /-- `_resolve_target`, for the row of the model. -/
  | model
  /-- `_resolve_target`, for the rows of the instances. -/
  | rows (model : Model)
  /-- `_resolve_target`, for `_active_lock`. -/
  | select (rows : List RoutingRow)
  /-- `_resolve_target`, for `resolve_and_validate`. -/
  | validate (inst : Instance) (worker : Worker)
  /-- `_proxy`, for `check_quota`. -/
  | quota (inst : Instance) (worker : Worker) (target : List Char)
  /-- `_proxy`, for `client.send`. -/
  | send (inst : Instance) (target : List Char)
  /-- `_relay`, for the next chunk or for the client to take one. -/
  | relay (inst : Instance) (status : ℕ)
  /-- `_relay`, for `resp.aclose()`, with the way the body is about to end. -/
  | close (inst : Instance) (status : ℕ) (body : BodyEnd)
  /-- The body has ended, and the background task is due. -/
  | background (inst : Instance) (status : ℕ)
  /-- `_release_instance`, for `_active_lock`. -/
  | release (id : Uuid) (ending : Ending)
  | ended (ending : Ending)

/-- A gateway request.  `reserved` and `released` record the slots it has taken and
given back. -/
structure Request where
  modelName : String
  path : List Char
  query : List Char := []
  phase : Phase := .model
  reserved : List Uuid := []
  released : List Uuid := []

/-- What ends the loop of `_relay`. -/
inductive RelayEnd
  /-- The upstream's stream ends. -/
  | exhausted
  /-- The read, or what is done with a chunk before it is passed on, raises. -/
  | raised (e : Exc)
  /-- The client has gone: `GeneratorExit` at the `yield`, or Starlette's cancellation. -/
  | disconnected
  deriving DecidableEq, Repr

/-- What a waiting request gets. -/
inductive Awaited
  /-- An exception, or the cancellation of the task, where it waits. -/
  | failed (e : Exc)
  /-- The answer of the database. -/
  | db (db : Db) (overlap : Uuid → ℕ)
  /-- The lock, which the holder has given back. -/
  | granted (overlap : Uuid → ℕ)
  /-- The answer of the resolver. -/
  | resolved (answer : DnsAnswer)
  /-- The answer of `check_quota`, and what `build_request` raises if it is reached. -/
  | checked (exceeded : Option (ℕ × ℕ)) (build : Option Exc)
  /-- The upstream's response. -/
  | responded (status : ℕ)
  /-- A chunk, passed on. -/
  | chunk
  /-- The end of the relay's loop, and what the accounting in its `finally` raises. -/
  | relayed (how : RelayEnd) (accounting : Option Exc)
  /-- The upstream's response is closed. -/
  | closed
  /-- The background task runs. -/
  | background

/-! ### The steps of a request -/

/-- The request is over.  `openai_error_handler` counts what `_proxy` has not. -/
def endRequest (s : Routing) (q : Request) (ending : Ending) : Routing × Request :=
  match ending with
  | .raised (.openAI e) =>
    (if e.statusCode = 502 then s else s.countRequest "unknown" e.statusCode,
      { q with phase := .ended ending })
  | _ => (s, { q with phase := .ended ending })

/-- `await _release_instance(…)`, after which the request is over. -/
def releaseAndEnd (s : Routing) (q : Request) (id : Uuid) (ending : Ending) : Routing × Request :=
  if s.activeLock then (s, { q with phase := .release id ending })
  else endRequest (s.releaseInstance id) { q with released := q.released ++ [id] } ending

/-- The section of `_resolve_target` that selects an instance. -/
def selectInstance (s : Routing) (q : Request) (overlap : Uuid → ℕ) (rows : List RoutingRow) :
    Routing × Request :=
  match selectRow s overlap rows with
  | none => endRequest s q (.raised (.openAI (.noRunningInstance q.modelName)))
  | some (inst, worker) =>
    (s.reserve inst.id,
      { q with phase := .validate inst worker, reserved := q.reserved ++ [inst.id] })

/-- `_resolve_target` after the answer of the resolver. -/
def validateTarget (u : Unicode) (settings : GuardSettings) (s : Routing) (q : Request)
    (inst : Instance) (worker : Worker) (answer : DnsAnswer) : Routing × Request :=
  match resolveAndValidate u (fun _ => answer) settings (rawHost worker) with
  | .error _ =>
    releaseAndEnd (s.countRequest q.modelName 502) q inst.id (.raised (.openAI .targetNotAllowed))
  | .ok validated =>
    match connectHost u settings (rawHost worker) validated with
    | .error e => releaseAndEnd s q inst.id (.raised e)
    | .ok host =>
      let target := targetUrl u (rawHost worker) host inst.port q.path q.query
      (s, { q with phase := .quota inst worker target })

/-- The handler of `_proxy` around `build_request` and `client.send`. -/
def sendFailed (s : Routing) (q : Request) (inst : Instance) (e : Exc) : Routing × Request :=
  match e with
  | .transport | .invalidUrl =>
    releaseAndEnd (s.countRequest q.modelName 502) q inst.id (.raised (.openAI .upstreamUnreachable))
  | e => releaseAndEnd s q inst.id (.raised e)

/-- `_proxy` after the answer of `check_quota`. -/
def buildRequest (u : Unicode) (s : Routing) (q : Request) (inst : Instance) (worker : Worker)
    (target : List Char) (exceeded : Option (ℕ × ℕ)) (build : Option Exc) : Routing × Request :=
  match exceeded with
  | some _ => releaseAndEnd s q inst.id (.raised (.openAI .quotaExceeded))
  | none =>
    -- the header keeps the name of the host
    match extractHost u (rawHost worker) with
    | .error _ => releaseAndEnd s q inst.id (.raised (.other "ValueError"))
    | .ok _ =>
      match build with
      | some e => sendFailed s q inst e
      | none => (s, { q with phase := .send inst target })

/-- The exceptions `_relay` ends the stream for. -/
def Exc.endsStream (e : Exc) : Bool := e = .transport ∨ e = .decoding

/-- How the body is about to end when the loop of `_relay` has. -/
def RelayEnd.bodyEnd : RelayEnd → BodyEnd
  | .exhausted => .normal
  | .raised e => if e.endsStream then .normal else .raised e
  | .disconnected => .disconnected

/-- The body has ended: Starlette runs the background task, or does not. -/
def endBody (s : Routing) (q : Request) (inst : Instance) (status : ℕ) (body : BodyEnd) :
    Routing × Request :=
  match body with
  | .normal | .disconnected => (s, { q with phase := .background inst status })
  | .raised e => endRequest s q (.raised e)

/-- The `finally` of `_relay`: an exception of the accounting comes before the
response is closed. -/
def finishRelay (s : Routing) (q : Request) (inst : Instance) (status : ℕ) (how : RelayEnd)
    (accounting : Option Exc) : Routing × Request :=
  match accounting with
  | some e => endBody s q inst status (.raised e)
  | none => (s, { q with phase := .close inst status how.bodyEnd })

/-- One step of a request: from where it waits to its next wait.  What it cannot get
where it waits leaves it there. -/
def resume (u : Unicode) (settings : GuardSettings) (s : Routing) (q : Request) (o : Awaited) :
    Routing × Request :=
  match q.phase, o with
  | .model, .db db _ =>
    match db.models.find? fun m => m.name = q.modelName with
    | none => endRequest s q (.raised (.openAI (.modelNotFound q.modelName)))
    | some m => (s, { q with phase := .rows m })
  | .model, .failed e => endRequest s q (.raised e)
  | .rows m, .db db overlap =>
    if s.activeLock then (s, { q with phase := .select (routingRows db m.id) })
    else selectInstance s q overlap (routingRows db m.id)
  | .rows _, .failed e => endRequest s q (.raised e)
  | .select rows, .granted overlap =>
    if s.activeLock then (s, q) else selectInstance s q overlap rows
  | .select _, .failed e => endRequest s q (.raised e)
  | .validate inst worker, .resolved answer => validateTarget u settings s q inst worker answer
  | .validate inst _, .failed e => releaseAndEnd s q inst.id (.raised e)
  | .quota inst worker target, .checked exceeded build =>
    buildRequest u s q inst worker target exceeded build
  | .quota inst _ _, .failed e => releaseAndEnd s q inst.id (.raised e)
  | .send inst _, .responded status =>
    (s.countRequest q.modelName status, { q with phase := .relay inst status })
  | .send inst _, .failed e => sendFailed s q inst e
  | .relay inst status, .relayed how accounting => finishRelay s q inst status how accounting
  | .relay inst status, .failed e => finishRelay s q inst status (.raised e) none
  | .close inst status body, .closed => endBody s q inst status body
  | .close inst status _, .failed e => endBody s q inst status (.raised e)
  | .background inst status, .background => releaseAndEnd s q inst.id (.streamed status)
  | .release id ending, .granted _ => releaseAndEnd s q id ending
  | .release _ _, .failed e => endRequest s q (.raised e)
  | _, _ => (s, q)

/-! ### Interleavings -/

/-- The routing state and the requests, in the order of their arrival. -/
structure Gateway where
  routing : Routing := {}
  requests : List Request := []

/-- What happens next. -/
inductive GatewayEvent
  /-- A request comes to `_resolve_target`. -/
  | arrive (modelName : String) (path query : List Char)
  /-- The request at an index goes on. -/
  | resume (r : ℕ) (o : Awaited)

/-- One step of the gateway. -/
def Gateway.step (u : Unicode) (settings : GuardSettings) (g : Gateway) : GatewayEvent → Gateway
  | .arrive modelName path query =>
    { g with requests := g.requests ++ [⟨modelName, path, query, .model, [], []⟩] }
  | .resume r o =>
    match g.requests[r]? with
    | none => g
    | some q =>
      ⟨(resume u settings g.routing q o).1, g.requests.set r (resume u settings g.routing q o).2⟩

end Inferna
