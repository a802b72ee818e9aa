import Inferna.Scheduler

/-!
# The worker service

`services/workers_svc.py`: registration, the Sync exchange and the disconnect
watchdog.  A Sync stores what the worker reports about its containers and answers
with the commands that take the worker towards the desired state.

SHA-256 and the address policy are parameters: nothing here depends on which
functions they are.

## Main definitions

* `InstanceStatus`, `SyncRequest`, `Command` — the messages.
* `registerWorker` — `register_worker`.
* `applyStatuses` — the reported statuses written to a row.
* `buildCommands` — the commands of the response.
* `syncWorker` — `sync_worker`.
* `markDisconnected` — the watchdog.
* `deleteWorker` — `delete_worker` of `api/workers.py`.

## Main results

* `registerWorker_ok`, `syncWorker_stored`, `deleteWorker_ok` — what each call would
  commit.
* `syncAuth_eq_ok` — a Sync authenticates exactly with the token of its row.
-/

namespace Inferna

/-! ### Messages -/

/-- The state column of a report: a state of the schema, or a text that
`ck_model_instances_state` refuses. -/
inductive WireState
  | of (s : InstanceState)
  | other (text : String)
  deriving DecidableEq, Repr, Inhabited

/-- `InstanceStatus`. -/
structure InstanceStatus where
  instanceId : Uuid
  state : WireState
  detail : String := ""
  port : ℕ := 0
  generation : ℕ := 0
  logTail : String := ""
  deriving DecidableEq, Repr, Inhabited

/-- `Parallelism`. -/
structure Parallelism where
  mode : ParallelMode
  tensorParallel : ℕ
  pipelineParallel : ℕ
  worldSize : ℕ
  deriving DecidableEq, Repr, Inhabited

/-- `Rendezvous`. -/
structure Rendezvous where
  masterAddress : String
  masterPort : ℕ
  nodeRank : ℕ
  numNodes : ℕ
  env : List String
  deriving DecidableEq, Repr, Inhabited

/-- `EngineConfig`. -/
structure EngineConfig where
  engine : Engine
  modelName : String
  profile : Profile
  gpuIndexes : List ℕ
  vramRequiredMb : ℕ
  port : ℕ
  requiresHfToken : Bool
  parallelism : Option Parallelism := none
  rendezvous : Option Rendezvous := none
  deriving DecidableEq, Repr, Inhabited

/-- The action of a command. -/
inductive Action
  | start
  | stop
  | delete
  deriving DecidableEq, Repr, Inhabited

/-- `InstanceCommand`.  Only a start carries a generation and a config. -/
structure Command where
  instanceId : Uuid
  action : Action
  generation : ℕ := 0
  config : Option EngineConfig := none
  deriving DecidableEq, Repr, Inhabited

/-- `RegisterRequest`. -/
structure RegisterRequest where
  clusterToken : String
  hostname : String
  workerName : String := ""
  clusterName : String := ""
  version : String := ""
  protocolVersion : ℕ := 1
  address : String := ""
  deriving DecidableEq, Repr, Inhabited

/-- `SyncRequest`; a worker id that is not a UUID is `none`. -/
structure SyncRequest where
  workerId : Option Uuid
  workerToken : String
  systemHostname : String := ""
  gpus : List Gpu := []
  instances : List InstanceStatus := []
  deriving DecidableEq, Repr, Inhabited

/-! ### Registration -/

/-- `PROTOCOL_VERSION`. -/
def protocolVersion : ℕ := 1

/-- `MIN_WORKER_VERSION`. -/
def minWorkerVersion : List ℤ := [0, 2, 0]

/-- `int(p)` on a component of a version. -/
def versionComponent (p : List Char) : Option ℤ :=
  match Text.strip p with
  | '-' :: ds => if Text.isDigits ds then some (-(Text.digitsValue ds : ℤ)) else none
  | '+' :: ds => if Text.isDigits ds then some (Text.digitsValue ds) else none
  | ds => if Text.isDigits ds then some (Text.digitsValue ds) else none

/-- The version as a triple: the first three components, padded with zeros; a
version that does not parse counts as `0.0.0`. -/
def parseVersion (version : String) : List ℤ :=
  let text := if version = "" then "0.0.0" else version
  match ((text.toList.splitOn '.').take 3).mapM versionComponent with
  | some parts => (parts ++ [0, 0, 0]).take 3
  | none => [0, 0, 0]

/-- The guards of `register_worker`, with the cluster they find. -/
def registerGuard (s : Settings) (db : Db) (req : RegisterRequest) : Except ServerError Cluster :=
  if req.clusterToken ≠ s.registrationToken then
    .error (.rpc .permissionDenied "invalid cluster token")
  else if req.protocolVersion ≠ protocolVersion then
    .error (.rpc .failedPrecondition ("unsupported protocol version " ++
      toString req.protocolVersion ++ "; server supports " ++ toString protocolVersion))
  else if parseVersion req.version < minWorkerVersion then
    .error (.rpc .failedPrecondition ("worker version " ++
      (if req.version = "" then "unknown" else req.version) ++ " is too old; minimum 0.2.0"))
  else
    let clusterName := if req.clusterName = "" then "default" else req.clusterName
    match db.clusters.find? (·.name = clusterName) with
    | none => .error (.rpc .notFound ("cluster '" ++ clusterName ++ "' not found"))
    | some cluster => .ok cluster

/-- The address a request registers, checked by the policy. -/
def registerAddress (validate : String → Except String String) (req : RegisterRequest) :
    Except ServerError (Option String) :=
  let raw := String.ofList (Text.strip req.address.toList)
  if raw = "" then .ok none
  else
    match validate raw with
    | .ok address => .ok (some address)
    | .error reason => .error (.rpc .invalidArgument ("invalid worker address: " ++ reason))

/-- The name a request asks for. -/
def RegisterRequest.name (req : RegisterRequest) : String :=
  if req.workerName = "" then req.hostname else req.workerName

/-- The row the identity resolves to: by name and host, else by host, else by name. -/
def resolveIdentity (db : Db) (clusterId : Uuid) (req : RegisterRequest) : Option Worker :=
  let mine := db.workers.filter (·.clusterId = clusterId)
  match mine.find? fun w => w.name = req.name ∧ w.hostname = req.hostname with
  | some w => some w
  | none =>
    match mine.find? (·.hostname = req.hostname) with
    | some w => some w
    | none => mine.find? (·.name = req.name)

/-- No other row of the cluster uses the host name. -/
def hostnameAvailable (db : Db) (w : Worker) (hostname : String) : Bool :=
  db.workers.all fun v => ¬ (v.clusterId = w.clusterId ∧ v.hostname = hostname ∧ v.id ≠ w.id)

/-- No other row of the cluster uses the name. -/
def nameAvailable (db : Db) (w : Worker) (name : String) : Bool :=
  db.workers.all fun v => ¬ (v.clusterId = w.clusterId ∧ v.name = name ∧ v.id ≠ w.id)

/-- What a registration writes to the row it reuses. -/
def refreshWorker (db : Db) (req : RegisterRequest) (tokenHash : String)
    (address : Option String) (now : ℕ) (w : Worker) : Worker :=
  -- a row found by its name only follows the machine to its new host name
  let matchedByName := w.hostname ≠ req.hostname
  { w with
    tokenHash := tokenHash
    state := .connected
    lastSeenAt := some now
    address := address
    hostname :=
      if matchedByName ∧ hostnameAvailable db w req.hostname then req.hostname else w.hostname
    name :=
      if req.workerName ≠ "" ∧ req.workerName ≠ w.name ∧ nameAvailable db w req.workerName then
        req.workerName
      else w.name
    version := if req.version ≠ "" then some req.version else w.version }

/-- The row a registration inserts. -/
def newWorker (req : RegisterRequest) (clusterId : Uuid) (tokenHash : String)
    (address : Option String) (now : ℕ) (id : Uuid) : Worker where
  id := id
  clusterId := clusterId
  name := req.name
  hostname := req.hostname
  state := .connected
  tokenHash := tokenHash
  version := if req.version ≠ "" then some req.version else none
  address := address
  lastSeenAt := some now

/-- `register_worker`: the state it commits and the worker id it answers with. -/
def registerWorker (sha256Hex : String → String) (validate : String → Except String String)
    (s : Settings) (db : Db) (req : RegisterRequest) (token : String) (now : ℕ) :
    Except ServerError (Db × Uuid) :=
  match registerGuard s db req with
  | .error e => .error e
  | .ok cluster =>
    match registerAddress validate req with
    | .error e => .error e
    | .ok address =>
      match resolveIdentity db cluster.id req with
      | none =>
        let w := newWorker req cluster.id (sha256Hex token) address now db.nextUuid
        .ok ({ db with workers := db.workers ++ [w], lastUuid := db.nextUuid }, w.id)
      | some w =>
        let refresh := refreshWorker db req (sha256Hex token) address now
        .ok ({ db with workers := db.workers.map fun v => if v.id = w.id then refresh v else v },
          w.id)

/-- What a registration commits: a row of its own, or one that it refreshes. -/
theorem registerWorker_ok {sha256Hex : String → String} {validate : String → Except String String}
    {s : Settings} {db db' : Db} {req : RegisterRequest} {token : String} {now : ℕ} {id : Uuid}
    (h : registerWorker sha256Hex validate s db req token now = .ok (db', id)) :
    ∃ (cluster : Cluster) (address : Option String),
      (resolveIdentity db cluster.id req = none ∧ id = db.nextUuid ∧
        db' = { db with
          workers := db.workers ++
            [newWorker req cluster.id (sha256Hex token) address now db.nextUuid]
          lastUuid := db.nextUuid }) ∨
      ∃ w, resolveIdentity db cluster.id req = some w ∧ id = w.id ∧
        db' = { db with
          workers := db.workers.map fun v =>
            if v.id = w.id then refreshWorker db req (sha256Hex token) address now v else v } := by
  unfold registerWorker at h
  split at h
  · cases h
  rename_i cluster _
  split at h
  · cases h
  rename_i address _
  refine ⟨cluster, address, ?_⟩
  split at h
  · rename_i hnone
    simp only [Except.ok.injEq, Prod.mk.injEq] at h
    exact Or.inl ⟨hnone, h.2.symm, h.1.symm⟩
  · rename_i w hsome
    simp only [Except.ok.injEq, Prod.mk.injEq] at h
    exact Or.inr ⟨w, hsome, h.2.symm, h.1.symm⟩

/-! ### Sync: what the worker reports -/

/-- `LOG_TAIL_MAX_CHARS`. -/
def logTailMaxChars : ℕ := 8192

/-- The newest characters of a log tail. -/
def trimLogTail (logTail : String) : String :=
  String.ofList (logTail.toList.drop (logTail.toList.length - logTailMaxChars))

/-- One status written to its row. -/
def applyStatus (i : Instance) (st : InstanceStatus) : Instance :=
  { i with
    state := match st.state with
      | .of s => s
      | .other _ => i.state
    errorDetail := if st.detail = "" then none else some st.detail
    logTail := if st.logTail = "" then i.logTail else some (trimLogTail st.logTail)
    port := if st.port = 0 then i.port else some st.port }

/-- The statuses of a request about one instance, in order. -/
def SyncRequest.statusesOf (req : SyncRequest) (id : Uuid) : List InstanceStatus :=
  req.instances.filter (·.instanceId = id)

/-- `reported.get(id)`: the last status about the instance. -/
def SyncRequest.reported (req : SyncRequest) (id : Uuid) : Option InstanceStatus :=
  (req.statusesOf id).getLast?

/-- The reports written to the rows of the worker. -/
def applyStatuses (req : SyncRequest) (workerId : Uuid) (i : Instance) : Instance :=
  if i.workerId = some workerId then (req.statusesOf i.id).foldl applyStatus i else i

/-- The text is not a state of the schema. -/
def WireState.refused : WireState → Bool
  | .of _ => false
  | .other _ => true

/-- The last status about a row of the worker is not a state of the schema. -/
def refusedState (req : SyncRequest) (workerId : Uuid) (i : Instance) : Bool :=
  i.workerId == some workerId && (req.reported i.id).any (·.state.refused)

/-- The GPU rows after a report: upserted by index, stale ones deleted. -/
def upsertGpus (existing reported : List Gpu) : List Gpu :=
  (existing.filter (·.index ∈ reported.map (·.index))).map
      (fun g => (reported.reverse.find? (·.index = g.index)).getD g) ++
    reported.filter (·.index ∉ existing.map (·.index))

/-- What a Sync writes to the worker row. -/
def syncRow (req : SyncRequest) (now : ℕ) (w : Worker) : Worker :=
  { w with
    state := .connected
    lastSeenAt := some now
    hostname := if req.systemHostname = "" then w.hostname else req.systemHostname
    gpus := upsertGpus w.gpus req.gpus }

/-! ### Sync: the commands -/

/-- `_apply_parallelism`. -/
def applyParallelism (config : EngineConfig) (i : Instance) : EngineConfig :=
  match i.parallelGroupId, i.rendezvous with
  | some _, some rendezvous =>
    let split := (Text.rpartition ':' rendezvous.toList).getD ([], rendezvous.toList)
    let host := String.ofList split.1
    let worldSize := match i.worldSize with
      | some n => if n = 0 then 1 else n
      | none => 1
    { config with
      parallelism := some {
        mode := i.parallelMode.getD .single
        tensorParallel := i.gpuIndexes.length
        pipelineParallel := if i.parallelMode = some .pp then worldSize else 1
        worldSize := worldSize }
      rendezvous := some {
        masterAddress := host
        masterPort := if Text.isDigits split.2 then Text.digitsValue split.2 else 0
        nodeRank := i.nodeRank.getD 0
        numNodes := worldSize
        env := ["MASTER_ADDR=" ++ host, "MASTER_PORT=" ++ String.ofList split.2] } }
  | _, _ => config

/-- The config of a start command. -/
def engineConfig (db : Db) (i : Instance) : EngineConfig :=
  let model := db.findModel i.modelId
  applyParallelism
    { engine := i.engine
      modelName := (model.map (·.name)).getD ""
      profile := i.profile
      gpuIndexes := i.gpuIndexes
      vramRequiredMb := db.vramOf i
      port := i.port.getD 0
      requiresHfToken := (model.map (·.requiresHfToken)).getD false } i

/-- The command for one row of the worker, from its desired state and the report. -/
def rowCommand (db : Db) (req : SyncRequest) (i : Instance) : Option Command :=
  let rep := req.reported i.id
  match i.desiredState with
  | .running =>
    let applied : ℕ := (rep.map (·.generation)).getD 0
    let observed : WireState := (rep.map (·.state)).getD (.of .stopped)
    if applied < i.generation ∨ observed = .of .stopped then
      some ⟨i.id, .start, i.generation, some (engineConfig db i)⟩
    else none
  | .stopped =>
    match rep with
    | some st =>
      if st.state = .of .starting ∨ st.state = .of .running then some ⟨i.id, .stop, 0, none⟩
      else none
    | none => none

/-- The ids of the request that are rows of the worker. -/
def knownIds (db : Db) (req : SyncRequest) (workerId : Uuid) : List Uuid :=
  (db.instances.filter fun i =>
    i.workerId = some workerId ∧ i.id ∈ req.instances.map (·.instanceId)).map (·.id)

/-- The commands of the response; `db` already holds the reports. -/
def buildCommands (db : Db) (req : SyncRequest) (workerId : Uuid) : List Command :=
  (db.instances.filter (·.workerId = some workerId)).filterMap (rowCommand db req) ++
    (req.instances.filter (·.instanceId ∉ knownIds db req workerId)).map
      fun st => ⟨st.instanceId, .delete, 0, none⟩

/-- The tables after the reports of a Sync. -/
def storeReports (db : Db) (req : SyncRequest) (workerId : Uuid) (now : ℕ) : Db :=
  { db with
    workers := db.workers.map fun w => if w.id = workerId then syncRow req now w else w
    instances := db.instances.map (applyStatuses req workerId) }

/-- The worker a Sync authenticates as. -/
def syncAuth (sha256Hex : String → String) (db : Db) (req : SyncRequest) :
    Except ServerError Worker :=
  match req.workerId with
  | none => .error (.rpc .unauthenticated "invalid worker id")
  | some id =>
    match db.findWorker id with
    | none => .error (.rpc .unauthenticated "invalid worker token")
    | some w =>
      if w.tokenHash ≠ sha256Hex req.workerToken then
        .error (.rpc .unauthenticated "invalid worker token")
      else .ok w

/-- A Sync authenticates exactly with the token of its row. -/
theorem syncAuth_eq_ok {sha256Hex : String → String} {db : Db} {req : SyncRequest} {w : Worker} :
    syncAuth sha256Hex db req = .ok w ↔ ∃ id, req.workerId = some id ∧
      db.findWorker id = some w ∧ w.tokenHash = sha256Hex req.workerToken := by
  unfold syncAuth
  cases hid : req.workerId with
  | none => simp
  | some id =>
    cases hfind : db.findWorker id with
    | none => simp [hfind]
    | some v =>
      simp only [Option.some.injEq, exists_eq_left', hfind]
      split_ifs with hhash
      · refine iff_of_false (fun h => by cases h) ?_
        rintro ⟨rfl, htoken⟩
        exact hhash htoken
      · rw [not_not] at hhash
        refine ⟨fun h => ?_, fun h => congrArg Except.ok h.1⟩
        obtain rfl := Except.ok.inj h
        exact ⟨rfl, hhash⟩

/-- `sync_worker`: the state it commits and the commands it answers with. -/
def syncWorker (sha256Hex : String → String) (db : Db) (req : SyncRequest) (now : ℕ) :
    Except ServerError (Db × List Command) :=
  match syncAuth sha256Hex db req with
  | .error e => .error e
  | .ok w =>
    if db.instances.any (refusedState req w.id) then .error (.integrity .instanceState)
    else
      let db' := storeReports db req w.id now
      .ok (db', buildCommands db' req w.id)

/-- A Sync that is answered has authenticated, and its reports are stored. -/
theorem syncWorker_stored {sha256Hex : String → String} {db db' : Db} {req : SyncRequest} {now : ℕ}
    {commands : List Command} (h : syncWorker sha256Hex db req now = .ok (db', commands)) :
    ∃ w, syncAuth sha256Hex db req = .ok w ∧ db' = storeReports db req w.id now ∧
      commands = buildCommands db' req w.id := by
  unfold syncWorker at h
  split at h
  · cases h
  rename_i w hauth
  split at h
  · cases h
  simp only [Except.ok.injEq, Prod.mk.injEq] at h
  obtain ⟨rfl, rfl⟩ := h
  exact ⟨w, hauth, rfl, rfl⟩

/-! ### The watchdog -/

/-- `DISCONNECT_AFTER_SECONDS`. -/
def disconnectAfterSeconds : ℕ := 30

/-- The worker is connected but has not been seen for too long. -/
def isStale (now : ℕ) (w : Worker) : Bool :=
  w.state = .connected ∧ w.lastSeenAt.any fun t => t + disconnectAfterSeconds < now

/-- The rows the watchdog marks as errored. -/
def lostWith (stale : List Uuid) (i : Instance) : Bool :=
  i.workerId.any (· ∈ stale) && i.desiredState == .running && i.state.isLive

/-- `mark_disconnected`. -/
def markDisconnected (db : Db) (now : ℕ) : Db :=
  let stale := (db.workers.filter (isStale now)).map (·.id)
  { db with
    workers := db.workers.map fun w => if isStale now w then { w with state := .disconnected } else w
    instances := db.instances.map fun i =>
      if lostWith stale i then
        { i with state := .error, errorDetail := some "worker disconnected" }
      else i }

/-! ### Removing a worker -/

/-- What the removal of a worker writes to a row of it: the row is detached, and errored if it
was live. -/
def detach (workerId : Uuid) (i : Instance) : Instance :=
  if i.workerId = some workerId then
    if i.state.isLive then
      { i with workerId := none, state := .error, errorDetail := some "worker removed" }
    else { i with workerId := none }
  else i

/-- `delete_worker`.  The GPU rows go with the worker. -/
def deleteWorker (db : Db) (id : Uuid) : Except ServerError Db :=
  match db.findWorker id with
  | none => .error (.http 404 "worker not found")
  | some _ => .ok { db with
      workers := db.workers.filter (·.id ≠ id)
      instances := db.instances.map (detach id) }

theorem deleteWorker_ok {db db' : Db} {id : Uuid} (h : deleteWorker db id = .ok db') :
    db' = { db with
      workers := db.workers.filter (·.id ≠ id)
      instances := db.instances.map (detach id) } := by
  unfold deleteWorker at h
  split at h
  · cases h
  · exact (Except.ok.inj h).symm

end Inferna
