import Inferna.Autoscaling
import Inferna.Manager
import Inferna.Lib.Run

/-!
# The control plane and its workers

The whole system: the server's tables, the workers with their Docker hosts, and
the steps that move them.  A step is one request, one RPC, one tick of a
background loop, or one move of a worker; the run of a list of steps is any
interleaving of all of them.

Every request commits once or fails; a commit that a constraint refuses leaves
the tables as they were, and its `IntegrityError` is part of the outcome.  The
workers are truthful: a Sync reports the manager's registry and the worker's
fixed GPU list.  Docker refuses to start a container exactly when another
running container publishes its host port; every other call succeeds.

## Main definitions

* `Env` — settings and the parameters that stand for other code.
* `World`, `Step`, `Outcome`.
* `World.step`, `World.next` — one step, with and without its outcome.
* `World.Initial` — a freshly installed server.
-/

namespace Inferna

/-- What a run is parametrised by. -/
structure Env where
  settings : Settings
  sha256Hex : String → String
  /-- The address policy of the registration. -/
  validateAddress : String → Except String String
  /-- The fixed GPU list each worker reports. -/
  gpuList : Uuid → List Gpu
  /-- A worker's GPU indexes are distinct. -/
  gpuList_nodup : ∀ w, ((gpuList w).map (·.index)).Nodup
  /-- The workers have a Hugging Face token. -/
  hfToken : Bool

/-- The state of the system. -/
structure World where
  db : Db
  /-- The worker process and Docker host behind each worker row. -/
  hosts : Uuid → Host
  /-- The token each worker sends. -/
  tokens : Uuid → String
  /-- The cooldown map of the autoscale loop. -/
  cooldown : Dict Uuid ℚ

/-- One step of the system. -/
inductive Step
  | deploy (body : DeployRequest) (now : ℕ)
  | scale (id : Uuid) (body : ScaleRequest) (now : ℕ)
  | setRange (id : Uuid) (body : RangeRequest) (now : ℕ)
  | autoscaleTick (m : Metrics) (clock : ℕ) (now : ℚ)
  | stop (id : Uuid)
  | restart (id : Uuid)
  | deleteInstance (id : Uuid)
  | deleteDeployment (id : Uuid)
  | register (req : RegisterRequest) (token : String) (now : ℕ)
  | sync (w : Uuid) (now : ℕ)
  | markDisconnected (now : ℕ)
  /-- The worker's batch applies its next command, or ends. -/
  | applyNext (w : Uuid)
  | probe (w id : Uuid) (ready : Bool)
  | containerExit (w id : Uuid)
  | restartWorker (w : Uuid)

/-- What a step came to: the errors of its requests, and a start that Docker
refused because of its port. -/
structure Outcome where
  errors : List ServerError := []
  refused : Option Uuid := none
  deriving DecidableEq, Repr, Inhabited

/-- Commit the state a request computed. -/
def commitTo (db : Db) : Except ServerError Db → Db × List ServerError
  | .error e => (db, [e])
  | .ok db' =>
    match db'.violation with
    | none => (db', [])
    | some c => (db, [.integrity c])

/-! ### Worker moves -/

/-- The port of a start that Docker has to bind. -/
def Command.bindsPort (c : Command) : Option ℕ :=
  match c.action with
  | .start => c.config.bind (·.published)
  | _ => none

/-- Docker refuses the start of this command. -/
def refusesStart (h : Host) (c : Command) : Bool :=
  c.bindsPort.any fun port => h.portHeld c.instanceId port

/-- The command gets as far as starting a container. -/
def reachesStart (hfToken : Bool) (h : Host) (c : Command) : Bool :=
  c.action = .start ∧ ¬ alreadyApplied (h.instances.get? c.instanceId) c.generation ∧
    ¬ (c.config.any (·.requiresHfToken) ∧ ¬ hfToken)

/-- The batch of a worker applies its next command, or ends. -/
def Host.applyNext (hfToken : Bool) (h : Host) : Host × Outcome :=
  match h.batch with
  | none => (h, {})
  | some [] => (h.finishBatch, {})
  | some (c :: rest) =>
    let refused := refusesStart h c
    ({ h.applyDockerCommand hfToken { startOk := !refused } true c with batch := some rest },
      { refused := if reachesStart hfToken h c && refused then some c.instanceId else none })

namespace World

/-- Replace the host of one worker. -/
def setHost (wd : World) (w : Uuid) (h : Host) : World :=
  { wd with hosts := Function.update wd.hosts w h }

/-- The Sync request a worker sends. -/
def syncRequest (env : Env) (wd : World) (w : Uuid) : SyncRequest where
  workerId := some w
  workerToken := wd.tokens w
  gpus := env.gpuList w
  instances := (wd.hosts w).statuses

/-- The state a request commits, for the steps that are one request. -/
def candidate (env : Env) (db : Db) : Step → Option (Except ServerError Db)
  | .deploy body now => some (Inferna.deploy env.settings db body now)
  | .scale id body now => some (scaleDeployment env.settings db id body now)
  | .setRange id body now => some (setDeploymentRange env.settings db id body now)
  | .stop id => some (stopInstance db id)
  | .restart id => some (restartInstance db id)
  | .deleteInstance id => some (Inferna.deleteInstance db id)
  | .deleteDeployment id => some (Inferna.deleteDeployment db id)
  | .markDisconnected now => some (.ok (Inferna.markDisconnected db now))
  | _ => none

/-- A registration: the row, and the token its worker uses from now on. -/
def registerStep (env : Env) (wd : World) (req : RegisterRequest) (token : String) (now : ℕ) :
    World × Outcome :=
  match registerWorker env.sha256Hex env.validateAddress env.settings wd.db req token now with
  | .error e => (wd, { errors := [e] })
  | .ok (db', w) =>
    match db'.violation with
    | some c => (wd, { errors := [.integrity c] })
    | none => ({ wd with db := db', tokens := Function.update wd.tokens w token }, {})

/-- A Sync: the reports are stored, and the worker reconciles with the answer. -/
def syncStep (env : Env) (wd : World) (w : Uuid) (now : ℕ) : World × Outcome :=
  match syncWorker env.sha256Hex wd.db (wd.syncRequest env w) now with
  | .error e => (wd, { errors := [e] })
  | .ok (db', commands) =>
    match db'.violation with
    | some c => (wd, { errors := [.integrity c] })
    | none => ({ wd with db := db' }.setHost w ((wd.hosts w).reconcile commands), {})

/-- A pass of the autoscaler. -/
def tickWorld (env : Env) (wd : World) (m : Metrics) (clock : ℕ) (now : ℚ) : World × Outcome :=
  let t := Inferna.autoscaleTick env.settings m clock now wd.cooldown wd.db
  ({ wd with db := t.session.committed, cooldown := t.cooldown },
    { errors := t.failed.map (·.2) })

/-- One step of the system. -/
def step (env : Env) (wd : World) : Step → World × Outcome
  | .register req token now => wd.registerStep env req token now
  | .sync w now => wd.syncStep env w now
  | .autoscaleTick m clock now => wd.tickWorld env m clock now
  | .applyNext w =>
    let r := (wd.hosts w).applyNext env.hfToken
    (wd.setHost w r.1, r.2)
  | .probe w id ready => (wd.setHost w ((wd.hosts w).probeResult id ready), {})
  | .containerExit w id => (wd.setHost w ((wd.hosts w).containerExit id), {})
  | .restartWorker w => (wd.setHost w (wd.hosts w).adoptExisting, {})
  | a =>
    match candidate env wd.db a with
    | none => (wd, {})
    | some c =>
      let r := commitTo wd.db c
      ({ wd with db := r.1 }, { errors := r.2 })

/-- The state after a step. -/
def next (env : Env) (wd : World) (a : Step) : World := (wd.step env a).1

/-- A freshly installed server: a catalog and clusters, but no worker, no
deployment and no instance, and no container on any host. -/
structure Initial (wd : World) : Prop where
  workers : wd.db.workers = []
  deployments : wd.db.deployments = []
  instances : wd.db.instances = []
  hosts : ∀ w, wd.hosts w = {}

end World

/-! ### The reports of a truthful worker -/

/-- The status a worker sends about a tracked instance. -/
def statusOf (id : Uuid) (t : Tracked) : InstanceStatus where
  instanceId := id
  state := .of t.state
  detail := t.detail
  port := t.port
  generation := t.generation

/-- A worker reports an instance once, or not at all. -/
theorem statusesOf_of_statuses {req : SyncRequest} {h : Host} (hreq : req.instances = h.statuses)
    (id : Uuid) : req.statusesOf id = (h.instances.get? id).toList.map (statusOf id) := by
  have hfilter := h.instances.filter_entries id
  rw [SyncRequest.statusesOf, hreq, Host.statuses, List.filter_map]
  change List.map _ (h.instances.entries.filter fun e => e.1 = id) = _
  rw [hfilter, List.map_map]
  rfl

/-- The last report about an instance is the manager's entry. -/
theorem reported_of_statuses {req : SyncRequest} {h : Host} (hreq : req.instances = h.statuses)
    (id : Uuid) : req.reported id = (h.instances.get? id).map (statusOf id) := by
  rw [SyncRequest.reported, statusesOf_of_statuses hreq]
  cases h.instances.get? id <;> rfl

theorem reported_syncRequest (env : Env) (wd : World) (w id : Uuid) :
    (wd.syncRequest env w).reported id = ((wd.hosts w).instances.get? id).map (statusOf id) :=
  reported_of_statuses rfl id

/-- **What a Sync writes to a row**: the entry of its worker's manager, if any. -/
theorem applyStatuses_syncRequest (env : Env) (wd : World) (w : Uuid) (i : Instance) :
    applyStatuses (wd.syncRequest env w) w i =
      if i.workerId = some w then
        (((wd.hosts w).instances.get? i.id).map fun t => applyStatus i (statusOf i.id t)).getD i
      else i := by
  rw [applyStatuses, statusesOf_of_statuses (h := wd.hosts w) rfl]
  split
  · cases (wd.hosts w).instances.get? i.id <;> rfl
  · rfl

/-- The row is in a live state. -/
def Instance.live (i : Instance) : Bool := i.state.isLive

/-- A Sync of the host makes the row live: it is not, and the manager reports it
in a live state. -/
def revives (h : Host) (i : Instance) : Bool :=
  !i.state.isLive && (h.instances.get? i.id).any (·.state.isLive)

/-- A Sync of the host leaves the row live. -/
def stays (h : Host) (i : Instance) : Bool :=
  i.state.isLive && (h.instances.get? i.id).all (·.state.isLive)

/-- After a Sync a row of the worker is live when it was revived or stayed. -/
theorem live_applyStatuses (env : Env) (wd : World) {w : Uuid} {i : Instance}
    (hw : i.workerId = some w) :
    (applyStatuses (wd.syncRequest env w) w i).live =
      (revives (wd.hosts w) i || stays (wd.hosts w) i) := by
  rw [applyStatuses_syncRequest, if_pos hw]
  unfold revives stays Instance.live
  cases (wd.hosts w).instances.get? i.id with
  | none => simp
  | some t => cases hi : i.state.isLive <;> simp [applyStatus, statusOf]

/-! ### A small installation -/

/-- One model of 10 MB for every worker with one GPU of 10 MB. -/
def sampleEnv : Env where
  settings := {}
  sha256Hex := id
  validateAddress := .ok
  gpuList := fun _ => [⟨0, .nvidia, 10⟩]
  gpuList_nodup := fun _ => by decide
  hfToken := false

/-- A cluster and a catalog of one model. -/
def sampleWorld : World where
  db := {
    clusters := [⟨1, "default"⟩]
    models := [{ id := 1, name := "llama", category := "llm", vramRequiredMb := 10,
                 supportedEngines := [.vllm] }] }
  hosts := fun _ => {}
  tokens := fun _ => ""
  cooldown := Dict.empty

theorem sampleWorld_initial : sampleWorld.Initial := ⟨rfl, rfl, rfl, fun _ => rfl⟩

/-- The worker `1` registers and reports its GPU. -/
def sampleJoin : List Step :=
  [.register { clusterToken := "inferna-registration-token", hostname := "node", version := "0.2.0",
               address := "10.0.0.1" } "token" 0,
   .sync 1 0, .applyNext 1]

/-- A request for one replica of the model. -/
def sampleDeploy : Step :=
  .deploy { modelId := 1, clusterId := 1, engine := .vllm, profile := .latency } 0

/-- The replica `3` is deployed, started and reported running. -/
def sampleServe : List Step :=
  sampleJoin ++ [sampleDeploy, .sync 1 1, .applyNext 1, .applyNext 1, .probe 1 3 true, .sync 1 2,
    .applyNext 1]

/-- It is then stopped, and reported stopped. -/
def sampleStopped : List Step :=
  sampleServe ++ [.stop 3, .sync 1 3, .applyNext 1, .applyNext 1, .sync 1 4, .applyNext 1]

end Inferna
