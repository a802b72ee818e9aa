import Inferna.Lib.Dict
import Mathlib.Tactic
import Mathlib.Data.List.Sort
import Mathlib.Data.List.MinMax
import Mathlib.Data.List.Dedup

/-!
# The control plane's tables

The rows of `models.py` that the scheduler, the scaling service, the worker
service and the instance API read and write, the constraints the database
enforces on them, and the settings those services read.  The tables are lists in
insertion order; a relationship with an `order_by` sorts them stably.

Columns that no modelled function reads (display names, GPU telemetry, the
system information of a worker) are left out.

## Main definitions

* `InstanceState`, `DesiredState`, `liveStates` — the two state columns of an
  instance and `LIVE_STATES`.
* `Worker`, `Model`, `Deployment`, `Instance`, `Db` — the rows and the tables.
* `Instance.portReserved` — `PORT_RESERVED`, also the predicate of the partial
  unique index `uq_model_instances_worker_port_active`.
* `Db.violation` — the first constraint a candidate state breaks; a commit is
  refused exactly when there is one.
* `Settings` — the part of `config.py` the services read.
-/

namespace Inferna

/-- A primary key.  `uuid4` is modelled by `Db.nextUuid`, which never repeats. -/
abbrev Uuid := ℕ

/-! ### The enumerations of the schema -/

/-- `ck_model_instances_state`. -/
inductive InstanceState
  | scheduled
  | starting
  | running
  | stopped
  | error
  deriving DecidableEq, Repr, Inhabited

/-- `ck_model_instances_desired_state`. -/
inductive DesiredState
  | running
  | stopped
  deriving DecidableEq, Repr, Inhabited

/-- `ck_workers_state`. -/
inductive WorkerState
  | connected
  | disconnected
  deriving DecidableEq, Repr, Inhabited

/-- `ck_worker_gpus_vendor`. -/
inductive Vendor
  | nvidia
  | amd
  | mock
  deriving DecidableEq, Repr, Inhabited

/-- `ck_deployments_engine`. -/
inductive Engine
  | vllm
  | sglang
  deriving DecidableEq, Repr, Inhabited

/-- `ck_deployments_profile`. -/
inductive Profile
  | latency
  | throughput
  deriving DecidableEq, Repr, Inhabited

/-- `ck_deployments_parallel_mode`. -/
inductive ParallelMode
  | single
  | dp
  | pp
  | tp
  | pd
  deriving DecidableEq, Repr, Inhabited

/-- The engine's name on the wire and in messages. -/
def Engine.text : Engine → String
  | .vllm => "vllm"
  | .sglang => "sglang"

/-- The vendor's name in messages. -/
def Vendor.text : Vendor → String
  | .nvidia => "nvidia"
  | .amd => "amd"
  | .mock => "mock"

/-- `LIVE_STATES`: the states that consume GPU memory. -/
def liveStates : List InstanceState := [.scheduled, .starting, .running]

/-- The state is one of `LIVE_STATES`. -/
def InstanceState.isLive (s : InstanceState) : Bool := s ∈ liveStates

@[simp] theorem isLive_scheduled : InstanceState.scheduled.isLive = true := rfl
@[simp] theorem isLive_starting : InstanceState.starting.isLive = true := rfl
@[simp] theorem isLive_running : InstanceState.running.isLive = true := rfl
@[simp] theorem isLive_stopped : InstanceState.stopped.isLive = false := rfl
@[simp] theorem isLive_error : InstanceState.error.isLive = false := rfl

/-- `ENGINE_VENDORS`: the GPU vendors an engine supports. -/
def engineVendors : Engine → List Vendor
  | .vllm => [.nvidia, .mock]
  | .sglang => [.nvidia, .mock]

/-! ### Rows -/

/-- A row of `worker_gpus`. -/
structure Gpu where
  index : ℕ
  vendor : Vendor
  vramMb : ℕ
  deriving DecidableEq, Repr, Inhabited

/-- A row of `clusters`. -/
structure Cluster where
  id : Uuid
  name : String
  deriving DecidableEq, Repr, Inhabited

/-- A row of `workers`, with its GPU rows. -/
structure Worker where
  id : Uuid
  clusterId : Uuid
  name : String
  hostname : String
  state : WorkerState
  tokenHash : String
  version : Option String := none
  address : Option String := none
  lastSeenAt : Option ℕ := none
  gpus : List Gpu := []
  deriving DecidableEq, Repr, Inhabited

/-- A row of `models`. -/
structure Model where
  id : Uuid
  name : String
  category : String
  vramRequiredMb : ℕ
  requiresHfToken : Bool := false
  supportedEngines : List Engine
  deriving DecidableEq, Repr, Inhabited

/-- A row of `deployments`. -/
structure Deployment where
  id : Uuid
  modelId : Uuid
  clusterId : Uuid
  engine : Engine
  profile : Profile
  minReplicas : ℕ := 1
  maxReplicas : ℕ := 1
  nodesPerReplica : ℕ := 1
  parallelMode : Option ParallelMode := none
  createdAt : ℕ := 0
  lastScaledAt : Option ℕ := none
  deriving DecidableEq, Repr, Inhabited

/-- A row of `model_instances`. -/
structure Instance where
  id : Uuid
  modelId : Uuid
  clusterId : Uuid
  workerId : Option Uuid
  deploymentId : Uuid
  engine : Engine
  profile : Profile
  gpuIndexes : List ℕ
  state : InstanceState := .scheduled
  desiredState : DesiredState := .running
  generation : ℕ := 1
  port : Option ℕ := none
  errorDetail : Option String := none
  logTail : Option String := none
  parallelGroupId : Option Uuid := none
  nodeRank : Option ℕ := none
  worldSize : Option ℕ := none
  parallelMode : Option ParallelMode := none
  rendezvous : Option String := none
  createdAt : ℕ := 0
  deriving DecidableEq, Repr, Inhabited

/-- `PORT_RESERVED`: the row keeps its port from being handed out again. -/
def Instance.portReserved (i : Instance) : Bool :=
  i.desiredState == .running || i.state.isLive

/-- The unit a row belongs to: its parallel group, or itself. -/
def Instance.unitKey (i : Instance) : Uuid := i.parallelGroupId.getD i.id

/-- What `apply_scale` and `stop_instance` write to a row they stop. -/
def Instance.stop (i : Instance) : Instance :=
  { i with desiredState := .stopped, generation := i.generation + 1, errorDetail := none }

/-- What `restart_instance` writes.  The state column is left as it is. -/
def Instance.restart (i : Instance) : Instance :=
  { i with desiredState := .running, generation := i.generation + 1, errorDetail := none }

/-! ### The database -/

/-- The tables.  `lastUuid` is the last identifier `uuid4` handed out. -/
structure Db where
  clusters : List Cluster := []
  workers : List Worker := []
  models : List Model := []
  deployments : List Deployment := []
  instances : List Instance := []
  lastUuid : Uuid := 0
  deriving DecidableEq, Repr, Inhabited

namespace Db

/-- `db.get(Model, id)`. -/
def findModel (db : Db) (id : Uuid) : Option Model := db.models.find? (·.id = id)

/-- `db.get(Cluster, id)`. -/
def findCluster (db : Db) (id : Uuid) : Option Cluster := db.clusters.find? (·.id = id)

/-- `db.get(Worker, id)`. -/
def findWorker (db : Db) (id : Uuid) : Option Worker := db.workers.find? (·.id = id)

/-- `db.get(Deployment, id)`. -/
def findDeployment (db : Db) (id : Uuid) : Option Deployment :=
  db.deployments.find? (·.id = id)

/-- `db.get(ModelInstance, id)`. -/
def findInstance (db : Db) (id : Uuid) : Option Instance := db.instances.find? (·.id = id)

/-- `Deployment.instances`: the deployment's rows, ordered by `created_at`. -/
def instancesOf (db : Db) (deploymentId : Uuid) : List Instance :=
  (db.instances.filter (·.deploymentId = deploymentId)).insertionSort
    fun a b => a.createdAt ≤ b.createdAt

/-- `inst.model.vram_required_mb`. -/
def vramOf (db : Db) (i : Instance) : ℕ := ((db.findModel i.modelId).map (·.vramRequiredMb)).getD 0

/-- Write one column set to the rows a predicate selects. -/
def updateWhere (db : Db) (p : Instance → Bool) (f : Instance → Instance) : Db :=
  { db with instances := db.instances.map fun i => if p i then f i else i }

/-- Every identifier in use. -/
def uuids (db : Db) : List Uuid :=
  db.workers.map (·.id) ++ db.deployments.map (·.id) ++ db.instances.map (·.id) ++
    db.instances.filterMap (·.parallelGroupId)

/-- `uuid4()`: an identifier that no row carries and that was never handed out. -/
def nextUuid (db : Db) : Uuid := db.uuids.foldr max db.lastUuid + 1

theorem lastUuid_lt_nextUuid (db : Db) : db.lastUuid < db.nextUuid := by
  have h : ∀ (l : List ℕ) (b : ℕ), b ≤ l.foldr max b := by
    intro l b
    induction l with
    | nil => simp
    | cons a l ih => exact le_trans ih (le_max_right a _)
  exact Nat.lt_succ_of_le (h db.uuids db.lastUuid)

theorem lt_nextUuid_of_mem {db : Db} {u : Uuid} (h : u ∈ db.uuids) : u < db.nextUuid := by
  have hfold : ∀ (l : List ℕ) (b : ℕ), u ∈ l → u ≤ l.foldr max b := by
    intro l b
    induction l with
    | nil => intro h; simp at h
    | cons a l ih =>
      intro h
      rw [List.mem_cons] at h
      rcases h with rfl | h
      · exact le_max_left _ _
      · exact le_trans (ih h) (le_max_right a _)
  exact Nat.lt_succ_of_le (hfold db.uuids db.lastUuid h)

theorem id_lt_nextUuid {db : Db} {i : Instance} (h : i ∈ db.instances) : i.id < db.nextUuid :=
  lt_nextUuid_of_mem (by
    simp only [uuids, List.mem_append]
    exact Or.inl (Or.inr (List.mem_map_of_mem h)))

theorem groupId_lt_nextUuid {db : Db} {i : Instance} (h : i ∈ db.instances) {g : Uuid}
    (hg : i.parallelGroupId = some g) : g < db.nextUuid :=
  lt_nextUuid_of_mem (by
    simp only [uuids, List.mem_append]
    exact Or.inr (List.mem_filterMap.mpr ⟨i, h, hg⟩))

theorem unitKey_lt_nextUuid {db : Db} {i : Instance} (h : i ∈ db.instances) :
    i.unitKey < db.nextUuid := by
  unfold Instance.unitKey
  cases hg : i.parallelGroupId with
  | none => simpa using id_lt_nextUuid h
  | some g => simpa using groupId_lt_nextUuid h hg

theorem deploymentId_lt_nextUuid {db : Db} {d : Deployment} (h : d ∈ db.deployments) :
    d.id < db.nextUuid :=
  lt_nextUuid_of_mem (by
    simp only [uuids, List.mem_append]
    exact Or.inl (Or.inl (Or.inr (List.mem_map_of_mem h))))

end Db

/-! ### The constraints of the schema -/

/-- The constraints a commit can break. -/
inductive Constraint
  /-- `uq_model_instances_worker_port_active`. -/
  | workerPortActive
  /-- `uq_model_instances_group_rank`. -/
  | groupRank
  /-- `ck_deployments_min_max`. -/
  | minMax
  /-- `uq_workers_cluster_hostname`. -/
  | workerHostname
  /-- `uq_workers_cluster_name`. -/
  | workerName
  /-- `uq_worker_gpus_worker_index`. -/
  | workerGpuIndex
  /-- `ck_model_instances_state`. -/
  | instanceState
  deriving DecidableEq, Repr, Inhabited

/-- Two rows that `uq_model_instances_worker_port_active` does not accept together. -/
def PortClash (i j : Instance) : Prop :=
  i.portReserved = true ∧ j.portReserved = true ∧ i.workerId = j.workerId ∧ i.workerId ≠ none ∧
    i.port = j.port ∧ i.port ≠ none

instance (i j : Instance) : Decidable (PortClash i j) :=
  inferInstanceAs (Decidable (_ ∧ _))

/-- Two rows that `uq_model_instances_group_rank` does not accept together. -/
def RankClash (i j : Instance) : Prop :=
  i.parallelGroupId = j.parallelGroupId ∧ i.parallelGroupId ≠ none ∧ i.nodeRank = j.nodeRank ∧
    i.nodeRank ≠ none

instance (i j : Instance) : Decidable (RankClash i j) :=
  inferInstanceAs (Decidable (_ ∧ _))

namespace Db

/-- The active-port index holds. -/
def PortIndexOk (db : Db) : Prop := db.instances.Pairwise fun i j => ¬ PortClash i j

/-- The group-rank index holds. -/
def RankIndexOk (db : Db) : Prop := db.instances.Pairwise fun i j => ¬ RankClash i j

/-- `ck_deployments_min_max` holds of every row. -/
def MinMaxOk (db : Db) : Prop :=
  ∀ d ∈ db.deployments, 1 ≤ d.minReplicas ∧ d.minReplicas ≤ d.maxReplicas ∧ d.maxReplicas ≤ 8

/-- Worker host names are unique in a cluster. -/
def HostnamesOk (db : Db) : Prop :=
  db.workers.Pairwise fun v w => ¬ (v.clusterId = w.clusterId ∧ v.hostname = w.hostname)

/-- Worker names are unique in a cluster. -/
def NamesOk (db : Db) : Prop :=
  db.workers.Pairwise fun v w => ¬ (v.clusterId = w.clusterId ∧ v.name = w.name)

/-- GPU indexes are unique on a worker. -/
def GpuIndexesOk (db : Db) : Prop := ∀ w ∈ db.workers, (w.gpus.map (·.index)).Nodup

instance (db : Db) : Decidable db.PortIndexOk := inferInstanceAs (Decidable (List.Pairwise _ _))
instance (db : Db) : Decidable db.RankIndexOk := inferInstanceAs (Decidable (List.Pairwise _ _))
instance (db : Db) : Decidable db.MinMaxOk := inferInstanceAs (Decidable (∀ d ∈ _, _))
instance (db : Db) : Decidable db.HostnamesOk := inferInstanceAs (Decidable (List.Pairwise _ _))
instance (db : Db) : Decidable db.NamesOk := inferInstanceAs (Decidable (List.Pairwise _ _))
instance (db : Db) : Decidable db.GpuIndexesOk := inferInstanceAs (Decidable (∀ w ∈ _, _))

/-- The first constraint a candidate state breaks. -/
def violation (db : Db) : Option Constraint :=
  if ¬ db.PortIndexOk then some .workerPortActive
  else if ¬ db.RankIndexOk then some .groupRank
  else if ¬ db.MinMaxOk then some .minMax
  else if ¬ db.HostnamesOk then some .workerHostname
  else if ¬ db.NamesOk then some .workerName
  else if ¬ db.GpuIndexesOk then some .workerGpuIndex
  else none

/-- A commit trips the active-port index exactly when two rows clash on a port. -/
theorem violation_eq_workerPortActive_iff (db : Db) :
    db.violation = some .workerPortActive ↔ ¬ db.PortIndexOk := by
  unfold violation
  by_cases h : db.PortIndexOk
  · simp only [h, not_true_eq_false, ite_false, iff_false]
    split_ifs <;> simp
  · simp [h]

/-- A commit is accepted exactly when every constraint holds. -/
theorem violation_eq_none_iff (db : Db) :
    db.violation = none ↔ db.PortIndexOk ∧ db.RankIndexOk ∧ db.MinMaxOk ∧ db.HostnamesOk ∧
      db.NamesOk ∧ db.GpuIndexesOk := by
  unfold violation
  split_ifs <;> simp_all

end Db

/-! ### Errors and settings -/

/-- The gRPC status codes the worker service answers with. -/
inductive GrpcCode
  | permissionDenied
  | failedPrecondition
  | notFound
  | invalidArgument
  | alreadyExists
  | unauthenticated
  deriving DecidableEq, Repr, Inhabited

/-- How a request or an RPC fails. -/
inductive ServerError
  /-- `HTTPException(status_code, detail)`. -/
  | http (statusCode : ℕ) (detail : String)
  /-- `grpc_error(code, detail)`. -/
  | rpc (code : GrpcCode) (detail : String)
  /-- An `IntegrityError` that the code does not turn into an answer. -/
  | integrity (c : Constraint)
  deriving DecidableEq, Repr, Inhabited

/-- The settings the modelled services read. -/
structure Settings where
  environment : String := "development"
  registrationToken : String := "inferna-registration-token"
  instancePortRangeStart : ℕ := 8010
  instancePortRangeEnd : ℕ := 8100
  rendezvousPortRangeStart : ℕ := 8110
  rendezvousPortRangeEnd : ℕ := 8199
  autoscaleCooldownSeconds : ℚ := 300
  autoscaleTargetTtftMs : ℚ := 1000
  autoscaleTargetQueue : ℚ := 4
  autoscaleScaleDownRatio : ℚ := 1 / 2

namespace Settings

/-- `range(start, end + 1)`. -/
def portRange (first last : ℕ) : List ℕ := List.range' first (last + 1 - first)

/-- `Settings.instance_port_range`. -/
def instancePortRange (s : Settings) : List ℕ :=
  portRange s.instancePortRangeStart s.instancePortRangeEnd

/-- `Settings.rendezvous_port_range`. -/
def rendezvousPortRange (s : Settings) : List ℕ :=
  portRange s.rendezvousPortRangeStart s.rendezvousPortRangeEnd

end Settings

end Inferna
