import Inferna.Models
import Inferna.Lib.Referential

/-!
# Deleting a cluster

`delete_cluster` refuses a cluster with workers or with live instances, and leaves the rest
to the unit of work and to the foreign keys: deployments, stopped instances and the GPU
usage of a cluster are declared `ON DELETE CASCADE`.  But `Cluster.deployments` is a plain
relationship, so that the unit of work first clears `deployments.cluster_id`, which takes no
null.

## Main definitions

* `Backend` — SQLite is opened without `PRAGMA foreign_keys`, so only PostgreSQL enforces
  the foreign keys.
* `ClusterTables`, `Row`, `schema` — the tables, and the keys of their rows.
* `cascadeDelete`, `deleteRow` — the `DELETE` of a cluster.
* `flushDelete`, `deleteCluster` — the unit of work, and `delete_cluster`.
* `PassesGuards`, `Emptied` — what the guards let pass, and what a deletion is to leave.

## Main results

* `cascadeDelete_deletes` — the `DELETE` takes the doomed rows, and no others.
* `deleteCluster_integral` — a deletion that commits keeps referential integrity where the
  backend enforces it.
* `deleteCluster_violation` — and breaks no other constraint.
* `deleteCluster_http_iff` — the request is refused exactly if a guard is not passed.
* `deleteCluster_empties_iff` — **a cluster that passes the guards is deleted exactly if it
  has no deployment left.**
-/

namespace Inferna

open Referential

/-! ### Tables -/

/-- The database under the server. -/
inductive Backend
  | sqlite
  | postgresql
  deriving DecidableEq, Repr

/-- Nothing in the server sends `PRAGMA foreign_keys=ON`. -/
def Backend.enforcesForeignKeys : Backend → Bool
  | .sqlite => false
  | .postgresql => true

/-- A row of `gpu_usage_records`. -/
structure GpuUsageRecord where
  id : Uuid
  modelId : Uuid
  clusterId : Uuid
  periodStart : ℕ
  gpuSeconds : ℚ
  deriving DecidableEq, Repr

/-- The tables with a foreign key to `clusters`, and those they refer to. -/
structure ClusterTables extends Db where
  gpuUsage : List GpuUsageRecord := []
  deriving DecidableEq, Repr

/-- A row of one of the tables.  The GPU rows of a worker go with it. -/
inductive Row
  | model (m : Model)
  | cluster (c : Cluster)
  | worker (w : Worker)
  | deployment (d : Deployment)
  | modelInstance (i : Instance)
  | gpuUsage (u : GpuUsageRecord)

/-- A table and a primary key. -/
inductive RowKey
  | models (id : Uuid)
  | clusters (id : Uuid)
  | workers (id : Uuid)
  | deployments (id : Uuid)
  | modelInstances (id : Uuid)
  | gpuUsageRecords (id : Uuid)
  deriving DecidableEq, Repr

/-- The primary keys, and the foreign keys with their `ondelete`. -/
def schema : Schema Row RowKey where
  key
    | .model m => .models m.id
    | .cluster c => .clusters c.id
    | .worker w => .workers w.id
    | .deployment d => .deployments d.id
    | .modelInstance i => .modelInstances i.id
    | .gpuUsage u => .gpuUsageRecords u.id
  foreign
    | .model _ => []
    | .cluster _ => []
    | .worker w => [(.cascade, .clusters w.clusterId)]
    | .deployment d => [(.restrict, .models d.modelId), (.cascade, .clusters d.clusterId)]
    | .modelInstance i =>
      (.restrict, .models i.modelId) :: (.cascade, .clusters i.clusterId) ::
        (.cascade, .deployments i.deploymentId) ::
          (i.workerId.map fun w => (.setNull, .workers w)).toList
    | .gpuUsage u => [(.cascade, .models u.modelId), (.cascade, .clusters u.clusterId)]

/-- How far below the clusters the cascade reaches a table. -/
def Row.depth : Row → ℕ
  | .model _ => 0
  | .cluster _ => 0
  | .worker _ => 1
  | .deployment _ => 1
  | .modelInstance _ => 2
  | .gpuUsage _ => 1

namespace ClusterTables

/-- The row is in its table. -/
def Stores (t : ClusterTables) : Row → Prop
  | .model m => m ∈ t.models
  | .cluster c => c ∈ t.clusters
  | .worker w => w ∈ t.workers
  | .deployment d => d ∈ t.deployments
  | .modelInstance i => i ∈ t.instances
  | .gpuUsage u => u ∈ t.gpuUsage

/-! ### The `DELETE` -/

/-- A deployment of this id goes with the cluster. -/
def deploymentGoes (t : ClusterTables) (clusterId deploymentId : Uuid) : Bool :=
  t.deployments.any fun d => d.id = deploymentId ∧ d.clusterId = clusterId

/-- A worker of this id goes with the cluster. -/
def workerGoes (t : ClusterTables) (clusterId workerId : Uuid) : Bool :=
  t.workers.any fun w => w.id = workerId ∧ w.clusterId = clusterId

/-- `model_instances.worker_id` is `ON DELETE SET NULL`. -/
def unassign (t : ClusterTables) (clusterId : Uuid) (i : Instance) : Instance :=
  { i with workerId := i.workerId.filter fun w => !t.workerGoes clusterId w }

/-- `DELETE FROM clusters WHERE id = ?` where foreign keys are enforced. -/
def cascadeDelete (t : ClusterTables) (clusterId : Uuid) : ClusterTables :=
  { t with
    clusters := t.clusters.filter (·.id ≠ clusterId)
    workers := t.workers.filter (·.clusterId ≠ clusterId)
    deployments := t.deployments.filter (·.clusterId ≠ clusterId)
    instances := (t.instances.filter fun i =>
      i.clusterId ≠ clusterId ∧ ¬ t.deploymentGoes clusterId i.deploymentId).map
        (t.unassign clusterId)
    gpuUsage := t.gpuUsage.filter (·.clusterId ≠ clusterId) }

/-- `DELETE FROM clusters WHERE id = ?`. -/
def deleteRow (t : ClusterTables) (b : Backend) (clusterId : Uuid) : ClusterTables :=
  if b.enforcesForeignKeys then t.cascadeDelete clusterId
  else { t with clusters := t.clusters.filter (·.id ≠ clusterId) }

/-- What `cascadeDelete` leaves out, table by table. -/
def Goes (t : ClusterTables) (clusterId : Uuid) : Row → Prop
  | .model _ => False
  | .cluster c => c ∈ t.clusters ∧ c.id = clusterId
  | .worker w => w ∈ t.workers ∧ w.clusterId = clusterId
  | .deployment d => d ∈ t.deployments ∧ d.clusterId = clusterId
  | .modelInstance i => i ∈ t.instances ∧
      (i.clusterId = clusterId ∨ t.deploymentGoes clusterId i.deploymentId = true)
  | .gpuUsage u => u ∈ t.gpuUsage ∧ u.clusterId = clusterId

/-- What becomes of a row that stays. -/
def sever (t : ClusterTables) (clusterId : Uuid) : Row → Row
  | .modelInstance i => .modelInstance (t.unassign clusterId i)
  | r => r

theorem deploymentGoes_iff {t : ClusterTables} {clusterId deploymentId : Uuid} :
    t.deploymentGoes clusterId deploymentId = true ↔
      ∃ d ∈ t.deployments, d.id = deploymentId ∧ d.clusterId = clusterId := by
  simp [deploymentGoes]

theorem workerGoes_iff {t : ClusterTables} {clusterId workerId : Uuid} :
    t.workerGoes clusterId workerId = true ↔
      ∃ w ∈ t.workers, w.id = workerId ∧ w.clusterId = clusterId := by
  simp [workerGoes]

/-- **The sweep leaves out the doomed rows**: cascades reach two tables deep, from the
cluster over its deployments to their instances. -/
theorem goes_iff_doomed {t : ClusterTables} {clusterId : Uuid}
    (hfound : ∃ c ∈ t.clusters, c.id = clusterId) (r : Row) :
    t.Goes clusterId r ↔ Doomed schema t.Stores (schema.key · = .clusters clusterId) r := by
  obtain ⟨c₀, hc₀, rfl⟩ := hfound
  refine doomed_iff_of_justified Row.depth ?_ ?_ ?_ r
  · intro r hr hroot
    cases r <;> simp_all [schema, Goes, Stores]
  · intro c p hp hc href
    cases c <;> cases p
    case modelInstance.deployment i d =>
      refine ⟨hc, .inr (deploymentGoes_iff.mpr ⟨d, hp.1, ?_, hp.2⟩)⟩
      simpa [schema, Schema.Cascades] using href
    all_goals simp_all [schema, Schema.Cascades, Goes, Stores]
  · intro c hc
    -- the parent is the cluster, but for an instance that goes with its deployment
    have hcluster : ∀ r, (.cascade, .clusters c₀.id) ∈ schema.foreign r →
        0 < r.depth →
        ∃ p, t.Goes c₀.id p ∧ schema.Cascades r p ∧ p.depth < r.depth :=
      fun r href hdepth => ⟨.cluster c₀, ⟨hc₀, rfl⟩, href, hdepth⟩
    cases c with
    | model m => exact hc.elim
    | cluster c => exact ⟨hc.1, .inl (congrArg RowKey.clusters hc.2)⟩
    | worker w => exact ⟨hc.1, .inr (hcluster _ (by simp [schema, hc.2]) Nat.one_pos)⟩
    | deployment d => exact ⟨hc.1, .inr (hcluster _ (by simp [schema, hc.2]) Nat.one_pos)⟩
    | gpuUsage u => exact ⟨hc.1, .inr (hcluster _ (by simp [schema, hc.2]) Nat.one_pos)⟩
    | modelInstance i =>
      obtain ⟨hi, h | h⟩ := hc
      · exact ⟨hi, .inr (hcluster _ (by simp [schema, h]) Nat.two_pos)⟩
      · obtain ⟨d, hd, hid, hcl⟩ := deploymentGoes_iff.mp h
        exact ⟨hi, .inr ⟨.deployment d, ⟨hd, hcl⟩, by simp [schema, Schema.Cascades, hid],
          Nat.one_lt_two⟩⟩

/-- A row stays in its table with what it has not lost. -/
theorem stores_cascadeDelete_iff (t : ClusterTables) (clusterId : Uuid) (r' : Row) :
    (t.cascadeDelete clusterId).Stores r' ↔
      ∃ r, t.Stores r ∧ ¬ t.Goes clusterId r ∧ t.sever clusterId r = r' := by
  constructor
  · intro h
    cases r' with
    | model m => exact ⟨.model m, h, id, rfl⟩
    | cluster c => exact ⟨.cluster c, by simp_all [cascadeDelete, Stores, Goes, sever]⟩
    | worker w => exact ⟨.worker w, by simp_all [cascadeDelete, Stores, Goes, sever]⟩
    | deployment d => exact ⟨.deployment d, by simp_all [cascadeDelete, Stores, Goes, sever]⟩
    | gpuUsage u => exact ⟨.gpuUsage u, by simp_all [cascadeDelete, Stores, Goes, sever]⟩
    | modelInstance i =>
      obtain ⟨j, hj, rfl⟩ := List.mem_map.mp h
      obtain ⟨hj, hstays⟩ := List.mem_filter.mp hj
      exact ⟨.modelInstance j, hj, by simp_all [Goes], rfl⟩
  · rintro ⟨r, hr, hstays, rfl⟩
    cases r with
    | modelInstance i =>
      apply List.mem_map_of_mem
      simp_all [Stores, Goes]
    | _ => simp_all [cascadeDelete, Stores, Goes, sever]

/-- A row that stays has lost the workers that go, and no other key. -/
theorem foreign_sever {t : ClusterTables} {clusterId : Uuid} {r : Row} {k : OnDelete × RowKey}
    (hk : k ∈ schema.foreign (t.sever clusterId r)) :
    k ∈ schema.foreign r ∧ (k.1 = .cascade ∨ (∃ m, k.2 = .models m) ∨
      ∃ v, k.2 = .workers v ∧ t.workerGoes clusterId v = false) := by
  cases r with
  | modelInstance i =>
    simp only [schema, sever, unassign, List.mem_cons, Option.mem_toList,
      Option.map_eq_some_iff, Option.filter_eq_some_iff] at hk ⊢
    rcases hk with rfl | rfl | rfl | ⟨v, ⟨hv, hgoes⟩, rfl⟩
    · simp
    · simp
    · simp
    · exact ⟨.inr (.inr (.inr ⟨v, hv, rfl⟩)), .inr (.inr ⟨v, rfl, by simpa using hgoes⟩)⟩
  | _ => grind [schema, sever]

/-- **What the `DELETE` leaves**: the rows that are not doomed, without the keys of doomed
workers. -/
theorem cascadeDelete_deletes {t : ClusterTables} {clusterId : Uuid}
    (hfound : ∃ c ∈ t.clusters, c.id = clusterId) :
    schema.Deletes t.Stores (schema.key · = .clusters clusterId)
      (t.cascadeDelete clusterId).Stores (t.sever clusterId) where
  mem := by
    simp only [← goes_iff_doomed hfound]
    exact stores_cascadeDelete_iff t clusterId
  key := by
    intro r
    cases r <;> rfl
  foreign := by
    intro r _ k hk
    obtain ⟨hmem, hkind⟩ := foreign_sever hk
    refine ⟨hmem, fun hne p hp => ?_⟩
    rw [← goes_iff_doomed hfound] at hp
    rcases hkind with hc | ⟨m, hm⟩ | ⟨v, hv, hgoes⟩
    · exact absurd hc hne
    · -- no model goes with a cluster
      cases p <;> simp_all [Goes, schema]
    · cases p with
      | worker w =>
        intro hw
        have : t.workerGoes clusterId v = true :=
          workerGoes_iff.mpr ⟨w, hp.1, by simpa [schema, hv] using hw, hp.2⟩
        simp [this] at hgoes
      | _ => simp [schema, hv]

/-! ### The unit of work -/

/-- The columns that `Cluster`'s relationships clear. -/
inductive ChildColumn
  | workersClusterId
  | deploymentsClusterId
  deriving DecidableEq, Repr

/-- How the request fails. -/
inductive DeleteError
  /-- `HTTPException(status_code, detail)`. -/
  | http (statusCode : ℕ) (detail : String)
  /-- An `IntegrityError`: the column takes no null. -/
  | notNull (column : ChildColumn)
  deriving DecidableEq, Repr

/-- `Cluster.workers`. -/
def clusterWorkers : Relationship := {}

/-- `Cluster.deployments`. -/
def clusterDeployments : Relationship := {}

/-- The flush of `db.delete(cluster)`: the children of the two relationships, then the row.
Neither `workers.cluster_id` nor `deployments.cluster_id` takes a null. -/
def flushDelete (t : ClusterTables) (b : Backend) (clusterId : Uuid) :
    Except DeleteError ClusterTables :=
  match released (fun _ => none) (·.clusterId = clusterId) t.workers
      clusterWorkers.childAction with
  | none => .error (.notNull .workersClusterId)
  | some workers =>
    match released (fun _ => none) (·.clusterId = clusterId) t.deployments
        clusterDeployments.childAction with
    | none => .error (.notNull .deploymentsClusterId)
    | some deployments =>
      .ok (deleteRow { t with workers := workers, deployments := deployments } b clusterId)

/-- `delete_cluster`. -/
def deleteCluster (t : ClusterTables) (b : Backend) (clusterId : Uuid) :
    Except DeleteError ClusterTables :=
  match t.findCluster clusterId with
  | none => .error (.http 404 "cluster not found")
  | some cluster =>
    if 0 < t.workers.countP (·.clusterId = clusterId) then
      .error (.http 400 "cluster has workers")
    else if 0 < t.instances.countP fun i => i.clusterId = clusterId ∧ i.state.isLive then
      .error (.http 400 "cluster has live instances")
    else t.flushDelete b cluster.id

/-- What the guards let pass. -/
structure PassesGuards (t : ClusterTables) (clusterId : Uuid) : Prop where
  found : ∃ c ∈ t.clusters, c.id = clusterId
  noWorker : ∀ w ∈ t.workers, w.clusterId ≠ clusterId
  noLive : ∀ i ∈ t.instances, i.clusterId = clusterId → i.state.isLive = false

/-- No deployment of the cluster is left. -/
def NoDeployment (t : ClusterTables) (clusterId : Uuid) : Prop :=
  ∀ d ∈ t.deployments, d.clusterId ≠ clusterId

/-- No instance of the cluster is left. -/
def NoInstance (t : ClusterTables) (clusterId : Uuid) : Prop :=
  ∀ i ∈ t.instances, i.clusterId ≠ clusterId

/-- The cluster has gone with its deployments and instances, and the rows of the other
clusters are as they were. -/
structure Emptied (t t' : ClusterTables) (clusterId : Uuid) : Prop where
  noDeployment : t'.NoDeployment clusterId
  noInstance : t'.NoInstance clusterId
  clusters : t'.clusters = t.clusters.filter (·.id ≠ clusterId)
  models : t'.models = t.models
  otherWorkers : t'.workers.filter (·.clusterId ≠ clusterId) =
    t.workers.filter (·.clusterId ≠ clusterId)
  otherDeployments : t'.deployments.filter (·.clusterId ≠ clusterId) =
    t.deployments.filter (·.clusterId ≠ clusterId)
  otherInstances : t'.instances.filter (·.clusterId ≠ clusterId) =
    t.instances.filter (·.clusterId ≠ clusterId)
  otherGpuUsage : t'.gpuUsage.filter (·.clusterId ≠ clusterId) =
    t.gpuUsage.filter (·.clusterId ≠ clusterId)

/-- What passes the guards is flushed. -/
theorem deleteCluster_of_passesGuards {t : ClusterTables} {clusterId : Uuid} (b : Backend)
    (h : t.PassesGuards clusterId) : t.deleteCluster b clusterId = t.flushDelete b clusterId := by
  obtain ⟨c, hc, hid⟩ := h.found
  have hsome : (t.findCluster clusterId).isSome := by
    simp only [Db.findCluster, List.find?_isSome, decide_eq_true_eq]
    exact ⟨c, hc, hid⟩
  obtain ⟨cluster, hfind⟩ := Option.isSome_iff_exists.mp hsome
  have hcluster : cluster.id = clusterId := by
    simpa using List.find?_some hfind
  have hworkers : t.workers.countP (·.clusterId = clusterId) = 0 :=
    List.countP_eq_zero.mpr fun w hw => by simpa using h.noWorker w hw
  have hlive : t.instances.countP (fun i => i.clusterId = clusterId ∧ i.state.isLive) = 0 :=
    List.countP_eq_zero.mpr fun i hi => by
      have := h.noLive i hi
      simp_all
  simp only [deleteCluster, hfind, hworkers, hlive, hcluster, lt_self_iff_false, if_false]

/-- **A request is refused exactly if it does not pass the guards.** -/
theorem deleteCluster_http_iff (t : ClusterTables) (b : Backend) (clusterId : Uuid) :
    (∃ code detail, t.deleteCluster b clusterId = .error (.http code detail)) ↔
      ¬ t.PassesGuards clusterId := by
  constructor
  · rintro ⟨code, detail, hres⟩ h
    rw [deleteCluster_of_passesGuards b h, flushDelete] at hres
    split at hres
    · simp at hres
    · split at hres <;> simp at hres
  · intro h
    unfold deleteCluster
    split
    · exact ⟨_, _, rfl⟩
    · rename_i cluster hfind
      split_ifs with hworkers hlive
      · exact ⟨_, _, rfl⟩
      · exact ⟨_, _, rfl⟩
      · -- every guard is passed
        refine absurd ⟨⟨cluster, List.mem_of_find?_eq_some hfind,
          by simpa using List.find?_some hfind⟩, ?_, ?_⟩ h
        · simpa [List.countP_eq_zero] using hworkers
        · simpa [List.countP_eq_zero] using hlive

/-- One deployment is enough for the flush to fail. -/
theorem flushDelete_of_deployment {t : ClusterTables} {clusterId : Uuid} (b : Backend)
    (h : t.PassesGuards clusterId) (hd : ¬ t.NoDeployment clusterId) :
    t.flushDelete b clusterId = .error (.notNull .deploymentsClusterId) := by
  simp only [NoDeployment, not_forall, not_not] at hd
  obtain ⟨d, hmem, hcl⟩ := hd
  have hworkers : released (fun _ => none) (·.clusterId = clusterId) t.workers
      clusterWorkers.childAction = some t.workers :=
    released_of_forall_not (fun w hw => by simpa using h.noWorker w hw) _
  have hdeployments : released (fun _ => none) (·.clusterId = clusterId) t.deployments
      clusterDeployments.childAction = none :=
    released_setNull_notNull hmem (by simpa using hcl)
  simp only [flushDelete, hworkers, hdeployments]

/-- Without children, the flush is the `DELETE`. -/
theorem flushDelete_of_noDeployment {t : ClusterTables} {clusterId : Uuid} (b : Backend)
    (h : t.PassesGuards clusterId) (hd : t.NoDeployment clusterId) :
    t.flushDelete b clusterId = .ok (t.deleteRow b clusterId) := by
  have hworkers : released (fun _ => none) (·.clusterId = clusterId) t.workers
      clusterWorkers.childAction = some t.workers :=
    released_of_forall_not (fun w hw => by simpa using h.noWorker w hw) _
  have hdeployments : released (fun _ => none) (·.clusterId = clusterId) t.deployments
      clusterDeployments.childAction = some t.deployments :=
    released_of_forall_not (fun d hmem => by simpa using hd d hmem) _
  simp only [flushDelete, hworkers, hdeployments]

/-! ### What a deletion leaves -/

/-- Without workers and deployments, only the rows with the cluster's own id go. -/
theorem instances_cascadeDelete {t : ClusterTables} {clusterId : Uuid}
    (hw : ∀ w ∈ t.workers, w.clusterId ≠ clusterId) (hd : t.NoDeployment clusterId) :
    (t.cascadeDelete clusterId).instances = t.instances.filter (·.clusterId ≠ clusterId) := by
  have hgoes : ∀ d, t.deploymentGoes clusterId d = false := by
    intro d
    simp only [deploymentGoes, List.any_eq_false, decide_eq_true_eq]
    exact fun x hx h => hd x hx h.2
  have hworker : ∀ w, t.workerGoes clusterId w = false := by
    intro w
    simp only [workerGoes, List.any_eq_false, decide_eq_true_eq]
    exact fun x hx h => hw x hx h.2
  have hunassign : t.unassign clusterId = id := by
    funext i
    have hkept : i.workerId.filter (fun w => !t.workerGoes clusterId w) = i.workerId := by
      cases i.workerId <;> simp [hworker]
    simp [unassign, hkept]
  simp [cascadeDelete, hgoes, hunassign]

/-- With enforced foreign keys, the deletion of a cluster without deployments empties it. -/
theorem emptied_cascadeDelete {t : ClusterTables} {clusterId : Uuid}
    (h : t.PassesGuards clusterId) (hd : t.NoDeployment clusterId) :
    t.Emptied (t.cascadeDelete clusterId) clusterId := by
  have hinstances := instances_cascadeDelete h.noWorker hd
  constructor
  · intro d hmem
    simpa using (List.mem_filter.mp hmem).2
  · intro i hmem
    rw [hinstances] at hmem
    simpa using (List.mem_filter.mp hmem).2
  · rfl
  · rfl
  · simp [cascadeDelete]
  · simp [cascadeDelete]
  · simp [hinstances]
  · simp [cascadeDelete]

/-- Without enforced foreign keys, it is emptied if no instance was left either. -/
theorem emptied_deleteRow_iff {t : ClusterTables} {clusterId : Uuid} (b : Backend)
    (h : t.PassesGuards clusterId) (hd : t.NoDeployment clusterId) :
    t.Emptied (t.deleteRow b clusterId) clusterId ↔
      b.enforcesForeignKeys = true ∨ t.NoInstance clusterId := by
  by_cases hb : b.enforcesForeignKeys = true
  · simp only [deleteRow, hb, if_true, true_or, iff_true]
    exact emptied_cascadeDelete h hd
  · simp only [deleteRow, hb, if_false, false_or, Bool.false_eq_true]
    constructor
    · exact fun hemptied => hemptied.noInstance
    · exact fun hi => ⟨hd, hi, rfl, rfl, rfl, rfl, rfl, rfl⟩

/-- **A cluster that passes the guards is deleted, with its deployments and instances and
nothing else, exactly if it has no deployment left**, and, where foreign keys are not
enforced, no instance. -/
theorem deleteCluster_empties_iff (t : ClusterTables) (b : Backend) (clusterId : Uuid)
    (h : t.PassesGuards clusterId) :
    (∃ t', t.deleteCluster b clusterId = .ok t' ∧ t.Emptied t' clusterId) ↔
      t.NoDeployment clusterId ∧
        (b.enforcesForeignKeys = true ∨ t.NoInstance clusterId) := by
  rw [deleteCluster_of_passesGuards b h]
  by_cases hd : t.NoDeployment clusterId
  · have hflush := flushDelete_of_noDeployment b h hd
    simp only [hflush, Except.ok.injEq, exists_eq_left', hd, true_and]
    exact emptied_deleteRow_iff b h hd
  · have hflush := flushDelete_of_deployment b h hd
    simp [hflush, hd]

/-- A cluster with one deployment, whose one instance is stopped. -/
def oneStopped : ClusterTables where
  clusters := [⟨1, "default"⟩]
  models := [{
    id := 2, name := "m", category := "llm", vramRequiredMb := 1, supportedEngines := [.vllm] }]
  deployments := [{
    id := 3, modelId := 2, clusterId := 1, engine := .vllm, profile := .latency }]
  instances := [{
    id := 4, modelId := 2, clusterId := 1, workerId := none, deploymentId := 3
    engine := .vllm, profile := .latency, gpuIndexes := []
    state := .stopped, desiredState := .stopped }]

/-- The cluster is deleted once the deployment is. -/
theorem oneStopped_emptied :
    ∃ t', deleteCluster { oneStopped with deployments := [], instances := [] } .sqlite 1 =
      .ok t' ∧ Emptied { oneStopped with deployments := [], instances := [] } t' 1 :=
  (deleteCluster_empties_iff _ .sqlite 1
    ⟨⟨_, List.mem_singleton_self _, rfl⟩, by decide, by decide⟩).mpr
      ⟨by simp [NoDeployment], .inr (by simp [NoInstance])⟩

/-- **The deployment of a stopped instance is in the way**: the tables break no constraint,
the guards are passed, and the flush fails. -/
theorem oneStopped_stuck :
    oneStopped.PassesGuards 1 ∧ oneStopped.violation = none ∧
      schema.Integral oneStopped.Stores ∧
      ∀ b, oneStopped.deleteCluster b 1 = .error (.notNull .deploymentsClusterId) := by
  refine ⟨⟨⟨_, List.mem_singleton_self _, rfl⟩, by decide, by decide⟩, by decide, ?_, ?_⟩
  · intro r hr k hk
    cases r with
    | model m => simp [schema] at hk
    | cluster c => simp [schema] at hk
    | worker w => simp [Stores, oneStopped] at hr
    | gpuUsage u => simp [Stores, oneStopped] at hr
    | deployment d =>
      obtain rfl := List.mem_singleton.mp hr
      simp only [schema, List.mem_cons, List.not_mem_nil, or_false] at hk
      rcases hk with rfl | rfl
      · exact ⟨.model _, List.mem_singleton_self _, rfl⟩
      · exact ⟨.cluster _, List.mem_singleton_self _, rfl⟩
    | modelInstance i =>
      obtain rfl := List.mem_singleton.mp hr
      simp only [schema, Option.map_none, Option.toList_none, List.mem_cons, List.not_mem_nil,
        or_false] at hk
      rcases hk with rfl | rfl | rfl
      · exact ⟨.model _, List.mem_singleton_self _, rfl⟩
      · exact ⟨.cluster _, List.mem_singleton_self _, rfl⟩
      · exact ⟨.deployment _, List.mem_singleton_self _, rfl⟩
  · intro b
    rfl

/-! ### What the other tables keep -/

/-- What commits is the `DELETE`, behind the guards. -/
theorem deleteCluster_eq_ok_iff (t t' : ClusterTables) (b : Backend) (clusterId : Uuid) :
    t.deleteCluster b clusterId = .ok t' ↔
      t.PassesGuards clusterId ∧ t.NoDeployment clusterId ∧ t' = t.deleteRow b clusterId := by
  by_cases h : t.PassesGuards clusterId
  · rw [deleteCluster_of_passesGuards b h]
    by_cases hd : t.NoDeployment clusterId
    · simp [flushDelete_of_noDeployment b h hd, h, hd, eq_comm]
    · simp [flushDelete_of_deployment b h hd, hd]
  · obtain ⟨code, detail, herr⟩ := (deleteCluster_http_iff t b clusterId).mpr h
    simp [herr, h]

/-- Every instance is in the cluster of its deployment. -/
def Housed (t : ClusterTables) : Prop :=
  ∀ i ∈ t.instances, ∃ d ∈ t.deployments, d.id = i.deploymentId ∧ d.clusterId = i.clusterId

/-- **Where instances are housed, what commits is emptied**, on either backend. -/
theorem emptied_of_housed {t t' : ClusterTables} {b : Backend} {clusterId : Uuid}
    (hh : t.Housed) (hok : t.deleteCluster b clusterId = .ok t') :
    t.Emptied t' clusterId := by
  obtain ⟨h, hd, rfl⟩ := (deleteCluster_eq_ok_iff t t' b clusterId).mp hok
  have hi : t.NoInstance clusterId := by
    intro i hi hcl
    obtain ⟨d, hmem, -, hdcl⟩ := hh i hi
    exact hd d hmem (hdcl.trans hcl)
  exact (emptied_deleteRow_iff b h hd).mpr (.inr hi)

/-- **A deletion that commits keeps referential integrity**, where the backend enforces it. -/
theorem deleteCluster_integral {t t' : ClusterTables} {b : Backend} {clusterId : Uuid}
    (hb : b.enforcesForeignKeys = true) (ht : schema.Integral t.Stores)
    (hok : t.deleteCluster b clusterId = .ok t') : schema.Integral t'.Stores := by
  obtain ⟨h, -, rfl⟩ := (deleteCluster_eq_ok_iff t t' b clusterId).mp hok
  rw [deleteRow, if_pos hb]
  exact ht.deletes (cascadeDelete_deletes h.found)

/-- Two rows that have lost workers clash on a port only if they did before. -/
theorem portClash_of_unassign {t : ClusterTables} {clusterId : Uuid} {i j : Instance}
    (h : PortClash (t.unassign clusterId i) (t.unassign clusterId j)) : PortClash i j := by
  obtain ⟨hi, hj, hworker, hsome, hport⟩ := h
  refine ⟨hi, hj, ?_, ?_, hport⟩
  · obtain ⟨w, hw⟩ := Option.ne_none_iff_exists'.mp hsome
    have hiw := (Option.filter_eq_some_iff.mp hw).1
    have hjw := (Option.filter_eq_some_iff.mp (hworker.symm.trans hw)).1
    rw [hiw, hjw]
  · intro hnone
    exact hsome (by simp [unassign, hnone])

/-- **A deletion that commits breaks no other constraint.** -/
theorem deleteCluster_violation {t t' : ClusterTables} {b : Backend} {clusterId : Uuid}
    (ht : t.violation = none) (hok : t.deleteCluster b clusterId = .ok t') :
    t'.violation = none := by
  obtain ⟨-, -, rfl⟩ := (deleteCluster_eq_ok_iff t t' b clusterId).mp hok
  rw [Db.violation_eq_none_iff] at ht
  obtain ⟨hport, hrank, hminmax, hhost, hname, hgpu⟩ := ht
  unfold deleteRow
  split_ifs
  · rw [Db.violation_eq_none_iff]
    refine ⟨?_, ?_, ?_, hhost.filter _, hname.filter _, ?_⟩
    · exact List.pairwise_map.mpr ((hport.filter _).imp fun hij h =>
        hij (portClash_of_unassign h))
    · exact List.pairwise_map.mpr ((hrank.filter _).imp fun hij h => hij h)
    · exact fun d hd => hminmax d (List.mem_of_mem_filter hd)
    · exact fun w hw => hgpu w (List.mem_of_mem_filter hw)
  · exact (Db.violation_eq_none_iff _).mpr ⟨hport, hrank, hminmax, hhost, hname, hgpu⟩

end ClusterTables

end Inferna
