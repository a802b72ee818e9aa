import Inferna.Scaling

/-!
# Instance and deployment requests

`api/instances.py` and `api/deployments.py`: deploy, stop, restart and delete an
instance; scale, set the window of and delete a deployment.

Every request is modelled by the state it would commit, or by the error it
answers with before it gets there.  Whether the commit goes through is decided by
the constraints (`Db.violation`); a refused commit leaves the tables as they were.

## Main definitions

* `DeployRequest`, `ScaleRequest`, `RangeRequest` — the request bodies, with the
  bounds the schema checks as fields.
* `deploy`, `stopInstance`, `restartInstance`, `deleteInstance`.
* `scaleDeployment`, `setDeploymentRange`, `deleteDeployment`.

## Main results

* `deploy_ok`, `stopInstance_ok`, `restartInstance_ok`, `deleteInstance_ok`,
  `scaleDeployment_ok`, `setDeploymentRange_ok`, `deleteDeployment_ok` — what each
  request would commit.
-/

namespace Inferna

/-! ### Request bodies -/

/-- `ManualGpuSelection`, or `"auto"`. -/
inductive GpuSelection
  | auto
  | manual (workerId : Uuid) (gpuIndexes : List ℕ)
  deriving DecidableEq, Repr, Inhabited

/-- `DeployRequest`. -/
structure DeployRequest where
  modelId : Uuid
  clusterId : Uuid
  engine : Engine
  profile : Profile
  replicas : ℕ := 1
  gpuSelection : GpuSelection := .auto
  nodesPerReplica : ℕ := 1
  parallelMode : ParallelMode := .single
  replicas_bounds : 1 ≤ replicas ∧ replicas ≤ 8 := by decide
  nodes_bounds : 1 ≤ nodesPerReplica ∧ nodesPerReplica ≤ 8 := by decide

/-- `ScaleRequest`. -/
structure ScaleRequest where
  replicas : ℕ
  bounds : 1 ≤ replicas ∧ replicas ≤ 8 := by decide

/-- `DeploymentRange`. -/
structure RangeRequest where
  minReplicas : ℕ
  maxReplicas : ℕ
  bounds : 1 ≤ minReplicas ∧ minReplicas ≤ maxReplicas ∧ maxReplicas ≤ 8 := by decide

theorem bounds_one : 1 ≤ 1 ∧ 1 ≤ 8 := by decide
theorem bounds_two : 1 ≤ 2 ∧ 2 ≤ 8 := by decide
theorem bounds_three : 1 ≤ 3 ∧ 3 ≤ 8 := by decide

/-! ### Deploy -/

/-- The deployment row a request creates. -/
def deploymentRow (body : DeployRequest) (now : ℕ) (id : Uuid) : Deployment where
  id := id
  modelId := body.modelId
  clusterId := body.clusterId
  engine := body.engine
  profile := body.profile
  minReplicas := body.replicas
  maxReplicas := body.replicas
  nodesPerReplica := body.nodesPerReplica
  parallelMode := some body.parallelMode
  createdAt := now

/-- Insert a deployment row under the next identifier. -/
def Db.addDeployment (db : Db) (d : Deployment) : Db :=
  { db with deployments := db.deployments ++ [d], lastUuid := db.nextUuid }

/-- The guards of `deploy` that come before any placement. -/
def deployGuard (db : Db) (body : DeployRequest) : Except ServerError Model :=
  match db.findModel body.modelId with
  | none => .error (.http 404 "model not found")
  | some model =>
    if (db.findCluster body.clusterId).isNone then .error (.http 404 "cluster not found")
    else if body.engine ∉ model.supportedEngines then
      .error (.http 400 ("engine '" ++ body.engine.text ++ "' does not support category '" ++
        model.category ++ "'"))
    else if body.gpuSelection ≠ .auto ∧ (body.replicas ≠ 1 ∨ 1 < body.nodesPerReplica) then
      .error (.http 400 "manual gpu selection supports a single replica")
    else if 1 < body.nodesPerReplica ∧ body.parallelMode = .single then
      .error (.http 400 "parallel_mode must be dp, pp, tp or pd for a multi-node deploy")
    else if ¬ 1 < body.nodesPerReplica ∧ body.parallelMode ≠ .single then
      .error (.http 400 "parallel_mode requires nodes_per_replica > 1")
    else if 1 < body.nodesPerReplica ∧ body.replicas ≠ 1 then
      .error (.http 400 "multi-node deploy supports one replica group for now")
    else .ok model

/-- The single-node placements of a request. -/
def deployAllocations (s : Settings) (db : Db) (body : DeployRequest) (vramRequiredMb : ℕ) :
    Except ServerError (List Allocation) :=
  match body.gpuSelection with
  | .manual workerId gpuIndexes =>
    (allocateManual s db body.clusterId workerId gpuIndexes vramRequiredMb body.engine).map
      fun a => [a]
  | .auto => allocateReplicas s db body.clusterId vramRequiredMb body.engine body.replicas []

/-- `deploy`: the state it commits. -/
def deploy (s : Settings) (db : Db) (body : DeployRequest) (now : ℕ) : Except ServerError Db :=
  match deployGuard db body with
  | .error e => .error e
  | .ok model =>
    let d := deploymentRow body now db.nextUuid
    if 1 < body.nodesPerReplica then
      match allocateParallelReplicas s db body.clusterId model.vramRequiredMb body.engine
          body.nodesPerReplica [] with
      | .error e => .error e
      | .ok allocations => .ok (addGroup (db.addDeployment d) d now allocations)
    else
      match deployAllocations s db body model.vramRequiredMb with
      | .error e => .error e
      | .ok allocations => .ok (addReplicas (db.addDeployment d) d now allocations)

/-- What `deploy` commits: the deployment with one group, or with its replicas. -/
theorem deploy_ok {s : Settings} {db db' : Db} {body : DeployRequest} {now : ℕ}
    (h : deploy s db body now = .ok db') :
    ∃ model, deployGuard db body = .ok model ∧
      ((1 < body.nodesPerReplica ∧ ∃ allocations,
          allocateParallelReplicas s db body.clusterId model.vramRequiredMb body.engine
            body.nodesPerReplica [] = .ok allocations ∧
          db' = addGroup (db.addDeployment (deploymentRow body now db.nextUuid))
            (deploymentRow body now db.nextUuid) now allocations) ∨
        (¬ 1 < body.nodesPerReplica ∧ ∃ allocations,
          deployAllocations s db body model.vramRequiredMb = .ok allocations ∧
          db' = addReplicas (db.addDeployment (deploymentRow body now db.nextUuid))
            (deploymentRow body now db.nextUuid) now allocations)) := by
  unfold deploy at h
  split at h
  · cases h
  rename_i model hguard
  refine ⟨model, hguard, ?_⟩
  simp only at h
  split at h
  · rename_i hn
    split at h
    · cases h
    rename_i allocations halloc
    exact Or.inl ⟨hn, allocations, halloc, (Except.ok.inj h).symm⟩
  · rename_i hn
    split at h
    · cases h
    rename_i allocations halloc
    exact Or.inr ⟨hn, allocations, halloc, (Except.ok.inj h).symm⟩

/-! ### One instance -/

/-- `stop_instance`.  A row that is already stopped is left alone. -/
def stopInstance (db : Db) (id : Uuid) : Except ServerError Db :=
  match db.findInstance id with
  | none => .error (.http 404 "instance not found")
  | some i =>
    if i.desiredState ≠ .stopped then .ok (db.updateWhere (·.id = id) Instance.stop) else .ok db

theorem stopInstance_ok {db db' : Db} {id : Uuid} (h : stopInstance db id = .ok db') :
    db' = db.updateWhere (·.id = id) Instance.stop ∨ db' = db := by
  unfold stopInstance at h
  split at h
  · cases h
  split at h
  · exact Or.inl (Except.ok.inj h).symm
  · exact Or.inr (Except.ok.inj h).symm

/-- `restart_instance`.  No allocator is asked. -/
def restartInstance (db : Db) (id : Uuid) : Except ServerError Db :=
  match db.findInstance id with
  | none => .error (.http 404 "instance not found")
  | some _ => .ok (db.updateWhere (·.id = id) Instance.restart)

theorem restartInstance_ok {db db' : Db} {id : Uuid} (h : restartInstance db id = .ok db') :
    db' = db.updateWhere (·.id = id) Instance.restart := by
  unfold restartInstance at h
  split at h
  · cases h
  · exact (Except.ok.inj h).symm

/-- Delete a deployment row; its instances go with it by the ORM cascade. -/
def Db.dropDeployment (db : Db) (id : Uuid) : Db :=
  { db with
    deployments := db.deployments.filter (·.id ≠ id)
    instances := db.instances.filter (·.deploymentId ≠ id) }

/-- `delete_instance`.  The last instance takes its deployment along. -/
def deleteInstance (db : Db) (id : Uuid) : Except ServerError Db :=
  match db.findInstance id with
  | none => .error (.http 404 "instance not found")
  | some i =>
    if (db.findDeployment i.deploymentId).isSome ∧ (db.instancesOf i.deploymentId).length ≤ 1 then
      .ok (db.dropDeployment i.deploymentId)
    else .ok { db with instances := db.instances.filter (·.id ≠ id) }

theorem deleteInstance_ok {db db' : Db} {id : Uuid} (h : deleteInstance db id = .ok db') :
    ∃ i, db.findInstance id = some i ∧
      (db' = db.dropDeployment i.deploymentId ∨
        db' = { db with instances := db.instances.filter (·.id ≠ id) }) := by
  unfold deleteInstance at h
  split at h
  · cases h
  rename_i i hi
  refine ⟨i, hi, ?_⟩
  split at h
  · exact Or.inl (Except.ok.inj h).symm
  · exact Or.inr (Except.ok.inj h).symm

/-! ### One deployment -/

/-- Run `apply_scale` in a session of its own: the state it would commit. -/
def scaleCandidate (s : Settings) (db : Db) (obj : DeploymentObj) (replicas : ℕ)
    (setRange : Bool) (now : ℕ) : Except ServerError Db :=
  match applyScale s obj replicas setRange now db with
  | (_, .error e) => .error e
  | (db', .ok ()) => .ok db'

theorem scaleCandidate_ok {s : Settings} {db db' : Db} {obj : DeploymentObj} {replicas : ℕ}
    {setRange : Bool} {now : ℕ} (h : scaleCandidate s db obj replicas setRange now = .ok db') :
    applyScale s obj replicas setRange now db = (db', .ok ()) := by
  unfold scaleCandidate at h
  split at h
  · cases h
  · rename_i heq
    rw [heq, Except.ok.inj h]

/-- `scale_deployment`. -/
def scaleDeployment (s : Settings) (db : Db) (id : Uuid) (body : ScaleRequest) (now : ℕ) :
    Except ServerError Db :=
  match db.findDeployment id with
  | none => .error (.http 404 "deployment not found")
  | some d => scaleCandidate s db d.load body.replicas true now

theorem scaleDeployment_ok {s : Settings} {db db' : Db} {id : Uuid} {body : ScaleRequest} {now : ℕ}
    (h : scaleDeployment s db id body now = .ok db') :
    ∃ d, db.findDeployment id = some d ∧
      scaleCandidate s db d.load body.replicas true now = .ok db' := by
  unfold scaleDeployment at h
  split at h
  · cases h
  · rename_i d hd
    exact ⟨d, hd, h⟩

/-- The object `set_deployment_range` hands to `apply_scale`. -/
def rangeObj (d : Deployment) (body : RangeRequest) : DeploymentObj :=
  ⟨d, body.minReplicas, body.maxReplicas⟩

/-- The count `set_deployment_range` asks for: all units of the deployment as it
was loaded, clamped into the new window. -/
def rangeTarget (d : Deployment) (instances : List Instance) (body : RangeRequest) : ℕ :=
  clampReplicas body.minReplicas body.maxReplicas (replicaUnitCount d.nodesPerReplica instances)

/-- `set_deployment_range`. -/
def setDeploymentRange (s : Settings) (db : Db) (id : Uuid) (body : RangeRequest) (now : ℕ) :
    Except ServerError Db :=
  match db.findDeployment id with
  | none => .error (.http 404 "deployment not found")
  | some d =>
    scaleCandidate s db (rangeObj d body) (rangeTarget d (db.instancesOf id) body) false now

theorem setDeploymentRange_ok {s : Settings} {db db' : Db} {id : Uuid} {body : RangeRequest}
    {now : ℕ} (h : setDeploymentRange s db id body now = .ok db') :
    ∃ d, db.findDeployment id = some d ∧
      scaleCandidate s db (rangeObj d body) (rangeTarget d (db.instancesOf id) body) false now =
        .ok db' := by
  unfold setDeploymentRange at h
  split at h
  · cases h
  · rename_i d hd
    exact ⟨d, hd, h⟩

/-- `delete_deployment`. -/
def deleteDeployment (db : Db) (id : Uuid) : Except ServerError Db :=
  match db.findDeployment id with
  | none => .error (.http 404 "deployment not found")
  | some _ => .ok (db.dropDeployment id)

theorem deleteDeployment_ok {db db' : Db} {id : Uuid} (h : deleteDeployment db id = .ok db') :
    db' = db.dropDeployment id := by
  unfold deleteDeployment at h
  split at h
  · cases h
  · exact (Except.ok.inj h).symm

end Inferna
