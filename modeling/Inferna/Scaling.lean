import Inferna.Scheduler

/-!
# Scaling of replica groups

`services/scaling.py`: the replica units of a deployment and `apply_scale`, which
moves the number of live units to a target and commits once.

A session is modelled by two states of the tables: the committed one, and the
working one that holds what the session has flushed or has pending.  An
exception inside `apply_scale` leaves its changes in the working state; only a
rollback, or the end of the session, drops them.

The deployment object a session holds may be older than the row: the row lock
re-reads the instances but not the window.  `DeploymentObj` keeps the window as
it was loaded and as it is assigned now, and a flush writes exactly the columns
whose assigned value differs from the loaded one.

## Main definitions

* `replicaUnits` — `_replica_units`: rows, or whole parallel groups.
* `unitLive`, `unitServing`, `unitPending`, `unitBroken` — the classification.
* `applyScale` — `apply_scale` up to its commit.
* `Session.commit`, `scaleInSession` — the commit and the whole call.

## Main results

* `scaleOut_invariant` — what every placement keeps, scaling out keeps.
* `applyScale_cases` — what a call leaves, whether it succeeds or not.
-/

namespace Inferna

/-! ### Sessions -/

/-- A database session: what is committed, and what the session sees. -/
structure Session where
  committed : Db
  working : Db

namespace Session

/-- A session that has changed nothing yet. -/
def fresh (db : Db) : Session := ⟨db, db⟩

/-- `commit()`: everything pending is persisted, unless a constraint refuses it. -/
def commit (ss : Session) : Session × Except ServerError Unit :=
  match ss.working.violation with
  | none => (⟨ss.working, ss.working⟩, .ok ())
  | some c => (⟨ss.committed, ss.committed⟩, .error (.integrity c))

end Session

/-! ### Replica units -/

/-- `_replica_units`: one instance, or one whole parallel group. -/
def replicaUnits (nodesPerReplica : ℕ) (instances : List Instance) : List (List Instance) :=
  if nodesPerReplica ≤ 1 then instances.map fun i => [i]
  else (Dict.groupBy Instance.unitKey instances).values

/-- The units of some rows have these rows, each once. -/
theorem flatten_replicaUnits_perm (n : ℕ) (instances : List Instance) :
    (replicaUnits n instances).flatten.Perm instances := by
  unfold replicaUnits
  split
  · rw [← List.flatMap_def, List.flatMap_singleton']
  · exact Dict.flatten_groupBy_perm Instance.unitKey instances

theorem ne_nil_of_mem_replicaUnits {n : ℕ} {instances u : List Instance}
    (hu : u ∈ replicaUnits n instances) : u ≠ [] := by
  unfold replicaUnits at hu
  split at hu
  · obtain ⟨i, -, rfl⟩ := List.mem_map.mp hu
    exact List.cons_ne_nil i []
  · exact Dict.ne_nil_of_mem_groupBy hu

/-- `replica_unit_count`: all units, whatever their desired state. -/
def replicaUnitCount (nodesPerReplica : ℕ) (instances : List Instance) : ℕ :=
  (replicaUnits nodesPerReplica instances).length

/-- Some rank of the unit is desired running. -/
def unitLive (u : List Instance) : Bool := u.any (·.desiredState = .running)

/-- Every rank of the unit is running. -/
def unitServing (u : List Instance) : Bool := u.all (·.state = .running)

/-- The unit is not serving yet, but every rank is on its way. -/
def unitPending (u : List Instance) : Bool := !unitServing u && u.all (·.state.isLive)

/-- Some rank of the unit failed. -/
def unitBroken (u : List Instance) : Bool := u.any (·.state = .error)

/-- The number of units with a desired-running rank. -/
def runningUnits (nodesPerReplica : ℕ) (instances : List Instance) : ℕ :=
  ((replicaUnits nodesPerReplica instances).filter unitLive).length

/-- The oldest `created_at` of the unit. -/
def unitCreatedAt (u : List Instance) : ℕ := (u.map (·.createdAt)).min?.getD 0

/-- The scale-in order: partial units first, then the oldest. -/
def stopOrder (u v : List Instance) : Prop :=
  (unitServing u = false ∧ unitServing v = true) ∨
    (unitServing u = unitServing v ∧ unitCreatedAt u ≤ unitCreatedAt v)

instance : DecidableRel stopOrder := fun _ _ => inferInstanceAs (Decidable (_ ∨ _))

/-! ### Writing rows -/

/-- Stop every rank of the given units. -/
def stopUnits (db : Db) (units : List (List Instance)) : Db :=
  db.updateWhere (fun i => i.id ∈ units.flatten.map (·.id)) Instance.stop

/-- The row `apply_scale` and `deploy` insert for a single-node placement. -/
def replicaRow (d : Deployment) (now : ℕ) (id : Uuid) (a : Allocation) : Instance where
  id := id
  modelId := d.modelId
  clusterId := d.clusterId
  workerId := some a.worker.id
  deploymentId := d.id
  engine := d.engine
  profile := d.profile
  gpuIndexes := a.gpuIndexes
  port := some a.port
  createdAt := now

/-- Insert the rows of single-node placements. -/
def addReplicas (db : Db) (d : Deployment) (now : ℕ) (allocations : List Allocation) : Db :=
  { db with
    instances := db.instances ++ allocations.mapIdx fun k a => replicaRow d now (db.nextUuid + k) a
    lastUuid := db.nextUuid + allocations.length }

/-- `host:port` of the head of a group. -/
def rendezvousText (allocations : List ParallelAllocation) : String :=
  match allocations with
  | [] => ""
  | head :: _ =>
    rendezvousHost head.worker.address head.worker.hostname ++ ":" ++
      toString (head.rendezvousPort.getD 0)

/-- The row inserted for one rank of a group. -/
def rankRow (d : Deployment) (now : ℕ) (groupId : Uuid) (rendezvous : String) (id : Uuid)
    (a : ParallelAllocation) : Instance where
  id := id
  modelId := d.modelId
  clusterId := d.clusterId
  workerId := some a.worker.id
  deploymentId := d.id
  engine := d.engine
  profile := d.profile
  gpuIndexes := a.gpuIndexes
  port := a.instancePort
  parallelGroupId := some groupId
  nodeRank := some a.nodeRank
  worldSize := some d.nodesPerReplica
  parallelMode := d.parallelMode
  rendezvous := some rendezvous
  createdAt := now

/-- Insert the rows of one parallel group, under a fresh group id. -/
def addGroup (db : Db) (d : Deployment) (now : ℕ) (allocations : List ParallelAllocation) : Db :=
  { db with
    instances := db.instances ++ allocations.mapIdx fun k a =>
      rankRow d now db.nextUuid (rendezvousText allocations) (db.nextUuid + 1 + k) a
    lastUuid := db.nextUuid + 1 + allocations.length }

/-- Place `n` more groups, one after the other, away from the occupied hosts.
The groups placed before a failing allocation stay in the working state. -/
def placeGroups (s : Settings) (d : Deployment) (vramRequiredMb now : ℕ) :
    ℕ → Db → List Uuid → Db × Except ServerError Unit
  | 0, db, _ => (db, .ok ())
  | n + 1, db, occupied =>
    match allocateParallelReplicas s db d.clusterId vramRequiredMb d.engine d.nodesPerReplica
        occupied with
    | .error e => (db, .error e)
    | .ok allocations =>
      placeGroups s d vramRequiredMb now n (addGroup db d now allocations)
        (occupied ++ allocations.map (·.worker.id))

/-! ### The deployment object of a session -/

/-- A loaded deployment: the row as it was read, and the window assigned since. -/
structure DeploymentObj where
  loaded : Deployment
  minReplicas : ℕ
  maxReplicas : ℕ

/-- A deployment object with nothing assigned. -/
def Deployment.load (d : Deployment) : DeploymentObj := ⟨d, d.minReplicas, d.maxReplicas⟩

/-- `max(min_replicas, min(max_replicas, n))`. -/
def clampReplicas (lo hi n : ℕ) : ℕ := max lo (min hi n)

/-- A column after a flush: an assigned value equal to the loaded one emits no
`UPDATE`. -/
def flushColumn (loaded assigned row : ℕ) : ℕ := if assigned = loaded then row else assigned

/-- Flush the window and `last_scaled_at` of a deployment object. -/
def flushDeployment (obj : DeploymentObj) (now : ℕ) (row : Deployment) : Deployment :=
  { row with
    minReplicas := flushColumn obj.loaded.minReplicas obj.minReplicas row.minReplicas
    maxReplicas := flushColumn obj.loaded.maxReplicas obj.maxReplicas row.maxReplicas
    lastScaledAt := some now }

/-- Flush a deployment object into the tables. -/
def Db.writeDeployment (db : Db) (obj : DeploymentObj) (now : ℕ) : Db :=
  { db with
    deployments := db.deployments.map fun row =>
      if row.id = obj.loaded.id then flushDeployment obj now row else row }

/-! ### `apply_scale` -/

/-- The live units of a deployment. -/
def liveUnits (d : Deployment) (db : Db) : List (List Instance) :=
  (replicaUnits d.nodesPerReplica (db.instancesOf d.id)).filter unitLive

/-- The units that count as capacity: serving first, then pending. -/
def capacityUnits (d : Deployment) (db : Db) : List (List Instance) :=
  (liveUnits d db).filter unitServing ++ (liveUnits d db).filter unitPending

/-- The live units with a failed rank. -/
def brokenUnits (d : Deployment) (db : Db) : List (List Instance) :=
  (liveUnits d db).filter unitBroken

/-- The GPU pairs the units hold. -/
def usedGpus (units : List (List Instance)) : List (Uuid × ℕ) :=
  units.flatten.flatMap fun i => match i.workerId with
    | some w => i.gpuIndexes.map fun index => (w, index)
    | none => []

/-- The workers any unit of the deployment, stopped ones included, sits on. -/
def occupiedWorkers (d : Deployment) (db : Db) : List Uuid :=
  (replicaUnits d.nodesPerReplica (db.instancesOf d.id)).flatten.filterMap (·.workerId)

/-- Scale out by `n` units; `db` already has the broken units stopped. -/
def scaleOut (s : Settings) (d : Deployment) (now n : ℕ) (used : List (Uuid × ℕ))
    (occupied : List Uuid) (db : Db) : Db × Except ServerError Unit :=
  let vramRequiredMb := ((db.findModel d.modelId).map (·.vramRequiredMb)).getD 0
  if 1 < d.nodesPerReplica then placeGroups s d vramRequiredMb now n db occupied
  else
    match allocateReplicas s db d.clusterId vramRequiredMb d.engine n used with
    | .error e => (db, .error e)
    | .ok allocations => (addReplicas db d now allocations, .ok ())

/-- What every placed group keeps, placing groups keeps. -/
theorem placeGroups_invariant {s : Settings} {d : Deployment} {vramRequiredMb now : ℕ} (P : Db → Prop)
    (hgroup : ∀ db occupied allocations, P db →
      allocateParallelReplicas s db d.clusterId vramRequiredMb d.engine d.nodesPerReplica occupied =
        .ok allocations → P (addGroup db d now allocations)) (n : ℕ) :
    ∀ (db : Db) (occupied : List Uuid), P db →
      P (placeGroups s d vramRequiredMb now n db occupied).1 := by
  induction n with
  | zero => exact fun _ _ h => h
  | succ n ih =>
    intro db occupied h
    unfold placeGroups
    split
    · exact h
    · rename_i allocations halloc
      exact ih _ _ (hgroup db occupied allocations h halloc)

/-- **The rule for scaling out**: what the placed groups and the placed replicas keep holds of
the working state afterwards, also if there was no room for all of them. -/
theorem scaleOut_invariant {s : Settings} {d : Deployment} {now : ℕ} (P : Db → Prop) {db : Db}
    (vramRequiredMb : ℕ)
    (hvram : ((db.findModel d.modelId).map (·.vramRequiredMb)).getD 0 = vramRequiredMb) (h : P db)
    (hgroup : 1 < d.nodesPerReplica → ∀ db' occupied allocations, P db' →
      allocateParallelReplicas s db' d.clusterId vramRequiredMb d.engine d.nodesPerReplica occupied =
        .ok allocations → P (addGroup db' d now allocations))
    (n : ℕ) (used : List (Uuid × ℕ))
    (hreplicas : ∀ allocations,
      allocateReplicas s db d.clusterId vramRequiredMb d.engine n used = .ok allocations →
        P (addReplicas db d now allocations)) (occupied : List Uuid) :
    P (scaleOut s d now n used occupied db).1 := by
  subst hvram
  unfold scaleOut
  simp only
  split
  · rename_i hn
    exact placeGroups_invariant P (hgroup hn) n db occupied h
  · split
    · exact h
    · rename_i allocations halloc
      exact hreplicas allocations halloc

/-- The units scale-in stops to get down to `replicas`. -/
def unitsToStop (d : Deployment) (db : Db) (replicas : ℕ) : List (List Instance) :=
  ((capacityUnits d db).insertionSort stopOrder).take ((capacityUnits d db).length - replicas)

/-- The target after the clamp of `set_range=False`. -/
def scaleTarget (obj : DeploymentObj) (replicas : ℕ) (setRange : Bool) : ℕ :=
  if setRange then replicas else clampReplicas obj.minReplicas obj.maxReplicas replicas

/-- The window assigned by `set_range=True`. -/
def pinWindow (obj : DeploymentObj) (target : ℕ) (setRange : Bool) : DeploymentObj :=
  if setRange then { obj with minReplicas := target, maxReplicas := target } else obj

/-- The replica part of `apply_scale`: the working state after the units are
stopped and placed, and whether the allocation succeeded. -/
def moveReplicas (s : Settings) (d : Deployment) (target now : ℕ) (db : Db) :
    Db × Except ServerError Unit :=
  let capacity := (capacityUnits d db).length
  -- the broken units are stopped first, whatever happens afterwards
  let stopped := stopUnits db (brokenUnits d db)
  if capacity < target then
    scaleOut s d now (target - capacity) (usedGpus (capacityUnits d db)) (occupiedWorkers d db)
      stopped
  else (stopUnits stopped (unitsToStop d db target), .ok ())

/-- `apply_scale` up to its commit, on the working state of the session. -/
def applyScale (s : Settings) (obj : DeploymentObj) (replicas : ℕ) (setRange : Bool) (now : ℕ)
    (db : Db) : Db × Except ServerError Unit :=
  let target := scaleTarget obj replicas setRange
  match moveReplicas s obj.loaded target now db with
  | (db', .error e) => (db', .error e)
  | (db', .ok ()) => (db'.writeDeployment (pinWindow obj target setRange) now, .ok ())

/-- What a call leaves: the moved units and, if there was room for all of them, the row of
the deployment. -/
theorem applyScale_cases (s : Settings) (obj : DeploymentObj) (replicas : ℕ) (setRange : Bool)
    (now : ℕ) (db : Db) :
    let moved := moveReplicas s obj.loaded (scaleTarget obj replicas setRange) now db
    (∃ e, moved.2 = .error e ∧
      applyScale s obj replicas setRange now db = (moved.1, .error e)) ∨
    (moved.2 = .ok () ∧ applyScale s obj replicas setRange now db =
      (moved.1.writeDeployment (pinWindow obj (scaleTarget obj replicas setRange) setRange) now,
        .ok ())) := by
  unfold applyScale
  simp only
  rcases moveReplicas s obj.loaded (scaleTarget obj replicas setRange) now db with ⟨db', e | u⟩
  · exact Or.inl ⟨e, rfl, rfl⟩
  · exact Or.inr ⟨rfl, rfl⟩

/-- The whole call, with its commit, in a session. -/
def scaleInSession (s : Settings) (obj : DeploymentObj) (replicas : ℕ) (setRange : Bool)
    (now : ℕ) (ss : Session) : Session × Except ServerError Unit :=
  match applyScale s obj replicas setRange now ss.working with
  | (db', .error e) => (⟨ss.committed, db'⟩, .error e)
  | (db', .ok ()) => (⟨ss.committed, db'⟩ : Session).commit

end Inferna
