import Inferna.Capacity
import Inferna.HostReuse
import Inferna.Vram
import Inferna.Lib.Locking
import Inferna.Lib.Rounding

/-!
# Deploys at the same time

`api/instances.py` and `services/scheduler.py`, one database statement at a time.  A deploy looks
up its model and its cluster, locks the workers it may use (`with_for_update`), reads their live
rows and the ports they reserve, and inserts what it has placed.  Between two of its statements any
other deploy may go on.

On PostgreSQL a row that is locked stays so until its transaction ends, and a statement that has
waited for a row looks at the row again.  The rows are locked in the order of the statement, by
name.  On SQLite nothing is locked.

## Main definitions

* `lockWorkers`, `selectForUpdate` — a `SELECT ... FOR UPDATE` on the workers.
* `manualTxn`, `replicasTxn`, `parallelTxn` — the three placements.
* `deployTxn`, `deployNow` — `deploy` with its commit, statement by statement and at once.
* `Db.Reads` — what a session knows of the tables.
* `workerLocks`, `workerRank` — what the lock of a worker protects, and the order of the locks.
* `deploysInTurn` — deploys one after the other.

## Main results

* `run_deployTxn` — a deploy that is not disturbed is `deploy`.
* `guarded_deployTxn`, `ascending_deployTxn` — a deploy reads what it has locked, and locks in one
  order.
* `violation_deploy` — a deploy at once never trips a constraint.
* `deploys_serialise` — **deploys at the same time do what they do one after the other.**
* `unlocked_deploys_overcommit` — without the locks they do not.
-/

namespace Inferna

open Run Locking

/-! ### Statements -/

/-- What a request does on its connection. -/
abbrev DbTxn := Txn Db Uuid ServerError

/-- Lock the rows one after the other; a row that no longer qualifies is passed over. -/
def lockWorkers (p : Worker → Bool) : List Uuid → (List Worker → DbTxn) → DbTxn
  | [], next => next []
  | id :: ids, next =>
    .lock id fun db =>
      lockWorkers p ids fun workers => next (((db.findWorker id).filter p).toList ++ workers)

/-- `SELECT ... FROM workers ... FOR UPDATE`. -/
def selectForUpdate (query : Db → List Worker) (p : Worker → Bool)
    (next : List Worker → DbTxn) : DbTxn :=
  .ask (fun db => (query db).map (·.id)) fun ids => lockWorkers p ids next

/-- The rows that a session has read are added to those it knows. -/
def Db.load (view : Db) (rows : List Instance) (models : List Model) : Db :=
  { view with instances := view.instances ++ rows, models := view.models ++ models }

/-- `_live_instances` of a worker, with the models of its rows (`selectinload`). -/
def liveTxn (view : Db) (w : Uuid) (next : Db → DbTxn) : DbTxn :=
  .ask (fun db => liveInstances db w) fun rows =>
  .ask (fun db => db.models.filter (·.id ∈ rows.map (·.modelId))) fun models =>
  next (view.load rows models)

/-- `_live_instances` of one worker after the other. -/
def snapshotTxn : Db → List Worker → (Db → DbTxn) → DbTxn
  | view, [], next => next view
  | view, w :: ws, next => liveTxn view w.id fun view => snapshotTxn view ws next

/-- Go on with a result, or fail. -/
def orFail {α : Type} : Except ServerError α → (α → DbTxn) → DbTxn
  | .ok a, next => next a
  | .error e, _ => .fail e

/-- Insert rows and commit; an `IntegrityError` is rolled back and answered with 409. -/
def commitTxn (write : Db → Db) : DbTxn :=
  .commit fun db =>
    match (write db).violation with
    | none => .ok (write db)
    | some _ => .error (.http 409 "allocation conflict; retry")

/-! ### Manual placement -/

/-- The checks of `allocate_manual` before it reads the worker's rows. -/
def manualWorker (found : Option Worker) (clusterId : Uuid) (gpuIndexes : List ℕ)
    (engine : Engine) : Except ServerError Worker :=
  match found with
  | none => .error (.http 400 "worker not found or not connected")
  | some worker =>
    if worker.state ≠ .connected then
      .error (.http 400 "worker not found or not connected")
    else if worker.clusterId ≠ clusterId then
      .error (.http 400 "worker does not belong to cluster")
    else
      match gpuIndexes.find? fun index => (worker.gpuAt index).isNone with
      | some index => .error (.http 400 s!"worker has no GPU index {index}")
      | none =>
        match unsupportedIndex worker engine gpuIndexes with
        | some gpu =>
          .error (.http 400 ("engine " ++ engine.text ++ " not supported on " ++ gpu.vendor.text ++
            " GPU"))
        | none => .ok worker

/-- The check of the free memory. -/
def manualFits (view : Db) (worker : Worker) (vramRequiredMb : ℕ) (gpuIndexes : List ℕ) :
    Except ServerError Unit :=
  match unfitIndex view worker vramRequiredMb gpuIndexes with
  | some gpu =>
    .error (.http 400 ("GPU " ++ toString gpu.index ++ " does not fit " ++
      toString vramRequiredMb ++ " MB"))
  | none => .ok ()

/-- `allocate_manual`, statement by statement. -/
def manualTxn (s : Settings) (view : Db) (clusterId workerId : Uuid) (gpuIndexes : List ℕ)
    (vramRequiredMb : ℕ) (engine : Engine) (next : List Allocation → DbTxn) : DbTxn :=
  selectForUpdate (fun db => db.workers.filter (·.id = workerId)) (·.id = workerId) fun found =>
  orFail (manualWorker found.head? clusterId gpuIndexes engine) fun worker =>
  liveTxn view worker.id fun view =>
  orFail (manualFits view worker vramRequiredMb gpuIndexes) fun _ =>
  .ask (fun db => portInstances db worker.id) fun rows =>
  orFail (allocPort s rows []) fun port =>
  next [⟨worker, gpuIndexes.dedup.insertionSort (· ≤ ·), port⟩]

/-! ### Replicas -/

/-- `_connected_workers`. -/
def connectedTxn (clusterId : Uuid) (next : List Worker → DbTxn) : DbTxn :=
  selectForUpdate (fun db => connectedWorkers db clusterId)
    (fun w => w.clusterId = clusterId ∧ w.state = .connected) next

/-- The loop state after a replica is placed. -/
def ReplicaLoop.placeAt (st : ReplicaLoop) (vramRequiredMb : ℕ) (best : Candidate) (port : ℕ) :
    ReplicaLoop :=
  let key := (best.worker.id, best.gpuIndex)
  { used := st.used ++ [key]
    usedWorkers := st.usedWorkers ++ [best.worker.id]
    pendingVram := st.pendingVram.set key (st.pendingVram.getD key 0 + vramRequiredMb)
    callPorts := st.callPorts ++ [port]
    allocations := st.allocations ++ [⟨best.worker, [best.gpuIndex], port⟩] }

/-- Place the replicas `is` of `count`, with the reserved ports read for each. -/
def replicaLoopTxn (s : Settings) (view : Db) (engine : Engine) (vramRequiredMb count : ℕ)
    (workers : List Worker) : List ℕ → ReplicaLoop → (List Allocation → DbTxn) → DbTxn
  | [], st, next => next st.allocations
  | i :: is, st, next =>
    match pickCandidate view engine vramRequiredMb workers st with
    | none => .fail (.http 400 s!"no GPU with enough free VRAM for replica {i} of {count}")
    | some best =>
      .ask (fun db => portInstances db best.worker.id) fun rows =>
      orFail (allocPort s rows st.callPorts) fun port =>
      replicaLoopTxn s view engine vramRequiredMb count workers is
        (st.placeAt vramRequiredMb best port) next

/-- `allocate_replicas` with an empty `used`, statement by statement. -/
def replicasTxn (s : Settings) (view : Db) (clusterId : Uuid) (vramRequiredMb : ℕ)
    (engine : Engine) (count : ℕ) (next : List Allocation → DbTxn) : DbTxn :=
  connectedTxn clusterId fun workers =>
  if workers = [] then .fail (.http 400 "no connected workers in cluster")
  else snapshotTxn view workers fun view =>
    replicaLoopTxn s view engine vramRequiredMb count workers (List.range' 1 count)
      ⟨[], [], Dict.empty, [], []⟩ next

/-! ### Parallel groups -/

/-- The hosts of a group, or why there is none. -/
def groupHosts (view : Db) (engine : Engine) (vramRequiredMb nodesPerReplica : ℕ)
    (workers : List Worker) : Except ServerError (Candidate × List Candidate) :=
  let fitting := workers.filterMap (bestFittingGpu view engine vramRequiredMb)
  match chooseHosts fitting nodesPerReplica with
  | [] => .error (.http 400 "no connected worker with a routable address for the rendezvous head")
  | head :: others =>
    if fitting.length < nodesPerReplica then
      .error (.http 400 ("multi-node deploy needs " ++ toString nodesPerReplica ++
        " hosts with " ++ toString vramRequiredMb ++ " MB free, " ++ toString fitting.length ++
        " available"))
    else .ok (head, others)

/-- `allocate_parallel_replicas` with nothing to exclude, statement by statement. -/
def parallelTxn (s : Settings) (view : Db) (clusterId : Uuid) (vramRequiredMb : ℕ)
    (engine : Engine) (nodesPerReplica : ℕ) (next : List ParallelAllocation → DbTxn) : DbTxn :=
  connectedTxn clusterId fun workers =>
  if workers = [] then .fail (.http 400 "no connected workers in cluster")
  else snapshotTxn view workers fun view =>
    orFail (groupHosts view engine vramRequiredMb nodesPerReplica workers) fun hosts =>
    .ask (fun db => portInstances db hosts.1.worker.id) fun rows =>
    orFail (allocPort s rows []) fun instancePort =>
    orFail (allocRendezvousPort s rows) fun rendezvousPort =>
    next (⟨hosts.1.worker, [hosts.1.gpuIndex], 0, some instancePort, some rendezvousPort⟩ ::
      hosts.2.mapIdx fun k c => ⟨c.worker, [c.gpuIndex], k + 1, none, none⟩)

/-! ### Deploy -/

/-- `deploy`, statement by statement.  The rows are written at the time `now`. -/
def deployTxn (s : Settings) (req : DeployRequest × ℕ) : DbTxn :=
  let body := req.1
  .ask (fun db => db.models.filter (·.id = body.modelId)) fun models =>
  if models = [] then .fail (.http 404 "model not found")
  else .ask (fun db => db.clusters.filter (·.id = body.clusterId)) fun clusters =>
    let view : Db := { models, clusters }
    orFail (deployGuard view body) fun model =>
    let row (db : Db) := deploymentRow body req.2 db.nextUuid
    let insert (allocations : List Allocation) : DbTxn :=
      commitTxn fun db => addReplicas (db.addDeployment (row db)) (row db) req.2 allocations
    if 1 < body.nodesPerReplica then
      parallelTxn s view body.clusterId model.vramRequiredMb body.engine body.nodesPerReplica
        fun allocations =>
          commitTxn fun db => addGroup (db.addDeployment (row db)) (row db) req.2 allocations
    else
      match body.gpuSelection with
      | .manual workerId gpuIndexes =>
        manualTxn s view body.clusterId workerId gpuIndexes model.vramRequiredMb body.engine insert
      | .auto =>
        replicasTxn s view body.clusterId model.vramRequiredMb body.engine body.replicas insert

/-- `deploy` at once: what it commits, or the error it answers with. -/
def deployNow (s : Settings) (req : DeployRequest × ℕ) (db : Db) : Except ServerError Db :=
  match deploy s db req.1 req.2 with
  | .error e => .error e
  | .ok db' =>
    match db'.violation with
    | none => .ok db'
    | some _ => .error (.http 409 "allocation conflict; retry")

/-! ### What a session knows -/

section Snapshot

variable {db view : Db} {ws : List Worker}

/-- The session has read the live rows of these workers, and the models of what it has read. -/
structure Db.Reads (db view : Db) (ws : List Worker) : Prop where
  rows : view.instances = ws.flatMap fun w => liveInstances db w.id
  models : ∀ id, view.findModel id = none ∨ view.findModel id = db.findModel id
  known : ∀ i ∈ view.instances, view.findModel i.modelId = db.findModel i.modelId

/-- What a session finds among the rows of some models. -/
theorem find?_filter_models (models : List Model) (ids : List Uuid) (id : Uuid) :
    (models.filter (·.id ∈ ids)).find? (·.id = id) =
      if id ∈ ids then models.find? (·.id = id) else none := by
  rw [List.find?_filter]
  split
  · rename_i hid
    congr 1
    funext m
    by_cases hm : m.id = id
    · simp [hm, hid]
    · simp [hm]
  · rename_i hid
    rw [List.find?_eq_none]
    intro m _ hm
    rw [decide_eq_true_eq, decide_eq_true_eq, decide_eq_true_eq] at hm
    exact hid (hm.2 ▸ hm.1)

theorem findModel_load (view : Db) (rows : List Instance) (models : List Model) (id : Uuid) :
    (view.load rows models).findModel id =
      (view.findModel id).or (models.find? (·.id = id)) :=
  List.find?_append

/-- The reads for one more worker. -/
theorem Db.Reads.load (h : db.Reads view ws) (w : Worker) :
    db.Reads (view.load (liveInstances db w.id)
      (db.models.filter (·.id ∈ (liveInstances db w.id).map (·.modelId)))) (ws ++ [w]) where
  rows := by
    rw [List.flatMap_append, List.flatMap_singleton, ← h.rows]
    rfl
  models id := by
    rw [findModel_load, find?_filter_models]
    rcases h.models id with hnone | hknown
    · rw [hnone, Option.none_or]
      split
      · exact .inr rfl
      · exact .inl rfl
    · rw [hknown]
      cases hm : db.findModel id with
      | some m => exact .inr rfl
      | none =>
        refine .inl ?_
        rw [Option.none_or]
        split
        · exact hm
        · rfl
  known i hi := by
    rw [findModel_load, find?_filter_models]
    rcases List.mem_append.mp hi with hold | hnew
    · rw [h.known i hold]
      cases hm : db.findModel i.modelId with
      | some m => rfl
      | none =>
        rw [Option.none_or]
        split
        · exact hm
        · rfl
    · rw [if_pos (List.mem_map_of_mem hnew)]
      rcases h.models i.modelId with hnone | hknown
      · rw [hnone, Option.none_or]
        rfl
      · rw [hknown]
        exact Option.or_self

/-- What a session knows after it has read for one worker after the other. -/
def snapshot (db : Db) (view : Db) (ws : List Worker) : Db :=
  ws.foldl (fun view w => view.load (liveInstances db w.id)
    (db.models.filter (·.id ∈ (liveInstances db w.id).map (·.modelId)))) view

theorem Db.Reads.snapshot : ∀ (ws' : List Worker) {view : Db} {ws : List Worker},
    db.Reads view ws → db.Reads (snapshot db view ws') (ws ++ ws') := by
  intro ws'
  induction ws' with
  | nil => exact fun h => by rwa [List.append_nil]
  | cons w ws' ih =>
    intro view ws h
    have hnext := ih (h.load w)
    rwa [List.append_assoc] at hnext

theorem liveInstances_flatMap (hkeys : (ws.map (·.id)).Nodup) {w : Worker} (hw : w ∈ ws) :
    (ws.flatMap fun v => liveInstances db v.id).filter
        (fun i => i.workerId = some w.id ∧ i.state.isLive) = liveInstances db w.id := by
  have hone : ∀ v : Worker, (liveInstances db v.id).filter
      (fun i => i.workerId = some w.id ∧ i.state.isLive) =
        if v.id = w.id then liveInstances db w.id else [] := by
    intro v
    unfold liveInstances
    rw [List.filter_filter]
    split
    · rename_i hv
      refine List.filter_congr fun i _ => ?_
      rw [hv]
      exact Bool.and_self _
    · rename_i hv
      rw [List.filter_eq_nil_iff]
      intro i _ hi
      simp only [Bool.and_eq_true, decide_eq_true_eq] at hi
      exact hv (Option.some.inj (hi.2.1.symm.trans hi.1.1))
  rw [List.filter_flatMap]
  simp only [hone]
  induction ws with
  | nil => cases hw
  | cons v ws ih =>
    rw [List.map_cons, List.nodup_cons] at hkeys
    rw [List.flatMap_cons]
    have hothers : v.id = w.id →
        ws.flatMap (fun u => if u.id = w.id then liveInstances db w.id else []) = [] := by
      intro hv
      rw [List.flatMap_eq_nil_iff]
      intro u hu
      refine if_neg fun heq => hkeys.1 ?_
      rw [hv, ← heq]
      exact List.mem_map_of_mem hu
    rcases List.mem_cons.mp hw with rfl | hw
    · rw [if_pos rfl, hothers rfl, List.append_nil]
    · by_cases hv : v.id = w.id
      · exact absurd (hv ▸ List.mem_map_of_mem hw) hkeys.1
      · rw [if_neg hv, List.nil_append]
        exact ih hkeys.2 hw

/-- **The usage of a worker that the session has read is its usage.** -/
theorem Db.Reads.gpuUsage_eq (h : db.Reads view ws) (hkeys : (ws.map (·.id)).Nodup) {w : Worker}
    (hw : w ∈ ws) :
    gpuUsage view (liveInstances view w.id) = gpuUsage db (liveInstances db w.id) := by
  have hlive : liveInstances view w.id = liveInstances db w.id := by
    have hrows := @liveInstances_flatMap db ws hkeys w hw
    rwa [← h.rows] at hrows
  have hvram : ∀ i ∈ liveInstances db w.id, view.vramOf i = db.vramOf i := by
    intro i hi
    rw [← hlive] at hi
    unfold Db.vramOf
    rw [h.known i (List.mem_of_mem_filter hi)]
  rw [hlive]
  unfold gpuUsage
  refine List.foldl_ext _ _ _ fun usage i hi => ?_
  unfold addUsage
  rw [hvram i hi]

/-- The session finds the same room as the tables have. -/
theorem fittingCandidates_congr (h : ∀ w ∈ ws, gpuUsage view (liveInstances view w.id) =
      gpuUsage db (liveInstances db w.id)) (engine : Engine) (vram : ℕ)
    (pending : Dict (Uuid × ℕ) ℕ) (allowed : Worker → Gpu → Bool) :
    fittingCandidates view engine vram pending ws allowed =
      fittingCandidates db engine vram pending ws allowed := by
  unfold fittingCandidates
  refine List.flatMap_congr fun w hw => ?_
  unfold freeVram
  rw [h w hw]

theorem pickCandidate_congr (h : ∀ w ∈ ws, gpuUsage view (liveInstances view w.id) =
      gpuUsage db (liveInstances db w.id)) (engine : Engine) (vram : ℕ) (st : ReplicaLoop) :
    pickCandidate view engine vram ws st = pickCandidate db engine vram ws st := by
  unfold pickCandidate bestCandidate
  simp only [fittingCandidates_congr h]

theorem bestFittingGpu_congr (h : ∀ w ∈ ws, gpuUsage view (liveInstances view w.id) =
      gpuUsage db (liveInstances db w.id)) (engine : Engine) (vram : ℕ) :
    ws.filterMap (bestFittingGpu view engine vram) =
      ws.filterMap (bestFittingGpu db engine vram) := by
  refine List.filterMap_congr fun w hw => ?_
  unfold bestFittingGpu
  rw [fittingCandidates_congr fun v hv => h v (List.mem_singleton.mp hv ▸ hw)]

end Snapshot

/-! ### A deploy that is not disturbed -/

section Alone

variable {s : Settings} {db view : Db} {ws : List Worker}

theorem run_orFail {α : Type} (r : Except ServerError α) (next : α → DbTxn) :
    (orFail r next).run db = r >>= fun a => (next a).run db := by
  cases r <;> rfl

theorem run_lockWorkers (p : Worker → Bool) : ∀ (ids : List Uuid) (next : List Worker → DbTxn),
    (lockWorkers p ids next).run db =
      (next (ids.flatMap fun id => ((db.findWorker id).filter p).toList)).run db := by
  intro ids
  induction ids with
  | nil => exact fun next => rfl
  | cons id ids ih => exact fun next => ih _

/-- The rows that are locked are those of the query. -/
theorem run_selectForUpdate {query : Db → List Worker} {p : Worker → Bool}
    {next : List Worker → DbTxn}
    (h : ∀ w ∈ query db, db.findWorker w.id = some w ∧ p w = true) :
    (selectForUpdate query p next).run db = (next (query db)).run db := by
  have hrows : ∀ ws : List Worker, (∀ w ∈ ws, db.findWorker w.id = some w ∧ p w = true) →
      (ws.map (·.id)).flatMap (fun id => ((db.findWorker id).filter p).toList) = ws := by
    intro ws hws
    induction ws with
    | nil => rfl
    | cons w ws ih =>
      obtain ⟨hfind, hp⟩ := hws w List.mem_cons_self
      rw [List.map_cons, List.flatMap_cons, ih fun v hv => hws v (List.mem_cons_of_mem w hv), hfind,
        Option.filter_some, if_pos hp]
      rfl
  rw [selectForUpdate, Txn.run_ask, run_lockWorkers, hrows _ h]

theorem run_snapshotTxn : ∀ (ws : List Worker) (view : Db) (next : Db → DbTxn),
    (snapshotTxn view ws next).run db = (next (snapshot db view ws)).run db := by
  intro ws
  induction ws with
  | nil => exact fun view next => rfl
  | cons w ws ih => exact fun view next => ih _ next

theorem run_connectedTxn (hkeys : (db.workers.map (·.id)).Nodup) (clusterId : Uuid)
    (next : List Worker → DbTxn) :
    (connectedTxn clusterId next).run db = (next (connectedWorkers db clusterId)).run db := by
  refine run_selectForUpdate fun w hw => ?_
  obtain ⟨hmem, hcluster⟩ := mem_connectedWorkers.mp hw
  exact ⟨Dict.find?_eq_some_of_mem hkeys hmem, decide_eq_true hcluster⟩

/-- `allocate_manual` is its checks, in this order. -/
theorem allocateManual_eq (clusterId workerId : Uuid) (gpuIndexes : List ℕ) (vram : ℕ)
    (engine : Engine) :
    allocateManual s db clusterId workerId gpuIndexes vram engine =
      (manualWorker (db.findWorker workerId) clusterId gpuIndexes engine >>= fun worker =>
        manualFits db worker vram gpuIndexes >>= fun _ =>
          allocPort s (portInstances db worker.id) [] >>= fun port =>
            .ok ⟨worker, gpuIndexes.dedup.insertionSort (· ≤ ·), port⟩) := by
  unfold allocateManual manualWorker manualFits
  cases db.findWorker workerId with
  | none => rfl
  | some worker =>
    simp only
    split_ifs
    · rfl
    · rfl
    cases gpuIndexes.find? fun index => (worker.gpuAt index).isNone with
    | some index => rfl
    | none =>
      cases unsupportedIndex worker engine gpuIndexes with
      | some gpu => rfl
      | none =>
        change _ = Except.bind (match unfitIndex db worker vram gpuIndexes with
          | some gpu => _
          | none => _) _
        cases unfitIndex db worker vram gpuIndexes with
        | some gpu => rfl
        | none => cases allocPort s (portInstances db worker.id) [] <;> rfl

theorem placeReplica_eq (engine : Engine) (vram count : ℕ) (st : ReplicaLoop) (i : ℕ) :
    placeReplica s db engine vram count ws st i =
      match pickCandidate db engine vram ws st with
      | none => .error (.http 400 s!"no GPU with enough free VRAM for replica {i} of {count}")
      | some best =>
        allocPort s (portInstances db best.worker.id) st.callPorts >>= fun port =>
          .ok (st.placeAt vram best port) := by
  unfold placeReplica
  cases pickCandidate db engine vram ws st with
  | none => rfl
  | some best =>
    simp only
    cases allocPort s (portInstances db best.worker.id) st.callPorts <;> rfl

theorem run_replicaLoopTxn {engine : Engine} {vram count : ℕ} {next : List Allocation → DbTxn}
    (hpick : ∀ st, pickCandidate view engine vram ws st = pickCandidate db engine vram ws st) :
    ∀ (is : List ℕ) (st : ReplicaLoop),
      (replicaLoopTxn s view engine vram count ws is st next).run db =
        is.foldlM (placeReplica s db engine vram count ws) st >>= fun st' =>
          (next st'.allocations).run db := by
  intro is
  induction is with
  | nil => exact fun st => rfl
  | cons i is ih =>
    intro st
    rw [List.foldlM_cons, placeReplica_eq, replicaLoopTxn, hpick]
    cases pickCandidate db engine vram ws st with
    | none => rfl
    | some best =>
      simp only [Txn.run_ask, run_orFail, bind_assoc]
      cases allocPort s (portInstances db best.worker.id) st.callPorts with
      | error e => rfl
      | ok port => exact ih _

/-- The workers a session locks are read with their usage. -/
theorem run_snapshot_connected (hkeys : (db.workers.map (·.id)).Nodup) (clusterId : Uuid)
    (hview : db.Reads view []) :
    ∀ w ∈ connectedWorkers db clusterId,
      gpuUsage (snapshot db view (connectedWorkers db clusterId))
          (liveInstances (snapshot db view (connectedWorkers db clusterId)) w.id) =
        gpuUsage db (liveInstances db w.id) :=
  fun _ hw => (hview.snapshot _).gpuUsage_eq (nodup_connectedWorkers hkeys) hw

theorem run_replicasTxn (hkeys : (db.workers.map (·.id)).Nodup) (hview : db.Reads view [])
    (clusterId : Uuid) (vram : ℕ) (engine : Engine) (count : ℕ) (next : List Allocation → DbTxn) :
    (replicasTxn s view clusterId vram engine count next).run db =
      allocateReplicas s db clusterId vram engine count [] >>= fun as => (next as).run db := by
  unfold replicasTxn allocateReplicas
  rw [run_connectedTxn hkeys]
  simp only
  split
  · rfl
  · rw [run_snapshotTxn, run_replicaLoopTxn (pickCandidate_congr
      (run_snapshot_connected hkeys clusterId hview) engine vram)]
    change _ = Except.bind (Except.map _ _) _
    rw [List.map_nil]
    generalize List.foldlM (placeReplica s db engine vram count (connectedWorkers db clusterId))
      _ _ = r
    cases r <;> rfl

/-- With one worker read, the check of the free memory is the one on the tables. -/
theorem manualFits_load (hview : db.Reads view []) (w : Worker) (vram : ℕ) (gpuIndexes : List ℕ) :
    manualFits (snapshot db view [w]) w vram gpuIndexes = manualFits db w vram gpuIndexes := by
  unfold manualFits unfitIndex
  rw [(hview.snapshot [w]).gpuUsage_eq (List.nodup_singleton _) (List.mem_singleton_self w)]

theorem run_manualTxn (hkeys : (db.workers.map (·.id)).Nodup) (hview : db.Reads view [])
    (clusterId workerId : Uuid) (gpuIndexes : List ℕ) (vram : ℕ) (engine : Engine)
    (next : List Allocation → DbTxn) :
    (manualTxn s view clusterId workerId gpuIndexes vram engine next).run db =
      (allocateManual s db clusterId workerId gpuIndexes vram engine).map (fun a => [a]) >>=
        fun as => (next as).run db := by
  have hfound : (db.workers.filter (·.id = workerId)).head? = db.findWorker workerId :=
    List.head?_filter
  unfold manualTxn
  rw [run_selectForUpdate (p := fun w => w.id = workerId) ?_, allocateManual_eq, run_orFail, hfound]
  · cases manualWorker (db.findWorker workerId) clusterId gpuIndexes engine with
    | error e => rfl
    | ok w =>
      change (orFail (manualFits (snapshot db view [w]) w vram gpuIndexes) _).run db = _
      rw [run_orFail, manualFits_load hview]
      change _ = Except.map _ (manualFits db w vram gpuIndexes >>= _) >>= _
      cases manualFits db w vram gpuIndexes with
      | error e => rfl
      | ok u =>
        change (orFail (allocPort s (portInstances db w.id) []) _).run db =
          Except.map _ (allocPort s (portInstances db w.id) [] >>= _) >>= _
        rw [run_orFail]
        cases allocPort s (portInstances db w.id) [] <;> rfl
  · intro w hw
    obtain ⟨hmem, hid⟩ := List.mem_filter.mp hw
    exact ⟨Dict.find?_eq_some_of_mem hkeys hmem, hid⟩

/-- `allocate_parallel_replicas` with nothing to exclude. -/
theorem allocateParallelReplicas_eq (clusterId : Uuid) (vram : ℕ) (engine : Engine) (n : ℕ) :
    allocateParallelReplicas s db clusterId vram engine n [] =
      if connectedWorkers db clusterId = [] then
        .error (.http 400 "no connected workers in cluster")
      else groupHosts db engine vram n (connectedWorkers db clusterId) >>= fun hosts =>
        allocPort s (portInstances db hosts.1.worker.id) [] >>= fun instancePort =>
        allocRendezvousPort s (portInstances db hosts.1.worker.id) >>= fun rendezvousPort =>
          .ok (⟨hosts.1.worker, [hosts.1.gpuIndex], 0, some instancePort, some rendezvousPort⟩ ::
            hosts.2.mapIdx fun k c => ⟨c.worker, [c.gpuIndex], k + 1, none, none⟩) := by
  have hall : (connectedWorkers db clusterId).filter (·.id ∉ ([] : List Uuid)) =
      connectedWorkers db clusterId := by
    rw [List.filter_eq_self]
    exact fun w _ => decide_eq_true List.not_mem_nil
  unfold allocateParallelReplicas groupHosts
  simp only [hall]
  split
  · rfl
  cases chooseHosts ((connectedWorkers db clusterId).filterMap (bestFittingGpu db engine vram))
    n with
  | nil => rfl
  | cons head others =>
    simp only
    split
    · rfl
    · change _ = (allocPort s (portInstances db head.worker.id) [] >>= _)
      cases allocPort s (portInstances db head.worker.id) [] with
      | error e => rfl
      | ok instancePort =>
        change _ = (allocRendezvousPort s (portInstances db head.worker.id) >>= _)
        cases allocRendezvousPort s (portInstances db head.worker.id) <;> rfl

theorem run_parallelTxn (hkeys : (db.workers.map (·.id)).Nodup) (hview : db.Reads view [])
    (clusterId : Uuid) (vram : ℕ) (engine : Engine) (n : ℕ)
    (next : List ParallelAllocation → DbTxn) :
    (parallelTxn s view clusterId vram engine n next).run db =
      allocateParallelReplicas s db clusterId vram engine n [] >>= fun as => (next as).run db := by
  unfold parallelTxn
  rw [run_connectedTxn hkeys, allocateParallelReplicas_eq]
  split
  · rfl
  have hhosts : groupHosts (snapshot db view (connectedWorkers db clusterId)) engine vram n
      (connectedWorkers db clusterId) =
        groupHosts db engine vram n (connectedWorkers db clusterId) := by
    unfold groupHosts
    rw [bestFittingGpu_congr (run_snapshot_connected hkeys clusterId hview)]
  rw [run_snapshotTxn, run_orFail, hhosts]
  simp only [Txn.run_ask, run_orFail, bind_assoc]
  rfl

/-- The guards of `deploy` look at one model and one cluster. -/
theorem deployGuard_congr {body : DeployRequest}
    (hmodel : view.findModel body.modelId = db.findModel body.modelId)
    (hcluster : view.findCluster body.clusterId = db.findCluster body.clusterId) :
    deployGuard view body = deployGuard db body := by
  unfold deployGuard
  rw [hmodel, hcluster]

/-- **A deploy that is not disturbed is `deploy`**, with its commit. -/
theorem run_deployTxn (hkeys : (db.workers.map (·.id)).Nodup) (req : DeployRequest × ℕ) :
    (deployTxn s req).run db = deployNow s req db := by
  obtain ⟨body, now⟩ := req
  have hmodel : (db.models.filter (·.id = body.modelId)).find? (·.id = body.modelId) =
      db.findModel body.modelId := by
    rw [List.find?_filter]
    simp only [and_self, Bool.decide_eq_true]
    rfl
  have hcluster : (db.clusters.filter (·.id = body.clusterId)).find? (·.id = body.clusterId) =
      db.findCluster body.clusterId := by
    rw [List.find?_filter]
    simp only [and_self, Bool.decide_eq_true]
    rfl
  unfold deployTxn deployNow deploy
  simp only [Txn.run_ask]
  split
  · rename_i hnone
    have hguard : deployGuard db body = .error (.http 404 "model not found") := by
      unfold deployGuard
      rw [← hmodel, hnone]
      rfl
    rw [hguard]
    rfl
  have hview : db.Reads
      { models := db.models.filter (·.id = body.modelId)
        clusters := db.clusters.filter (·.id = body.clusterId) } [] := by
    refine ⟨rfl, fun id => ?_, fun i hi => (List.not_mem_nil hi).elim⟩
    by_cases hid : id = body.modelId
    · exact .inr (hid ▸ hmodel)
    · refine .inl (List.find?_eq_none.mpr fun m hm heq => hid ?_)
      rw [← of_decide_eq_true heq]
      exact of_decide_eq_true (List.mem_filter.mp hm).2
  have hguard : deployGuard
      { models := db.models.filter (·.id = body.modelId)
        clusters := db.clusters.filter (·.id = body.clusterId) } body = deployGuard db body :=
    deployGuard_congr hmodel hcluster
  rw [Txn.run_ask, run_orFail, hguard]
  cases deployGuard db body with
  | error e => rfl
  | ok model =>
    change Txn.run (if _ then _ else _) db = _
    simp only
    split
    · rw [run_parallelTxn hkeys hview]
      cases allocateParallelReplicas s db body.clusterId model.vramRequiredMb body.engine
        body.nodesPerReplica [] <;> rfl
    · unfold deployAllocations
      cases body.gpuSelection with
      | manual workerId gpuIndexes =>
        simp only
        rw [run_manualTxn hkeys hview]
        cases allocateManual s db body.clusterId workerId gpuIndexes model.vramRequiredMb
          body.engine <;> rfl
      | auto =>
        simp only
        rw [run_replicasTxn hkeys hview]
        cases allocateReplicas s db body.clusterId model.vramRequiredMb body.engine body.replicas
          [] <;> rfl

end Alone

/-! ### What a deploy reads it has locked -/

/-- The lock of a worker protects the rows on it.  No deploy writes the other tables it reads. -/
def workerLocks : Locking.Footprint Db Uuid where
  agree L db db' := db.clusters = db'.clusters ∧ db.workers = db'.workers ∧ db.models = db'.models ∧
    ∀ w ∈ L, portInstances db w = portInstances db' w
  refl _ _ := ⟨rfl, rfl, rfl, fun _ _ => rfl⟩
  mono h hagree := ⟨hagree.1, hagree.2.1, hagree.2.2.1, fun w hw => hagree.2.2.2 w (h hw)⟩

/-- Live rows reserve their port. -/
theorem liveInstances_eq_filter (db : Db) (w : Uuid) :
    liveInstances db w = (portInstances db w).filter (·.state.isLive) := by
  unfold liveInstances portInstances
  rw [List.filter_filter]
  refine List.filter_congr fun i _ => ?_
  by_cases hlive : i.state.isLive = true
  · simp [hlive, Instance.portReserved]
  · simp [hlive]

section Guards

variable {s : Settings} {view : Db} {ws : List Worker} {L : Set Uuid}

theorem guarded_orFail {α : Type} {r : Except ServerError α} {next : α → DbTxn}
    (h : ∀ a, r = .ok a → Guarded workerLocks L (next a)) :
    Guarded workerLocks L (orFail r next) := by
  cases r with
  | error e => trivial
  | ok a => exact h a rfl

theorem guarded_lockWorkers (p : Worker → Bool) : ∀ (ids : List Uuid) {L : Set Uuid}
    {next : List Worker → DbTxn},
    (∀ ws L', L ⊆ L' → (∀ w ∈ ws, w.id ∈ L') → Guarded workerLocks L' (next ws)) →
      Guarded workerLocks L (lockWorkers p ids next) := by
  intro ids
  induction ids with
  | nil => exact fun h => h [] _ subset_rfl fun w hw => (List.not_mem_nil hw).elim
  | cons id ids ih =>
    intro L next h
    refine ⟨fun db db' hagree => ?_, fun db => ih fun ws L' hsub hws => ?_⟩
    · have hfind : db.findWorker id = db'.findWorker id := by
        unfold Db.findWorker
        rw [hagree.2.1]
      simp only [hfind]
    · refine h _ L' ((Set.subset_insert id L).trans hsub) fun w hw => ?_
      rcases List.mem_append.mp hw with hfound | hrest
      · -- The row that was found is the one that is locked.
        have hid : w.id = id := by
          cases hfind : db.findWorker id with
          | none => rw [hfind] at hfound; exact (List.not_mem_nil hfound).elim
          | some v =>
            rw [hfind, Option.mem_toList, Option.filter_eq_some_iff] at hfound
            obtain rfl := Option.some.inj hfound.1
            have hv := List.find?_some hfind
            rwa [decide_eq_true_eq] at hv
        exact hid ▸ hsub (Set.mem_insert id L)
      · exact hws w hrest

theorem guarded_selectForUpdate {query : Db → List Worker} {p : Worker → Bool}
    {next : List Worker → DbTxn}
    (hquery : ∀ db db' : Db, db.workers = db'.workers → query db = query db')
    (h : ∀ ws L', (∀ w ∈ ws, w.id ∈ L') → Guarded workerLocks L' (next ws)) :
    Guarded workerLocks L (selectForUpdate query p next) := by
  refine guarded_ask (fun db db' hagree => ?_) fun db => ?_
  · rw [hquery db db' hagree.2.1]
  · exact guarded_lockWorkers p _ fun ws L' _ hws => h ws L' hws

theorem guarded_connectedTxn {clusterId : Uuid} {next : List Worker → DbTxn}
    (h : ∀ ws L', (∀ w ∈ ws, w.id ∈ L') → Guarded workerLocks L' (next ws)) :
    Guarded workerLocks L (connectedTxn clusterId next) := by
  refine guarded_selectForUpdate (fun db db' hworkers => ?_) h
  unfold connectedWorkers
  rw [hworkers]

theorem guarded_ask_ports {w : Uuid} (hw : w ∈ L) {next : List Instance → DbTxn}
    (h : ∀ rows, Guarded workerLocks L (next rows)) :
    Guarded workerLocks L (.ask (fun db => portInstances db w) next) :=
  guarded_ask (fun _ _ hagree => hagree.2.2.2 w hw) fun _ => h _

theorem guarded_liveTxn {w : Uuid} (hw : w ∈ L) {next : Db → DbTxn}
    (h : ∀ view, Guarded workerLocks L (next view)) :
    Guarded workerLocks L (liveTxn view w next) := by
  refine guarded_ask (fun db db' hagree => ?_) fun _ =>
    guarded_ask (fun db db' hagree => ?_) fun _ => h _
  · rw [liveInstances_eq_filter, liveInstances_eq_filter, hagree.2.2.2 w hw]
  · rw [hagree.2.2.1]

theorem guarded_snapshotTxn {next : Db → DbTxn} (h : ∀ view, Guarded workerLocks L (next view)) :
    ∀ (ws : List Worker) {view : Db}, (∀ w ∈ ws, w.id ∈ L) →
      Guarded workerLocks L (snapshotTxn view ws next) := by
  intro ws
  induction ws with
  | nil => exact fun _ => h _
  | cons w ws ih =>
    exact fun hws => guarded_liveTxn (hws w List.mem_cons_self) fun _ =>
      ih fun v hv => hws v (List.mem_cons_of_mem w hv)

/-- A replica is placed on one of the workers that are locked. -/
theorem guarded_replicaLoopTxn {engine : Engine} {vram count : ℕ}
    {next : List Allocation → DbTxn} (hws : ∀ w ∈ ws, w.id ∈ L)
    (h : ∀ as : List Allocation, (∀ a ∈ as, a.worker.id ∈ L) → Guarded workerLocks L (next as)) :
    ∀ (is : List ℕ) {st : ReplicaLoop}, (∀ a ∈ st.allocations, a.worker.id ∈ L) →
      Guarded workerLocks L (replicaLoopTxn s view engine vram count ws is st next) := by
  intro is
  induction is with
  | nil => exact fun hst => h _ hst
  | cons i is ih =>
    intro st hst
    unfold replicaLoopTxn
    split
    · trivial
    · rename_i best hbest
      have hbestL : best.worker.id ∈ L := hws _ (pickCandidate_spec hbest).1
      refine guarded_ask_ports hbestL fun rows => guarded_orFail fun port _ => ih fun a ha => ?_
      rcases List.mem_append.mp ha with ha | ha
      · exact hst a ha
      · rw [List.mem_singleton.mp ha]
        exact hbestL

/-- The hosts of a group are among the workers that are locked. -/
theorem mem_of_groupHosts {engine : Engine} {vram n : ℕ} {hosts : Candidate × List Candidate}
    (h : groupHosts view engine vram n ws = .ok hosts) {c : Candidate}
    (hc : c ∈ hosts.1 :: hosts.2) : c.worker ∈ ws := by
  unfold groupHosts at h
  simp only at h
  split at h
  · cases h
  rename_i head others hchoose
  split at h
  · cases h
  obtain rfl := Except.ok.inj h
  obtain ⟨w, hw, hbest⟩ := List.mem_filterMap.mp (mem_of_mem_chooseHosts (hchoose ▸ hc))
  rw [(bestFittingGpu_spec hbest).1]
  exact hw

/-- A commit inserts rows on the workers that are locked, and nothing else a deploy reads. -/
theorem guarded_commitTxn {write : Db → Db}
    (htables : ∀ db, (write db).clusters = db.clusters ∧ (write db).workers = db.workers ∧
      (write db).models = db.models)
    (hrows : ∀ db, ∃ rows, (write db).instances = db.instances ++ rows ∧
      ∀ r ∈ rows, ∃ w ∈ L, r.workerId = some w) :
    Guarded workerLocks L (commitTxn write) := by
  intro db db' hwrite L' hdisjoint
  have hdb' : db' = write db := by
    simp only at hwrite
    split at hwrite
    · exact (Except.ok.inj hwrite).symm
    · cases hwrite
  subst hdb'
  obtain ⟨hclusters, hworkers, hmodels⟩ := htables db
  obtain ⟨rows, hinserted, hplaced⟩ := hrows db
  refine ⟨hclusters.symm, hworkers.symm, hmodels.symm, fun v hv => ?_⟩
  have hnone : rows.filter (fun i => i.workerId = some v ∧ i.portReserved = true) = [] := by
    rw [List.filter_eq_nil_iff]
    intro r hr hcond
    obtain ⟨w, hw, hplace⟩ := hplaced r hr
    have hvw : v = w := Option.some.inj ((of_decide_eq_true hcond).1.symm.trans hplace)
    exact hdisjoint v hv (hvw ▸ hw)
  unfold portInstances
  rw [hinserted, List.filter_append, hnone, List.append_nil]

theorem guarded_insertReplicas {row : Db → Deployment} {now : ℕ} {as : List Allocation}
    (h : ∀ a ∈ as, a.worker.id ∈ L) :
    Guarded workerLocks L (commitTxn fun db => addReplicas (db.addDeployment (row db)) (row db) now
      as) := by
  refine guarded_commitTxn (fun _ => ⟨rfl, rfl, rfl⟩) fun db => ⟨_, rfl, fun r hr => ?_⟩
  obtain ⟨k, hk, rfl⟩ := List.mem_mapIdx.mp hr
  exact ⟨_, h _ (List.getElem_mem hk), rfl⟩

theorem guarded_insertGroup {row : Db → Deployment} {now : ℕ} {as : List ParallelAllocation}
    (h : ∀ a ∈ as, a.worker.id ∈ L) :
    Guarded workerLocks L (commitTxn fun db => addGroup (db.addDeployment (row db)) (row db) now
      as) := by
  refine guarded_commitTxn (fun _ => ⟨rfl, rfl, rfl⟩) fun db => ⟨_, rfl, fun r hr => ?_⟩
  obtain ⟨k, hk, rfl⟩ := List.mem_mapIdx.mp hr
  exact ⟨_, h _ (List.getElem_mem hk), rfl⟩

theorem manualWorker_ok {found : Option Worker} {clusterId : Uuid} {gpuIndexes : List ℕ}
    {engine : Engine} {w : Worker} (h : manualWorker found clusterId gpuIndexes engine = .ok w) :
    found = some w := by
  unfold manualWorker at h
  cases found with
  | none => cases h
  | some v =>
    simp only at h
    split_ifs at h
    split at h
    · cases h
    split at h
    · cases h
    rw [Except.ok.inj h]

/-- **A deploy reads what it has locked**, and inserts rows only there. -/
theorem guarded_deployTxn (s : Settings) (req : DeployRequest × ℕ) :
    Guarded workerLocks ∅ (deployTxn s req) := by
  unfold deployTxn
  refine guarded_ask (fun db db' hagree => by rw [hagree.2.2.1]) fun db => ?_
  split
  · trivial
  refine guarded_ask (fun db db' hagree => by rw [hagree.1]) fun db' =>
    guarded_orFail fun model _ => ?_
  simp only
  split
  · -- one group
    refine guarded_connectedTxn fun ws L hws => ?_
    split
    · trivial
    refine guarded_snapshotTxn (fun view => guarded_orFail fun hosts hhosts => ?_) ws hws
    have hhostsL : ∀ c ∈ hosts.1 :: hosts.2, c.worker.id ∈ L :=
      fun c hc => hws _ (mem_of_groupHosts hhosts hc)
    refine guarded_ask_ports (hhostsL _ List.mem_cons_self) fun rows =>
      guarded_orFail fun _ _ => guarded_orFail fun _ _ => guarded_insertGroup fun a ha => ?_
    rcases List.mem_cons.mp ha with rfl | ha
    · exact hhostsL _ List.mem_cons_self
    · obtain ⟨k, hk, rfl⟩ := List.mem_mapIdx.mp ha
      exact hhostsL _ (List.mem_cons_of_mem _ (List.getElem_mem hk))
  split
  · -- one replica on the GPUs asked for
    refine guarded_selectForUpdate (fun db db' hworkers => by rw [hworkers]) fun found L hfound =>
      guarded_orFail fun worker hworker => ?_
    have hworkerL : worker.id ∈ L := hfound _ (List.mem_of_mem_head? (manualWorker_ok hworker))
    refine guarded_liveTxn hworkerL fun view => guarded_orFail fun _ _ =>
      guarded_ask_ports hworkerL fun rows => guarded_orFail fun _ _ =>
        guarded_insertReplicas fun a ha => ?_
    rw [List.mem_singleton.mp ha]
    exact hworkerL
  · refine guarded_connectedTxn fun ws L hws => ?_
    split
    · trivial
    exact guarded_snapshotTxn (fun view => guarded_replicaLoopTxn hws
      (fun as has => guarded_insertReplicas has) _ fun a ha => (List.not_mem_nil ha).elim) ws hws

end Guards

/-! ### Deploys lock in one order -/

section Order

variable {db : Db} {rank : Uuid → ℕ} {least : ℕ}

/-- The place of a worker among all workers, by name. -/
def workerRank (db : Db) (w : Uuid) : ℕ :=
  ((db.workers.insertionSort fun v w => v.name ≤ w.name).map (·.id)).idxOf w

theorem pairwise_idxOf {l : List Uuid} (hnd : l.Nodup) :
    l.Pairwise fun a b => l.idxOf a < l.idxOf b := by
  rw [List.pairwise_iff_getElem]
  intro i j hi hj hij
  rwa [hnd.idxOf_getElem, hnd.idxOf_getElem]

/-- The connected workers of a cluster come in the order of their places. -/
theorem pairwise_workerRank (hkeys : (db.workers.map (·.id)).Nodup) (clusterId : Uuid) :
    ((connectedWorkers db clusterId).map (·.id)).Pairwise
      fun v w => workerRank db v < workerRank db w := by
  have hsorted : ((db.workers.insertionSort fun v w => v.name ≤ w.name).map (·.id)).Nodup :=
    ((List.perm_insertionSort _ _).map _).nodup_iff.mpr hkeys
  refine List.Pairwise.sublist ?_ (pairwise_idxOf hsorted)
  unfold connectedWorkers
  rw [← List.filter_insertionSort]
  exact List.filter_sublist.map _

theorem ascending_orFail {α : Type} {r : Except ServerError α} {next : α → DbTxn}
    (h : ∀ a, Ascending db rank least (next a)) : Ascending db rank least (orFail r next) := by
  cases r with
  | error e => trivial
  | ok a => exact h a

theorem ascending_lockWorkers (p : Worker → Bool) :
    ∀ {ids : List Uuid} {least : ℕ} {next : List Worker → DbTxn},
      (∀ ws least, Ascending db rank least (next ws)) →
      ids.Pairwise (fun v w => rank v < rank w) → (∀ id ∈ ids, least ≤ rank id) →
      Ascending db rank least (lockWorkers p ids next) := by
  intro ids
  induction ids with
  | nil => exact fun h _ _ => h _ _
  | cons id ids ih =>
    intro least next h hsorted hleast
    rw [List.pairwise_cons] at hsorted
    exact ⟨hleast id List.mem_cons_self,
      ih (fun ws least => h _ least) hsorted.2 fun w hw => hsorted.1 w hw⟩

theorem ascending_liveTxn {next : Db → DbTxn} (h : ∀ view, Ascending db rank least (next view))
    (view : Db) (w : Uuid) : Ascending db rank least (liveTxn view w next) :=
  h _

theorem ascending_snapshotTxn {next : Db → DbTxn}
    (h : ∀ view, Ascending db rank least (next view)) :
    ∀ (ws : List Worker) (view : Db), Ascending db rank least (snapshotTxn view ws next) := by
  intro ws
  induction ws with
  | nil => exact fun view => h view
  | cons w ws ih => exact fun view => ih _

theorem ascending_replicaLoopTxn {s : Settings} {view : Db} {engine : Engine} {vram count : ℕ}
    {ws : List Worker} {next : List Allocation → DbTxn}
    (h : ∀ as, Ascending db rank least (next as)) :
    ∀ (is : List ℕ) (st : ReplicaLoop),
      Ascending db rank least (replicaLoopTxn s view engine vram count ws is st next) := by
  intro is
  induction is with
  | nil => exact fun st => h _
  | cons i is ih =>
    intro st
    unfold replicaLoopTxn
    split
    · trivial
    · exact ascending_orFail fun port => ih _

theorem ascending_connectedTxn (hkeys : (db.workers.map (·.id)).Nodup) {clusterId : Uuid}
    {next : List Worker → DbTxn} (h : ∀ ws least, Ascending db (workerRank db) least (next ws)) :
    Ascending db (workerRank db) 0 (connectedTxn clusterId next) :=
  ascending_lockWorkers _ h (pairwise_workerRank hkeys clusterId) fun _ _ => Nat.zero_le _

/-- **A deploy locks its workers by name.** -/
theorem ascending_deployTxn (hkeys : (db.workers.map (·.id)).Nodup) (s : Settings)
    (req : DeployRequest × ℕ) : Ascending db (workerRank db) 0 (deployTxn s req) := by
  unfold deployTxn
  rw [ascending_ask]
  split
  · trivial
  refine ascending_orFail fun model => ?_
  simp only
  split
  · refine ascending_connectedTxn hkeys fun ws least => ?_
    split
    · trivial
    refine ascending_snapshotTxn (fun view => ascending_orFail fun hosts => ?_) ws _
    refine ascending_ask.mpr (ascending_orFail fun _ => ascending_orFail fun _ => ?_)
    trivial
  split
  · rename_i workerId _ _
    -- A manual placement locks one worker.
    have hone : ((db.workers.filter (·.id = workerId)).map (·.id)).Pairwise
        fun v w => workerRank db v < workerRank db w := by
      have hnd : ((db.workers.filter (·.id = workerId)).map (·.id)).Nodup :=
        (List.filter_sublist.map _).nodup hkeys
      refine hnd.imp_of_mem fun hv hw hne => absurd ?_ hne
      obtain ⟨v', hv', rfl⟩ := List.mem_map.mp hv
      obtain ⟨w', hw', rfl⟩ := List.mem_map.mp hw
      have hvid := (List.mem_filter.mp hv').2
      have hwid := (List.mem_filter.mp hw').2
      rw [decide_eq_true_eq] at hvid hwid
      exact hvid.trans hwid.symm
    refine ascending_lockWorkers _ (fun ws least => ?_) hone fun _ _ => Nat.zero_le _
    refine ascending_orFail fun worker => ascending_liveTxn (fun view => ?_) _ _
    refine ascending_orFail fun _ => ascending_ask.mpr (ascending_orFail fun _ => ?_)
    trivial
  · refine ascending_connectedTxn hkeys fun ws least => ?_
    split
    · trivial
    refine ascending_snapshotTxn (fun view => ascending_replicaLoopTxn (fun as => ?_) _ _) ws _
    trivial

end Order

/-! ### Deploys one after the other -/

section Turn

variable {s : Settings} {db db' : Db}

/-- Deploys one after the other: the tables, and the answers.  Every deploy that has placed its
rows commits them. -/
def deploysInTurn (s : Settings) (db : Db) :
    List (DeployRequest × ℕ) → Db × List ((DeployRequest × ℕ) × Option ServerError)
  | [] => (db, [])
  | req :: reqs =>
    let first := conclude db (deploy s db req.1 req.2)
    let rest := deploysInTurn s first.1 reqs
    (rest.1, (req, first.2) :: rest.2)

theorem workers_deploy {body : DeployRequest} {now : ℕ} (h : deploy s db body now = .ok db') :
    db'.workers = db.workers := by
  obtain ⟨-, -, ⟨-, -, -, rfl⟩ | ⟨-, -, -, rfl⟩⟩ := deploy_ok h <;> rfl

/-- The ranks of a new group are different. -/
theorem rankIndexOk_addGroup {d : Deployment} {now : ℕ} {as : List ParallelAllocation}
    (hranks : (as.map (·.nodeRank)).Nodup) (h : db.RankIndexOk) :
    (addGroup db d now as).RankIndexOk := by
  unfold Db.RankIndexOk
  rw [instances_addGroup, List.pairwise_append]
  refine ⟨h, ?_, ?_⟩
  · have hcolumn : (groupRows db d now as).map (·.nodeRank) = as.map fun a => some a.nodeRank :=
      map_groupRows _ _ fun _ _ _ _ => rfl
    have hpair : ((groupRows db d now as).map (·.nodeRank)).Nodup := by
      rw [hcolumn]
      have hsome := hranks.map (Option.some_injective _)
      rwa [List.map_map] at hsome
    exact (List.pairwise_map.mp hpair).imp fun hne hclash => hne hclash.2.2.1
  · rintro i hi r hr ⟨hgroup, -⟩
    obtain ⟨a, -, k, rfl⟩ := mem_groupRows hr
    exact absurd (Db.groupId_lt_nextUuid hi hgroup) (lt_irrefl _)

/-- Rows that are in no group break no group. -/
theorem rankIndexOk_addReplicas {d : Deployment} {now : ℕ} {as : List Allocation}
    (h : db.RankIndexOk) : (addReplicas db d now as).RankIndexOk := by
  refine List.pairwise_append.mpr ⟨h, ?_, ?_⟩
  · refine List.pairwise_of_forall_mem_list fun i hi j _ hclash => hclash.2.1 ?_
    obtain ⟨k, hk, rfl⟩ := List.mem_mapIdx.mp hi
    rfl
  · rintro i - j hj ⟨hgroup, hsome, -⟩
    obtain ⟨k, hk, rfl⟩ := List.mem_mapIdx.mp hj
    exact hsome hgroup

/-- **A deploy at once never trips a constraint.** -/
theorem violation_deploy (hport : 0 ∉ s.instancePortRange) (hkeys : (db.workers.map (·.id)).Nodup)
    (hvalid : db.violation = none) {body : DeployRequest} {now : ℕ}
    (h : deploy s db body now = .ok db') : db'.violation = none := by
  rw [Db.violation_eq_none_iff] at hvalid ⊢
  obtain ⟨hports, hranks, hminmax, hhosts, hnames, hgpus⟩ := hvalid
  have hworkers : db'.workers = db.workers := workers_deploy h
  refine ⟨?_, ?_, ?_, ?_, ?_, ?_⟩
  · obtain ⟨rows, hplace⟩ := placeMove_deploy hkeys h
    have hold : (db.addDeployment (deploymentRow body now db.nextUuid)).PortIndexOk := hports
    exact portIndexOk_place hport hold hplace.new hplace.inserted
  · obtain ⟨model, -, ⟨-, as, halloc, rfl⟩ | ⟨-, as, -, rfl⟩⟩ := deploy_ok h
    · refine rankIndexOk_addGroup ?_ hranks
      rw [ranks_allocateParallelReplicas hkeys body.nodes_bounds.1 halloc]
      exact List.nodup_range
    · exact rankIndexOk_addReplicas hranks
  · have hdeps : db'.deployments = db.deployments ++ [deploymentRow body now db.nextUuid] := by
      obtain ⟨-, -, ⟨-, -, -, rfl⟩ | ⟨-, -, -, rfl⟩⟩ := deploy_ok h <;> rfl
    intro d hd
    rw [hdeps] at hd
    rcases List.mem_append.mp hd with hd | hd
    · exact hminmax d hd
    · obtain rfl := List.mem_singleton.mp hd
      exact ⟨body.replicas_bounds.1, le_rfl, body.replicas_bounds.2⟩
  · unfold Db.HostnamesOk
    rwa [hworkers]
  · unfold Db.NamesOk
    rwa [hworkers]
  · unfold Db.GpuIndexesOk
    rwa [hworkers]

/-- What deploys keep: valid tables, and GPUs that are not over-committed. -/
def Deployable (env : Env) (db : Db) : Prop := db.violation = none ∧ VramInv env db

theorem deployable_deploy {env : Env} (hport : 0 ∉ env.settings.instancePortRange)
    (h : Deployable env db) (req : DeployRequest × ℕ) :
    Deployable env (conclude db (deploy env.settings db req.1 req.2)).1 := by
  cases hd : deploy env.settings db req.1 req.2 with
  | error e => exact h
  | ok db' =>
    refine ⟨violation_deploy hport h.2.keyed.workers h.1 hd, ?_⟩
    exact (moves_deploy h.2.keyed.workers hd).preserves (fun _ _ => vramInv_of_move) h.2

/-- The commit of a deploy that is not disturbed goes through. -/
theorem run_deployTxn_valid {env : Env} (hport : 0 ∉ env.settings.instancePortRange)
    (h : Deployable env db) (req : DeployRequest × ℕ) :
    (deployTxn env.settings req).run db = deploy env.settings db req.1 req.2 := by
  rw [run_deployTxn h.2.keyed.workers]
  unfold deployNow
  cases hd : deploy env.settings db req.1 req.2 with
  | error e => rfl
  | ok db' =>
    simp only
    rw [violation_deploy hport h.2.keyed.workers h.1 hd]

theorem serially_deployTxn {env : Env} (hport : 0 ∉ env.settings.instancePortRange)
    (reqs : List (DeployRequest × ℕ)) : ∀ {db : Db}, Deployable env db →
      serially (deployTxn env.settings) db reqs = deploysInTurn env.settings db reqs := by
  induction reqs with
  | nil => exact fun _ => rfl
  | cons req reqs ih =>
    intro db h
    rw [serially, deploysInTurn, run_deployTxn_valid hport h, ih (deployable_deploy hport h req)]

end Turn

/-! ### The main result -/

/-- **Deploys at the same time do what they do one after the other.**  However their statements are
interleaved on PostgreSQL, the tables and the answers are those of the same deploys in the order in
which they have ended, each at once and none refused at its commit; no GPU is over-committed; and
some deploy can always go on. -/
theorem deploys_serialise (env : Env) (hport : 0 ∉ env.settings.instancePortRange) (db : Db)
    (hvalid : db.violation = none) (hinv : VramInv env db)
    (es : List (Event (DeployRequest × ℕ))) :
    let c := exec (System.step true (deployTxn env.settings)) ⟨db, [], [], []⟩ es
    deploysInTurn env.settings db (c.ended.map (·.1)) = (c.shared, c.ended) ∧
      (∀ w ∈ c.shared.workers, ∀ g ∈ w.gpus, committedMb c.shared w.id g.index ≤ g.vramMb) ∧
      ∀ i x t, c.Active i x t → ∃ j y u, c.Active j y u ∧ ¬ c.Waits j := by
  intro c
  have hc : Inv (deployTxn env.settings) db c := inv_exec (guarded_deployTxn env.settings) db es
  have hserial := hc.serial
  have hkept : Deployable env (serially (deployTxn env.settings) db (c.ended.map (·.1))).1 :=
    serially_keeps (Deployable env) (fun db req h => by
      rw [run_deployTxn_valid hport h]
      exact deployable_deploy hport h req) _ ⟨hvalid, hinv⟩
  rw [hserial] at hkept
  refine ⟨?_, fun w hw g hg => ?_, fun i x t h => ?_⟩
  · rwa [serially_deployTxn hport _ ⟨hvalid, hinv⟩] at hserial
  · exact le_trans (committedMb_le_usage _ _ _)
      (hkept.2.fits w.id g (hkept.2.known w hw g hg))
  · exact exists_unblocked hc
      (fun req => ascending_deployTxn hkept.2.keyed.workers env.settings req) h

/-- Two workers, with 10 MB and 20 MB. -/
def raceEnv : Env :=
  { sampleEnv with
    gpuList := fun w => [⟨0, .nvidia, if w = 3 then 20 else 10⟩]
    gpuList_nodup := fun _ => List.nodup_singleton _ }

def raceWorker (id : Uuid) (name : String) : Worker where
  id := id
  clusterId := 1
  name := name
  hostname := name
  state := .connected
  tokenHash := ""
  gpus := raceEnv.gpuList id

def raceDb : Db where
  clusters := [⟨1, "default"⟩]
  workers := [raceWorker 2 "a", raceWorker 3 "b"]
  models := [⟨4, "small", "llm", 8, false, [.vllm]⟩, ⟨5, "large", "llm", 15, false, [.vllm]⟩]
  lastUuid := 5

/-- Two replicas of the small model and one of the large one, statement by statement in turn. -/
def raceRun : List (Event (DeployRequest × ℕ)) :=
  [.arrive (⟨4, 1, .vllm, .latency, 2, .auto, 1, .single, bounds_two, bounds_one⟩, 7),
    .arrive (⟨5, 1, .vllm, .latency, 1, .auto, 1, .single, bounds_one, bounds_one⟩, 8)] ++
  (List.replicate 25 [.advance 0, .advance 1]).flatten

theorem raceDb_inv : VramInv raceEnv raceDb where
  keyed := ⟨by decide, by decide, by decide, by decide⟩
  known := by decide
  fits _ _ _ := Nat.zero_le _

/-- The first deploy waits for nothing, and the second finds no room. -/
theorem deploys_serialise_race :
    let c := exec (System.step true (deployTxn raceEnv.settings)) ⟨raceDb, [], [], []⟩ raceRun
    (c.ended.length = 2 ∧ c.shared.instances.length = 2) ∧
      deploysInTurn raceEnv.settings raceDb (c.ended.map (·.1)) = (c.shared, c.ended) ∧
      (∀ w ∈ c.shared.workers, ∀ g ∈ w.gpus, committedMb c.shared w.id g.index ≤ g.vramMb) ∧
      ∀ i x t, c.Active i x t → ∃ j y u, c.Active j y u ∧ ¬ c.Waits j :=
  ⟨by decide +kernel, deploys_serialise raceEnv (by decide) raceDb (by decide +kernel) raceDb_inv
    raceRun⟩

/-- **Without locks deploys over-commit.**  After the same statements on SQLite, 23 MB are placed on
the 20 of the second worker; the two placements have different ports, so that no constraint
stops them. -/
theorem unlocked_deploys_overcommit :
    ¬ ∀ (env : Env) (db : Db), db.violation = none → VramInv env db →
      ∀ es : List (Event (DeployRequest × ℕ)),
        let c := exec (System.step false (deployTxn env.settings)) ⟨db, [], [], []⟩ es
        ∀ w ∈ c.shared.workers, ∀ g ∈ w.gpus, committedMb c.shared w.id g.index ≤ g.vramMb := by
  intro h
  have hrace := h raceEnv raceDb (by decide +kernel) raceDb_inv raceRun
  revert hrace
  decide +kernel

end Inferna
