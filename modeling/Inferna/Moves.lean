import Inferna.Placement
import Inferna.World
import Inferna.Errors
import Mathlib.Logic.Relation

/-!
# What a step does to the tables

Every step of the system but a restart and a Sync changes the instance table by a
sequence of four moves: rows are stopped, a placement of an allocator is
inserted, rows go, or the watchdog marks rows as errored.  The invariants of the
table are proved for each move once, and reach every request through this module.

## Main definitions

* `NewRows` — rows that an allocator placed, with fresh identifiers.
* `ServerMove` — one move.
* `Moves` — a sequence of moves.

## Main results

* `moves_candidate` — what a request would commit is reached by moves.
* `moves_tick` — so is everything a pass of the autoscaler commits or tries to.
* `next_db_cases` — **the classification**: a step restarts a row, stores the
  reports of a Sync, or makes moves.
-/

namespace Inferna

open Relation

/-! ### Moves -/

/-- Where a row was placed. -/
def Instance.place (i : Instance) : Option Uuid × List ℕ × Option ℕ :=
  (i.workerId, i.gpuIndexes, i.port)

/-- The same for a slot. -/
def Slot.place (sl : Slot) : Option Uuid × List ℕ × Option ℕ :=
  (some sl.workerId, sl.gpuIndexes, sl.port)

/-- The rows are a placement of an allocator under fresh identifiers. -/
structure NewRows (s : Settings) (db : Db) (rows : List Instance) : Prop where
  placed : ∃ vram slots, Placed s db vram slots ∧ rows.map Instance.place = slots.map Slot.place ∧
    ∀ r ∈ rows, db.vramOf r = vram
  fresh : ∀ r ∈ rows, db.lastUuid < r.id ∧ ∀ i ∈ db.instances, i.id < r.id
  nodup : (rows.map (·.id)).Nodup
  scheduled : ∀ r ∈ rows, r.state = .scheduled ∧ r.desiredState = .running

/-- The workers keep their ids apart and gain no GPU. -/
def WorkersKept (ws ws' : List Worker) : Prop :=
  ((ws.map (·.id)).Nodup → (ws'.map (·.id)).Nodup) ∧
    ∀ v ∈ ws', ∀ g ∈ v.gpus, ∃ u ∈ ws, u.id = v.id ∧ g ∈ u.gpus

theorem WorkersKept.refl (ws : List Worker) : WorkersKept ws ws :=
  ⟨id, fun v hv _ hg => ⟨v, hv, rfl, hg⟩⟩

/-- Writing columns other than the id and the GPUs keeps the workers. -/
theorem WorkersKept.map {ws : List Worker} {f : Worker → Worker}
    (hid : ∀ w, (f w).id = w.id) (hgpus : ∀ w, (f w).gpus = w.gpus) :
    WorkersKept ws (ws.map f) := by
  constructor
  · intro hnd
    rw [List.map_map]
    simpa [Function.comp_def, hid] using hnd
  · intro v hv g hg
    obtain ⟨u, hu, rfl⟩ := List.mem_map.mp hv
    exact ⟨u, hu, (hid u).symm, by rwa [hgpus] at hg⟩

/-- The placement `rows` is inserted. -/
structure PlaceMove (s : Settings) (db db' : Db) (rows : List Instance) : Prop where
  new : NewRows s db rows
  inserted : db'.instances = db.instances ++ rows
  workers : db'.workers = db.workers
  models : db'.models = db.models
  deployments : db'.deployments = db.deployments
  uuid : db.lastUuid ≤ db'.lastUuid
  bound : ∀ r ∈ rows, r.id ≤ db'.lastUuid

/-- One move of the server on the tables. -/
inductive ServerMove (s : Settings) : Db → Db → Prop
  /-- Rows are stopped. -/
  | stop (db : Db) (p : Instance → Bool) : ServerMove s db (db.updateWhere p Instance.stop)
  /-- A placement is inserted. -/
  | place {db db' : Db} {rows : List Instance} (h : PlaceMove s db db' rows) : ServerMove s db db'
  /-- Rows go, or only other tables change. -/
  | tables {db db' : Db} (hrows : db'.instances.Sublist db.instances)
      (hworkers : WorkersKept db.workers db'.workers) (hmodels : db'.models = db.models)
      (hdeps : (db.deployments.map (·.id)).Nodup → (db'.deployments.map (·.id)).Nodup)
      (huuid : db.lastUuid ≤ db'.lastUuid) : ServerMove s db db'
  /-- The watchdog marks the rows of stale workers. -/
  | disconnect (db : Db) (now : ℕ) : ServerMove s db (markDisconnected db now)

/-- A sequence of moves. -/
abbrev Moves (s : Settings) : Db → Db → Prop := ReflTransGen (ServerMove s)

/-- A sequence of placements. -/
abbrev Placements (s : Settings) : Db → Db → Prop :=
  ReflTransGen fun db db' => ∃ rows, PlaceMove s db db' rows

theorem Placements.moves {s : Settings} {db db' : Db} (h : Placements s db db') :
    Moves s db db' := by
  induction h with
  | refl => exact .refl
  | tail _ hplace ih =>
    obtain ⟨rows, hplace⟩ := hplace
    exact .tail ih (.place hplace)

/-- A property that every move keeps is kept by a sequence of moves. -/
theorem Moves.preserves {s : Settings} {P : Db → Prop}
    (hmove : ∀ db db', ServerMove s db db' → P db → P db') {db db' : Db} (h : Moves s db db')
    (hP : P db) : P db' := by
  induction h with
  | refl => exact hP
  | tail _ hstep ih => exact hmove _ _ hstep ih

/-! ### Rows from placements -/

/-- The contract reads the workers, the rows and the models only. -/
theorem Placed.congr {s : Settings} {db db' : Db} {vram : ℕ} {slots : List Slot}
    (h : Placed s db vram slots) (hworkers : db'.workers = db.workers)
    (hrows : db'.instances = db.instances) (hmodels : db'.models = db.models) :
    Placed s db' vram slots := by
  have husage : ∀ w index, usage db' w index = usage db w index := by
    intro w index
    unfold usage
    rw [getD_gpuUsage, getD_gpuUsage]
    simp only [liveInstances, Db.vramOf, Db.findModel, hrows, hmodels]
  refine ⟨?_, ?_, h.inRange, ?_, h.apart⟩
  · rw [hworkers]
    exact h.known
  · intro w index hpos
    rw [hworkers, husage]
    exact h.roomy w index hpos
  · unfold portInstances
    rw [hrows]
    exact h.unreserved

/-- Rows with consecutive identifiers have different ones. -/
theorem nodup_mapIdx_id (n : ℕ) {α : Type} (f : ℕ → α → Instance) (hid : ∀ k a, (f k a).id = n + k)
    (as : List α) : ((as.mapIdx f).map (·.id)).Nodup := by
  rw [List.nodup_iff_pairwise_ne, List.pairwise_iff_getElem]
  intro j k hj hk hlt
  simp only [List.getElem_map, List.getElem_mapIdx, hid]
  exact Nat.ne_of_lt (Nat.add_lt_add_left hlt n)

/-- The rows of a placement, made one by one with consecutive identifiers. -/
theorem newRows_mapIdx {s : Settings} {db : Db} {vram n : ℕ} {α : Type} (slot : α → Slot)
    (f : ℕ → α → Instance) (as : List α) (hplaced : Placed s db vram (as.map slot))
    (hn : db.nextUuid ≤ n) (hid : ∀ k a, (f k a).id = n + k)
    (hplace : ∀ k a, (f k a).place = (slot a).place) (hvram : ∀ k a, db.vramOf (f k a) = vram)
    (hstate : ∀ k a, (f k a).state = .scheduled ∧ (f k a).desiredState = .running) :
    NewRows s db (as.mapIdx f) := by
  have hmem : ∀ r ∈ as.mapIdx f, ∃ k a, r = f k a := by
    intro r hr
    obtain ⟨k, hk, rfl⟩ := List.mem_mapIdx.mp hr
    exact ⟨k, as[k], rfl⟩
  refine ⟨⟨vram, as.map slot, hplaced, ?_, ?_⟩, ?_, nodup_mapIdx_id n f hid as, ?_⟩
  · rw [List.mapIdx_eq_zipIdx_map, List.map_map, List.map_map]
    conv_rhs => rw [← List.zipIdx_map_fst 0 as, List.map_map]
    apply List.map_congr_left
    intro x _
    exact hplace x.2 x.1
  · intro r hr
    obtain ⟨k, a, rfl⟩ := hmem r hr
    exact hvram k a
  · intro r hr
    obtain ⟨k, a, rfl⟩ := hmem r hr
    rw [hid]
    have hge : db.nextUuid ≤ n + k := le_trans hn (Nat.le_add_right n k)
    exact ⟨lt_of_lt_of_le db.lastUuid_lt_nextUuid hge,
      fun i hi => lt_of_lt_of_le (Db.id_lt_nextUuid hi) hge⟩
  · intro r hr
    obtain ⟨k, a, rfl⟩ := hmem r hr
    exact hstate k a

/-- The identifiers of consecutive rows stay under the next counter. -/
theorem id_le_of_mem_mapIdx {n m : ℕ} {α : Type} {f : ℕ → α → Instance}
    (hid : ∀ k a, (f k a).id = n + k) {as : List α} (hm : n + as.length ≤ m + 1) :
    ∀ r ∈ as.mapIdx f, r.id ≤ m := by
  intro r hr
  obtain ⟨k, hk, rfl⟩ := List.mem_mapIdx.mp hr
  rw [hid]
  exact Nat.le_of_lt_succ (lt_of_lt_of_le (Nat.add_lt_add_left hk n) hm)

theorem placeMove_addReplicas {s : Settings} {db : Db} {d : Deployment} {now vram : ℕ}
    {allocations : List Allocation}
    (hplaced : Placed s db vram (allocations.map Allocation.slot))
    (hvram : ((db.findModel d.modelId).map (·.vramRequiredMb)).getD 0 = vram) :
    ∃ rows, PlaceMove s db (addReplicas db d now allocations) rows := by
  refine ⟨_, newRows_mapIdx Allocation.slot (fun k a => replicaRow d now (db.nextUuid + k) a)
    allocations hplaced le_rfl (fun _ _ => rfl) (fun _ _ => rfl) (fun _ _ => hvram)
    (fun _ _ => ⟨rfl, rfl⟩), rfl, rfl, rfl, rfl, ?_, ?_⟩
  · exact le_trans db.lastUuid_lt_nextUuid.le (Nat.le_add_right _ _)
  · exact id_le_of_mem_mapIdx (fun _ _ => rfl) (Nat.le_succ _)

theorem placeMove_addGroup {s : Settings} {db : Db} {d : Deployment} {now vram : ℕ}
    {allocations : List ParallelAllocation}
    (hplaced : Placed s db vram (allocations.map ParallelAllocation.slot))
    (hvram : ((db.findModel d.modelId).map (·.vramRequiredMb)).getD 0 = vram) :
    ∃ rows, PlaceMove s db (addGroup db d now allocations) rows := by
  refine ⟨_, newRows_mapIdx ParallelAllocation.slot (fun k a =>
      rankRow d now db.nextUuid (rendezvousText allocations) (db.nextUuid + 1 + k) a)
    allocations hplaced (Nat.le_succ _) (fun _ _ => rfl) (fun _ _ => rfl) (fun _ _ => hvram)
    (fun _ _ => ⟨rfl, rfl⟩), rfl, rfl, rfl, rfl, ?_, ?_⟩
  · exact le_trans db.lastUuid_lt_nextUuid.le (le_trans (Nat.le_succ _) (Nat.le_add_right _ _))
  · exact id_le_of_mem_mapIdx (fun _ _ => rfl) (Nat.le_succ _)

/-! ### Scaling and deploying -/

/-- Writing a deployment row leaves the ids of the rows alone. -/
theorem ids_writeDeployment (db : Db) (obj : DeploymentObj) (now : ℕ) :
    (db.writeDeployment obj now).deployments.map (·.id) = db.deployments.map (·.id) := by
  unfold Db.writeDeployment
  rw [List.map_map]
  apply List.map_congr_left
  intro row _
  simp only [Function.comp_apply]
  split <;> rfl

theorem move_writeDeployment (s : Settings) (db : Db) (obj : DeploymentObj) (now : ℕ) :
    ServerMove s db (db.writeDeployment obj now) := by
  refine .tables (List.Sublist.refl _) (WorkersKept.refl _) rfl ?_ le_rfl
  rw [ids_writeDeployment]
  exact id

theorem move_stopUnits (s : Settings) (db : Db) (units : List (List Instance)) :
    ServerMove s db (stopUnits db units) :=
  .stop db _

/-- Scaling out is a sequence of placements, those before a failing allocation included. -/
theorem placements_scaleOut (s : Settings) (d : Deployment) (now n : ℕ) (used : List (Uuid × ℕ))
    (occupied : List Uuid) {db : Db} (hkeys : (db.workers.map (·.id)).Nodup) :
    Placements s db (scaleOut s d now n used occupied db).1 := by
  -- the workers and the models stay as they are
  refine (scaleOut_invariant (fun db' => Placements s db db' ∧ db'.workers = db.workers ∧
    db'.models = db.models) _ rfl ⟨.refl, rfl, rfl⟩ ?_ n used ?_ occupied).1
  · rintro - db' occupied' allocations ⟨hplaced, hworkers, hmodels⟩ halloc
    have hmove : ∃ rows, PlaceMove s db' (addGroup db' d now allocations) rows := by
      refine placeMove_addGroup (placed_allocateParallelReplicas (hworkers ▸ hkeys) halloc) ?_
      unfold Db.findModel
      rw [hmodels]
    exact ⟨.tail hplaced hmove, hworkers, hmodels⟩
  · intro allocations halloc
    exact ⟨.single (placeMove_addReplicas (placed_allocateReplicas halloc) rfl), rfl, rfl⟩

theorem moves_moveReplicas (s : Settings) (d : Deployment) (target now : ℕ) {db : Db}
    (hkeys : (db.workers.map (·.id)).Nodup) : Moves s db (moveReplicas s d target now db).1 := by
  unfold moveReplicas
  simp only
  refine .trans (.single (move_stopUnits s db (brokenUnits d db))) ?_
  split
  · refine Placements.moves (placements_scaleOut s d now _ _ _ ?_)
    exact hkeys
  · exact .single (move_stopUnits s _ _)

/-- **Scaling makes moves**, also when it fails half way. -/
theorem moves_applyScale (s : Settings) (obj : DeploymentObj) (replicas : ℕ) (setRange : Bool)
    (now : ℕ) {db : Db} (hkeys : (db.workers.map (·.id)).Nodup) :
    Moves s db (applyScale s obj replicas setRange now db).1 := by
  have hmoves := moves_moveReplicas s obj.loaded (scaleTarget obj replicas setRange) now hkeys
  rcases applyScale_cases s obj replicas setRange now db with ⟨e, -, heq⟩ | ⟨-, heq⟩
  · rw [heq]
    exact hmoves
  · rw [heq]
    exact .tail hmoves (move_writeDeployment s _ _ now)

theorem moves_scaleCandidate {s : Settings} {obj : DeploymentObj} {replicas : ℕ} {setRange : Bool}
    {now : ℕ} {db db' : Db} (hkeys : (db.workers.map (·.id)).Nodup)
    (h : scaleCandidate s db obj replicas setRange now = .ok db') : Moves s db db' := by
  have hmoves := moves_applyScale s obj replicas setRange now hkeys
  rw [scaleCandidate_ok h] at hmoves
  exact hmoves

theorem move_addDeployment (s : Settings) (db : Db) {d : Deployment} (hid : d.id = db.nextUuid) :
    ServerMove s db (db.addDeployment d) := by
  refine .tables (List.Sublist.refl _) (WorkersKept.refl _) rfl ?_ db.lastUuid_lt_nextUuid.le
  intro hnd
  unfold Db.addDeployment
  rw [List.map_append, List.nodup_append]
  refine ⟨hnd, List.nodup_singleton _, ?_⟩
  intro a ha b hb
  obtain ⟨e, he, rfl⟩ := List.mem_map.mp ha
  rw [List.map_singleton, List.mem_singleton] at hb
  subst hb
  rw [hid]
  exact Nat.ne_of_lt (Db.deploymentId_lt_nextUuid he)

theorem findModel_of_deployGuard {db : Db} {body : DeployRequest} {model : Model}
    (h : deployGuard db body = .ok model) : db.findModel body.modelId = some model := by
  unfold deployGuard at h
  split at h
  · cases h
  rename_i m hm
  split_ifs at h
  injection h with h
  rw [hm, h]

theorem placed_deployAllocations {s : Settings} {db : Db} {body : DeployRequest} {vram : ℕ}
    {allocations : List Allocation} (h : deployAllocations s db body vram = .ok allocations) :
    Placed s db vram (allocations.map Allocation.slot) := by
  unfold deployAllocations at h
  split at h
  · rename_i workerId gpuIndexes _
    cases hm : allocateManual s db body.clusterId workerId gpuIndexes vram body.engine with
    | error e => rw [hm] at h; cases h
    | ok a =>
      rw [hm] at h
      injection h with h
      subst h
      exact placed_allocateManual hm
  · exact placed_allocateReplicas h

/-- Deploying inserts the deployment row and one placement. -/
theorem placeMove_deploy {s : Settings} {db db' : Db} {body : DeployRequest} {now : ℕ}
    (hkeys : (db.workers.map (·.id)).Nodup) (h : deploy s db body now = .ok db') :
    ∃ rows, PlaceMove s (db.addDeployment (deploymentRow body now db.nextUuid)) db' rows := by
  obtain ⟨model, hguard, hrows⟩ := deploy_ok h
  have hvram : ((db.findModel body.modelId).map (·.vramRequiredMb)).getD 0 =
      model.vramRequiredMb := by
    rw [findModel_of_deployGuard hguard]
    rfl
  rcases hrows with ⟨-, allocations, halloc, rfl⟩ | ⟨-, allocations, halloc, rfl⟩
  · have hplaced := placed_allocateParallelReplicas hkeys halloc
    exact placeMove_addGroup (hplaced.congr rfl rfl rfl) hvram
  · have hplaced := placed_deployAllocations halloc
    exact placeMove_addReplicas (hplaced.congr rfl rfl rfl) hvram

/-- **Deploying makes moves.** -/
theorem moves_deploy {s : Settings} {db db' : Db} {body : DeployRequest} {now : ℕ}
    (hkeys : (db.workers.map (·.id)).Nodup) (h : deploy s db body now = .ok db') :
    Moves s db db' := by
  obtain ⟨rows, hplace⟩ := placeMove_deploy hkeys h
  exact .tail (.single (move_addDeployment s db rfl)) (.place hplace)

/-! ### The other requests -/

theorem moves_stopInstance {s : Settings} {db db' : Db} {id : Uuid}
    (h : stopInstance db id = .ok db') : Moves s db db' := by
  rcases stopInstance_ok h with rfl | rfl
  · exact .single (.stop db _)
  · exact .refl

theorem move_dropDeployment (s : Settings) (db : Db) (id : Uuid) :
    ServerMove s db (db.dropDeployment id) :=
  .tables List.filter_sublist (WorkersKept.refl _) rfl
    (List.Sublist.map _ List.filter_sublist).nodup le_rfl

theorem moves_deleteInstance {s : Settings} {db db' : Db} {id : Uuid}
    (h : deleteInstance db id = .ok db') : Moves s db db' := by
  obtain ⟨i, -, rfl | rfl⟩ := deleteInstance_ok h
  · exact .single (move_dropDeployment s db _)
  · exact .single (.tables List.filter_sublist (WorkersKept.refl _) rfl (fun hnd => hnd) le_rfl)

theorem moves_deleteDeployment {s : Settings} {db db' : Db} {id : Uuid}
    (h : deleteDeployment db id = .ok db') : Moves s db db' := by
  obtain rfl := deleteDeployment_ok h
  exact .single (move_dropDeployment s db _)

theorem moves_registerWorker {s : Settings} {sha : String → String}
    {validate : String → Except String String} {db db' : Db} {req : RegisterRequest}
    {token : String} {now : ℕ} {w : Uuid}
    (h : registerWorker sha validate s db req token now = .ok (db', w)) : Moves s db db' := by
  obtain ⟨cluster, address, ⟨-, -, rfl⟩ | ⟨v, -, -, rfl⟩⟩ := registerWorker_ok h
  · -- a new row, under a fresh id and without GPUs
    refine .single (.tables (List.Sublist.refl _) ⟨?_, ?_⟩ rfl id db.lastUuid_lt_nextUuid.le)
    · intro hnd
      rw [List.map_append, List.nodup_append]
      refine ⟨hnd, List.nodup_singleton _, ?_⟩
      intro a ha b hb
      rw [List.map_singleton, List.mem_singleton] at hb
      subst hb
      have hlt : a < db.nextUuid := Db.lt_nextUuid_of_mem (by
        simp only [Db.uuids, List.mem_append]
        exact Or.inl (Or.inl (Or.inl ha)))
      exact Nat.ne_of_lt hlt
    · intro v hv g hg
      rw [List.mem_append, List.mem_singleton] at hv
      rcases hv with hv | rfl
      · exact ⟨v, hv, rfl, hg⟩
      · exact absurd hg List.not_mem_nil
  · refine .single (.tables (List.Sublist.refl _) (WorkersKept.map ?_ ?_) rfl id le_rfl)
    · intro v
      split <;> rfl
    · intro v
      split <;> rfl

theorem deleteInstance_subset {db db' : Db} {id : Uuid} (h : deleteInstance db id = .ok db') :
    db'.instances ⊆ db.instances := by
  obtain ⟨i, -, rfl | rfl⟩ := deleteInstance_ok h
  · exact List.filter_subset_self _
  · exact List.filter_subset_self _

theorem deleteDeployment_subset {db db' : Db} {id : Uuid} (h : deleteDeployment db id = .ok db') :
    db'.instances ⊆ db.instances := by
  obtain rfl := deleteDeployment_ok h
  exact List.filter_subset_self _

/-- A registration is stored whole, or changes nothing. -/
theorem register_cases (env : Env) (wd : World) (req : RegisterRequest) (token : String) (now : ℕ) :
    wd.next env (.register req token now) = wd ∨ ∃ db' w,
      registerWorker env.sha256Hex env.validateAddress env.settings wd.db req token now =
        .ok (db', w) ∧ db'.violation = none ∧ wd.next env (.register req token now) =
          { wd with db := db', tokens := Function.update wd.tokens w token } := by
  unfold World.next World.step World.registerStep
  simp only
  split
  · exact Or.inl rfl
  rename_i db' w hreg
  split
  · exact Or.inl rfl
  · rename_i hv
    exact Or.inr ⟨db', w, hreg, hv, rfl⟩

/-- A registration leaves the instances and the deployments alone. -/
theorem tables_register (env : Env) (wd : World) (req : RegisterRequest) (token : String)
    (now : ℕ) : (wd.next env (.register req token now)).db.instances = wd.db.instances ∧
      (wd.next env (.register req token now)).db.deployments = wd.db.deployments := by
  rcases register_cases env wd req token now with heq | ⟨db', w, hreg, -, heq⟩
  · rw [heq]
    exact ⟨rfl, rfl⟩
  · rw [heq]
    obtain ⟨cluster, address, ⟨-, -, rfl⟩ | ⟨v, -, -, rfl⟩⟩ := registerWorker_ok hreg
    · exact ⟨rfl, rfl⟩
    · exact ⟨rfl, rfl⟩

/-- The requests that are moves: every one but a restart. -/
def Step.isRestart : Step → Bool
  | .restart _ => true
  | _ => false

/-- **What a request would commit is reached by moves**, a restart apart. -/
theorem moves_candidate {env : Env} {db db' : Db} {a : Step}
    (hkeys : (db.workers.map (·.id)).Nodup) (ha : a.isRestart = false)
    (h : World.candidate env db a = some (.ok db')) : Moves env.settings db db' := by
  cases a with
  | deploy body now => exact moves_deploy hkeys (Option.some.inj h)
  | scale id body now =>
    obtain ⟨d, -, hok⟩ := scaleDeployment_ok (Option.some.inj h)
    exact moves_scaleCandidate hkeys hok
  | setRange id body now =>
    obtain ⟨d, -, hok⟩ := setDeploymentRange_ok (Option.some.inj h)
    exact moves_scaleCandidate hkeys hok
  | stop id => exact moves_stopInstance (Option.some.inj h)
  | restart id => cases ha
  | deleteInstance id => exact moves_deleteInstance (Option.some.inj h)
  | deleteDeployment id => exact moves_deleteDeployment (Option.some.inj h)
  | markDisconnected now =>
    have h := Except.ok.inj (Option.some.inj h)
    exact .single (h ▸ .disconnect db now)
  | autoscaleTick _ _ _ => cases h
  | register _ _ _ => cases h
  | sync _ _ => cases h
  | applyNext _ => cases h
  | probe _ _ _ => cases h
  | containerExit _ _ => cases h
  | restartWorker _ => cases h

/-! ### A pass of the autoscaler -/

theorem nodup_of_move {s : Settings} {db db' : Db} (h : ServerMove s db db')
    (hkeys : (db.workers.map (·.id)).Nodup) : (db'.workers.map (·.id)).Nodup := by
  cases h with
  | stop p => exact hkeys
  | place h => exact h.workers ▸ hkeys
  | tables _ hworkers => exact hworkers.1 hkeys
  | disconnect now =>
    refine (WorkersKept.map ?_ ?_).1 hkeys
    · intro w
      split <;> rfl
    · intro w
      split <;> rfl

/-- Worker ids stay a primary key under moves. -/
theorem nodup_of_moves {s : Settings} {db db' : Db} (h : Moves s db db')
    (hkeys : (db.workers.map (·.id)).Nodup) : (db'.workers.map (·.id)).Nodup :=
  h.preserves (fun _ _ => nodup_of_move) hkeys

/-- What a pass holds at any point, and what it failed to commit, is reached by
moves from the state it began in. -/
structure TickState.Reached (s : Settings) (db : Db) (st : TickState) : Prop where
  committed : Moves s db st.session.committed
  working : Moves s db st.session.working
  failed : ∀ e ∈ st.failed, ∀ c, e.2 = .integrity c →
    ∃ db', Moves s db db' ∧ db'.violation = some c

theorem reached_tickStep {s : Settings} {m : Metrics} {clock : ℕ} {now : ℚ} {db : Db}
    (hkeys : (db.workers.map (·.id)).Nodup) {st : TickState} (hst : st.Reached s db)
    (d : Deployment) : (tickStep s m clock now st d).Reached s db := by
  unfold tickStep
  simp only
  split
  · exact hst
  set target := tickTarget s m st.session.working d
  have hmoves := hst.working.trans (moves_applyScale s d.load target false clock
    (nodup_of_moves hst.working hkeys))
  have herr : ∀ e, (applyScale s d.load target false clock st.session.working).2 = .error e →
      e.IsHttp := fun e => applyScale_error
  unfold scaleInSession
  rcases happ : applyScale s d.load target false clock st.session.working with ⟨db', e | u⟩
  · -- the allocation failed: nothing is committed, the changes stay pending
    rw [happ] at hmoves herr
    refine ⟨hst.committed, hmoves, ?_⟩
    intro e' he' c hc
    rw [List.mem_append, List.mem_singleton] at he'
    rcases he' with he' | rfl
    · exact hst.failed e' he' c hc
    · obtain ⟨code, detail, hhttp⟩ := herr e rfl
      simp only at hc
      rw [hhttp] at hc
      cases hc
  · rw [happ] at hmoves
    simp only [Session.commit]
    cases hv : db'.violation with
    | none => exact ⟨hmoves, hmoves, hst.failed⟩
    | some c =>
      refine ⟨hst.committed, hst.committed, ?_⟩
      intro e' he' c' hc'
      rw [List.mem_append, List.mem_singleton] at he'
      rcases he' with he' | rfl
      · exact hst.failed e' he' c' hc'
      · injection hc' with hc'
        exact ⟨db', hmoves, hc' ▸ hv⟩

/-- What every call of `apply_scale` keeps is kept in both states of the session. -/
theorem preserves_tickStep {s : Settings} {m : Metrics} {clock : ℕ} {now : ℚ} {P : Db → Prop}
    {d : Deployment} (hscale : ∀ db target, P db → P (applyScale s d.load target false clock db).1)
    {st : TickState} (hst : P st.session.committed ∧ P st.session.working) :
    P (tickStep s m clock now st d).session.committed ∧
      P (tickStep s m clock now st d).session.working := by
  unfold tickStep
  simp only
  split
  · exact hst
  have hnew := hscale st.session.working (tickTarget s m st.session.working d) hst.2
  unfold scaleInSession
  rcases happ : applyScale s d.load (tickTarget s m st.session.working d) false clock
    st.session.working with ⟨db', e | u⟩
  · rw [happ] at hnew
    exact ⟨hst.1, hnew⟩
  · rw [happ] at hnew
    simp only [Session.commit]
    cases hv : db'.violation with
    | none => exact ⟨hnew, hnew⟩
    | some c => exact ⟨hst.1, hst.1⟩

/-- **What a pass keeps**: what each of its calls keeps. -/
theorem preserves_tick {s : Settings} (m : Metrics) {clock : ℕ} (now : ℚ) (cooldown : Dict Uuid ℚ)
    {P : Db → Prop} {db : Db} (hscale : ∀ d ∈ windowedDeployments db, ∀ db' target, P db' →
      P (applyScale s d.load target false clock db').1) (h : P db) :
    P (autoscaleTick s m clock now cooldown db).session.committed := by
  unfold autoscaleTick
  have hrun : ∀ (ds : List Deployment), (∀ d ∈ ds, d ∈ windowedDeployments db) → ∀ st : TickState,
      P st.session.committed ∧ P st.session.working →
        P (ds.foldl (tickStep s m clock now) st).session.committed := by
    intro ds
    induction ds with
    | nil => exact fun _ st hst => hst.1
    | cons d ds ih =>
      intro hds st hst
      exact ih (fun e he => hds e (List.mem_cons_of_mem _ he)) _
        (preserves_tickStep (hscale d (hds d List.mem_cons_self)) hst)
  exact hrun _ (fun d hd => hd) _ ⟨h, h⟩

/-- **A pass of the autoscaler makes moves.** -/
theorem moves_tick {s : Settings} (m : Metrics) (clock : ℕ) (now : ℚ) (cooldown : Dict Uuid ℚ)
    {db : Db} (hkeys : (db.workers.map (·.id)).Nodup) :
    (autoscaleTick s m clock now cooldown db).Reached s db := by
  have hloop : ∀ (ds : List Deployment) (st : TickState), st.Reached s db →
      (ds.foldl (tickStep s m clock now) st).Reached s db := by
    intro ds
    induction ds with
    | nil => intro st hst; exact hst
    | cons d ds ih => intro st hst; exact ih _ (reached_tickStep hkeys hst d)
  refine hloop _ _ ⟨.refl, .refl, ?_⟩
  intro e he
  exact absurd he List.not_mem_nil

/-! ### Steps -/

theorem commitTo_eq (db : Db) (c : Except ServerError Db) :
    (commitTo db c).1 = db ∨ ∃ db', c = .ok db' ∧ db'.violation = none ∧ (commitTo db c).1 = db' := by
  unfold commitTo
  split
  · exact Or.inl rfl
  · rename_i db'
    split
    · rename_i hv
      exact Or.inr ⟨db', rfl, hv, rfl⟩
    · exact Or.inl rfl

/-- A request that commits keeps what the state it computed keeps. -/
theorem preserves_commitTo (P : Db → Prop) {db : Db} {c : Except ServerError Db} (h : P db)
    (hc : ∀ db', c = .ok db' → P db') : P (commitTo db c).1 := by
  rcases commitTo_eq db c with heq | ⟨db', hok, -, heq⟩
  · rw [heq]
    exact h
  · rw [heq]
    exact hc db' hok

/-- A request's tables are as they were, or what it computed. -/
theorem moves_commitTo {env : Env} {db : Db} {a : Step} {c : Except ServerError Db}
    (hkeys : (db.workers.map (·.id)).Nodup) (ha : a.isRestart = false)
    (hc : World.candidate env db a = some c) : Moves env.settings db (commitTo db c).1 := by
  rcases commitTo_eq db c with heq | ⟨db', rfl, -, heq⟩
  · rw [heq]
  · rw [heq]
    exact moves_candidate hkeys ha hc

/-- The Sync of a worker was stored. -/
def Synced (env : Env) (wd : World) (w : Uuid) (now : ℕ) : Prop :=
  (wd.next env (.sync w now)).db = storeReports wd.db (wd.syncRequest env w) w now ∧
    ((wd.next env (.sync w now)).hosts = Function.update wd.hosts w ((wd.hosts w).reconcile
      (buildCommands (storeReports wd.db (wd.syncRequest env w) w now) (wd.syncRequest env w) w)))

theorem syncAuth_id {sha : String → String} {db : Db} {req : SyncRequest} {w : Uuid}
    (hreq : req.workerId = some w) {v : Worker} (h : syncAuth sha db req = .ok v) : v.id = w := by
  obtain ⟨id, hid, hfind, -⟩ := syncAuth_eq_ok.mp h
  obtain rfl := Option.some.inj (hreq.symm.trans hid)
  simpa using List.find?_some hfind

theorem syncWorker_ok {sha : String → String} {db db' : Db} {req : SyncRequest} {w : Uuid}
    {now : ℕ} {commands : List Command} (hreq : req.workerId = some w)
    (h : syncWorker sha db req now = .ok (db', commands)) :
    db' = storeReports db req w now ∧ commands = buildCommands db' req w := by
  obtain ⟨v, hauth, hstored⟩ := syncWorker_stored h
  obtain rfl := syncAuth_id hreq hauth
  exact hstored

/-- A Sync is stored whole, or changes nothing. -/
theorem sync_cases (env : Env) (wd : World) (w : Uuid) (now : ℕ) :
    wd.next env (.sync w now) = wd ∨ Synced env wd w now := by
  unfold Synced World.next World.step World.syncStep
  simp only
  cases hsync : syncWorker env.sha256Hex wd.db (wd.syncRequest env w) now with
  | error e => exact Or.inl rfl
  | ok r =>
    obtain ⟨db', commands⟩ := r
    obtain ⟨rfl, rfl⟩ := syncWorker_ok (w := w) rfl hsync
    simp only
    split
    · exact Or.inl rfl
    · exact Or.inr ⟨rfl, rfl⟩

/-- A restart writes its row, or changes nothing. -/
theorem restart_cases (env : Env) (wd : World) (id : Uuid) :
    (wd.next env (.restart id)).hosts = wd.hosts ∧
      ((wd.next env (.restart id)).db = wd.db ∨
        (wd.next env (.restart id)).db = wd.db.updateWhere (·.id = id) Instance.restart) := by
  refine ⟨rfl, ?_⟩
  change (commitTo wd.db (restartInstance wd.db id)).1 = wd.db ∨ _
  rcases commitTo_eq wd.db (restartInstance wd.db id) with heq | ⟨db', hc, -, heq⟩
  · exact Or.inl heq
  · right
    change (commitTo wd.db (restartInstance wd.db id)).1 = _
    rw [heq]
    exact restartInstance_ok hc

/-- **What a step does to the tables**: it restarts a row, stores a Sync, or
makes moves. -/
theorem next_db_cases (env : Env) (wd : World) (a : Step)
    (hkeys : (wd.db.workers.map (·.id)).Nodup) :
    (∃ id, a = .restart id ∧
      (wd.next env a).db = wd.db.updateWhere (·.id = id) Instance.restart) ∨
    (∃ w now, a = .sync w now ∧ Synced env wd w now) ∨
    Moves env.settings wd.db (wd.next env a).db := by
  cases a with
  | restart id =>
    rcases (restart_cases env wd id).2 with h | h
    · refine Or.inr (Or.inr ?_)
      rw [h]
    · exact Or.inl ⟨id, rfl, h⟩
  | sync w now =>
    rcases sync_cases env wd w now with h | h
    · refine Or.inr (Or.inr ?_)
      rw [h]
    · exact Or.inr (Or.inl ⟨w, now, rfl, h⟩)
  | register req token now =>
    refine Or.inr (Or.inr ?_)
    rcases register_cases env wd req token now with heq | ⟨db', w, hreg, -, heq⟩
    · rw [heq]
    · rw [heq]
      exact moves_registerWorker hreg
  | autoscaleTick m clock now =>
    exact Or.inr (Or.inr (moves_tick m clock now wd.cooldown hkeys).committed)
  | applyNext w => exact Or.inr (Or.inr .refl)
  | probe w id ready => exact Or.inr (Or.inr .refl)
  | containerExit w id => exact Or.inr (Or.inr .refl)
  | restartWorker w => exact Or.inr (Or.inr .refl)
  | deploy body now => exact Or.inr (Or.inr (moves_commitTo (a := .deploy body now) hkeys rfl rfl))
  | scale id body now =>
    exact Or.inr (Or.inr (moves_commitTo (a := .scale id body now) hkeys rfl rfl))
  | setRange id body now =>
    exact Or.inr (Or.inr (moves_commitTo (a := .setRange id body now) hkeys rfl rfl))
  | stop id => exact Or.inr (Or.inr (moves_commitTo (a := .stop id) hkeys rfl rfl))
  | deleteInstance id =>
    exact Or.inr (Or.inr (moves_commitTo (a := .deleteInstance id) hkeys rfl rfl))
  | deleteDeployment id =>
    exact Or.inr (Or.inr (moves_commitTo (a := .deleteDeployment id) hkeys rfl rfl))
  | markDisconnected now =>
    exact Or.inr (Or.inr (moves_commitTo (a := .markDisconnected now) hkeys rfl rfl))

/-- The committed state of a pass is the one it began in, or passed its commit. -/
theorem committed_tickStep {s : Settings} {m : Metrics} {clock : ℕ} {now : ℚ} {db : Db}
    {st : TickState} (hst : st.session.committed = db ∨ st.session.committed.violation = none)
    (d : Deployment) :
    (tickStep s m clock now st d).session.committed = db ∨
      (tickStep s m clock now st d).session.committed.violation = none := by
  unfold tickStep
  simp only
  split
  · exact hst
  unfold scaleInSession
  rcases applyScale s d.load (tickTarget s m st.session.working d) false clock
    st.session.working with ⟨db', e | u⟩
  · exact hst
  · simp only [Session.commit]
    cases hv : db'.violation with
    | none => exact Or.inr hv
    | some c => exact hst

/-- **The constraints hold in every state reached**: a step that changes the
tables went through a commit. -/
theorem next_db_eq_or_valid (env : Env) (wd : World) (a : Step) :
    (wd.next env a).db = wd.db ∨ (wd.next env a).db.violation = none := by
  have hrequest : ∀ c, (commitTo wd.db c).1 = wd.db ∨ (commitTo wd.db c).1.violation = none := by
    intro c
    rcases commitTo_eq wd.db c with heq | ⟨db', -, hv, heq⟩
    · exact Or.inl heq
    · exact Or.inr (heq ▸ hv)
  cases a with
  | register req token now =>
    rcases register_cases env wd req token now with heq | ⟨db', w, -, hv, heq⟩
    · exact Or.inl (congrArg World.db heq)
    · rw [heq]
      exact Or.inr hv
  | sync w now =>
    unfold World.next World.step World.syncStep
    simp only
    split
    · exact Or.inl rfl
    · split
      · exact Or.inl rfl
      · rename_i hv
        exact Or.inr hv
  | autoscaleTick m clock now =>
    have hloop : ∀ (ds : List Deployment) (st : TickState),
        (st.session.committed = wd.db ∨ st.session.committed.violation = none) →
        ((ds.foldl (tickStep env.settings m clock now) st).session.committed = wd.db ∨
          (ds.foldl (tickStep env.settings m clock now) st).session.committed.violation = none) := by
      intro ds
      induction ds with
      | nil => intro st hst; exact hst
      | cons d ds ih => intro st hst; exact ih _ (committed_tickStep hst d)
    exact hloop _ _ (Or.inl rfl)
  | applyNext w => exact Or.inl rfl
  | probe w id ready => exact Or.inl rfl
  | containerExit w id => exact Or.inl rfl
  | restartWorker w => exact Or.inl rfl
  | deploy body now => exact hrequest _
  | scale id body now => exact hrequest _
  | setRange id body now => exact hrequest _
  | stop id => exact hrequest _
  | restart id => exact hrequest _
  | deleteInstance id => exact hrequest _
  | deleteDeployment id => exact hrequest _
  | markDisconnected now => exact hrequest _

/-! ### Keys -/

/-- The primary keys hold, and no identifier is ahead of the counter. -/
structure Db.Keyed (db : Db) : Prop where
  workers : (db.workers.map (·.id)).Nodup
  instances : (db.instances.map (·.id)).Nodup
  bound : ∀ i ∈ db.instances, i.id ≤ db.lastUuid
  deployments : (db.deployments.map (·.id)).Nodup

/-- Rows have different identifiers. -/
theorem Db.Keyed.eq_of_id {db : Db} (hk : db.Keyed) {i j : Instance} (hi : i ∈ db.instances)
    (hj : j ∈ db.instances) (hid : i.id = j.id) : i = j :=
  List.inj_on_of_nodup_map hk.instances hi hj hid

/-- Writing columns other than the id keeps the keys. -/
theorem Db.Keyed.map_instances {db db' : Db} (h : db.Keyed) {f : Instance → Instance}
    (hid : ∀ i, (f i).id = i.id) (hrows : db'.instances = db.instances.map f)
    (hworkers : (db'.workers.map (·.id)).Nodup) (huuid : db'.lastUuid = db.lastUuid)
    (hdeps : db'.deployments = db.deployments) : db'.Keyed := by
  refine ⟨hworkers, ?_, ?_, hdeps ▸ h.deployments⟩
  · rw [hrows, List.map_map]
    simpa [Function.comp_def, hid] using h.instances
  · rw [hrows, huuid]
    intro i hi
    obtain ⟨j, hj, rfl⟩ := List.mem_map.mp hi
    rw [hid]
    exact h.bound j hj

theorem updateWhere_id {p : Instance → Bool} {f : Instance → Instance}
    (hid : ∀ i, (f i).id = i.id) (i : Instance) : (if p i then f i else i).id = i.id := by
  split
  · exact hid i
  · rfl

theorem keyed_of_move {s : Settings} {db db' : Db} (h : ServerMove s db db') (hk : db.Keyed) :
    db'.Keyed := by
  have hworkers := nodup_of_move h hk.workers
  cases h with
  | stop p =>
    exact hk.map_instances (updateWhere_id (p := p) (f := Instance.stop) (fun _ => rfl)) rfl
      hworkers rfl rfl
  | place h =>
    refine ⟨hworkers, ?_, ?_, h.deployments ▸ hk.deployments⟩
    · rw [h.inserted, List.map_append, List.nodup_append]
      refine ⟨hk.instances, h.new.nodup, ?_⟩
      intro a ha b hb
      obtain ⟨i, hi, rfl⟩ := List.mem_map.mp ha
      obtain ⟨r, hr, rfl⟩ := List.mem_map.mp hb
      exact Nat.ne_of_lt ((h.new.fresh r hr).2 i hi)
    · rw [h.inserted]
      intro i hi
      rcases List.mem_append.mp hi with hi | hi
      · exact le_trans (hk.bound i hi) h.uuid
      · exact h.bound i hi
  | tables hrows _ _ hdeps huuid =>
    exact ⟨hworkers, (hrows.map _).nodup hk.instances,
      fun i hi => le_trans (hk.bound i (hrows.subset hi)) huuid, hdeps hk.deployments⟩
  | disconnect now =>
    refine hk.map_instances (f := fun i =>
      if lostWith ((db.workers.filter (isStale now)).map (·.id)) i then
        { i with state := .error, errorDetail := some "worker disconnected" } else i) ?_ rfl
      hworkers rfl rfl
    intro i
    split <;> rfl

theorem applyStatus_foldl_keeps {α : Type} (get : Instance → α)
    (hget : ∀ i st, get (applyStatus i st) = get i) (sts : List InstanceStatus) :
    ∀ i, get (sts.foldl applyStatus i) = get i := by
  induction sts with
  | nil => intro i; rfl
  | cons st sts ih => intro i; rw [List.foldl_cons, ih, hget]

/-- A column that no report writes. -/
theorem applyStatuses_keeps {α : Type} (get : Instance → α)
    (hget : ∀ i st, get (applyStatus i st) = get i) (req : SyncRequest) (w : Uuid) (i : Instance) :
    get (applyStatuses req w i) = get i := by
  unfold applyStatuses
  split
  · exact applyStatus_foldl_keeps get hget _ i
  · rfl

theorem keyed_storeReports {db : Db} (hk : db.Keyed) (req : SyncRequest) (w : Uuid) (now : ℕ) :
    (storeReports db req w now).Keyed := by
  refine hk.map_instances (applyStatuses_keeps (·.id) (fun _ _ => rfl) req w) rfl ?_ rfl rfl
  simp only [storeReports, List.map_map]
  have hid : ((fun v : Worker => v.id) ∘ fun v => if v.id = w then syncRow req now v else v) =
      fun v => v.id := by
    funext v
    simp only [Function.comp_apply]
    split <;> rfl
  rw [hid]
  exact hk.workers

/-- **The keys hold in every state reached.** -/
theorem keyed_next (env : Env) (wd : World) (a : Step) (hk : wd.db.Keyed) :
    (wd.next env a).db.Keyed := by
  rcases next_db_cases env wd a hk.workers with ⟨id, -, h⟩ | ⟨w, now, rfl, h⟩ | h
  · rw [h]
    exact hk.map_instances (updateWhere_id (p := (·.id = id)) (f := Instance.restart)
      (fun _ => rfl)) rfl hk.workers rfl rfl
  · rw [h.1]
    exact keyed_storeReports hk _ w now
  · exact h.preserves (fun _ _ => keyed_of_move) hk

theorem World.Initial.keyed {wd : World} (h : wd.Initial) : wd.db.Keyed where
  workers := by rw [h.workers]; exact List.nodup_nil
  instances := by rw [h.instances]; exact List.nodup_nil
  bound := by rw [h.instances]; exact fun _ hi => absurd hi List.not_mem_nil
  deployments := by rw [h.deployments]; exact List.nodup_nil

end Inferna
