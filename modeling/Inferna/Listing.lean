import Inferna.Gateway
import Inferna.Groups
import Inferna.Ports
import Inferna.RunLoop

/-!
# The models the gateway lists

`GET /v1/models` and `_resolve_target` ask the tables different questions.  The list has the
models of the live instances with a port.  The route to a model has only the heads among
these, and the row that the counters select is routable only if its worker is still there.

The two agree because of what every operation keeps: a follower never gets a port, and a live
row has a worker.

## Main definitions

* `listModels` — `list_models`.
* `selectTarget` — `_resolve_target` up to the selection.
* `Instance.Homed` — what the two questions differ in.
* `Control`, `ControlEvent`, `Control.step` — the tables under requests, Syncs and the removal
  of workers, with the ports that were given to workers.
* `Truthful` — a Sync reports a port that was given for the instance, or none.

## Main results

* `resume_selectTarget` — the two awaited queries of a request come to `selectTarget`.
* `listed_iff` — a name is listed exactly if a live instance of its model has a port.
* `selectTarget_ok_iff` — among homed rows, some instance is selected exactly then.
* `homed_candidate`, `homed_deleteWorker`, `homed_storeReports` — the operations keep rows
  homed.
* `listed_iff_routable` — **the listed models are the routable ones, after every run.**
-/

namespace Inferna

/-! ### The list and the route -/

/-- An entry of the list. -/
structure ListedModel where
  id : String
  object : String := "model"
  created : ℕ
  ownedBy : String := "inferna"
  deriving DecidableEq, Repr

/-- Rows come by the display name of their model, and then by age.  The order of the display
names is that of the database. -/
def ListOrder (displayLe : Model → Model → Prop) (a b : Instance × Model) : Prop :=
  displayLe a.2 b.2 ∧ (displayLe b.2 a.2 → a.1.createdAt ≤ b.1.createdAt)

instance (displayLe : Model → Model → Prop) [DecidableRel displayLe] :
    DecidableRel (ListOrder displayLe) := fun _ _ => inferInstanceAs (Decidable (_ ∧ _))

/-- The live instances that have a port, with their models. -/
def listedRows (displayLe : Model → Model → Prop) [DecidableRel displayLe] (db : Db) :
    List (Instance × Model) :=
  ((db.instances.filter fun i => i.state.isLive = true ∧ i.port.isSome = true).filterMap fun i =>
    (db.findModel i.modelId).map fun m => (i, m)).insertionSort (ListOrder displayLe)

/-- The body of the loop of `list_models`: a name that was seen is passed over. -/
def listRow (data : List ListedModel) (row : Instance × Model) : List ListedModel :=
  if row.2.name ∈ data.map (·.id) then data
  else data ++ [{ id := row.2.name, created := row.1.createdAt }]

/-- `list_models`. -/
def listModels (displayLe : Model → Model → Prop) [DecidableRel displayLe] (db : Db) :
    List ListedModel :=
  (listedRows displayLe db).foldl listRow []

/-- `_resolve_target` up to the selection: the instance and its worker, or the answer 404. -/
def selectTarget (s : Routing) (overlap : Uuid → ℕ) (db : Db) (modelName : String) :
    Except OpenAIError (Instance × Worker) :=
  match db.models.find? fun m => m.name = modelName with
  | none => .error (.modelNotFound modelName)
  | some m =>
    match selectRow s overlap (routingRows db m.id) with
    | none => .error (.noRunningInstance modelName)
    | some target => .ok target

/-- Both answers are a 404. -/
theorem statusCode_selectTarget {s : Routing} {overlap : Uuid → ℕ} {db : Db} {modelName : String}
    {e : OpenAIError} (h : selectTarget s overlap db modelName = .error e) : e.statusCode = 404 := by
  unfold selectTarget at h
  split at h
  · injection h with h
    rw [← h]
    rfl
  · split at h
    · injection h with h
      rw [← h]
      rfl
    · cases h

/-- **The two queries of a request come to `selectTarget`**, when both read the same tables and
nobody holds the lock. -/
theorem resume_selectTarget (u : Unicode) (settings : GuardSettings) {s : Routing} {q : Request}
    (hphase : q.phase = .model) (hlock : s.activeLock = false) (db : Db) (overlap : Uuid → ℕ) :
    let first := resume u settings s q (.db db overlap)
    (resume u settings first.1 first.2 (.db db overlap)).2.phase =
      match selectTarget s overlap db q.modelName with
      | .ok (inst, worker) => .validate inst worker
      | .error e => .ended (.raised (.openAI e)) := by
  simp only
  unfold selectTarget
  cases hmodel : db.models.find? fun m => m.name = q.modelName with
  | none =>
    have hfirst : resume u settings s q (.db db overlap) =
        endRequest s q (.raised (.openAI (.modelNotFound q.modelName))) := by
      simp only [resume, hphase, hmodel]
    rw [hfirst]
    rfl
  | some m =>
    have hfirst : resume u settings s q (.db db overlap) = (s, { q with phase := .rows m }) := by
      simp only [resume, hphase, hmodel]
    rw [hfirst]
    simp only [resume, hlock, selectInstance]
    cases selectRow s overlap (routingRows db m.id) with
    | none => rfl
    | some target => rfl

/-! ### What is listed -/

variable {displayLe : Model → Model → Prop} [DecidableRel displayLe]

theorem mem_listRow {data : List ListedModel} {row : Instance × Model} {name : String} :
    name ∈ (listRow data row).map (·.id) ↔ name ∈ data.map (·.id) ∨ row.2.name = name := by
  unfold listRow
  split
  · rename_i hseen
    constructor
    · exact Or.inl
    · rintro (h | rfl)
      · exact h
      · exact hseen
  · simp [eq_comm]

/-- The loop lists the names of its rows. -/
theorem mem_foldl_listRow (rows : List (Instance × Model)) :
    ∀ {data : List ListedModel} {name : String}, name ∈ (rows.foldl listRow data).map (·.id) ↔
      name ∈ data.map (·.id) ∨ ∃ row ∈ rows, row.2.name = name := by
  induction rows with
  | nil => intro data name; simp
  | cons row rows ih =>
    intro data name
    rw [List.foldl_cons, ih, mem_listRow, or_assoc]
    simp only [List.mem_cons, exists_eq_or_imp]

/-- The loop lists no name twice. -/
theorem nodup_foldl_listRow (rows : List (Instance × Model)) : ∀ {data : List ListedModel},
    (data.map (·.id)).Nodup → ((rows.foldl listRow data).map (·.id)).Nodup := by
  induction rows with
  | nil => intro data h; exact h
  | cons row rows ih =>
    intro data h
    refine ih ?_
    unfold listRow
    split
    · exact h
    · rename_i hnew
      rw [List.map_append, List.map_singleton, List.nodup_append]
      refine ⟨h, List.nodup_singleton _, ?_⟩
      rintro a ha b hb rfl
      rw [List.mem_singleton.mp hb] at ha
      exact hnew ha

theorem nodup_listModels (db : Db) : ((listModels displayLe db).map (·.id)).Nodup :=
  nodup_foldl_listRow _ List.nodup_nil

/-- **A name is listed** exactly if a live instance of its model has a port. -/
theorem listed_iff (db : Db) (name : String) : name ∈ (listModels displayLe db).map (·.id) ↔
    ∃ i ∈ db.instances, i.state.isLive = true ∧ i.port.isSome = true ∧
      ∃ m, db.findModel i.modelId = some m ∧ m.name = name := by
  unfold listModels
  rw [mem_foldl_listRow]
  simp only [List.map_nil, List.not_mem_nil, false_or, listedRows, List.mem_insertionSort,
    List.mem_filterMap, List.mem_filter, decide_eq_true_eq, Option.map_eq_some_iff]
  constructor
  · rintro ⟨row, ⟨i, ⟨hi, hlive, hport⟩, m, hm, rfl⟩, rfl⟩
    exact ⟨i, hi, hlive, hport, m, hm, rfl⟩
  · rintro ⟨i, hi, hlive, hport, m, hm, rfl⟩
    exact ⟨(i, m), ⟨i, ⟨hi, hlive, hport⟩, m, hm, rfl⟩, rfl⟩

/-! ### What is routed -/

/-- What the list and the route differ in: a row with a port is a head, and a live row has a
worker. -/
structure Instance.Homed (workers : List Worker) (i : Instance) : Prop where
  head : i.port.isSome = true → i.parallelGroupId = none ∨ i.nodeRank = some 0
  placed : i.state.isLive = true → ∃ w ∈ workers, i.workerId = some w.id

/-- Every row is homed. -/
def Db.Homed (db : Db) : Prop := ∀ i ∈ db.instances, i.Homed db.workers

/-- `min` of a list picks one of its elements. -/
theorem foldl_argAux_mem {α : Type} (r : α → α → Prop) [DecidableRel r] (l : List α) :
    ∀ {o : Option α} {a : α}, l.foldl (List.argAux r) o = some a → o = some a ∨ a ∈ l := by
  induction l with
  | nil => intro o a h; exact Or.inl h
  | cons b l ih =>
    intro o a h
    rcases ih h with hone | hmem
    · unfold List.argAux at hone
      cases o with
      | none => exact Or.inr (by simp_all)
      | some c =>
        simp only at hone
        split at hone
        · exact Or.inr (by simp_all)
        · exact Or.inl hone
    · exact Or.inr (List.mem_cons_of_mem b hmem)

/-- `min` of a list that is not empty picks something. -/
theorem foldl_argAux_isSome {α : Type} (r : α → α → Prop) [DecidableRel r] (l : List α) :
    ∀ {o : Option α}, o.isSome = true ∨ l ≠ [] → (l.foldl (List.argAux r) o).isSome = true := by
  induction l with
  | nil =>
    rintro o (h | h)
    · exact h
    · exact absurd rfl h
  | cons b l ih =>
    intro o _
    refine ih (Or.inl ?_)
    unfold List.argAux
    cases o with
    | none => rfl
    | some c => simp only; split <;> rfl

/-- Some row has the best overlap. -/
theorem routingPool_ne_nil {overlap : Uuid → ℕ} {rows : List RoutingRow} (h : rows ≠ []) :
    routingPool overlap rows ≠ [] := by
  have hmax : ∀ rows : List RoutingRow, bestOverlap overlap rows ≠ 0 →
      ∃ r ∈ rows, overlap r.inst.id = bestOverlap overlap rows := by
    intro rows
    induction rows with
    | nil => intro hne; exact absurd rfl hne
    | cons r rows ih =>
      intro hne
      unfold bestOverlap at hne ih ⊢
      simp only [List.map_cons, List.foldr_cons] at hne ⊢
      rcases le_total (overlap r.inst.id) ((rows.map fun r => overlap r.inst.id).foldr max 0)
        with hle | hle
      · rw [max_eq_right hle] at hne ⊢
        obtain ⟨x, hx, heq⟩ := ih hne
        exact ⟨x, List.mem_cons_of_mem r hx, heq⟩
      · rw [max_eq_left hle]
        exact ⟨r, List.mem_cons_self, rfl⟩
  unfold routingPool
  split
  · exact h
  · rename_i hne
    obtain ⟨r, hr, heq⟩ := hmax rows hne
    exact List.ne_nil_of_mem (List.mem_filter.mpr ⟨hr, by simpa using heq⟩)

theorem routingPool_subset {overlap : Uuid → ℕ} {rows : List RoutingRow} :
    routingPool overlap rows ⊆ rows := by
  unfold routingPool
  split
  · exact List.Subset.refl rows
  · exact List.filter_subset_self _

/-- **If all rows have their worker, one of them is selected**, whatever the counters and the
prefix index say. -/
theorem selectRow_isSome_iff {rows : List RoutingRow} (s : Routing) (overlap : Uuid → ℕ)
    (h : ∀ r ∈ rows, r.worker.isSome = true) :
    (selectRow s overlap rows).isSome = true ↔ rows ≠ [] := by
  unfold selectRow
  constructor
  · rintro hsome rfl
    cases hsome
  · intro hne
    have hpool := foldl_argAux_isSome (RoutingRow.Before s) (routingPool overlap rows) (o := none)
      (Or.inr (routingPool_ne_nil hne))
    obtain ⟨row, hrow⟩ := Option.isSome_iff_exists.mp hpool
    have hmem : row ∈ rows := by
      rcases foldl_argAux_mem _ _ hrow with hnone | hmem
      · cases hnone
      · exact routingPool_subset hmem
    obtain ⟨worker, hworker⟩ := Option.isSome_iff_exists.mp (h row hmem)
    simp [hrow, hworker]

/-- The rows of the route to a model, as long as rows are homed: its live instances with a
port, each with its worker. -/
theorem mem_routingRows {db : Db} (hhomed : db.Homed) {modelId : Uuid} {r : RoutingRow} :
    r ∈ routingRows db modelId ↔ r.inst ∈ db.instances ∧ r.inst.modelId = modelId ∧
      r.inst.state.isLive = true ∧ r.inst.port.isSome = true ∧
      r.worker = r.inst.workerId.bind db.findWorker := by
  unfold routingRows
  simp only [List.mem_map, List.mem_insertionSort, List.mem_filter, decide_eq_true_eq]
  constructor
  · rintro ⟨i, ⟨hi, hmodel, hlive, hport, -⟩, rfl⟩
    exact ⟨hi, hmodel, hlive, hport, rfl⟩
  · rintro ⟨hi, hmodel, hlive, hport, hworker⟩
    exact ⟨r.inst, ⟨hi, hmodel, hlive, hport, (hhomed r.inst hi).head hport⟩, by rw [← hworker]⟩

theorem worker_of_mem_routingRows {db : Db} (hhomed : db.Homed)
    (hids : (db.workers.map (·.id)).Nodup) {modelId : Uuid} {r : RoutingRow}
    (hr : r ∈ routingRows db modelId) : r.worker.isSome = true := by
  obtain ⟨hi, -, hlive, -, hworker⟩ := (mem_routingRows hhomed).mp hr
  obtain ⟨w, hw, hwid⟩ := (hhomed r.inst hi).placed hlive
  rw [hworker, hwid, Option.bind_some, findWorker_of_mem hids hw]
  rfl

/-- The catalog: models differ in their identifiers and in their names. -/
structure Db.Catalog (db : Db) : Prop where
  ids : (db.models.map (·.id)).Nodup
  names : (db.models.map (·.name)).Nodup

/-- **Among homed rows, a name is routed** exactly if a live instance of its model has a
port. -/
theorem selectTarget_ok_iff {db : Db} (hhomed : db.Homed) (hids : (db.workers.map (·.id)).Nodup)
    (hcat : db.Catalog) (s : Routing) (overlap : Uuid → ℕ) (name : String) :
    (∃ target, selectTarget s overlap db name = .ok target) ↔
      ∃ i ∈ db.instances, i.state.isLive = true ∧ i.port.isSome = true ∧
        ∃ m, db.findModel i.modelId = some m ∧ m.name = name := by
  unfold selectTarget
  cases hmodel : db.models.find? fun m => m.name = name with
  | none =>
    simp only [reduceCtorEq, exists_const, false_iff, not_exists, not_and]
    intro i _ _ _ m hm hname
    have hmem : m ∈ db.models := List.mem_of_find?_eq_some hm
    simpa [hname] using List.find?_eq_none.mp hmodel m hmem
  | some m =>
    have hm : m ∈ db.models := List.mem_of_find?_eq_some hmodel
    have hname : m.name = name := by simpa using List.find?_some hmodel
    have hiff := selectRow_isSome_iff s overlap fun r hr =>
      @worker_of_mem_routingRows db hhomed hids m.id r hr
    have hsome : (∃ target, (match selectRow s overlap (routingRows db m.id) with
        | none => (.error (.noRunningInstance name) : Except OpenAIError (Instance × Worker))
        | some target => .ok target) = .ok target) ↔
        (selectRow s overlap (routingRows db m.id)).isSome = true := by
      cases selectRow s overlap (routingRows db m.id) <;> simp
    simp only
    rw [hsome, hiff]
    constructor
    · intro hne
      obtain ⟨r, hr⟩ := List.exists_mem_of_ne_nil _ hne
      obtain ⟨hi, hmid, hlive, hport, -⟩ := (mem_routingRows hhomed).mp hr
      exact ⟨r.inst, hi, hlive, hport, m, hmid ▸ Dict.find?_eq_some_of_mem hcat.ids hm, hname⟩
    · rintro ⟨i, hi, hlive, hport, m', hm', hname'⟩
      -- names are unique, so it is the model that was found
      have hmem' : m' ∈ db.models := List.mem_of_find?_eq_some hm'
      obtain rfl : m' = m := List.inj_on_of_nodup_map hcat.names hmem' hm (hname'.trans hname.symm)
      have hmid : m'.id = i.modelId := by simpa using List.find?_some hm'
      exact List.ne_nil_of_mem ((@mem_routingRows db hhomed m'.id
        ⟨i, i.workerId.bind db.findWorker⟩).mpr ⟨hi, hmid.symm, hlive, hport, rfl⟩)

/-! ### Operations that keep rows homed -/

/-- Rows may be written as long as they stay homed. -/
theorem Db.Homed.map {db db' : Db} (h : db.Homed) {f : Instance → Instance}
    (hrows : db'.instances = db.instances.map f)
    (hf : ∀ i ∈ db.instances, i.Homed db.workers → (f i).Homed db'.workers) : db'.Homed := by
  intro j hj
  rw [hrows] at hj
  obtain ⟨i, hi, rfl⟩ := List.mem_map.mp hj
  exact hf i hi (h i hi)

/-- Rows may go, but no worker. -/
theorem Db.Homed.subset {db db' : Db} (h : db.Homed) (hrows : db'.instances ⊆ db.instances)
    (hworkers : ∀ w ∈ db.workers, ∃ v ∈ db'.workers, v.id = w.id) : db'.Homed := by
  intro i hi
  obtain ⟨hhead, hplaced⟩ := h i (hrows hi)
  refine ⟨hhead, fun hlive => ?_⟩
  obtain ⟨w, hw, hid⟩ := hplaced hlive
  obtain ⟨v, hv, hvid⟩ := hworkers w hw
  exact ⟨v, hv, hvid ▸ hid⟩

/-- Homed rows may come. -/
theorem Db.Homed.append {db db' : Db} (h : db.Homed) {rows : List Instance}
    (hrows : db'.instances = db.instances ++ rows) (hworkers : db'.workers = db.workers)
    (hnew : ∀ r ∈ rows, r.Homed db.workers) : db'.Homed := by
  unfold Db.Homed
  rw [hrows, hworkers]
  intro i hi
  rcases List.mem_append.mp hi with hi | hi
  · exact h i hi
  · exact hnew i hi

/-- Neither a stop nor a restart writes what matters. -/
theorem homed_updateWhere {db : Db} (h : db.Homed) (p : Instance → Bool) {f : Instance → Instance}
    (hf : ∀ i : Instance, i.Homed db.workers → (f i).Homed db.workers) :
    (db.updateWhere p f).Homed := by
  refine h.map rfl ?_
  intro i _ hi
  split
  · exact hf i hi
  · exact hi

theorem homed_updateWhere_stop {db : Db} (h : db.Homed) (p : Instance → Bool) :
    (db.updateWhere p Instance.stop).Homed :=
  homed_updateWhere h p fun _ hi => ⟨hi.head, hi.placed⟩

theorem homed_updateWhere_restart {db : Db} (h : db.Homed) (p : Instance → Bool) :
    (db.updateWhere p Instance.restart).Homed :=
  homed_updateWhere h p fun _ hi => ⟨hi.head, hi.placed⟩

theorem homed_addReplicas {s : Settings} {db db' : Db} (h : db'.Homed)
    (hworkers : db'.workers = db.workers) (d : Deployment) (now : ℕ) {vram : ℕ}
    {allocations : List Allocation}
    (hplaced : Placed s db vram (allocations.map Allocation.slot)) :
    (addReplicas db' d now allocations).Homed := by
  refine h.append rfl rfl fun r hr => ?_
  obtain ⟨k, hk, rfl⟩ := List.mem_mapIdx.mp hr
  refine ⟨fun _ => Or.inl rfl, fun _ => ?_⟩
  obtain ⟨w, hw, hid⟩ := hplaced.known _ (List.mem_map_of_mem (List.getElem_mem hk))
  rw [hworkers]
  exact ⟨w, hw, by rw [hid]; rfl⟩

/-- **Only the head of a group is given a port.** -/
theorem nodeRank_of_instancePort {s : Settings} {db : Db} {clusterId : Uuid} {vram : ℕ}
    {engine : Engine} {n : ℕ} {exclude : List Uuid} {allocations : List ParallelAllocation}
    (h : allocateParallelReplicas s db clusterId vram engine n exclude = .ok allocations)
    {a : ParallelAllocation} (ha : a ∈ allocations) (hport : a.instancePort.isSome = true) :
    a.nodeRank = 0 := by
  obtain ⟨_, -, -, head, others, -, _, _, -, -, rfl⟩ := allocateParallelReplicas_ok h
  rcases List.mem_cons.mp ha with rfl | ha
  · rfl
  · obtain ⟨k, hk, rfl⟩ := List.mem_mapIdx.mp ha
    cases hport

theorem homed_addGroup {s : Settings} {db db' : Db} (h : db'.Homed)
    (hworkers : db'.workers = db.workers) (hkeys : (db.workers.map (·.id)).Nodup) (d : Deployment)
    (now : ℕ) {clusterId : Uuid} {vram : ℕ} {engine : Engine} {n : ℕ} {exclude : List Uuid}
    {allocations : List ParallelAllocation}
    (halloc : allocateParallelReplicas s db clusterId vram engine n exclude = .ok allocations) :
    (addGroup db' d now allocations).Homed := by
  have hplaced := placed_allocateParallelReplicas hkeys halloc
  refine Db.Homed.append h rfl rfl fun r hr => ?_
  obtain ⟨k, hk, rfl⟩ := List.mem_mapIdx.mp hr
  have hmem := List.getElem_mem hk
  refine ⟨fun hport => Or.inr (congrArg some (nodeRank_of_instancePort halloc hmem hport)),
    fun _ => ?_⟩
  obtain ⟨w, hw, hid⟩ := hplaced.known _ (List.mem_map_of_mem hmem)
  rw [hworkers]
  exact ⟨w, hw, by rw [hid]; rfl⟩

theorem homed_scaleOut (s : Settings) (d : Deployment) (now n : ℕ) (used : List (Uuid × ℕ))
    (occupied : List Uuid) {db : Db} (hkeys : (db.workers.map (·.id)).Nodup) (h : db.Homed) :
    (scaleOut s d now n used occupied db).1.Homed := by
  refine (scaleOut_invariant (fun db' => db'.Homed ∧ db'.workers = db.workers) _ rfl ⟨h, rfl⟩ ?_ n
    used ?_ occupied).1
  · rintro - db' occupied' allocations ⟨hhomed, hworkers⟩ halloc
    exact ⟨homed_addGroup hhomed rfl (hworkers ▸ hkeys) d now halloc, hworkers⟩
  · intro allocations halloc
    exact ⟨homed_addReplicas h rfl d now (placed_allocateReplicas halloc), rfl⟩

/-- **Scaling keeps rows homed, also when it fails.** -/
theorem homed_moveReplicas (s : Settings) (d : Deployment) (target now : ℕ) {db : Db}
    (hkeys : (db.workers.map (·.id)).Nodup) (h : db.Homed) :
    (moveReplicas s d target now db).1.Homed := by
  have hbroken : (stopUnits db (brokenUnits d db)).Homed := homed_updateWhere_stop h _
  unfold moveReplicas
  simp only
  split
  · refine homed_scaleOut s d now _ _ _ ?_ hbroken
    exact hkeys
  · exact homed_updateWhere_stop hbroken _

theorem homed_applyScale (s : Settings) (obj : DeploymentObj) (replicas : ℕ) (setRange : Bool)
    (now : ℕ) {db : Db} (hkeys : (db.workers.map (·.id)).Nodup) (h : db.Homed) :
    (applyScale s obj replicas setRange now db).1.Homed := by
  have hmove := homed_moveReplicas s obj.loaded (scaleTarget obj replicas setRange) now hkeys h
  rcases applyScale_cases s obj replicas setRange now db with ⟨e, -, heq⟩ | ⟨-, heq⟩
  · rw [heq]
    exact hmove
  · rw [heq]
    exact hmove

theorem homed_scaleCandidate {s : Settings} {db db' : Db} {obj : DeploymentObj} {replicas now : ℕ}
    {setRange : Bool} (hkeys : (db.workers.map (·.id)).Nodup) (h : db.Homed)
    (hok : scaleCandidate s db obj replicas setRange now = .ok db') : db'.Homed := by
  have hscale := homed_applyScale s obj replicas setRange now hkeys h
  rw [scaleCandidate_ok hok] at hscale
  exact hscale

theorem homed_deploy {s : Settings} {db db' : Db} {body : DeployRequest} {now : ℕ}
    (hkeys : (db.workers.map (·.id)).Nodup) (h : db.Homed)
    (hok : deploy s db body now = .ok db') : db'.Homed := by
  have hadded : (db.addDeployment (deploymentRow body now db.nextUuid)).Homed := h
  obtain ⟨model, -, ⟨-, allocations, halloc, rfl⟩ | ⟨-, allocations, halloc, rfl⟩⟩ := deploy_ok hok
  · exact homed_addGroup hadded rfl hkeys _ now halloc
  · exact homed_addReplicas hadded rfl _ now (placed_deployAllocations halloc)

/-- **A request keeps rows homed.** -/
theorem homed_candidate {env : Env} {db db' : Db} {a : Step}
    (hkeys : (db.workers.map (·.id)).Nodup) (h : db.Homed)
    (hok : World.candidate env db a = some (.ok db')) : db'.Homed := by
  have hgone : ∀ {db' : Db}, db'.instances ⊆ db.instances → db'.workers = db.workers → db'.Homed :=
    fun hrows hworkers => h.subset hrows fun w hw => ⟨w, hworkers ▸ hw, rfl⟩
  cases a with
  | deploy body now => exact homed_deploy hkeys h (Option.some.inj hok)
  | scale id body now =>
    obtain ⟨d, -, hcall⟩ := scaleDeployment_ok (Option.some.inj hok)
    exact homed_scaleCandidate hkeys h hcall
  | setRange id body now =>
    obtain ⟨d, -, hcall⟩ := setDeploymentRange_ok (Option.some.inj hok)
    exact homed_scaleCandidate hkeys h hcall
  | stop id =>
    rcases stopInstance_ok (Option.some.inj hok) with rfl | rfl
    · exact homed_updateWhere_stop h _
    · exact h
  | restart id =>
    obtain rfl := restartInstance_ok (Option.some.inj hok)
    exact homed_updateWhere_restart h _
  | deleteInstance id =>
    have hok := Option.some.inj hok
    refine hgone (deleteInstance_subset hok) ?_
    obtain ⟨i, -, rfl | rfl⟩ := deleteInstance_ok hok
    · rfl
    · rfl
  | deleteDeployment id =>
    have hok := Option.some.inj hok
    refine hgone (deleteDeployment_subset hok) ?_
    obtain rfl := deleteDeployment_ok hok
    rfl
  | markDisconnected now =>
    injection hok with hok
    injection hok with hok
    rw [← hok]
    have hworkers : ∀ w ∈ db.workers, ∃ v ∈ (markDisconnected db now).workers, v.id = w.id := by
      intro w hw
      refine ⟨_, List.mem_map_of_mem hw, ?_⟩
      split <;> rfl
    refine h.map rfl fun i _ hi => ?_
    split
    · exact ⟨hi.head, fun hlive => by cases hlive⟩
    · refine ⟨hi.head, fun hlive => ?_⟩
      obtain ⟨w, hw, hid⟩ := hi.placed hlive
      obtain ⟨v, hv, hvid⟩ := hworkers w hw
      exact ⟨v, hv, hvid ▸ hid⟩
  | autoscaleTick _ _ _ => cases hok
  | register _ _ _ => cases hok
  | sync _ _ => cases hok
  | applyNext _ => cases hok
  | probe _ _ _ => cases hok
  | containerExit _ _ => cases hok
  | restartWorker _ => cases hok

theorem homed_registerWorker {env : Env} {db db' : Db} {req : RegisterRequest} {token : String}
    {now : ℕ} {id : Uuid} (h : db.Homed)
    (hreg : registerWorker env.sha256Hex env.validateAddress env.settings db req token now =
      .ok (db', id)) : db'.Homed := by
  obtain ⟨cluster, address, ⟨-, -, rfl⟩ | ⟨v, -, -, rfl⟩⟩ := registerWorker_ok hreg
  · exact h.subset (List.Subset.refl _) fun w hw => ⟨w, List.mem_append_left _ hw, rfl⟩
  · refine h.subset (List.Subset.refl _) fun w hw => ⟨_, List.mem_map_of_mem hw, ?_⟩
    split <;> rfl

/-- **The removal of a worker keeps rows homed**: its live rows are errored. -/
theorem homed_deleteWorker {db db' : Db} {id : Uuid} (h : db.Homed)
    (hok : deleteWorker db id = .ok db') : db'.Homed := by
  obtain rfl := deleteWorker_ok hok
  refine h.map rfl fun i _ hi => ?_
  unfold detach
  split_ifs with hmine hlive
  · exact ⟨hi.head, fun hlive => by cases hlive⟩
  · exact ⟨hi.head, fun hlive' => absurd hlive' hlive⟩
  · refine ⟨hi.head, fun hlive => ?_⟩
    obtain ⟨w, hw, hwid⟩ := hi.placed hlive
    refine ⟨w, List.mem_filter.mpr ⟨hw, ?_⟩, hwid⟩
    rw [decide_eq_true_eq]
    rintro rfl
    exact hmine hwid

/-- **A Sync that leaves the ports alone keeps rows homed**: the rows it writes are on the
worker that sent it. -/
theorem homed_storeReports {db : Db} {req : SyncRequest} {w : Worker} {now : ℕ} (h : db.Homed)
    (hw : w ∈ db.workers)
    (hports : ∀ i ∈ db.instances, (applyStatuses req w.id i).port = i.port) :
    (storeReports db req w.id now).Homed := by
  have hworkers : ∀ v ∈ db.workers, ∃ u ∈ (storeReports db req w.id now).workers, u.id = v.id := by
    intro v hv
    refine ⟨_, List.mem_map_of_mem hv, ?_⟩
    split <;> rfl
  refine h.map rfl fun i hi hhome => ⟨?_, ?_⟩
  · rw [hports i hi, applyStatuses_keeps (·.parallelGroupId) (fun _ _ => rfl),
      applyStatuses_keeps (·.nodeRank) (fun _ _ => rfl)]
    exact hhome.head
  · rw [applyStatuses_keeps (·.workerId) (fun _ _ => rfl)]
    intro hlive
    have hon : ∃ v ∈ db.workers, i.workerId = some v.id := by
      by_cases hmine : i.workerId = some w.id
      · exact ⟨w, hw, hmine⟩
      · unfold applyStatuses at hlive
        rw [if_neg hmine] at hlive
        exact hhome.placed hlive
    obtain ⟨v, hv, hvid⟩ := hon
    obtain ⟨u, hu, huid⟩ := hworkers v hv
    exact ⟨u, hu, huid ▸ hvid⟩

/-! ### The ports given to workers -/

/-- The tables, and for every start command that was answered to a worker its instance and its
port. -/
structure Control where
  db : Db
  given : List (Uuid × ℕ) := []

/-- One event.  The requests are the steps of the system that are requests. -/
inductive ControlEvent
  | request (a : Step)
  | autoscaleTick (m : Metrics) (clock : ℕ) (now : ℚ) (cooldown : Dict Uuid ℚ)
  | deleteWorker (id : Uuid)
  | register (req : RegisterRequest) (token : String) (now : ℕ)
  | sync (req : SyncRequest) (now : ℕ)

/-- The instances and the ports of the start commands. -/
def startedPorts (commands : List Command) : List (Uuid × ℕ) :=
  commands.filterMap fun c =>
    if c.action = .start then c.config.map fun config => (c.instanceId, config.port) else none

/-- One event. -/
def Control.step (env : Env) (c : Control) : ControlEvent → Control
  | .request a =>
    match World.candidate env c.db a with
    | none => c
    | some candidate => { c with db := (commitTo c.db candidate).1 }
  | .autoscaleTick m clock now cooldown =>
    { c with db := (autoscaleTick env.settings m clock now cooldown c.db).session.committed }
  | .deleteWorker id => { c with db := (commitTo c.db (Inferna.deleteWorker c.db id)).1 }
  | .register req token now => { c with db := (serveRegister env c.db req token now).1 }
  | .sync req now =>
    match serveSync env c.db req now with
    | (db, .ok commands) => ⟨db, c.given ++ startedPorts commands⟩
    | (db, .error _) => { c with db := db }

/-- A Sync reports a port that was given for the instance, or none; its states, its details and
the instances it reports are free. -/
def Truthful (c : Control) : ControlEvent → Prop
  | .sync req _ => ∀ st ∈ req.instances, st.port = 0 ∨ (st.instanceId, st.port) ∈ c.given
  | _ => True

instance (c : Control) : (ev : ControlEvent) → Decidable (Truthful c ev)
  | .sync req _ => inferInstanceAs (Decidable (∀ st ∈ req.instances, _))
  | .request _ => isTrue trivial
  | .autoscaleTick _ _ _ _ => isTrue trivial
  | .deleteWorker _ => isTrue trivial
  | .register _ _ _ => isTrue trivial

/-- What was given is what the row has, as long as it is there. -/
def GivenPorts (given : List (Uuid × ℕ)) (db : Db) : Prop :=
  ∀ e ∈ given, e.1 ≤ db.lastUuid ∧ ∀ i ∈ db.instances, i.id = e.1 → i.port.getD 0 = e.2

/-- Rows keep their ports, and new rows have new identifiers. -/
theorem GivenPorts.of_rows {given : List (Uuid × ℕ)} {db db' : Db} (h : GivenPorts given db)
    (huuid : db.lastUuid ≤ db'.lastUuid) (hrows : ∀ j ∈ db'.instances, db.lastUuid < j.id ∨
      ∃ i ∈ db.instances, i.id = j.id ∧ i.port = j.port) : GivenPorts given db' := by
  intro e he
  obtain ⟨hle, hport⟩ := h e he
  refine ⟨le_trans hle huuid, fun j hj hid => ?_⟩
  rcases hrows j hj with hnew | ⟨i, hi, hij, hp⟩
  · exact absurd (hid ▸ hnew) (not_lt.mpr hle)
  · rw [← hp]
    exact hport i hi (hij.trans hid)

theorem GivenPorts.map {given : List (Uuid × ℕ)} {db db' : Db} (h : GivenPorts given db)
    {f : Instance → Instance} (hrows : db'.instances = db.instances.map f)
    (huuid : db'.lastUuid = db.lastUuid)
    (hf : ∀ i ∈ db.instances, (f i).id = i.id ∧ (f i).port = i.port) : GivenPorts given db' := by
  refine h.of_rows (le_of_eq huuid.symm) fun j hj => ?_
  rw [hrows] at hj
  obtain ⟨i, hi, rfl⟩ := List.mem_map.mp hj
  obtain ⟨hid, hport⟩ := hf i hi
  exact Or.inr ⟨i, hi, hid.symm, hport.symm⟩

/-- **A truthful Sync leaves the ports alone.** -/
theorem port_applyStatuses_of_given {given : List (Uuid × ℕ)} {db : Db} (h : GivenPorts given db)
    {req : SyncRequest}
    (htrue : ∀ st ∈ req.instances, st.port = 0 ∨ (st.instanceId, st.port) ∈ given) (w : Uuid)
    {i : Instance} (hi : i ∈ db.instances) : (applyStatuses req w i).port = i.port := by
  have hone : ∀ st ∈ req.statusesOf i.id, st.port = 0 ∨ i.port = some st.port := by
    intro st hst
    obtain ⟨hmem, hid⟩ := List.mem_filter.mp hst
    rw [decide_eq_true_eq] at hid
    rcases htrue st hmem with hzero | hgiven
    · exact Or.inl hzero
    · have hport := (h _ hgiven).2 i hi hid.symm
      cases hp : i.port with
      | none => exact Or.inl (by rw [hp] at hport; exact hport.symm)
      | some p => exact Or.inr (by rw [hp] at hport; exact congrArg some hport)
  have hfold : ∀ (sts : List InstanceStatus), (∀ st ∈ sts, st.port = 0 ∨ i.port = some st.port) →
      ∀ j : Instance, j.port = i.port → (sts.foldl applyStatus j).port = i.port := by
    intro sts
    induction sts with
    | nil => intro _ j hj; exact hj
    | cons st sts ih =>
      intro hsts j hj
      refine ih (fun x hx => hsts x (List.mem_cons_of_mem st hx)) _ ?_
      unfold applyStatus
      simp only
      split
      · exact hj
      · rename_i hne
        rcases hsts st List.mem_cons_self with hzero | hsome
        · exact absurd hzero hne
        · exact hsome.symm
  unfold applyStatuses
  split
  · exact hfold _ hone i rfl
  · rfl

/-! ### Every step -/

/-- What every state of a run satisfies. -/
structure ControlInv (c : Control) : Prop where
  keyed : c.db.Keyed
  catalog : c.db.Catalog
  homed : c.db.Homed
  given : GivenPorts c.given c.db

/-- Nothing changes the catalog. -/
theorem models_of_moves {s : Settings} {db db' : Db} (h : Moves s db db') :
    db'.models = db.models := by
  induction h with
  | refl => rfl
  | tail _ hmove ih =>
    rw [← ih]
    cases hmove with
    | stop p => rfl
    | place h => exact h.models
    | tables _ _ hmodels _ _ => exact hmodels
    | disconnect now => rfl

/-- Moves that keep rows homed keep the invariant. -/
theorem ControlInv.moves {c : Control} (h : ControlInv c) {s : Settings} {db : Db}
    (hmoves : Moves s c.db db) (hhomed : db.Homed) : ControlInv { c with db := db } := by
  have hfrom := rowsFrom_of_moves hmoves
  have hmodels := models_of_moves hmoves
  refine ⟨hmoves.preserves (fun _ _ => keyed_of_move) h.keyed, ⟨?_, ?_⟩, hhomed, ?_⟩
  · rw [hmodels]
    exact h.catalog.ids
  · rw [hmodels]
    exact h.catalog.names
  · refine h.given.of_rows hfrom.1 fun j hj => ?_
    rcases hfrom.2 j hj with hnew | ⟨i, hi, hid, -, hport⟩
    · exact Or.inl hnew
    · exact Or.inr ⟨i, hi, hid, hport⟩

/-- A request that commits keeps the invariant. -/
theorem controlInv_request {env : Env} {c : Control} (h : ControlInv c) {a : Step} {db : Db}
    (hok : World.candidate env c.db a = some (.ok db)) : ControlInv { c with db := db } := by
  have hhomed := homed_candidate h.keyed.workers h.homed hok
  by_cases ha : a.isRestart = true
  · cases a with
    | restart id =>
      obtain rfl := restartInstance_ok (Option.some.inj hok)
      refine ⟨?_, ⟨h.catalog.ids, h.catalog.names⟩, hhomed, ?_⟩
      · exact h.keyed.map_instances (updateWhere_id (p := (·.id = id)) (f := Instance.restart)
          (fun _ => rfl)) rfl h.keyed.workers rfl rfl
      · refine h.given.map rfl rfl fun i _ => ?_
        split <;> exact ⟨rfl, rfl⟩
    | _ => cases ha
  · exact h.moves (moves_candidate h.keyed.workers (by simpa using ha) hok) hhomed

theorem controlInv_deleteWorker {c : Control} (h : ControlInv c) {id : Uuid} {db : Db}
    (hok : deleteWorker c.db id = .ok db) : ControlInv { c with db := db } := by
  have hhomed := homed_deleteWorker h.homed hok
  have hdetach : ∀ i, (detach id i).id = i.id ∧ (detach id i).port = i.port := by
    intro i
    unfold detach
    split_ifs <;> exact ⟨rfl, rfl⟩
  obtain rfl := deleteWorker_ok hok
  refine ⟨?_, ⟨h.catalog.ids, h.catalog.names⟩, hhomed, ?_⟩
  · exact h.keyed.map_instances (fun i => (hdetach i).1) rfl
      ((List.filter_sublist.map _).nodup h.keyed.workers) rfl rfl
  · exact h.given.map rfl rfl fun i _ => hdetach i

theorem controlInv_register {env : Env} {c : Control} (h : ControlInv c) (req : RegisterRequest)
    (token : String) (now : ℕ) :
    ControlInv { c with db := (serveRegister env c.db req token now).1 } := by
  unfold serveRegister
  split
  · exact h
  · rename_i db id hreg
    split
    · exact h
    · exact h.moves (moves_registerWorker hreg) (homed_registerWorker h.homed hreg)

/-- The worker that a Sync authenticates as has a row. -/
theorem mem_of_syncAuth {sha : String → String} {db : Db} {req : SyncRequest} {w : Worker}
    (h : syncAuth sha db req = .ok w) : w ∈ db.workers := by
  obtain ⟨id, -, hfind, -⟩ := syncAuth_eq_ok.mp h
  exact List.mem_of_find?_eq_some hfind

/-- A Sync is answered with an error and changes nothing, or is stored for a worker. -/
theorem serveSync_cases (env : Env) (db : Db) (req : SyncRequest) (now : ℕ) :
    (∃ e, serveSync env db req now = (db, .error e)) ∨ ∃ w ∈ db.workers,
      serveSync env db req now = (storeReports db req w.id now,
        .ok (buildCommands (storeReports db req w.id now) req w.id)) := by
  unfold serveSync syncWorker
  cases hauth : syncAuth env.sha256Hex db req with
  | error e => exact Or.inl ⟨e, rfl⟩
  | ok w =>
    by_cases hstate : db.instances.any (refusedState req w.id) = true
    · exact Or.inl ⟨_, by simp only [hstate, if_true]; rfl⟩
    · simp only [hstate]
      cases hviolation : (storeReports db req w.id now).violation with
      | some con => exact Or.inl ⟨.integrity con, by simp [hviolation]⟩
      | none => exact Or.inr ⟨w, mem_of_syncAuth hauth, by simp [hviolation]⟩

/-- **The start commands give the ports of the rows.** -/
theorem given_startedPorts {db : Db} (hk : db.Keyed) (req : SyncRequest) (w : Uuid) :
    GivenPorts (startedPorts (buildCommands db req w)) db := by
  intro e he
  obtain ⟨cmd, hcmd, hport⟩ := List.mem_filterMap.mp he
  split_ifs at hport with hstart
  obtain ⟨i, hi, -, -, hid, hconfig⟩ := start_mem_buildCommands hcmd hstart
  rw [hconfig, Option.map_some, Option.some.injEq] at hport
  subst hport
  rw [hid]
  refine ⟨hk.bound i hi, fun j hj hjid => ?_⟩
  rw [hk.eq_of_id hj hi hjid, engineConfig_port]

theorem controlInv_sync {c : Control} (h : ControlInv c) {req : SyncRequest}
    (htrue : ∀ st ∈ req.instances, st.port = 0 ∨ (st.instanceId, st.port) ∈ c.given) {w : Worker}
    (hw : w ∈ c.db.workers) (now : ℕ) :
    ControlInv ⟨storeReports c.db req w.id now,
      c.given ++ startedPorts (buildCommands (storeReports c.db req w.id now) req w.id)⟩ := by
  have hports := fun i hi => @port_applyStatuses_of_given c.given c.db h.given req htrue w.id i hi
  have hkeyed := keyed_storeReports h.keyed req w.id now
  have hold : GivenPorts c.given (storeReports c.db req w.id now) :=
    h.given.map rfl rfl fun i hi =>
      ⟨applyStatuses_keeps (·.id) (fun _ _ => rfl) req w.id i, hports i hi⟩
  refine ⟨hkeyed, ⟨h.catalog.ids, h.catalog.names⟩, homed_storeReports h.homed hw hports, ?_⟩
  intro e he
  rcases List.mem_append.mp he with he | he
  · exact hold e he
  · exact given_startedPorts hkeyed req w.id e he

/-- **Every event keeps the invariant**, if Syncs are truthful. -/
theorem controlInv_step {env : Env} {c : Control} (h : ControlInv c) {ev : ControlEvent}
    (hok : Truthful c ev) : ControlInv (c.step env ev) := by
  cases ev with
  | request a =>
    simp only [Control.step]
    cases hc : World.candidate env c.db a with
    | none => exact h
    | some candidate =>
      refine preserves_commitTo (fun db => ControlInv { c with db := db }) h ?_
      rintro db rfl
      exact controlInv_request h hc
  | autoscaleTick m clock now cooldown =>
    have hmoves := (@moves_tick env.settings m clock now cooldown _ h.keyed.workers).committed
    have hhomed := @preserves_tick env.settings m clock now cooldown
      (fun db => (db.workers.map (·.id)).Nodup ∧ db.Homed) c.db
      (fun d _ db target hdb => ⟨nodup_of_moves (moves_applyScale env.settings d.load target false
        clock hdb.1) hdb.1, homed_applyScale env.settings d.load target false clock hdb.1 hdb.2⟩)
      ⟨h.keyed.workers, h.homed⟩
    exact h.moves hmoves hhomed.2
  | deleteWorker id =>
    exact preserves_commitTo (fun db => ControlInv { c with db := db }) h
      fun _ => controlInv_deleteWorker h
  | register req token now => exact controlInv_register h req token now
  | sync req now =>
    simp only [Control.step]
    rcases serveSync_cases env c.db req now with ⟨e, heq⟩ | ⟨w, hw, heq⟩
    · rw [heq]
      exact h
    · rw [heq]
      exact controlInv_sync h hok hw now

/-- A freshly installed server with a catalog. -/
structure Control.Initial (c : Control) : Prop where
  catalog : c.db.Catalog
  workers : c.db.workers = []
  deployments : c.db.deployments = []
  instances : c.db.instances = []
  given : c.given = []

theorem Control.Initial.inv {c : Control} (h : c.Initial) : ControlInv c where
  keyed := by
    refine ⟨?_, ?_, ?_, ?_⟩
    · rw [h.workers]
      exact List.nodup_nil
    · rw [h.instances]
      exact List.nodup_nil
    · rw [h.instances]
      exact fun _ hi => absurd hi List.not_mem_nil
    · rw [h.deployments]
      exact List.nodup_nil
  catalog := h.catalog
  homed := by
    unfold Db.Homed
    rw [h.instances]
    exact fun _ hi => absurd hi List.not_mem_nil
  given := by
    unfold GivenPorts
    rw [h.given]
    exact fun _ he => absurd he List.not_mem_nil

/-- **Listed models are exactly the routable ones**: after every run, a name is in the list
exactly if a request for it selects an instance, whatever the counters and the prefix index
say. -/
theorem listed_iff_routable (env : Env) (displayLe : Model → Model → Prop)
    [DecidableRel displayLe] (c : Control) (h0 : c.Initial) (evs : List ControlEvent)
    (hok : Run.Conforms (Control.step env) Truthful c evs) (s : Routing) (overlap : Uuid → ℕ)
    (name : String) :
    name ∈ (listModels displayLe (Run.exec (Control.step env) c evs).db).map (·.id) ↔
      ∃ target, selectTarget s overlap (Run.exec (Control.step env) c evs).db name = .ok target := by
  have hinv := Run.invariant_of_conforms ControlInv (fun _ _ h hok => controlInv_step h hok) evs c
    h0.inv hok
  rw [listed_iff, selectTarget_ok_iff hinv.homed hinv.keyed.workers hinv.catalog]

/-- A worker joins, gets an instance of the model and reports it running. -/
def listingRun : List ControlEvent :=
  [.register loopRequest "token" 0,
    .sync { workerId := some 1, workerToken := "token", gpus := [⟨0, .nvidia, 10⟩] } 1,
    .request sampleDeploy,
    .sync { workerId := some 1, workerToken := "token", gpus := [⟨0, .nvidia, 10⟩] } 2,
    .sync { workerId := some 1, workerToken := "token", gpus := [⟨0, .nvidia, 10⟩],
            instances := [{ instanceId := 3, state := .of .running, port := 8010,
                            generation := 1 }] } 3]

theorem listed_iff_routable_sample :
    (Run.exec (Control.step sampleEnv) ⟨sampleWorld.db, []⟩ listingRun).given = [(3, 8010)] ∧
    ∃ target, selectTarget {} (fun _ => 0)
      (Run.exec (Control.step sampleEnv) ⟨sampleWorld.db, []⟩ listingRun).db "llama" =
        .ok target :=
  ⟨by decide +kernel,
    (listed_iff_routable sampleEnv (fun a b => a.id ≤ b.id) ⟨sampleWorld.db, []⟩
      ⟨⟨by decide, by decide⟩, rfl, rfl, rfl, rfl⟩ listingRun (by decide +kernel) {} (fun _ => 0)
      "llama").mp (by decide +kernel)⟩

end Inferna
