import Inferna.Models
import Inferna.Lib.Text

/-!
# The scheduler

`services/scheduler.py`: GPU best-fit placement and host-port allocation.  Each
allocator reads the tables and answers with placements or with the HTTP error
the API returns; none of them writes.

A Python loop that keeps the first strictly better candidate is `List.argmin` or
`List.argmax`, which keep the earliest of equally good ones.

## Main definitions

* `gpuUsage` — `_gpu_usage`, the memory the given rows use on each GPU.
* `allocPort`, `allocRendezvousPort` — the lowest free port of a range.
* `allocateManual`, `allocateReplicas`, `allocateParallelReplicas` — the three
  placement paths.
* `rendezvousHost` — the bare host every rank dials.

## Main results

* `getD_gpuUsage` — a GPU's usage is the sum over the rows that list it.
* `allocPort_spec` — the port handed out is in the range and not in use.
* `allocateParallelReplicas_ok` — what a placed group is made of.
-/

namespace Inferna

/-! ### What the database says about a worker -/

/-- `_live_instances`: the worker's rows in a live state. -/
def liveInstances (db : Db) (workerId : Uuid) : List Instance :=
  db.instances.filter fun i => i.workerId = some workerId ∧ i.state.isLive

/-- `_port_instances`: the worker's rows that reserve their port. -/
def portInstances (db : Db) (workerId : Uuid) : List Instance :=
  db.instances.filter fun i => i.workerId = some workerId ∧ i.portReserved

/-- Add one row to the usage table: its model's memory on each GPU it lists. -/
def addUsage (db : Db) (usage : Dict ℕ ℕ) (i : Instance) : Dict ℕ ℕ :=
  i.gpuIndexes.foldl (fun u index => u.set index (u.getD index 0 + db.vramOf i)) usage

/-- `_gpu_usage`. -/
def gpuUsage (db : Db) (instances : List Instance) : Dict ℕ ℕ :=
  instances.foldl (addUsage db) Dict.empty

theorem getD_addUsage (db : Db) (usage : Dict ℕ ℕ) (i : Instance) (index : ℕ) :
    (addUsage db usage i).getD index 0 =
      usage.getD index 0 + i.gpuIndexes.count index * db.vramOf i := by
  unfold addUsage
  induction i.gpuIndexes generalizing usage with
  | nil => simp
  | cons j js ih =>
    rw [List.foldl_cons, ih, List.count_cons]
    simp only [Dict.getD, Dict.get?_set]
    by_cases h : j = index
    · subst h
      simp only [beq_self_eq_true, if_true, Option.getD_some]
      ring
    · simp [h, beq_eq_false_iff_ne.mpr h]

/-- **A GPU's usage is the sum over the rows**, each as often as it lists the GPU. -/
theorem getD_gpuUsage (db : Db) (instances : List Instance) (index : ℕ) :
    (gpuUsage db instances).getD index 0 =
      (instances.map fun i => i.gpuIndexes.count index * db.vramOf i).sum := by
  have hgen : ∀ (is : List Instance) (usage : Dict ℕ ℕ),
      (is.foldl (addUsage db) usage).getD index 0 =
        usage.getD index 0 + (is.map fun i => i.gpuIndexes.count index * db.vramOf i).sum := by
    intro is
    induction is with
    | nil => intro usage; simp
    | cons i is ih =>
      intro usage
      rw [List.foldl_cons, ih, getD_addUsage, List.map_cons, List.sum_cons, Nat.add_assoc]
  have := hgen instances Dict.empty
  simpa [gpuUsage, Dict.getD] using this

/-! ### Ports -/

/-- `{i.port for i in instances if i.port}`. -/
def usedPorts (instances : List Instance) : List ℕ :=
  instances.filterMap fun i => i.port.filter (· ≠ 0)

/-- `_alloc_port`: the lowest port of the range that no row and no earlier
placement of the call uses. -/
def allocPort (s : Settings) (instances : List Instance) (extra : List ℕ) :
    Except ServerError ℕ :=
  match s.instancePortRange.find? fun p => p ∉ usedPorts instances ∧ p ∉ extra with
  | some p => .ok p
  | none => .error (.http 400 "no free host port in instance port range")

/-- The port of a `host:port` rendezvous, when it has one. -/
def rendezvousPortOf (rendezvous : String) : Option ℕ :=
  match Text.rpartition ':' rendezvous.toList with
  | some (_, port) => if Text.isDigits port then some (Text.digitsValue port) else none
  | none => none

/-- `_alloc_rendezvous_port`: also clear of the rendezvous ports of the head's host. -/
def allocRendezvousPort (s : Settings) (instances : List Instance) : Except ServerError ℕ :=
  let used := usedPorts instances ++ instances.filterMap fun i => i.rendezvous.bind rendezvousPortOf
  match s.rendezvousPortRange.find? fun p => p ∉ used with
  | some p => .ok p
  | none => .error (.http 400 "no free rendezvous port in range")

/-- **The port handed out is in the range, and neither a given row nor an
earlier placement of the call uses it.** -/
theorem allocPort_spec {s : Settings} {instances : List Instance} {extra : List ℕ} {p : ℕ}
    (h : allocPort s instances extra = .ok p) :
    p ∈ s.instancePortRange ∧ p ∉ extra ∧ ∀ i ∈ instances, i.port = some p → p = 0 := by
  unfold allocPort at h
  cases hf : s.instancePortRange.find? fun p => p ∉ usedPorts instances ∧ p ∉ extra with
  | none => rw [hf] at h; cases h
  | some q =>
    rw [hf] at h
    injection h with h
    subst h
    have hq := List.find?_some hf
    rw [decide_eq_true_eq] at hq
    refine ⟨List.mem_of_find?_eq_some hf, hq.2, ?_⟩
    intro i hi hport
    by_contra hne
    exact hq.1 (List.mem_filterMap.mpr ⟨i, hi, by simp [hport, Option.filter, hne]⟩)

/-! ### Workers and candidates -/

/-- `_connected_workers`: the cluster's connected workers, by name. -/
def connectedWorkers (db : Db) (clusterId : Uuid) : List Worker :=
  (db.workers.filter fun w => w.clusterId = clusterId ∧ w.state = .connected).insertionSort
    fun v w => v.name ≤ w.name

/-- `Worker.gpus`: the GPU rows, ordered by index. -/
def Worker.gpusByIndex (w : Worker) : List Gpu :=
  w.gpus.insertionSort fun g h => g.index ≤ h.index

/-- The worker's GPUs of a vendor the engine supports. -/
def supportedGpus (engine : Engine) (w : Worker) : List Gpu :=
  w.gpusByIndex.filter fun g => g.vendor ∈ engineVendors engine

/-- A GPU that fits, with its free memory: the `(free_mb, worker, gpu_index)` of
the source. -/
structure Candidate where
  free : ℤ
  worker : Worker
  gpuIndex : ℕ
  deriving DecidableEq, Repr, Inhabited

theorem mem_connectedWorkers {db : Db} {clusterId : Uuid} {w : Worker} :
    w ∈ connectedWorkers db clusterId ↔
      w ∈ db.workers ∧ w.clusterId = clusterId ∧ w.state = .connected := by
  unfold connectedWorkers
  rw [(List.perm_insertionSort _ _).mem_iff, List.mem_filter, decide_eq_true_eq]

/-- The connected workers are different ones. -/
theorem nodup_connectedWorkers {db : Db} {clusterId : Uuid}
    (hkeys : (db.workers.map (·.id)).Nodup) :
    ((connectedWorkers db clusterId).map (·.id)).Nodup := by
  unfold connectedWorkers
  rw [((List.perm_insertionSort _ _).map _).nodup_iff]
  exact (List.Sublist.map _ List.filter_sublist).nodup hkeys

theorem mem_supportedGpus {engine : Engine} {w : Worker} {g : Gpu} :
    g ∈ supportedGpus engine w ↔ g ∈ w.gpus ∧ g.vendor ∈ engineVendors engine := by
  unfold supportedGpus Worker.gpusByIndex
  rw [List.mem_filter, (List.perm_insertionSort _ _).mem_iff, decide_eq_true_eq]

/-! ### Manual placement -/

/-- One placement of a single-node replica: the worker, its GPUs, the host port. -/
structure Allocation where
  worker : Worker
  gpuIndexes : List ℕ
  port : ℕ
  deriving DecidableEq, Repr, Inhabited

/-- `gpus_by_index[index]`; the last row of an index wins. -/
def Worker.gpuAt (w : Worker) (index : ℕ) : Option Gpu :=
  w.gpusByIndex.reverse.find? (·.index = index)

/-- The first requested index whose GPU an engine does not support, with the vendor. -/
def unsupportedIndex (w : Worker) (engine : Engine) (gpuIndexes : List ℕ) : Option Gpu :=
  (gpuIndexes.filterMap w.gpuAt).find? fun g => g.vendor ∉ engineVendors engine

/-- The first requested GPU without enough free memory. -/
def unfitIndex (db : Db) (w : Worker) (vramRequiredMb : ℕ) (gpuIndexes : List ℕ) : Option Gpu :=
  (gpuIndexes.filterMap w.gpuAt).find? fun g =>
    (g.vramMb : ℤ) - (gpuUsage db (liveInstances db w.id)).getD g.index 0 < vramRequiredMb

/-- `allocate_manual`. -/
def allocateManual (s : Settings) (db : Db) (clusterId workerId : Uuid) (gpuIndexes : List ℕ)
    (vramRequiredMb : ℕ) (engine : Engine) : Except ServerError Allocation :=
  match db.findWorker workerId with
  | none => .error (.http 400 "worker not found or not connected")
  | some worker =>
    if worker.state ≠ .connected then
      .error (.http 400 "worker not found or not connected")
    else if worker.clusterId ≠ clusterId then
      .error (.http 400 "worker does not belong to cluster")
    else
      match gpuIndexes.find? fun index => (worker.gpuAt index).isNone with
      | some index => .error (.http 400 s!"worker has no GPU index {index}")
      | none =>
        match unsupportedIndex worker engine gpuIndexes with
        | some gpu =>
          .error (.http 400 ("engine " ++ engine.text ++ " not supported on " ++ gpu.vendor.text ++
            " GPU"))
        | none =>
          match unfitIndex db worker vramRequiredMb gpuIndexes with
          | some gpu =>
            .error (.http 400 ("GPU " ++ toString gpu.index ++ " does not fit " ++
              toString vramRequiredMb ++ " MB"))
          | none =>
            match allocPort s (portInstances db worker.id) [] with
            | .error e => .error e
            | .ok port => .ok ⟨worker, gpuIndexes.dedup.insertionSort (· ≤ ·), port⟩

/-! ### Replicas with anti-affinity -/

/-- The order of the free memories, picked so that `argmin` over them computes. -/
local instance (priority := high) intPreorder : Preorder ℤ := Int.instLinearOrder.toPreorder

/-- The loop state of `allocate_replicas`. -/
structure ReplicaLoop where
  used : List (Uuid × ℕ)
  usedWorkers : List Uuid
  /-- Memory committed by this call so far. -/
  pendingVram : Dict (Uuid × ℕ) ℕ
  /-- All ports handed out by this call. -/
  callPorts : List ℕ
  allocations : List Allocation

/-- The free memory of a GPU, less what this call has committed on it. -/
def freeVram (db : Db) (pendingVram : Dict (Uuid × ℕ) ℕ) (w : Worker) (g : Gpu) : ℤ :=
  (g.vramMb : ℤ) - (gpuUsage db (liveInstances db w.id)).getD g.index 0 -
    pendingVram.getD (w.id, g.index) 0

/-- The GPUs that fit, in the order `_best` visits them. -/
def fittingCandidates (db : Db) (engine : Engine) (vramRequiredMb : ℕ)
    (pendingVram : Dict (Uuid × ℕ) ℕ) (workers : List Worker)
    (allowed : Worker → Gpu → Bool) : List Candidate :=
  workers.flatMap fun w => (supportedGpus engine w).filterMap fun g =>
    if allowed w g ∧ (vramRequiredMb : ℤ) ≤ freeVram db pendingVram w g then
      some ⟨freeVram db pendingVram w g, w, g.index⟩
    else none

/-- `_best`: the allowed GPU with the least free memory that fits. -/
def bestCandidate (db : Db) (engine : Engine) (vramRequiredMb : ℕ)
    (pendingVram : Dict (Uuid × ℕ) ℕ) (workers : List Worker)
    (allowed : Worker → Gpu → Bool) : Option Candidate :=
  List.argmin Candidate.free
    (fittingCandidates db engine vramRequiredMb pendingVram workers allowed)

/-- The three passes: a fresh worker, a fresh GPU, any fitting GPU. -/
def pickCandidate (db : Db) (engine : Engine) (vramRequiredMb : ℕ) (workers : List Worker)
    (st : ReplicaLoop) : Option Candidate :=
  let best := bestCandidate db engine vramRequiredMb st.pendingVram workers
  match best fun w _ => w.id ∉ st.usedWorkers with
  | some c => some c
  | none =>
    match best fun w g => (w.id, g.index) ∉ st.used with
    | some c => some c
    | none => best fun _ _ => true

/-- Place replica `i` of `count`. -/
def placeReplica (s : Settings) (db : Db) (engine : Engine) (vramRequiredMb count : ℕ)
    (workers : List Worker) (st : ReplicaLoop) (i : ℕ) : Except ServerError ReplicaLoop :=
  match pickCandidate db engine vramRequiredMb workers st with
  | none => .error (.http 400 s!"no GPU with enough free VRAM for replica {i} of {count}")
  | some best =>
    match allocPort s (portInstances db best.worker.id) st.callPorts with
    | .error e => .error e
    | .ok port =>
      let key := (best.worker.id, best.gpuIndex)
      .ok {
        used := st.used ++ [key]
        usedWorkers := st.usedWorkers ++ [best.worker.id]
        pendingVram := st.pendingVram.set key (st.pendingVram.getD key 0 + vramRequiredMb)
        callPorts := st.callPorts ++ [port]
        allocations := st.allocations ++ [⟨best.worker, [best.gpuIndex], port⟩] }

/-- A round takes the candidate of the passes, and a port of its worker. -/
theorem placeReplica_eq_ok {s : Settings} {db : Db} {engine : Engine} {vramRequiredMb count : ℕ}
    {workers : List Worker} {st st' : ReplicaLoop} {i : ℕ}
    (h : placeReplica s db engine vramRequiredMb count workers st i = .ok st') :
    ∃ best port, pickCandidate db engine vramRequiredMb workers st = some best ∧
      allocPort s (portInstances db best.worker.id) st.callPorts = .ok port ∧
      st' = {
        used := st.used ++ [(best.worker.id, best.gpuIndex)]
        usedWorkers := st.usedWorkers ++ [best.worker.id]
        pendingVram := st.pendingVram.set (best.worker.id, best.gpuIndex)
          (st.pendingVram.getD (best.worker.id, best.gpuIndex) 0 + vramRequiredMb)
        callPorts := st.callPorts ++ [port]
        allocations := st.allocations ++ [⟨best.worker, [best.gpuIndex], port⟩] } := by
  unfold placeReplica at h
  split at h
  · cases h
  · rename_i best hbest
    split at h
    · cases h
    · rename_i port hport
      exact ⟨best, port, hbest, hport, (Except.ok.inj h).symm⟩

/-- `allocate_replicas`. -/
def allocateReplicas (s : Settings) (db : Db) (clusterId : Uuid) (vramRequiredMb : ℕ)
    (engine : Engine) (count : ℕ) (used : List (Uuid × ℕ)) :
    Except ServerError (List Allocation) :=
  let workers := connectedWorkers db clusterId
  if workers = [] then .error (.http 400 "no connected workers in cluster")
  else
    let init : ReplicaLoop := ⟨used, used.map (·.1), Dict.empty, [], []⟩
    ((List.range' 1 count).foldlM (placeReplica s db engine vramRequiredMb count workers) init).map
      (·.allocations)

/-! ### Parallel groups -/

/-- One rank of a parallel group.  Only the head carries the two ports. -/
structure ParallelAllocation where
  worker : Worker
  gpuIndexes : List ℕ
  nodeRank : ℕ
  instancePort : Option ℕ := none
  rendezvousPort : Option ℕ := none
  deriving DecidableEq, Repr, Inhabited

/-- The host of a host and a port: between brackets, or before the only colon. -/
def bareHost (isDigit : Char → Bool) : List Char → List Char
  | '[' :: rest => Text.before ']' rest
  | raw =>
    match Text.rpartition ':' raw with
    | some (host, port) =>
      if !port.isEmpty && port.all isDigit && !host.isEmpty && !host.contains ':' then host
      else raw
    | none => raw

/-- `rendezvous_host`: the bare host of an address, with `c.isdigit()`. -/
def rendezvousHostBy (isDigit : Char → Bool) (address : Option String) (fallback : String) :
    String :=
  let stripped := Text.strip (address.getD "").toList
  let raw := if stripped.isEmpty then Text.strip fallback.toList else stripped
  let raw := Text.dropPrefixCI "https://".toList (Text.dropPrefixCI "http://".toList raw)
  String.ofList (bareHost isDigit (Text.before '#' (Text.before '?' (Text.before '/' raw))))

/-- `rendezvous_host` on hosts with ASCII ports. -/
def rendezvousHost : Option String → String → String := rendezvousHostBy Char.isDigit

/-- `_best_fitting_gpu`: the worker's largest fitting GPU of a supported vendor. -/
def bestFittingGpu (db : Db) (engine : Engine) (vramRequiredMb : ℕ) (w : Worker) :
    Option Candidate :=
  List.argmax Candidate.free
    (fittingCandidates db engine vramRequiredMb Dict.empty [w] fun _ _ => true)

/-- `_order`: more free memory first, then by name. -/
def rankOrder (a b : Candidate) : Prop :=
  b.free < a.free ∨ (a.free = b.free ∧ a.worker.name ≤ b.worker.name)

instance : DecidableRel rankOrder := fun _ _ => inferInstanceAs (Decidable (_ ∨ _))

/-- The worker has a routable address. -/
def Worker.hasAddress (w : Worker) : Bool := w.address.any (· ≠ "")

/-- The hosts of a group, head first. -/
def chooseHosts (fitting : List Candidate) (nodesPerReplica : ℕ) : List Candidate :=
  match (fitting.filter (·.worker.hasAddress)).insertionSort rankOrder with
  | [] => []
  | head :: _ =>
    head :: ((fitting.filter (·.worker.id ≠ head.worker.id)).insertionSort rankOrder).take
      (nodesPerReplica - 1)

/-- `allocate_parallel_replicas`: one rank per host, the head first. -/
def allocateParallelReplicas (s : Settings) (db : Db) (clusterId : Uuid) (vramRequiredMb : ℕ)
    (engine : Engine) (nodesPerReplica : ℕ) (excludeWorkerIds : List Uuid) :
    Except ServerError (List ParallelAllocation) :=
  let connected := connectedWorkers db clusterId
  let workers := connected.filter (·.id ∉ excludeWorkerIds)
  if connected = [] then .error (.http 400 "no connected workers in cluster")
  else if workers = [] then .error (.http 400 "no free hosts left for another parallel group")
  else
    let fitting := workers.filterMap (bestFittingGpu db engine vramRequiredMb)
    match chooseHosts fitting nodesPerReplica with
    | [] =>
      .error (.http 400 "no connected worker with a routable address for the rendezvous head")
    | head :: others =>
      if fitting.length < nodesPerReplica then
        .error (.http 400 ("multi-node deploy needs " ++ toString nodesPerReplica ++
          " hosts with " ++ toString vramRequiredMb ++ " MB free, " ++ toString fitting.length ++
          " available"))
      else
        let headInstances := portInstances db head.worker.id
        match allocPort s headInstances [] with
        | .error e => .error e
        | .ok instancePort =>
          match allocRendezvousPort s headInstances with
          | .error e => .error e
          | .ok rendezvousPort =>
            .ok (⟨head.worker, [head.gpuIndex], 0, some instancePort, some rendezvousPort⟩ ::
              others.mapIdx fun k c => ⟨c.worker, [c.gpuIndex], k + 1, none, none⟩)

/-- A placed group: enough hosts have a fitting GPU, and the head of those that are chosen has
the two ports. -/
theorem allocateParallelReplicas_ok {s : Settings} {db : Db} {clusterId : Uuid} {vramRequiredMb : ℕ}
    {engine : Engine} {n : ℕ} {exclude : List Uuid} {allocations : List ParallelAllocation}
    (h : allocateParallelReplicas s db clusterId vramRequiredMb engine n exclude =
      .ok allocations) :
    ∃ fitting, fitting = ((connectedWorkers db clusterId).filter (·.id ∉ exclude)).filterMap
        (bestFittingGpu db engine vramRequiredMb) ∧
      n ≤ fitting.length ∧ ∃ head others, chooseHosts fitting n = head :: others ∧
        ∃ instancePort rendezvousPort,
          allocPort s (portInstances db head.worker.id) [] = .ok instancePort ∧
          allocRendezvousPort s (portInstances db head.worker.id) = .ok rendezvousPort ∧
          allocations =
            ⟨head.worker, [head.gpuIndex], 0, some instancePort, some rendezvousPort⟩ ::
              others.mapIdx fun k c => ⟨c.worker, [c.gpuIndex], k + 1, none, none⟩ := by
  unfold allocateParallelReplicas at h
  simp only at h
  split at h
  · cases h
  split at h
  · cases h
  split at h
  · cases h
  rename_i head others hhosts
  split at h
  · cases h
  rename_i hfit
  split at h
  · cases h
  rename_i instancePort hport
  split at h
  · cases h
  rename_i rendezvousPort hrendezvous
  exact ⟨_, rfl, Nat.le_of_not_lt hfit, head, others, hhosts, instancePort, rendezvousPort, hport,
    hrendezvous, (Except.ok.inj h).symm⟩

end Inferna
