import Inferna.Scheduler
import Inferna.Lib.Run

/-!
# What the allocators guarantee

The three placement paths of the scheduler share one contract.  A placement is a
list of slots (a worker, the GPUs it takes there, the host port); the contract
says that the slots fit into the free memory together, that their ports are in
the range and clear of the ports reserved in the tables, and that no two of them
get one port on one worker.

## Main definitions

* `Slot`, `Allocation.slot`, `ParallelAllocation.slot` — the common view of the
  two kinds of allocation.
* `usage` — the memory the live rows use on a GPU.
* `listed` — how often a list of slots takes a GPU.
* `Placed` — the contract.

## Main results

* `placed_allocateManual`, `placed_allocateReplicas`,
  `placed_allocateParallelReplicas` — each path keeps it.
-/

namespace Inferna

/-! ### The contract -/

/-- One placed row: its worker, the GPUs it takes there, its host port. -/
structure Slot where
  workerId : Uuid
  gpuIndexes : List ℕ
  port : Option ℕ

/-- The slot of a single-node placement. -/
def Allocation.slot (a : Allocation) : Slot := ⟨a.worker.id, a.gpuIndexes, some a.port⟩

/-- The slot of one rank of a group. -/
def ParallelAllocation.slot (a : ParallelAllocation) : Slot :=
  ⟨a.worker.id, a.gpuIndexes, a.instancePort⟩

/-- The memory the worker's live rows use on a GPU, as the allocators compute it. -/
def usage (db : Db) (w : Uuid) (index : ℕ) : ℕ := (gpuUsage db (liveInstances db w)).getD index 0

/-- How often the slots take a GPU of a worker. -/
def listed (slots : List Slot) (w : Uuid) (index : ℕ) : ℕ :=
  (slots.map fun sl => if sl.workerId = w then sl.gpuIndexes.count index else 0).sum

@[simp] theorem listed_nil (w : Uuid) (index : ℕ) : listed [] w index = 0 := rfl

@[simp] theorem listed_cons (sl : Slot) (slots : List Slot) (w : Uuid) (index : ℕ) :
    listed (sl :: slots) w index =
      (if sl.workerId = w then sl.gpuIndexes.count index else 0) + listed slots w index := rfl

theorem listed_append (slots slots' : List Slot) (w : Uuid) (index : ℕ) :
    listed (slots ++ slots') w index = listed slots w index + listed slots' w index := by
  simp [listed]

/-- The slots fit: every GPU they take is a GPU of a known worker whose memory
covers what is used already and what the slots add. -/
def Roomy (db : Db) (vramRequiredMb : ℕ) (slots : List Slot) : Prop :=
  ∀ w index, 0 < listed slots w index →
    ∃ v ∈ db.workers, v.id = w ∧ ∃ g ∈ v.gpus, g.index = index ∧
      usage db w index + listed slots w index * vramRequiredMb ≤ g.vramMb

/-- Two slots that do not share a port on one worker. -/
def Slot.Apart (a b : Slot) : Prop := a.workerId = b.workerId → a.port ≠ none → a.port ≠ b.port

/-- **The contract of a placement.** -/
structure Placed (s : Settings) (db : Db) (vramRequiredMb : ℕ) (slots : List Slot) : Prop where
  /-- A slot is on a known worker. -/
  known : ∀ sl ∈ slots, ∃ w ∈ db.workers, w.id = sl.workerId
  /-- The slots fit into the free memory, all together. -/
  roomy : Roomy db vramRequiredMb slots
  /-- A port is in the range. -/
  inRange : ∀ sl ∈ slots, ∀ p, sl.port = some p → p ∈ s.instancePortRange
  /-- A port is not reserved on the worker (port `0` counts as no port). -/
  unreserved : ∀ sl ∈ slots, ∀ p, sl.port = some p →
    ∀ i ∈ portInstances db sl.workerId, i.port = some p → p = 0
  /-- The slots do not share ports. -/
  apart : slots.Pairwise Slot.Apart

/-! ### Manual placement -/

theorem gpuAt_spec {w : Worker} {index : ℕ} {g : Gpu} (h : w.gpuAt index = some g) :
    g ∈ w.gpus ∧ g.index = index := by
  have hmem := List.mem_of_find?_eq_some h
  have hidx := List.find?_some h
  rw [List.mem_reverse, Worker.gpusByIndex, (List.perm_insertionSort _ _).mem_iff] at hmem
  exact ⟨hmem, by simpa using hidx⟩

/-- A requested GPU that no check of `allocate_manual` turned down has the memory. -/
theorem usage_le_of_unfitIndex {db : Db} {w : Worker} {vram : ℕ} {gpuIndexes : List ℕ}
    (hfit : unfitIndex db w vram gpuIndexes = none) {index : ℕ} (hi : index ∈ gpuIndexes) {g : Gpu}
    (hg : w.gpuAt index = some g) : usage db w.id index + vram ≤ g.vramMb := by
  have hall := List.find?_eq_none.mp hfit g (List.mem_filterMap.mpr ⟨index, hi, hg⟩)
  have hidx := (gpuAt_spec hg).2
  rw [decide_eq_true_eq, not_lt, hidx] at hall
  have : (usage db w.id index : ℤ) + vram ≤ g.vramMb := by
    unfold usage
    omega
  exact_mod_cast this

theorem roomy_of_unfitIndex {db : Db} {w : Worker} (hw : w ∈ db.workers) {vram : ℕ}
    {gpuIndexes : List ℕ} (hknown : gpuIndexes.find? (fun index => (w.gpuAt index).isNone) = none)
    (hfit : unfitIndex db w vram gpuIndexes = none) (port : Option ℕ) :
    Roomy db vram [⟨w.id, gpuIndexes.dedup.insertionSort (· ≤ ·), port⟩] := by
  intro v index hpos
  simp only [listed_cons, listed_nil, Nat.add_zero] at hpos ⊢
  by_cases hv : w.id = v
  · rw [if_pos hv] at hpos ⊢
    subst hv
    have hperm := (List.perm_insertionSort (· ≤ ·) gpuIndexes.dedup)
    rw [hperm.count_eq] at hpos ⊢
    have hmem : index ∈ gpuIndexes := List.mem_dedup.mp (List.count_pos_iff.mp hpos)
    -- the index occurs once in the placement, however often it was requested
    have hone : gpuIndexes.dedup.count index = 1 :=
      List.count_eq_one_of_mem (List.nodup_dedup _) (List.count_pos_iff.mp hpos)
    have hsome := List.find?_eq_none.mp hknown index hmem
    obtain ⟨g, hg⟩ : ∃ g, w.gpuAt index = some g := by
      cases hg : w.gpuAt index with
      | none => simp [hg] at hsome
      | some g => exact ⟨g, rfl⟩
    refine ⟨w, hw, rfl, g, (gpuAt_spec hg).1, (gpuAt_spec hg).2, ?_⟩
    rw [hone, one_mul]
    exact usage_le_of_unfitIndex hfit hmem hg
  · rw [if_neg hv] at hpos
    exact absurd hpos (lt_irrefl 0)

/-- A single slot whose port `_alloc_port` handed out meets the port clauses. -/
theorem placed_of_allocPort {s : Settings} {db : Db} {vram port : ℕ} {w : Worker}
    {gpuIndexes : List ℕ} (hw : w ∈ db.workers)
    (hroomy : Roomy db vram [⟨w.id, gpuIndexes, some port⟩])
    (hport : allocPort s (portInstances db w.id) [] = .ok port) :
    Placed s db vram [⟨w.id, gpuIndexes, some port⟩] := by
  obtain ⟨hrange, -, hfree⟩ := allocPort_spec hport
  refine ⟨?_, hroomy, ?_, ?_, List.pairwise_singleton _ _⟩
  · intro sl hsl
    rw [List.mem_singleton] at hsl
    exact ⟨w, hw, hsl ▸ rfl⟩
  · intro sl hsl p hp
    rw [List.mem_singleton] at hsl
    subst hsl
    injection hp with hp
    exact hp ▸ hrange
  · intro sl hsl p hp i hi hip
    rw [List.mem_singleton] at hsl
    subst hsl
    injection hp with hp
    subst hp
    exact hfree i hi hip

/-- **Manual placement keeps the contract.** -/
theorem placed_allocateManual {s : Settings} {db : Db} {clusterId workerId : Uuid}
    {gpuIndexes : List ℕ} {vram : ℕ} {engine : Engine} {a : Allocation}
    (h : allocateManual s db clusterId workerId gpuIndexes vram engine = .ok a) :
    Placed s db vram [a.slot] := by
  unfold allocateManual at h
  split at h
  · cases h
  rename_i w hw
  split at h
  · cases h
  split at h
  · cases h
  split at h
  · cases h
  rename_i hknown
  split at h
  · cases h
  split at h
  · cases h
  rename_i hfit
  split at h
  · cases h
  rename_i port hport
  injection h with h
  subst h
  have hmem : w ∈ db.workers := List.mem_of_find?_eq_some hw
  exact placed_of_allocPort hmem (roomy_of_unfitIndex hmem hknown hfit _) hport

/-! ### Candidates -/

/-- A candidate is a GPU of one of the workers, with room for the model. -/
theorem mem_fittingCandidates {db : Db} {engine : Engine} {vram : ℕ} {pending : Dict (Uuid × ℕ) ℕ}
    {workers : List Worker} {allowed : Worker → Gpu → Bool} {c : Candidate}
    (h : c ∈ fittingCandidates db engine vram pending workers allowed) :
    c.worker ∈ workers ∧ ∃ g ∈ c.worker.gpus, g.index = c.gpuIndex ∧
      usage db c.worker.id c.gpuIndex + pending.getD (c.worker.id, c.gpuIndex) 0 + vram ≤
        g.vramMb := by
  unfold fittingCandidates at h
  rw [List.mem_flatMap] at h
  obtain ⟨w, hw, h⟩ := h
  rw [List.mem_filterMap] at h
  obtain ⟨g, hg, h⟩ := h
  split at h
  · rename_i hcond
    injection h with h
    subst h
    refine ⟨hw, g, (mem_supportedGpus.mp hg).1, rfl, ?_⟩
    have hfree := hcond.2
    unfold freeVram at hfree
    have : (usage db w.id g.index : ℤ) + pending.getD (w.id, g.index) 0 + vram ≤ g.vramMb := by
      unfold usage
      omega
    exact_mod_cast this
  · cases h

theorem mem_of_bestCandidate {db : Db} {engine : Engine} {vram : ℕ}
    {pending : Dict (Uuid × ℕ) ℕ} {workers : List Worker} {allowed : Worker → Gpu → Bool}
    {c : Candidate} (h : bestCandidate db engine vram pending workers allowed = some c) :
    c ∈ fittingCandidates db engine vram pending workers allowed :=
  List.argmin_mem h

/-- Whichever pass picks it, the candidate has room. -/
theorem pickCandidate_spec {db : Db} {engine : Engine} {vram : ℕ} {workers : List Worker}
    {st : ReplicaLoop} {c : Candidate} (h : pickCandidate db engine vram workers st = some c) :
    c.worker ∈ workers ∧ ∃ g ∈ c.worker.gpus, g.index = c.gpuIndex ∧
      usage db c.worker.id c.gpuIndex + st.pendingVram.getD (c.worker.id, c.gpuIndex) 0 + vram ≤
        g.vramMb := by
  unfold pickCandidate at h
  simp only at h
  split at h
  · rename_i hc
    injection h with h
    subst h
    exact mem_fittingCandidates (mem_of_bestCandidate hc)
  split at h
  · rename_i hc
    injection h with h
    subst h
    exact mem_fittingCandidates (mem_of_bestCandidate hc)
  · exact mem_fittingCandidates (mem_of_bestCandidate h)

/-! ### Replicas -/

/-- The slots of the allocations made so far. -/
def ReplicaLoop.slots (st : ReplicaLoop) : List Slot := st.allocations.map Allocation.slot

/-- The invariant of the replica loop: the contract holds of what is placed, and
the loop's own books agree with it. -/
structure ReplicaLoop.Good (s : Settings) (db : Db) (vram : ℕ) (st : ReplicaLoop) : Prop where
  placed : Placed s db vram st.slots
  pending : ∀ w index, st.pendingVram.getD (w, index) 0 = listed st.slots w index * vram
  ports : ∀ sl ∈ st.slots, ∀ p, sl.port = some p → p ∈ st.callPorts

theorem placed_nil (s : Settings) (db : Db) (vram : ℕ) : Placed s db vram [] where
  known := fun _ h => absurd h List.not_mem_nil
  roomy := fun _ _ h => absurd h (lt_irrefl 0)
  inRange := fun _ h => absurd h List.not_mem_nil
  unreserved := fun _ h => absurd h List.not_mem_nil
  apart := List.Pairwise.nil

/-- One more slot on a GPU that has room for it. -/
theorem roomy_append {db : Db} {vram : ℕ} {slots : List Slot} {w : Worker} (hw : w ∈ db.workers)
    {g : Gpu} (hg : g ∈ w.gpus) (hroomy : Roomy db vram slots)
    (hfit : usage db w.id g.index + listed slots w.id g.index * vram + vram ≤ g.vramMb)
    (port : Option ℕ) : Roomy db vram (slots ++ [⟨w.id, [g.index], port⟩]) := by
  intro v index hpos
  rw [listed_append] at hpos ⊢
  simp only [listed_cons, listed_nil, Nat.add_zero, List.count_singleton] at hpos ⊢
  by_cases hkey : w.id = v ∧ g.index = index
  · obtain ⟨rfl, rfl⟩ := hkey
    refine ⟨w, hw, rfl, g, hg, rfl, ?_⟩
    simp only [beq_self_eq_true, if_true]
    calc usage db w.id g.index + (listed slots w.id g.index + 1) * vram
        = usage db w.id g.index + listed slots w.id g.index * vram + vram := by ring
      _ ≤ g.vramMb := hfit
  · -- another GPU: nothing is added there
    have hzero : (if w.id = v then if g.index == index then 1 else 0 else 0) = 0 := by
      by_cases hv : w.id = v
      · have : ¬ g.index = index := fun h => hkey ⟨hv, h⟩
        simp [this]
      · simp [hv]
    rw [hzero, Nat.add_zero] at hpos ⊢
    exact hroomy v index hpos

/-- One more slot, with a port that none of the others has. -/
theorem Placed.snoc {s : Settings} {db : Db} {vram : ℕ} {slots : List Slot}
    (h : Placed s db vram slots) {w : Worker} (hw : w ∈ db.workers) {g : Gpu} (hg : g ∈ w.gpus)
    (hfit : usage db w.id g.index + listed slots w.id g.index * vram + vram ≤ g.vramMb) {port : ℕ}
    (hrange : port ∈ s.instancePortRange)
    (hfree : ∀ i ∈ portInstances db w.id, i.port = some port → port = 0)
    (hfresh : ∀ sl ∈ slots, sl.port ≠ some port) :
    Placed s db vram (slots ++ [⟨w.id, [g.index], some port⟩]) := by
  refine ⟨?_, roomy_append hw hg h.roomy hfit _, ?_, ?_, ?_⟩
  · intro sl hsl
    rw [List.mem_append, List.mem_singleton] at hsl
    rcases hsl with hsl | rfl
    · exact h.known sl hsl
    · exact ⟨w, hw, rfl⟩
  · intro sl hsl p hp
    rw [List.mem_append, List.mem_singleton] at hsl
    rcases hsl with hsl | rfl
    · exact h.inRange sl hsl p hp
    · injection hp with hp
      exact hp ▸ hrange
  · intro sl hsl p hp
    rw [List.mem_append, List.mem_singleton] at hsl
    rcases hsl with hsl | rfl
    · exact h.unreserved sl hsl p hp
    · injection hp with hp
      subst hp
      exact hfree
  · refine List.pairwise_append.mpr ⟨h.apart, List.pairwise_singleton _ _, ?_⟩
    intro sl hsl sl' hsl' _ hne heq
    rw [List.mem_singleton] at hsl'
    subst hsl'
    exact hfresh sl hsl heq

theorem placeReplica_good {s : Settings} {db : Db} {engine : Engine} {vram count : ℕ}
    {workers : List Worker} (hworkers : ∀ w ∈ workers, w ∈ db.workers) {st st' : ReplicaLoop}
    {i : ℕ} (hst : st.Good s db vram)
    (h : placeReplica s db engine vram count workers st i = .ok st') : st'.Good s db vram := by
  obtain ⟨best, port, hbest, hport, rfl⟩ := placeReplica_eq_ok h
  obtain ⟨hw, g, hg, hidx, hfit⟩ := pickCandidate_spec hbest
  obtain ⟨hrange, hfresh, hfree⟩ := allocPort_spec hport
  rw [hst.pending, ← hidx] at hfit
  have hslots : (st.allocations ++ [(⟨best.worker, [best.gpuIndex], port⟩ : Allocation)]).map
      Allocation.slot = st.slots ++ [⟨best.worker.id, [g.index], some port⟩] := by
    rw [List.map_append, hidx]
    rfl
  refine ⟨?_, ?_, ?_⟩ <;> simp only [ReplicaLoop.slots, hslots]
  · -- the new port is none of the call's ports so far
    exact hst.placed.snoc (hworkers _ hw) hg hfit hrange hfree fun sl hsl heq =>
      hfresh (hst.ports sl hsl port heq)
  · intro w index
    rw [listed_append]
    simp only [Dict.getD, Dict.get?_set, listed_cons, listed_nil, Nat.add_zero,
      List.count_singleton]
    by_cases hkey : (best.worker.id, best.gpuIndex) = (w, index)
    · rw [if_pos hkey]
      injection hkey with h1 h2
      subst h1 h2
      have := hst.pending best.worker.id best.gpuIndex
      simp only [Dict.getD] at this
      simp only [Option.getD_some, this, hidx, beq_self_eq_true, if_true]
      change _ = (listed st.slots _ _ + 1) * vram
      ring
    · rw [if_neg hkey]
      have hzero : (if best.worker.id = w then if g.index == index then 1 else 0 else 0) = 0 := by
        by_cases hv : best.worker.id = w
        · have : ¬ g.index = index := fun h => hkey (by rw [hv, ← h, hidx])
          simp [this]
        · simp [hv]
      rw [hzero, Nat.add_zero]
      exact hst.pending w index
  · intro sl hsl p hp
    rw [List.mem_append, List.mem_singleton] at hsl
    rw [List.mem_append, List.mem_singleton]
    rcases hsl with hsl | rfl
    · exact Or.inl (hst.ports sl hsl p hp)
    · injection hp with hp
      exact Or.inr hp.symm

/-- A placement of replicas is what the loop over them has allocated. -/
theorem allocateReplicas_ok {s : Settings} {db : Db} {clusterId : Uuid} {vram : ℕ}
    {engine : Engine} {count : ℕ} {used : List (Uuid × ℕ)} {allocations : List Allocation}
    (h : allocateReplicas s db clusterId vram engine count used = .ok allocations) :
    ∃ st, (List.range' 1 count).foldlM
        (placeReplica s db engine vram count (connectedWorkers db clusterId))
        ⟨used, used.map (·.1), Dict.empty, [], []⟩ = .ok st ∧ st.allocations = allocations := by
  unfold allocateReplicas at h
  simp only at h
  split at h
  · cases h
  cases hfold : (List.range' 1 count).foldlM
      (placeReplica s db engine vram count (connectedWorkers db clusterId))
      ⟨used, used.map (·.1), Dict.empty, [], []⟩ with
  | error e => rw [hfold] at h; cases h
  | ok st =>
    rw [hfold] at h
    injection h with h
    exact ⟨st, rfl, h⟩

/-- **Anti-affine placement keeps the contract.** -/
theorem placed_allocateReplicas {s : Settings} {db : Db} {clusterId : Uuid} {vram : ℕ}
    {engine : Engine} {count : ℕ} {used : List (Uuid × ℕ)} {allocations : List Allocation}
    (h : allocateReplicas s db clusterId vram engine count used = .ok allocations) :
    Placed s db vram (allocations.map Allocation.slot) := by
  obtain ⟨st, hfold, rfl⟩ := allocateReplicas_ok h
  have hinit : (⟨used, used.map (·.1), Dict.empty, [], []⟩ : ReplicaLoop).Good s db vram :=
    ⟨placed_nil s db vram, fun w index => by simp [ReplicaLoop.slots, Dict.getD],
      fun _ h => absurd h List.not_mem_nil⟩
  have hgood := Run.foldlM_invariant (fun _ st => st.Good s db vram)
    (fun _ _ _ _ hst => placeReplica_good (fun w hw => (mem_connectedWorkers.mp hw).1) hst) _ hinit
    hfold
  exact hgood.placed

/-! ### Parallel groups -/

/-- A host of a group is one of the fitting candidates. -/
theorem mem_of_mem_chooseHosts {fitting : List Candidate} {n : ℕ} {c : Candidate}
    (h : c ∈ chooseHosts fitting n) : c ∈ fitting := by
  unfold chooseHosts at h
  split at h
  · exact absurd h List.not_mem_nil
  rename_i head rest hsort
  rw [List.mem_cons] at h
  rcases h with rfl | h
  · have hmem : c ∈ (fitting.filter (·.worker.hasAddress)).insertionSort rankOrder := by
      rw [hsort]
      exact List.mem_cons_self
    rw [(List.perm_insertionSort _ _).mem_iff] at hmem
    exact List.mem_of_mem_filter hmem
  · have hmem := List.mem_of_mem_take h
    rw [(List.perm_insertionSort _ _).mem_iff] at hmem
    exact List.mem_of_mem_filter hmem

/-- The hosts of a group are different workers. -/
theorem nodup_chooseHosts {fitting : List Candidate} (hnd : (fitting.map (·.worker.id)).Nodup)
    (n : ℕ) : ((chooseHosts fitting n).map (·.worker.id)).Nodup := by
  unfold chooseHosts
  split
  · exact List.nodup_nil
  rename_i head rest hsort
  rw [List.map_cons, List.nodup_cons]
  constructor
  · -- the others were filtered to differ from the head
    intro hmem
    obtain ⟨c, hc, heq⟩ := List.mem_map.mp hmem
    have hc := List.mem_of_mem_take hc
    rw [(List.perm_insertionSort _ _).mem_iff, List.mem_filter, decide_eq_true_eq] at hc
    exact hc.2 heq
  · have hperm := (List.perm_insertionSort rankOrder
      (fitting.filter (·.worker.id ≠ head.worker.id))).map (·.worker.id)
    have hfilter : ((fitting.filter (·.worker.id ≠ head.worker.id)).map (·.worker.id)).Nodup :=
      (List.Sublist.map _ List.filter_sublist).nodup hnd
    exact (List.Sublist.map _ (List.take_sublist _ _)).nodup (hperm.nodup_iff.mpr hfilter)

theorem bestFittingGpu_spec {db : Db} {engine : Engine} {vram : ℕ} {w : Worker} {c : Candidate}
    (h : bestFittingGpu db engine vram w = some c) :
    c.worker = w ∧ ∃ g ∈ w.gpus, g.index = c.gpuIndex ∧
      usage db w.id c.gpuIndex + vram ≤ g.vramMb := by
  obtain ⟨hw, g, hg, hidx, hfit⟩ := mem_fittingCandidates (List.argmax_mem h)
  rw [List.mem_singleton] at hw
  rw [hw] at hg hfit
  simp only [Dict.getD, Dict.get?_empty, Option.getD_none, Nat.add_zero] at hfit
  exact ⟨hw, g, hg, hidx, hfit⟩

/-- The candidates of different workers are on different workers. -/
theorem nodup_filterMap_bestFittingGpu (db : Db) (engine : Engine) (vram : ℕ) {ws : List Worker}
    (hnd : (ws.map (·.id)).Nodup) :
    ((ws.filterMap (bestFittingGpu db engine vram)).map (·.worker.id)).Nodup := by
  induction ws with
  | nil => exact List.nodup_nil
  | cons w ws ih =>
    rw [List.map_cons, List.nodup_cons] at hnd
    rw [List.filterMap_cons]
    cases hc : bestFittingGpu db engine vram w with
    | none => exact ih hnd.2
    | some c =>
      rw [List.map_cons, List.nodup_cons]
      refine ⟨?_, ih hnd.2⟩
      intro hmem
      obtain ⟨c', hc', heq⟩ := List.mem_map.mp hmem
      obtain ⟨w', hw', hbest⟩ := List.mem_filterMap.mp hc'
      rw [(bestFittingGpu_spec hbest).1, (bestFittingGpu_spec hc).1] at heq
      exact hnd.1 (heq ▸ List.mem_map_of_mem hw')

/-- On a worker taken by none of the hosts nothing is listed. -/
theorem listed_eq_zero_of_notMem {slots : List Slot} {w : Uuid}
    (h : w ∉ slots.map (·.workerId)) (index : ℕ) : listed slots w index = 0 := by
  induction slots with
  | nil => rfl
  | cons sl slots ih =>
    rw [List.map_cons, List.mem_cons, not_or] at h
    rw [listed_cons, if_neg (fun heq => h.1 heq.symm), ih h.2]

/-- Single slots on different workers, each with room on its GPU, fit together. -/
theorem roomy_of_nodup {db : Db} {vram : ℕ} {slots : List Slot}
    (hnd : (slots.map (·.workerId)).Nodup)
    (hfit : ∀ sl ∈ slots, ∃ w ∈ db.workers, w.id = sl.workerId ∧ ∃ g ∈ w.gpus,
      sl.gpuIndexes = [g.index] ∧ usage db w.id g.index + vram ≤ g.vramMb) :
    Roomy db vram slots := by
  intro w index hpos
  induction slots with
  | nil => exact absurd hpos (lt_irrefl 0)
  | cons sl slots ih =>
    rw [List.map_cons, List.nodup_cons] at hnd
    obtain ⟨v, hv, hid, g, hg, hsingle, hroom⟩ := hfit sl List.mem_cons_self
    by_cases hw : sl.workerId = w
    · subst hw
      have hrest := listed_eq_zero_of_notMem hnd.1 index
      rw [listed_cons, if_pos rfl, hrest, hsingle, List.count_singleton, Nat.add_zero] at hpos ⊢
      by_cases hidx : g.index = index
      · subst hidx
        refine ⟨v, hv, hid, g, hg, rfl, ?_⟩
        simpa [← hid] using hroom
      · simp [hidx] at hpos
    · rw [listed_cons, if_neg hw, Nat.zero_add] at hpos ⊢
      exact ih hnd.2 (fun sl' h' => hfit sl' (List.mem_cons_of_mem _ h')) hpos

/-- The slots of the ranks after the head. -/
theorem slots_mapIdx (others : List Candidate) :
    (others.mapIdx fun k c => (⟨c.worker, [c.gpuIndex], k + 1, none, none⟩ : ParallelAllocation)).map
      ParallelAllocation.slot = others.map fun c => ⟨c.worker.id, [c.gpuIndex], none⟩ := by
  rw [List.mapIdx_eq_zipIdx_map, List.map_map]
  conv_rhs => rw [← List.zipIdx_map_fst 0 others, List.map_map]
  rfl

/-- **Group placement keeps the contract**, worker ids being a primary key. -/
theorem placed_allocateParallelReplicas {s : Settings} {db : Db} {clusterId : Uuid} {vram : ℕ}
    {engine : Engine} {n : ℕ} {exclude : List Uuid} {allocations : List ParallelAllocation}
    (hkeys : (db.workers.map (·.id)).Nodup)
    (h : allocateParallelReplicas s db clusterId vram engine n exclude = .ok allocations) :
    Placed s db vram (allocations.map ParallelAllocation.slot) := by
  obtain ⟨fitting, rfl, -, head, others, hhosts, port, rendezvousPort, hport, -, rfl⟩ :=
    allocateParallelReplicas_ok h
  set ws := (connectedWorkers db clusterId).filter (·.id ∉ exclude) with hws
  have hsub : ∀ w ∈ ws, w ∈ db.workers := fun w hw =>
    (mem_connectedWorkers.mp (List.mem_of_mem_filter hw)).1
  have hnd : (ws.map (·.id)).Nodup :=
    (List.Sublist.map _ List.filter_sublist).nodup (nodup_connectedWorkers hkeys)
  have hhostsNd := nodup_chooseHosts (nodup_filterMap_bestFittingGpu db engine vram hnd) n
  rw [hhosts] at hhostsNd
  have hfit : ∀ c ∈ head :: others, ∃ w ∈ db.workers, w.id = c.worker.id ∧ ∃ g ∈ w.gpus,
      [c.gpuIndex] = [g.index] ∧ usage db w.id g.index + vram ≤ g.vramMb := by
    intro c hc
    rw [← hhosts] at hc
    obtain ⟨w, hw, hbest⟩ := List.mem_filterMap.mp (mem_of_mem_chooseHosts hc)
    obtain ⟨hcw, g, hg, hidx, hroom⟩ := bestFittingGpu_spec hbest
    exact ⟨w, hsub w hw, by rw [hcw], g, hg, by rw [hidx], hidx ▸ hroom⟩
  rw [List.map_cons, slots_mapIdx]
  obtain ⟨hrange, -, hfree⟩ := allocPort_spec hport
  refine ⟨?_, ?_, ?_, ?_, ?_⟩
  · intro sl hsl
    rw [List.mem_cons, List.mem_map] at hsl
    rcases hsl with rfl | ⟨c, hc, rfl⟩
    · obtain ⟨w, hw, hid, -⟩ := hfit head List.mem_cons_self
      exact ⟨w, hw, hid⟩
    · obtain ⟨w, hw, hid, -⟩ := hfit c (List.mem_cons_of_mem _ hc)
      exact ⟨w, hw, hid⟩
  · apply roomy_of_nodup
    · simpa [ParallelAllocation.slot, Function.comp_def] using hhostsNd
    · intro sl hsl
      rw [List.mem_cons, List.mem_map] at hsl
      rcases hsl with rfl | ⟨c, hc, rfl⟩
      · exact hfit head List.mem_cons_self
      · exact hfit c (List.mem_cons_of_mem _ hc)
  · intro sl hsl p hp
    rw [List.mem_cons, List.mem_map] at hsl
    rcases hsl with rfl | ⟨c, hc, rfl⟩
    · injection hp with hp
      exact hp ▸ hrange
    · cases hp
  · intro sl hsl p hp
    rw [List.mem_cons, List.mem_map] at hsl
    rcases hsl with rfl | ⟨c, hc, rfl⟩
    · injection hp with hp
      subst hp
      exact hfree
    · cases hp
  · -- only the head has a port
    rw [List.pairwise_cons, List.pairwise_map]
    refine ⟨?_, List.pairwise_of_forall (fun _ _ _ hne => absurd rfl hne)⟩
    intro sl hsl _ _ heq
    obtain ⟨c, hc, rfl⟩ := List.mem_map.mp hsl
    cases heq

end Inferna
