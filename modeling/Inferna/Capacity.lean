import Inferna.Hosts
import Inferna.Lib.Greedy

/-!
# How many replicas fit

`allocate_replicas` chooses one GPU after the other, in three passes with different filters.  A GPU
with free memory `f` has room for `f / v` replicas of size `v`; each choice takes one place out of
that room, and one of the passes makes a choice as long as there is a place anywhere.  So the
number of replicas that can be placed does not depend on the order of the choices.

## Main definitions

* `gpusOf`, `roomFor`, `capacity` — the GPUs of an engine, the places on one and on all of them.
* `freePorts` — the ports of the instance range that no row of a worker reserves.
* `SafePlacement` — what the placements of a call are to be.

## Main results

* `pickCandidate_eq_none_iff` — no pass makes a choice exactly when nothing fits.
* `remaining_set` — a choice takes one place.
* `allocateReplicas_complete` — **all replicas are placed exactly up to the capacity.**
* `emptyCluster_error` — a cluster without workers is turned down whatever is asked for.
-/

namespace Inferna

open Greedy

/-! ### The places on the GPUs -/

/-- The GPUs of the workers that the engine supports. -/
def gpusOf (engine : Engine) (workers : List Worker) : List (Worker × Gpu) :=
  workers.flatMap fun w => (supportedGpus engine w).map fun g => (w, g)

/-- The pair that stands for a GPU. -/
def gpuKey (p : Worker × Gpu) : Uuid × ℕ := (p.1.id, p.2.index)

/-- The replicas that fit into the free memory of a GPU. -/
def roomFor (db : Db) (vram : ℕ) (pending : Dict (Uuid × ℕ) ℕ) (p : Worker × Gpu) : ℕ :=
  (freeVram db pending p.1 p.2).toNat / vram

/-- The replicas that still fit. -/
def remaining (db : Db) (engine : Engine) (vram : ℕ) (workers : List Worker)
    (pending : Dict (Uuid × ℕ) ℕ) : ℕ :=
  ((gpusOf engine workers).map (roomFor db vram pending)).sum

/-- The replicas that fit before a call. -/
def capacity (db : Db) (clusterId : Uuid) (vram : ℕ) (engine : Engine) : ℕ :=
  remaining db engine vram (connectedWorkers db clusterId) Dict.empty

section Picks

variable {db : Db} {engine : Engine} {vram : ℕ} {workers : List Worker}
  {pending : Dict (Uuid × ℕ) ℕ}

theorem mem_gpusOf {p : Worker × Gpu} :
    p ∈ gpusOf engine workers ↔ p.1 ∈ workers ∧ p.2 ∈ supportedGpus engine p.1 := by
  unfold gpusOf
  rw [List.mem_flatMap]
  constructor
  · rintro ⟨w, hw, hp⟩
    obtain ⟨g, hg, rfl⟩ := List.mem_map.mp hp
    exact ⟨hw, hg⟩
  · rintro ⟨hw, hg⟩
    exact ⟨p.1, hw, List.mem_map.mpr ⟨p.2, hg, rfl⟩⟩

/-- Different GPUs have different pairs. -/
theorem nodup_gpuKeys (hkeys : (workers.map (·.id)).Nodup)
    (hgpus : ∀ w ∈ workers, (w.gpus.map (·.index)).Nodup) :
    ((gpusOf engine workers).map gpuKey).Nodup := by
  induction workers with
  | nil => exact List.nodup_nil
  | cons w ws ih =>
    rw [List.map_cons, List.nodup_cons] at hkeys
    rw [List.forall_mem_cons] at hgpus
    have hcons : gpusOf engine (w :: ws) =
        (supportedGpus engine w).map (fun g => (w, g)) ++ gpusOf engine ws := rfl
    rw [hcons, List.map_append, List.nodup_append]
    refine ⟨?_, ih hkeys.2 hgpus.2, ?_⟩
    · have hindexes : ((supportedGpus engine w).map (·.index)).Nodup := by
        unfold supportedGpus Worker.gpusByIndex
        refine (List.Sublist.map _ List.filter_sublist).nodup ?_
        rw [((List.perm_insertionSort _ _).map _).nodup_iff]
        exact hgpus.1
      rw [List.map_map]
      have hpair := hindexes.map (Prod.mk_right_injective w.id)
      rw [List.map_map] at hpair
      exact hpair
    · -- GPUs of different workers differ in the worker
      rintro k hk k' hk' rfl
      obtain ⟨p, hp, rfl⟩ := List.mem_map.mp hk
      obtain ⟨q, hq, heq⟩ := List.mem_map.mp hk'
      obtain ⟨g, -, rfl⟩ := List.mem_map.mp hp
      have hid : q.1.id = w.id := congrArg Prod.fst heq
      exact hkeys.1 (hid ▸ List.mem_map_of_mem (mem_gpusOf.mp hq).1)

theorem mem_fittingCandidates_iff {allowed : Worker → Gpu → Bool} {c : Candidate} :
    c ∈ fittingCandidates db engine vram pending workers allowed ↔
      ∃ p ∈ gpusOf engine workers, allowed p.1 p.2 = true ∧
        (vram : ℤ) ≤ freeVram db pending p.1 p.2 ∧
        c = ⟨freeVram db pending p.1 p.2, p.1, p.2.index⟩ := by
  unfold fittingCandidates
  rw [List.mem_flatMap]
  constructor
  · rintro ⟨w, hw, hc⟩
    obtain ⟨g, hg, hc⟩ := List.mem_filterMap.mp hc
    split at hc
    · rename_i hcond
      exact ⟨(w, g), mem_gpusOf.mpr ⟨hw, hg⟩, hcond.1, hcond.2, (Option.some.inj hc).symm⟩
    · cases hc
  · rintro ⟨p, hp, hallowed, hfit, rfl⟩
    obtain ⟨hw, hg⟩ := mem_gpusOf.mp hp
    exact ⟨p.1, hw, List.mem_filterMap.mpr ⟨p.2, hg, if_pos ⟨hallowed, hfit⟩⟩⟩

/-- A pass makes no choice exactly when nothing fits that it allows. -/
theorem bestCandidate_eq_none_iff {allowed : Worker → Gpu → Bool} :
    bestCandidate db engine vram pending workers allowed = none ↔
      ∀ p ∈ gpusOf engine workers, allowed p.1 p.2 = true →
        ¬ (vram : ℤ) ≤ freeVram db pending p.1 p.2 := by
  unfold bestCandidate
  rw [List.argmin_eq_none, List.eq_nil_iff_forall_not_mem]
  constructor
  · intro h p hp hallowed hfit
    exact h _ (mem_fittingCandidates_iff.mpr ⟨p, hp, hallowed, hfit, rfl⟩)
  · intro h c hc
    obtain ⟨p, hp, hallowed, hfit, -⟩ := mem_fittingCandidates_iff.mp hc
    exact h p hp hallowed hfit

/-- The choice of a pass is allowed and fits. -/
theorem bestCandidate_eq_some {allowed : Worker → Gpu → Bool} {c : Candidate}
    (h : bestCandidate db engine vram pending workers allowed = some c) :
    ∃ p ∈ gpusOf engine workers, allowed p.1 p.2 = true ∧
      (vram : ℤ) ≤ freeVram db pending p.1 p.2 ∧
      c = ⟨freeVram db pending p.1 p.2, p.1, p.2.index⟩ :=
  mem_fittingCandidates_iff.mp (mem_of_bestCandidate h)

/-- **No pass makes a choice exactly when nothing fits.** -/
theorem pickCandidate_eq_none_iff {st : ReplicaLoop} :
    pickCandidate db engine vram workers st = none ↔
      ∀ p ∈ gpusOf engine workers, ¬ (vram : ℤ) ≤ freeVram db st.pendingVram p.1 p.2 := by
  unfold pickCandidate
  simp only
  constructor
  · intro h p hp
    split at h
    · cases h
    split at h
    · cases h
    exact bestCandidate_eq_none_iff.mp h p hp rfl
  · intro h
    have hnone : ∀ allowed, bestCandidate db engine vram st.pendingVram workers allowed = none :=
      fun allowed => bestCandidate_eq_none_iff.mpr fun p hp _ => h p hp
    rw [hnone, hnone, hnone]

/-- Whichever pass makes it, the choice is a GPU that fits. -/
theorem pickCandidate_eq_some {st : ReplicaLoop} {c : Candidate}
    (h : pickCandidate db engine vram workers st = some c) :
    ∃ p ∈ gpusOf engine workers, (vram : ℤ) ≤ freeVram db st.pendingVram p.1 p.2 ∧
      c = ⟨freeVram db st.pendingVram p.1 p.2, p.1, p.2.index⟩ := by
  have hany : ∃ allowed, bestCandidate db engine vram st.pendingVram workers allowed = some c := by
    unfold pickCandidate at h
    simp only at h
    split at h
    · rename_i hc
      exact ⟨_, hc.trans h⟩
    split at h
    · rename_i hc
      exact ⟨_, hc.trans h⟩
    · exact ⟨_, h⟩
  obtain ⟨allowed, hbest⟩ := hany
  obtain ⟨p, hp, -, hfit, hc⟩ := bestCandidate_eq_some hbest
  exact ⟨p, hp, hfit, hc⟩

/-! ### One place less -/

/-- The memory that is left on a GPU after a choice. -/
theorem freeVram_set (p q : Worker × Gpu) :
    freeVram db (pending.set (gpuKey p) (pending.getD (gpuKey p) 0 + vram)) q.1 q.2 =
      freeVram db pending q.1 q.2 - if gpuKey q = gpuKey p then (vram : ℤ) else 0 := by
  have hkey : ((q.1.id, q.2.index) : Uuid × ℕ) = gpuKey q := rfl
  unfold freeVram
  simp only [hkey, Dict.getD, Dict.get?_set]
  by_cases h : gpuKey p = gpuKey q
  · rw [if_pos h, if_pos h.symm, Option.getD_some, h]
    push_cast
    ring
  · rw [if_neg h, if_neg (Ne.symm h), sub_zero]

/-- **A choice takes one place.** -/
theorem remaining_set (hnd : ((gpusOf engine workers).map gpuKey).Nodup) (hv : 1 ≤ vram)
    {p : Worker × Gpu} (hp : p ∈ gpusOf engine workers)
    (hfit : (vram : ℤ) ≤ freeVram db pending p.1 p.2) :
    remaining db engine vram workers
        (pending.set (gpuKey p) (pending.getD (gpuKey p) 0 + vram)) + 1 =
      remaining db engine vram workers pending := by
  -- only the place on the chosen GPU is taken
  refine sum_map_add_one hnd hp ?_ fun q _ hne => ?_
  · unfold roomFor
    rw [freeVram_set, if_pos rfl]
    exact div_sub_add_one hv hfit
  · unfold roomFor
    rw [freeVram_set, if_neg hne, sub_zero]

/-- There is no place left exactly when nothing fits. -/
theorem remaining_eq_zero_iff (hv : 1 ≤ vram) :
    remaining db engine vram workers pending = 0 ↔
      ∀ p ∈ gpusOf engine workers, ¬ (vram : ℤ) ≤ freeVram db pending p.1 p.2 := by
  unfold remaining
  rw [List.sum_eq_zero_iff_forall_eq_nat, List.forall_mem_map]
  exact forall₂_congr fun p _ => Greedy.div_eq_zero_iff hv

end Picks

/-! ### One replica -/

/-- The loop after a replica on a GPU and a port. -/
def ReplicaLoop.place (st : ReplicaLoop) (vram : ℕ) (p : Worker × Gpu) (port : ℕ) : ReplicaLoop where
  used := st.used ++ [gpuKey p]
  usedWorkers := st.usedWorkers ++ [p.1.id]
  pendingVram := st.pendingVram.set (gpuKey p) (st.pendingVram.getD (gpuKey p) 0 + vram)
  callPorts := st.callPorts ++ [port]
  allocations := st.allocations ++ [⟨p.1, [p.2.index], port⟩]

/-- The message of a replica for which nothing fits. -/
def noRoom (count i : ℕ) : ServerError :=
  .http 400 s!"no GPU with enough free VRAM for replica {i} of {count}"

section Round

variable {s : Settings} {db : Db} {engine : Engine} {vram count i : ℕ} {workers : List Worker}
  {st st' : ReplicaLoop}

/-- **What a round does**: it puts a replica on the GPU that the passes choose. -/
theorem placeReplica_ok (h : placeReplica s db engine vram count workers st i = .ok st') :
    ∃ p ∈ gpusOf engine workers, (vram : ℤ) ≤ freeVram db st.pendingVram p.1 p.2 ∧
      pickCandidate db engine vram workers st =
        some ⟨freeVram db st.pendingVram p.1 p.2, p.1, p.2.index⟩ ∧
      ∃ port, allocPort s (portInstances db p.1.id) st.callPorts = .ok port ∧
        st' = st.place vram p port := by
  obtain ⟨best, port, hbest, hport, rfl⟩ := placeReplica_eq_ok h
  obtain ⟨p, hp, hfit, rfl⟩ := pickCandidate_eq_some hbest
  exact ⟨p, hp, hfit, hbest, port, hport, rfl⟩

/-- A round in which nothing fits fails. -/
theorem placeReplica_noRoom
    (h : ∀ p ∈ gpusOf engine workers, ¬ (vram : ℤ) ≤ freeVram db st.pendingVram p.1 p.2) :
    placeReplica s db engine vram count workers st i = .error (noRoom count i) := by
  unfold placeReplica
  rw [pickCandidate_eq_none_iff.mpr h]
  rfl

/-- A round in which something fits, and a port is left, puts it on a GPU. -/
theorem exists_placeReplica
    (hfit : ¬ ∀ p ∈ gpusOf engine workers, ¬ (vram : ℤ) ≤ freeVram db st.pendingVram p.1 p.2)
    (hport : ∀ w ∈ workers, ∃ port, allocPort s (portInstances db w.id) st.callPorts = .ok port) :
    ∃ p ∈ gpusOf engine workers, (vram : ℤ) ≤ freeVram db st.pendingVram p.1 p.2 ∧ ∃ port,
      placeReplica s db engine vram count workers st i = .ok (st.place vram p port) := by
  rw [← pickCandidate_eq_none_iff] at hfit
  obtain ⟨best, hbest⟩ := Option.ne_none_iff_exists'.mp hfit
  obtain ⟨p, hp, hroom, rfl⟩ := pickCandidate_eq_some hbest
  obtain ⟨port, hok⟩ := hport p.1 (mem_gpusOf.mp hp).1
  refine ⟨p, hp, hroom, port, ?_⟩
  unfold placeReplica
  simp only [hbest, hok]
  rfl

end Round

/-! ### Ports of a call -/

/-- The ports of the instance range that no row reserves. -/
def freePorts (s : Settings) (rows : List Instance) : List ℕ :=
  s.instancePortRange.filter fun p => ∀ i ∈ rows, i.port ≠ some p

/-- With more free ports than the call has handed out, one is left. -/
theorem exists_allocPort {s : Settings} {rows : List Instance} {extra : List ℕ}
    (h : extra.length < (freePorts s rows).length) : ∃ port, allocPort s rows extra = .ok port := by
  have hnd : (freePorts s rows).Nodup := List.Nodup.filter _ List.nodup_range'
  -- otherwise the call has handed out all free ports, and they are more
  obtain ⟨p, hp, hnew⟩ : ∃ p ∈ freePorts s rows, p ∉ extra := by
    by_contra hall
    have hsub : freePorts s rows ⊆ extra := fun p hp => by_contra fun hnot => hall ⟨p, hp, hnot⟩
    exact absurd (List.subperm_of_subset hnd hsub).length_le (not_le.mpr h)
  obtain ⟨hrange, hfree⟩ := List.mem_filter.mp hp
  have hsome : (s.instancePortRange.find? fun p => p ∉ usedPorts rows ∧ p ∉ extra).isSome := by
    rw [List.find?_isSome]
    refine ⟨p, hrange, decide_eq_true ⟨fun hused => ?_, hnew⟩⟩
    obtain ⟨-, i, hi, hport⟩ := mem_usedPorts.mp hused
    exact of_decide_eq_true hfree i hi hport
  obtain ⟨port, hport⟩ := Option.isSome_iff_exists.mp hsome
  exact ⟨port, by unfold allocPort; rw [hport]⟩

/-! ### The call -/

section Call

variable {s : Settings} {db : Db} {clusterId : Uuid} {engine : Engine} {vram count : ℕ}
  {used : List (Uuid × ℕ)}

/-- Each round takes a place, and fails when there is none. -/
theorem spends_placeReplica (hkeys : (db.workers.map (·.id)).Nodup) (hgpus : db.GpuIndexesOk)
    (hv : 1 ≤ vram)
    (hports : ∀ w ∈ connectedWorkers db clusterId,
      count ≤ (freePorts s (portInstances db w.id)).length) :
    Spends (placeReplica s db engine vram count (connectedWorkers db clusterId))
      (fun st => remaining db engine vram (connectedWorkers db clusterId) st.pendingVram)
      (noRoom count) count fun i st => st.callPorts.length + 1 = i := by
  have hnd : ((gpusOf engine (connectedWorkers db clusterId)).map gpuKey).Nodup :=
    nodup_gpuKeys (nodup_connectedWorkers hkeys) fun w hw => hgpus w (mem_connectedWorkers.mp hw).1
  intro i st hi hst
  constructor
  · intro hpos
    have hroom := Nat.pos_iff_ne_zero.mp hpos
    rw [Ne, remaining_eq_zero_iff hv] at hroom
    have hport : ∀ w ∈ connectedWorkers db clusterId,
        ∃ port, allocPort s (portInstances db w.id) st.callPorts = .ok port :=
      fun w hw => exists_allocPort (lt_of_lt_of_le (by omega) (hports w hw))
    obtain ⟨p, hp, hfit, port, hok⟩ := exists_placeReplica hroom hport
    refine ⟨_, hok, remaining_set hnd hv hp hfit, ?_⟩
    change (st.callPorts ++ [port]).length + 1 = i + 1
    rw [List.length_append, List.length_singleton, hst]
  · intro hzero
    exact placeReplica_noRoom ((remaining_eq_zero_iff hv).mp hzero)

/-- What the placements of a call are to be. -/
structure SafePlacement (s : Settings) (db : Db) (clusterId : Uuid) (engine : Engine)
    (vram count : ℕ) (allocations : List Allocation) : Prop where
  count : allocations.length = count
  /-- The placements on a GPU fit into its free memory together. -/
  fit : ∀ p ∈ gpusOf engine (connectedWorkers db clusterId),
    listed (allocations.map Allocation.slot) p.1.id p.2.index * vram ≤
      (freeVram db Dict.empty p.1 p.2).toNat
  supported : ∀ a ∈ allocations, ∃ p ∈ gpusOf engine (connectedWorkers db clusterId),
    a.worker = p.1 ∧ a.gpuIndexes = [p.2.index]
  inRange : ∀ a ∈ allocations, a.port ∈ s.instancePortRange
  /-- The port `0` apart, a port is not reserved on its worker. -/
  unreserved : ∀ a ∈ allocations, a.port ≠ 0 → ∀ i ∈ portInstances db a.worker.id,
    i.port ≠ some a.port
  distinct : (allocations.map (·.port)).Nodup

/-- The books of the loop: its ports are those of the placements, all different, and the placements
are on supported GPUs. -/
structure ReplicaLoop.Booked (engine : Engine) (workers : List Worker) (st : ReplicaLoop) : Prop where
  ports : st.callPorts = st.allocations.map (·.port)
  distinct : st.callPorts.Nodup
  supported : ∀ a ∈ st.allocations, ∃ p ∈ gpusOf engine workers,
    a.worker = p.1 ∧ a.gpuIndexes = [p.2.index]

theorem booked_placeReplica {workers : List Worker} {st st' : ReplicaLoop} {i : ℕ}
    (hst : st.Booked engine workers)
    (h : placeReplica s db engine vram count workers st i = .ok st') :
    st'.Booked engine workers := by
  obtain ⟨p, hp, -, -, port, hport, rfl⟩ := placeReplica_ok h
  obtain ⟨-, hnew, -⟩ := allocPort_spec hport
  unfold ReplicaLoop.place
  refine ⟨?_, ?_, ?_⟩
  · simp only [List.map_append, List.map_cons, List.map_nil, hst.ports]
  · refine List.Nodup.append hst.distinct (List.nodup_singleton port) ?_
    rw [List.disjoint_singleton]
    exact hnew
  · intro a ha
    rcases List.mem_append.mp ha with ha | ha
    · exact hst.supported a ha
    · rw [List.mem_singleton.mp ha]
      exact ⟨p, hp, rfl, rfl⟩

/-- **The placements of a call are safe.** -/
theorem safe_allocateReplicas (hkeys : (db.workers.map (·.id)).Nodup) (hgpus : db.GpuIndexesOk)
    {allocations : List Allocation}
    (h : allocateReplicas s db clusterId vram engine count used = .ok allocations) :
    SafePlacement s db clusterId engine vram count allocations := by
  have hplaced := placed_allocateReplicas h
  have hlen := length_allocateReplicas h
  obtain ⟨st, hfold, rfl⟩ := allocateReplicas_ok h
  have hbooked := Run.foldlM_invariant
    (fun _ st => st.Booked engine (connectedWorkers db clusterId))
    (fun _ _ _ _ hst => booked_placeReplica hst) _
    ⟨rfl, List.nodup_nil, fun _ h => absurd h List.not_mem_nil⟩ hfold
  refine ⟨hlen, ?_, hbooked.supported, ?_, ?_, hbooked.ports ▸ hbooked.distinct⟩
  · intro p hp
    obtain ⟨hw, hg⟩ := mem_gpusOf.mp hp
    rcases Nat.eq_zero_or_pos (listed (st.allocations.map Allocation.slot) p.1.id p.2.index)
      with hzero | hpos
    · rw [hzero, Nat.zero_mul]
      exact Nat.zero_le _
    · -- the room that the placements were checked against is that of this GPU
      obtain ⟨v, hv, hid, g, hgv, hidx, hroom⟩ := hplaced.roomy p.1.id p.2.index hpos
      have hworker := (mem_connectedWorkers.mp hw).1
      obtain rfl : v = p.1 := List.inj_on_of_nodup_map hkeys hv hworker hid
      obtain rfl : g = p.2 := List.inj_on_of_nodup_map (hgpus _ hworker) hgv
        (mem_supportedGpus.mp hg).1 hidx
      unfold usage at hroom
      unfold freeVram
      simp only [Dict.getD, Dict.get?_empty, Option.getD_none] at hroom ⊢
      omega
  · intro a ha
    exact hplaced.inRange a.slot (List.mem_map_of_mem ha) a.port rfl
  · intro a ha hne i hi hport
    exact hne (hplaced.unreserved a.slot (List.mem_map_of_mem ha) a.port rfl i hi hport)

/-- A cluster without connected workers is turned down, whatever is asked for. -/
theorem emptyCluster_error (hnone : connectedWorkers db clusterId = []) :
    allocateReplicas s db clusterId vram engine count used =
      .error (.http 400 "no connected workers in cluster") := by
  unfold allocateReplicas
  simp only [hnone, if_true]

/-- **All replicas are placed exactly up to the capacity**: with as many free ports on each worker
as replicas, a call on a cluster with workers places all of them, safely, if the capacity is at
least their number, and otherwise fails for the first replica beyond it. -/
theorem allocateReplicas_complete (hkeys : (db.workers.map (·.id)).Nodup)
    (hgpus : db.GpuIndexesOk) (hv : 1 ≤ vram)
    (hports : ∀ w ∈ connectedWorkers db clusterId,
      count ≤ (freePorts s (portInstances db w.id)).length) :
    (connectedWorkers db clusterId = [] →
      allocateReplicas s db clusterId vram engine count used =
        .error (.http 400 "no connected workers in cluster")) ∧
    (connectedWorkers db clusterId ≠ [] →
      (count ≤ capacity db clusterId vram engine →
        ∃ allocations, allocateReplicas s db clusterId vram engine count used = .ok allocations ∧
          SafePlacement s db clusterId engine vram count allocations) ∧
      (capacity db clusterId vram engine < count →
        allocateReplicas s db clusterId vram engine count used =
          .error (noRoom count (capacity db clusterId vram engine + 1)))) := by
  refine ⟨emptyCluster_error, fun hne => ?_⟩
  have hspends := @spends_placeReplica s db clusterId engine vram count hkeys hgpus hv hports
  obtain ⟨hgo, hstop⟩ := foldlM_of_spends hspends count 1
    ⟨used, used.map (·.1), Dict.empty, [], []⟩ (by omega) rfl
  have hunfold : allocateReplicas s db clusterId vram engine count used =
      ((List.range' 1 count).foldlM
        (placeReplica s db engine vram count (connectedWorkers db clusterId))
        ⟨used, used.map (·.1), Dict.empty, [], []⟩).map (·.allocations) := by
    unfold allocateReplicas
    simp only [if_neg hne]
  constructor
  · intro hle
    obtain ⟨st, hst, -⟩ := hgo hle
    have hok : allocateReplicas s db clusterId vram engine count used = .ok st.allocations := by
      rw [hunfold, hst]
      rfl
    exact ⟨st.allocations, hok, safe_allocateReplicas hkeys hgpus hok⟩
  · intro hlt
    rw [hunfold, hstop hlt, Nat.add_comm 1]
    rfl

end Call

/-- Two GPUs with ten free take three replicas of size three each, and no seventh. -/
theorem allocateReplicas_pairedHosts :
    (∃ allocations, allocateReplicas {} pairedHosts 1 3 .vllm 6 [] = .ok allocations ∧
      SafePlacement {} pairedHosts 1 .vllm 3 6 allocations) ∧
    allocateReplicas {} pairedHosts 1 3 .vllm 7 [] = .error (noRoom 7 7) := by
  have hrows : pairedHosts.instances = [] := by decide +kernel
  have hfree : ∀ w, (freePorts {} (portInstances pairedHosts w)).length = 91 := by
    intro w
    unfold portInstances
    rw [hrows, List.filter_nil]
    decide +kernel
  have hcapacity : capacity pairedHosts 1 3 .vllm = 6 := by decide +kernel
  have hne : connectedWorkers pairedHosts 1 ≠ [] := by decide +kernel
  constructor
  · refine ((allocateReplicas_complete (by decide +kernel) (by decide +kernel) (by decide)
      fun w _ => ?_).2 hne).1 hcapacity.ge
    rw [hfree]
    decide
  · have hfails : allocateReplicas {} pairedHosts 1 3 .vllm 7 [] =
        .error (noRoom 7 (capacity pairedHosts 1 3 .vllm + 1)) := by
      refine ((allocateReplicas_complete (by decide +kernel) (by decide +kernel) (by decide)
        fun w _ => ?_).2 hne).2 (hcapacity.trans_lt (Nat.lt_add_one 6))
      rw [hfree]
      decide
    rw [hcapacity] at hfails
    exact hfails

/-- **Without workers not even nothing is placed**: a call for no replicas fails. -/
theorem emptyCluster_turnedDown : ¬ ∀ (s : Settings) (db : Db) (clusterId : Uuid) (engine : Engine)
    (vram count : ℕ) (used : List (Uuid × ℕ)), (db.workers.map (·.id)).Nodup → db.GpuIndexesOk →
      1 ≤ vram → (∀ w ∈ connectedWorkers db clusterId,
        count ≤ (freePorts s (portInstances db w.id)).length) →
      ((∃ allocations, allocateReplicas s db clusterId vram engine count used = .ok allocations) ↔
        count ≤ capacity db clusterId vram engine) := by
  intro h
  have hnone : connectedWorkers sampleWorld.db 1 = [] := by decide +kernel
  obtain ⟨allocations, hok⟩ := (h {} sampleWorld.db 1 .vllm 1 0 [] (by decide +kernel)
    (by decide +kernel) le_rfl fun w _ => Nat.zero_le _).mpr (Nat.zero_le _)
  rw [emptyCluster_error hnone] at hok
  cases hok

end Inferna
