import Inferna.Capacity

/-!
# How far replicas are spread

Each pass of `allocate_replicas` takes the tightest GPU it allows, but the first passes allow only
fresh workers and fresh GPUs.  A GPU that was fresh and fitting when the call began has lost nothing
until it is chosen, so it stays on offer, and a pass that finds none has run out of them: the
choices reach as many fresh workers and as many fresh GPUs as any placement of that many replicas.

## Main definitions

* `fittingGpus` — the supported GPUs on which a replica fits before the call.
* `freshGpus`, `freshWorkers` — those outside the given ones, and their workers.
* `WidestSpread` — what the placements reach.

## Main results

* `pickCandidate_freshWorker`, `pickCandidate_freshGpu` — the order of the passes.
* `spreading_placeReplica` — a round keeps the picks spread.
* `allocateReplicas_widest` — **a call spreads its replicas as far as possible.**
-/

namespace Inferna

open Greedy

/-- The GPUs of a placement. -/
def Allocation.gpuKeys (a : Allocation) : List (Uuid × ℕ) :=
  a.gpuIndexes.map fun index => (a.worker.id, index)

/-- The supported GPUs on which a replica fits before the call. -/
def fittingGpus (db : Db) (clusterId : Uuid) (engine : Engine) (vram : ℕ) : List (Worker × Gpu) :=
  (gpusOf engine (connectedWorkers db clusterId)).filter fun p =>
    (vram : ℤ) ≤ freeVram db Dict.empty p.1 p.2

/-- The fitting GPUs outside the given ones. -/
def freshGpus (db : Db) (clusterId : Uuid) (engine : Engine) (vram : ℕ) (used : List (Uuid × ℕ)) :
    Finset (Uuid × ℕ) :=
  ((fittingGpus db clusterId engine vram).map gpuKey).toFinset \ used.toFinset

/-- The workers with a fitting GPU outside those of the given GPUs. -/
def freshWorkers (db : Db) (clusterId : Uuid) (engine : Engine) (vram : ℕ)
    (used : List (Uuid × ℕ)) : Finset Uuid :=
  ((fittingGpus db clusterId engine vram).map (·.1.id)).toFinset \ (used.map (·.1)).toFinset

/-- What the placements of a call reach outside the GPUs `used` before it. -/
structure WidestSpread (db : Db) (clusterId : Uuid) (engine : Engine) (vram count : ℕ)
    (used : List (Uuid × ℕ)) (allocations : List Allocation) : Prop where
  workers : ((allocations.map (·.worker.id)).toFinset \ (used.map (·.1)).toFinset).card =
    min count (freshWorkers db clusterId engine vram used).card
  gpus : ((allocations.flatMap Allocation.gpuKeys).toFinset \ used.toFinset).card =
    min count (freshGpus db clusterId engine vram used).card
  /-- A GPU is taken again only when every fitting one has been taken. -/
  reuse : ∀ before a after, allocations = before ++ a :: after → ∀ k ∈ a.gpuKeys,
    k ∈ used ++ before.flatMap Allocation.gpuKeys →
      ∀ p ∈ fittingGpus db clusterId engine vram,
        gpuKey p ∈ used ++ before.flatMap Allocation.gpuKeys

section Passes

variable {db : Db} {engine : Engine} {vram : ℕ} {workers : List Worker} {st : ReplicaLoop}
  {c : Candidate}

/-- **A fresh worker is chosen whenever one fits.** -/
theorem pickCandidate_freshWorker (h : pickCandidate db engine vram workers st = some c)
    (hfresh : ∃ p ∈ gpusOf engine workers, (vram : ℤ) ≤ freeVram db st.pendingVram p.1 p.2 ∧
      p.1.id ∉ st.usedWorkers) : c.worker.id ∉ st.usedWorkers := by
  obtain ⟨p, hp, hfit, hnew⟩ := hfresh
  unfold pickCandidate at h
  simp only at h
  split at h
  · rename_i best hbest
    obtain ⟨q, -, hallowed, -, rfl⟩ := bestCandidate_eq_some (hbest.trans h)
    exact of_decide_eq_true hallowed
  · rename_i hnone
    exact absurd hfit (bestCandidate_eq_none_iff.mp hnone p hp (decide_eq_true hnew))

/-- **A fresh GPU is chosen whenever one fits**, on a fresh worker or on another. -/
theorem pickCandidate_freshGpu (h : pickCandidate db engine vram workers st = some c)
    (hworkers : st.usedWorkers = st.used.map (·.1))
    (hfresh : ∃ p ∈ gpusOf engine workers, (vram : ℤ) ≤ freeVram db st.pendingVram p.1 p.2 ∧
      gpuKey p ∉ st.used) : (c.worker.id, c.gpuIndex) ∉ st.used := by
  obtain ⟨p, hp, hfit, hnew⟩ := hfresh
  unfold pickCandidate at h
  simp only at h
  split at h
  · -- a GPU of a fresh worker is fresh
    rename_i best hbest
    obtain ⟨q, -, hallowed, -, rfl⟩ := bestCandidate_eq_some (hbest.trans h)
    have hq := of_decide_eq_true hallowed
    rw [hworkers] at hq
    exact fun hmem => hq (List.mem_map_of_mem hmem)
  split at h
  · rename_i best hbest
    obtain ⟨q, -, hallowed, -, rfl⟩ := bestCandidate_eq_some (hbest.trans h)
    exact of_decide_eq_true hallowed
  · rename_i hnone
    exact absurd hfit (bestCandidate_eq_none_iff.mp hnone p hp (decide_eq_true hnew))

/-- What a call has committed only lowers the free memory. -/
theorem freeVram_le (db : Db) (pending : Dict (Uuid × ℕ) ℕ) (w : Worker) (g : Gpu) :
    freeVram db pending w g ≤ freeVram db Dict.empty w g := by
  unfold freeVram
  simp only [Dict.getD, Dict.get?_empty, Option.getD_none]
  omega

/-- A GPU on which nothing is committed has all its free memory. -/
theorem freeVram_of_pending {pending : Dict (Uuid × ℕ) ℕ} {p : Worker × Gpu}
    (h : pending.getD (gpuKey p) 0 = 0) :
    freeVram db pending p.1 p.2 = freeVram db Dict.empty p.1 p.2 := by
  have hkey : ((p.1.id, p.2.index) : Uuid × ℕ) = gpuKey p := rfl
  unfold freeVram
  rw [hkey, h]
  rfl

end Passes

section Fresh

variable {db : Db} {clusterId : Uuid} {engine : Engine} {vram : ℕ} {used : List (Uuid × ℕ)}

theorem mem_fittingGpus {p : Worker × Gpu} :
    p ∈ fittingGpus db clusterId engine vram ↔
      p ∈ gpusOf engine (connectedWorkers db clusterId) ∧
        (vram : ℤ) ≤ freeVram db Dict.empty p.1 p.2 := by
  unfold fittingGpus
  rw [List.mem_filter, decide_eq_true_eq]

theorem mem_freshGpus {k : Uuid × ℕ} :
    k ∈ freshGpus db clusterId engine vram used ↔
      (∃ p ∈ fittingGpus db clusterId engine vram, gpuKey p = k) ∧ k ∉ used := by
  unfold freshGpus
  rw [Finset.mem_sdiff, List.mem_toFinset, List.mem_toFinset, List.mem_map]

theorem mem_freshWorkers {w : Uuid} :
    w ∈ freshWorkers db clusterId engine vram used ↔
      (∃ p ∈ fittingGpus db clusterId engine vram, p.1.id = w) ∧ w ∉ used.map (·.1) := by
  unfold freshWorkers
  rw [Finset.mem_sdiff, List.mem_toFinset, List.mem_toFinset, List.mem_map]

end Fresh

/-- The state of the loop while its choices are spread: what counts as used is what was given and
what has been placed, nothing is committed elsewhere, and the picks were fresh while they could
be. -/
structure ReplicaLoop.Spreading (db : Db) (clusterId : Uuid) (engine : Engine) (vram : ℕ)
    (used : List (Uuid × ℕ)) (st : ReplicaLoop) : Prop where
  taken : st.used = used ++ st.allocations.flatMap Allocation.gpuKeys
  workers : st.usedWorkers = st.used.map (·.1)
  pending : ∀ k, k ∉ st.used → st.pendingVram.getD k 0 = 0
  placed : ∀ a ∈ st.allocations, ∃ p ∈ fittingGpus db clusterId engine vram,
    a.worker = p.1 ∧ a.gpuKeys = [gpuKey p]
  freshWorker : Spreads (freshWorkers db clusterId engine vram used)
    (st.allocations.map (·.worker.id))
  freshGpu : Spreads (freshGpus db clusterId engine vram used)
    (st.allocations.flatMap Allocation.gpuKeys)

section Rounds

variable {s : Settings} {db : Db} {clusterId : Uuid} {engine : Engine} {vram count i : ℕ}
  {used : List (Uuid × ℕ)} {st st' : ReplicaLoop}

/-- The workers that count as used: those of the given GPUs and those of the placements. -/
theorem ReplicaLoop.Spreading.mem_usedWorkers (hst : st.Spreading db clusterId engine vram used)
    {w : Uuid} : w ∈ st.usedWorkers ↔
      w ∈ used.map (·.1) ∨ w ∈ st.allocations.map (·.worker.id) := by
  have hplaced : (st.allocations.flatMap Allocation.gpuKeys).map (·.1) =
      st.allocations.map (·.worker.id) := by
    rw [List.map_flatMap, ← List.flatMap_pure_eq_map]
    -- a placement is one GPU
    refine List.flatMap_congr fun a ha => ?_
    obtain ⟨p, -, hw, hk⟩ := hst.placed a ha
    rw [hk]
    change [p.1.id] = [a.worker.id]
    rw [hw]
  rw [hst.workers, hst.taken, List.map_append, hplaced, List.mem_append]

/-- A fitting GPU that does not count as used has lost nothing. -/
theorem ReplicaLoop.Spreading.stillFits (hst : st.Spreading db clusterId engine vram used)
    {q : Worker × Gpu} (hq : q ∈ fittingGpus db clusterId engine vram) (hnew : gpuKey q ∉ st.used) :
    (vram : ℤ) ≤ freeVram db st.pendingVram q.1 q.2 := by
  rw [freeVram_of_pending (hst.pending _ hnew)]
  exact (mem_fittingGpus.mp hq).2

/-- The worker of a pick is a fresh one if there is one. -/
theorem ReplicaLoop.Spreading.pick_freshWorker (hst : st.Spreading db clusterId engine vram used)
    {p : Worker × Gpu} (hp : p ∈ fittingGpus db clusterId engine vram) {free : ℤ}
    (hpick : pickCandidate db engine vram (connectedWorkers db clusterId) st =
      some ⟨free, p.1, p.2.index⟩) :
    (freshWorkers db clusterId engine vram used \
      (st.allocations.map (·.worker.id)).toFinset).Nonempty →
      p.1.id ∈ freshWorkers db clusterId engine vram used \
        (st.allocations.map (·.worker.id)).toFinset := by
  rintro ⟨w, hw⟩
  obtain ⟨hw, hnot⟩ := Finset.mem_sdiff.mp hw
  obtain ⟨⟨q, hq, rfl⟩, hgiven⟩ := mem_freshWorkers.mp hw
  have hunused : q.1.id ∉ st.usedWorkers := by
    rw [hst.mem_usedWorkers, not_or]
    exact ⟨hgiven, fun hmem => hnot (List.mem_toFinset.mpr hmem)⟩
  have hkey : gpuKey q ∉ st.used := by
    intro hmem
    rw [hst.workers] at hunused
    exact hunused (List.mem_map_of_mem hmem)
  have hnew := pickCandidate_freshWorker hpick
    ⟨q, (mem_fittingGpus.mp hq).1, hst.stillFits hq hkey, hunused⟩
  rw [hst.mem_usedWorkers, not_or] at hnew
  rw [Finset.mem_sdiff, List.mem_toFinset]
  exact ⟨mem_freshWorkers.mpr ⟨⟨p, hp, rfl⟩, hnew.1⟩, hnew.2⟩

/-- The GPU of a pick is a fresh one if there is one. -/
theorem ReplicaLoop.Spreading.pick_freshGpu (hst : st.Spreading db clusterId engine vram used)
    {p : Worker × Gpu} (hp : p ∈ fittingGpus db clusterId engine vram) {free : ℤ}
    (hpick : pickCandidate db engine vram (connectedWorkers db clusterId) st =
      some ⟨free, p.1, p.2.index⟩) :
    (freshGpus db clusterId engine vram used \
      (st.allocations.flatMap Allocation.gpuKeys).toFinset).Nonempty →
      gpuKey p ∈ freshGpus db clusterId engine vram used \
        (st.allocations.flatMap Allocation.gpuKeys).toFinset := by
  rintro ⟨k, hk⟩
  obtain ⟨hk, hnot⟩ := Finset.mem_sdiff.mp hk
  obtain ⟨⟨q, hq, rfl⟩, hgiven⟩ := mem_freshGpus.mp hk
  have hunused : gpuKey q ∉ st.used := by
    rw [hst.taken, List.mem_append, not_or]
    exact ⟨hgiven, fun hmem => hnot (List.mem_toFinset.mpr hmem)⟩
  have hnew := pickCandidate_freshGpu hpick hst.workers
    ⟨q, (mem_fittingGpus.mp hq).1, hst.stillFits hq hunused, hunused⟩
  rw [hst.taken, List.mem_append, not_or] at hnew
  rw [Finset.mem_sdiff, List.mem_toFinset]
  exact ⟨mem_freshGpus.mpr ⟨⟨p, hp, rfl⟩, hnew.1⟩, hnew.2⟩

/-- **A round keeps the picks spread.** -/
theorem spreading_placeReplica (hst : st.Spreading db clusterId engine vram used)
    (h : placeReplica s db engine vram count (connectedWorkers db clusterId) st i = .ok st') :
    st'.Spreading db clusterId engine vram used := by
  obtain ⟨p, hp, hfit, hpick, port, -, rfl⟩ := placeReplica_ok h
  have hpfit : p ∈ fittingGpus db clusterId engine vram :=
    mem_fittingGpus.mpr ⟨hp, hfit.trans (freeVram_le db _ _ _)⟩
  unfold ReplicaLoop.place
  refine ⟨?_, ?_, ?_, ?_, ?_, ?_⟩
  · rw [hst.taken, List.flatMap_append, List.append_assoc]
    rfl
  · rw [hst.workers, List.map_append]
    rfl
  · intro k hk
    rw [List.mem_append, List.mem_singleton, not_or] at hk
    simp only [Dict.getD, Dict.get?_set, if_neg (Ne.symm hk.2)]
    exact hst.pending k hk.1
  · intro a ha
    rcases List.mem_append.mp ha with ha | ha
    · exact hst.placed a ha
    · rw [List.mem_singleton.mp ha]
      exact ⟨p, hpfit, rfl, rfl⟩
  · rw [List.map_append]
    exact hst.freshWorker.concat (hst.pick_freshWorker hpfit hpick)
  · rw [List.flatMap_append]
    exact hst.freshGpu.concat (hst.pick_freshGpu hpfit hpick)

/-- The loop of a call ends with its picks spread. -/
theorem spreading_allocateReplicas {allocations : List Allocation}
    (h : allocateReplicas s db clusterId vram engine count used = .ok allocations) :
    ∃ st : ReplicaLoop, st.Spreading db clusterId engine vram used ∧ st.allocations = allocations := by
  obtain ⟨st, hfold, rfl⟩ := allocateReplicas_ok h
  refine ⟨st, ?_, rfl⟩
  refine Run.foldlM_invariant (fun _ st => st.Spreading db clusterId engine vram used)
    (fun _ _ _ _ hst => spreading_placeReplica hst) _ ?_ hfold
  exact ⟨(List.append_nil used).symm, rfl, fun _ _ => rfl, fun _ h => absurd h List.not_mem_nil,
    spreads_nil, spreads_nil⟩

/-- The workers reached outside the given ones: those with a fitting GPU that were picked. -/
theorem ReplicaLoop.Spreading.reachedWorkers (hst : st.Spreading db clusterId engine vram used) :
    (st.allocations.map (·.worker.id)).toFinset \ (used.map (·.1)).toFinset =
      freshWorkers db clusterId engine vram used ∩
        (st.allocations.map (·.worker.id)).toFinset := by
  ext w
  rw [Finset.mem_sdiff, Finset.mem_inter, mem_freshWorkers, List.mem_toFinset, List.mem_toFinset]
  constructor
  · rintro ⟨hw, hgiven⟩
    obtain ⟨a, ha, rfl⟩ := List.mem_map.mp hw
    obtain ⟨p, hp, hworker, -⟩ := hst.placed a ha
    exact ⟨⟨⟨p, hp, congrArg Worker.id hworker.symm⟩, hgiven⟩, hw⟩
  · rintro ⟨⟨-, hgiven⟩, hw⟩
    exact ⟨hw, hgiven⟩

/-- The GPUs reached outside the given ones: those that fit and were picked. -/
theorem ReplicaLoop.Spreading.reachedGpus (hst : st.Spreading db clusterId engine vram used) :
    (st.allocations.flatMap Allocation.gpuKeys).toFinset \ used.toFinset =
      freshGpus db clusterId engine vram used ∩
        (st.allocations.flatMap Allocation.gpuKeys).toFinset := by
  ext k
  rw [Finset.mem_sdiff, Finset.mem_inter, mem_freshGpus, List.mem_toFinset, List.mem_toFinset]
  constructor
  · rintro ⟨hk, hgiven⟩
    obtain ⟨a, ha, hka⟩ := List.mem_flatMap.mp hk
    obtain ⟨p, hp, -, hkeys⟩ := hst.placed a ha
    rw [hkeys, List.mem_singleton] at hka
    exact ⟨⟨⟨p, hp, hka.symm⟩, hgiven⟩, hk⟩
  · rintro ⟨⟨-, hgiven⟩, hk⟩
    exact ⟨hk, hgiven⟩

/-- Each placement is one GPU. -/
theorem ReplicaLoop.Spreading.length_gpuKeys (hst : st.Spreading db clusterId engine vram used) :
    (st.allocations.flatMap Allocation.gpuKeys).length = st.allocations.length := by
  have hones : st.allocations.map (fun a => a.gpuKeys.length) =
      st.allocations.map fun _ => 1 := List.map_congr_left fun a ha => by
    obtain ⟨p, -, -, hkeys⟩ := hst.placed a ha
    rw [hkeys]
    rfl
  rw [List.length_flatMap, hones, List.map_const', List.sum_replicate, smul_eq_mul, mul_one]

/-- **A call spreads its replicas as far as possible.** -/
theorem allocateReplicas_widest {allocations : List Allocation}
    (h : allocateReplicas s db clusterId vram engine count used = .ok allocations) :
    WidestSpread db clusterId engine vram count used allocations := by
  have hlen := length_allocateReplicas h
  obtain ⟨st, hst, rfl⟩ := spreading_allocateReplicas h
  refine ⟨?_, ?_, ?_⟩
  · rw [hst.reachedWorkers, card_of_spreads hst.freshWorker, List.length_map, hlen]
  · rw [hst.reachedGpus, card_of_spreads hst.freshGpu, hst.length_gpuKeys, hlen]
  · intro before a after hsplit k hk hused p hp
    -- otherwise the GPU was on offer when a used one was picked
    by_contra hfresh
    obtain ⟨q, -, -, hkeys⟩ := hst.placed a (by rw [hsplit]; simp)
    rw [hkeys, List.mem_singleton] at hk
    have hpicks : st.allocations.flatMap Allocation.gpuKeys =
        before.flatMap Allocation.gpuKeys ++ gpuKey q :: after.flatMap Allocation.gpuKeys := by
      rw [hsplit, List.flatMap_append, List.flatMap_cons, hkeys]
      rfl
    rw [List.mem_append, not_or] at hfresh
    obtain ⟨hnew, hunpicked⟩ := Finset.mem_sdiff.mp (hst.freshGpu _ _ _ hpicks ⟨gpuKey p,
      Finset.mem_sdiff.mpr ⟨mem_freshGpus.mpr ⟨⟨p, hp, rfl⟩, hfresh.1⟩, fun hmem =>
        hfresh.2 (List.mem_toFinset.mp hmem)⟩⟩)
    rw [hk] at hused
    rcases List.mem_append.mp hused with hmem | hmem
    · exact (mem_freshGpus.mp hnew).2 hmem
    · exact hunpicked (List.mem_toFinset.mpr hmem)

end Rounds

/-- With the first host taken, the second gets the first of three replicas. -/
theorem allocateReplicas_takenHost : ∃ allocations,
    allocateReplicas {} pairedHosts 1 3 .vllm 3 [(1, 0)] = .ok allocations ∧
      WidestSpread pairedHosts 1 .vllm 3 3 [(1, 0)] allocations := by
  have hsome : (allocateReplicas {} pairedHosts 1 3 .vllm 3 [(1, 0)]).toOption.isSome = true := by
    decide +kernel
  cases hok : allocateReplicas {} pairedHosts 1 3 .vllm 3 [(1, 0)] with
  | error e =>
    rw [hok] at hsome
    cases hsome
  | ok allocations => exact ⟨allocations, rfl, allocateReplicas_widest hok⟩

end Inferna
