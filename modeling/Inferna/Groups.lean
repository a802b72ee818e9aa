import Inferna.ScaleSpec

/-!
# Parallel groups are whole

The rows of a parallel group are inserted together, one for each rank, and the scaling
code stops them together: a unit of a multi-node deployment is a whole group.  The
endpoints for single instances know nothing of groups and change one row at a time.

## Main definitions

* `WholeGroups` — the rows of a group want the same state, and have all ranks once.
* `GroupStep` — no single row of a group is stopped, restarted or deleted.
* `GroupInv` — the invariant: whole groups, each in one multi-node deployment.

## Main results

* `ranks_allocateParallelReplicas` — a placed group has the ranks `0 … n - 1`.
* `groupInv_moveReplicas` — **scaling keeps groups whole, also when it fails.**
* `groups_whole` — **groups are whole after every run that spares the single rows of
  groups.**
* `stop_splits_group` — stopping one rank splits its group.
-/

namespace Inferna

open Run

/-- All rows of a group want the same state, and their ranks are `0 … world_size - 1`,
each once. -/
structure WholeGroups (db : Db) : Prop where
  desired : ∀ i ∈ db.instances, ∀ j ∈ db.instances, ∀ g, i.parallelGroupId = some g →
    j.parallelGroupId = some g → i.desiredState = j.desiredState
  ranks : ∀ i ∈ db.instances, ∀ g, i.parallelGroupId = some g → ∃ n, i.worldSize = some n ∧
    ((db.instances.filter fun j => j.parallelGroupId = some g).map (·.nodeRank)).Perm
      ((List.range n).map some)

/-- A row of a group is not stopped unless the group is, not restarted unless the group
is to run, and not deleted. -/
def GroupStep (wd : World) : Step → Prop
  | .stop id =>
    ∀ i ∈ wd.db.instances, i.id = id → i.parallelGroupId ≠ none → i.desiredState = .stopped
  | .restart id =>
    ∀ i ∈ wd.db.instances, i.id = id → i.parallelGroupId ≠ none → i.desiredState = .running
  | .deleteInstance id => ∀ i ∈ wd.db.instances, i.id = id → i.parallelGroupId = none
  | _ => True

instance (wd : World) (a : Step) : Decidable (GroupStep wd a) :=
  match a with
  | .stop id => inferInstanceAs (Decidable (∀ i ∈ wd.db.instances, i.id = id → _ → _))
  | .restart id => inferInstanceAs (Decidable (∀ i ∈ wd.db.instances, i.id = id → _ → _))
  | .deleteInstance id => inferInstanceAs (Decidable (∀ i ∈ wd.db.instances, i.id = id → _))
  | .deploy _ _ | .scale _ _ _ | .setRange _ _ _ | .autoscaleTick _ _ _ | .deleteDeployment _
  | .register _ _ _ | .sync _ _ | .markDisconnected _ | .applyNext _ | .probe _ _ _
  | .containerExit _ _ | .restartWorker _ => isTrue trivial

/-- Identifier and nodes per replica of the deployments, which nothing changes. -/
def Db.shape (db : Db) : List (Uuid × ℕ) := db.deployments.map fun d => (d.id, d.nodesPerReplica)

/-- Whole groups, each among the rows of one multi-node deployment. -/
structure GroupInv (db : Db) : Prop extends WholeGroups db where
  together : ∀ i ∈ db.instances, ∀ j ∈ db.instances, ∀ g, i.parallelGroupId = some g →
    j.parallelGroupId = some g → i.deploymentId = j.deploymentId
  home : ∀ i ∈ db.instances, i.parallelGroupId ≠ none →
    ∃ n, (i.deploymentId, n) ∈ db.shape ∧ 1 < n

/-! ### Rows that change in place, and rows that go -/

/-- Writing the rows keeps groups whole as long as it treats the rows of a group alike. -/
theorem GroupInv.map {db db' : Db} (h : GroupInv db) {f : Instance → Instance}
    (hrows : db'.instances = db.instances.map f) (hshape : db'.shape = db.shape)
    (hgroup : ∀ i, (f i).parallelGroupId = i.parallelGroupId)
    (hrank : ∀ i, (f i).nodeRank = i.nodeRank) (hsize : ∀ i, (f i).worldSize = i.worldSize)
    (hdep : ∀ i, (f i).deploymentId = i.deploymentId)
    (hdes : ∀ i ∈ db.instances, ∀ j ∈ db.instances, ∀ g, i.parallelGroupId = some g →
      j.parallelGroupId = some g → (f i).desiredState = (f j).desiredState) : GroupInv db' := by
  refine ⟨⟨?_, ?_⟩, ?_, ?_⟩
  · intro i' hi' j' hj' g hig hjg
    rw [hrows] at hi' hj'
    obtain ⟨i, hi, rfl⟩ := List.mem_map.mp hi'
    obtain ⟨j, hj, rfl⟩ := List.mem_map.mp hj'
    exact hdes i hi j hj g (hgroup i ▸ hig) (hgroup j ▸ hjg)
  · intro i' hi' g hig
    rw [hrows] at hi'
    obtain ⟨i, hi, rfl⟩ := List.mem_map.mp hi'
    obtain ⟨n, hn, hperm⟩ := h.ranks i hi g (hgroup i ▸ hig)
    refine ⟨n, (hsize i).trans hn, ?_⟩
    rw [hrows, List.filter_map, List.map_map]
    simpa only [Function.comp_def, hgroup, hrank] using hperm
  · intro i' hi' j' hj' g hig hjg
    rw [hrows] at hi' hj'
    obtain ⟨i, hi, rfl⟩ := List.mem_map.mp hi'
    obtain ⟨j, hj, rfl⟩ := List.mem_map.mp hj'
    rw [hdep, hdep]
    exact h.together i hi j hj g (hgroup i ▸ hig) (hgroup j ▸ hjg)
  · intro i' hi' hig
    rw [hrows] at hi'
    obtain ⟨i, hi, rfl⟩ := List.mem_map.mp hi'
    rw [hdep, hshape]
    exact h.home i hi (hgroup i ▸ hig)

/-- Dropping rows keeps groups whole as long as it drops whole groups. -/
theorem GroupInv.filter {db db' : Db} (h : GroupInv db) {keep : Instance → Bool}
    (hrows : db'.instances = db.instances.filter keep)
    (hkeep : ∀ i ∈ db.instances, ∀ j ∈ db.instances, ∀ g, i.parallelGroupId = some g →
      j.parallelGroupId = some g → keep i = keep j)
    (hshape : ∀ i ∈ db.instances, keep i = true → ∀ n, (i.deploymentId, n) ∈ db.shape →
      (i.deploymentId, n) ∈ db'.shape) : GroupInv db' := by
  have hmem : ∀ {i}, i ∈ db'.instances → i ∈ db.instances ∧ keep i = true := by
    intro i hi
    rw [hrows] at hi
    exact List.mem_filter.mp hi
  refine ⟨⟨?_, ?_⟩, ?_, ?_⟩
  · exact fun i hi j hj => h.desired i (hmem hi).1 j (hmem hj).1
  · intro i hi g hig
    obtain ⟨n, hn, hperm⟩ := h.ranks i (hmem hi).1 g hig
    refine ⟨n, hn, ?_⟩
    -- the rows of the group are all kept
    have hsame : (db.instances.filter keep).filter (fun j => j.parallelGroupId = some g) =
        db.instances.filter fun j => j.parallelGroupId = some g := by
      rw [List.filter_filter]
      refine List.filter_congr fun j hj => ?_
      by_cases hjg : j.parallelGroupId = some g
      · rw [← hkeep i (hmem hi).1 j hj g hig hjg, (hmem hi).2, Bool.and_true]
      · simp [hjg]
    rw [hrows, hsame]
    exact hperm
  · exact fun i hi j hj => h.together i (hmem hi).1 j (hmem hj).1
  · intro i hi hig
    obtain ⟨n, hn, hlt⟩ := h.home i (hmem hi).1 hig
    exact ⟨n, hshape i (hmem hi).1 (hmem hi).2 n hn, hlt⟩

/-- Rows of no group may come and go as they like. -/
theorem GroupInv.append {db db' : Db} (h : GroupInv db) {rows : List Instance}
    (hrows : db'.instances = db.instances ++ rows) (hshape : ∀ e ∈ db.shape, e ∈ db'.shape)
    (hnone : ∀ r ∈ rows, r.parallelGroupId = none) : GroupInv db' := by
  have hmem : ∀ {i}, i ∈ db'.instances → i.parallelGroupId ≠ none → i ∈ db.instances := by
    intro i hi hig
    rw [hrows] at hi
    rcases List.mem_append.mp hi with hi | hi
    · exact hi
    · exact absurd (hnone i hi) hig
  have hsome : ∀ {i : Instance} {g}, i.parallelGroupId = some g → i.parallelGroupId ≠ none :=
    fun hig hno => by rw [hig] at hno; cases hno
  refine ⟨⟨?_, ?_⟩, ?_, ?_⟩
  · exact fun i hi j hj g hig hjg =>
      h.desired i (hmem hi (hsome hig)) j (hmem hj (hsome hjg)) g hig hjg
  · intro i hi g hig
    obtain ⟨n, hn, hperm⟩ := h.ranks i (hmem hi (hsome hig)) g hig
    refine ⟨n, hn, ?_⟩
    have hnil : rows.filter (fun j => j.parallelGroupId = some g) = [] := by
      rw [List.filter_eq_nil_iff]
      intro r hr
      simp [hnone r hr]
    rw [hrows, List.filter_append, hnil, List.append_nil]
    exact hperm
  · exact fun i hi j hj g hig hjg =>
      h.together i (hmem hi (hsome hig)) j (hmem hj (hsome hjg)) g hig hjg
  · intro i hi hig
    obtain ⟨n, hn, hlt⟩ := h.home i (hmem hi hig) hig
    exact ⟨n, hshape _ hn, hlt⟩

/-- A new group may come whole, to run, for one multi-node deployment. -/
theorem GroupInv.appendGroup {db db' : Db} (h : GroupInv db) {rows : List Instance}
    (hrows : db'.instances = db.instances ++ rows) (hshape : ∀ e ∈ db.shape, e ∈ db'.shape)
    {g deploymentId : Uuid} {n : ℕ} (hold : ∀ i ∈ db.instances, i.parallelGroupId ≠ some g)
    (hrow : ∀ r ∈ rows, r.parallelGroupId = some g ∧ r.desiredState = .running ∧
      r.deploymentId = deploymentId ∧ r.worldSize = some n)
    (hranks : rows.map (·.nodeRank) = (List.range n).map some)
    (hd : (deploymentId, n) ∈ db.shape) (hn : 1 < n) : GroupInv db' := by
  -- two rows of one group are both old or both new
  have hboth : ∀ i ∈ db'.instances, ∀ j ∈ db'.instances, ∀ g', i.parallelGroupId = some g' →
      j.parallelGroupId = some g' →
      (i ∈ db.instances ∧ j ∈ db.instances) ∨ (i ∈ rows ∧ j ∈ rows) := by
    intro i hi j hj g' hig hjg
    rw [hrows, List.mem_append] at hi hj
    rcases hi with hi | hi
    · rcases hj with hj | hj
      · exact Or.inl ⟨hi, hj⟩
      · rw [(hrow j hj).1] at hjg
        exact absurd (hig.trans hjg.symm) (hold i hi)
    · rcases hj with hj | hj
      · rw [(hrow i hi).1] at hig
        exact absurd (hjg.trans hig.symm) (hold j hj)
      · exact Or.inr ⟨hi, hj⟩
  refine ⟨⟨?_, ?_⟩, ?_, ?_⟩
  · intro i hi j hj g' hig hjg
    rcases hboth i hi j hj g' hig hjg with ⟨hi, hj⟩ | ⟨hi, hj⟩
    · exact h.desired i hi j hj g' hig hjg
    · rw [(hrow i hi).2.1, (hrow j hj).2.1]
  · intro i hi g' hig
    rw [hrows, List.mem_append] at hi
    rw [hrows, List.filter_append, List.map_append]
    rcases hi with hi | hi
    · obtain ⟨m, hm, hperm⟩ := h.ranks i hi g' hig
      refine ⟨m, hm, ?_⟩
      have hnil : rows.filter (fun j => j.parallelGroupId = some g') = [] := by
        rw [List.filter_eq_nil_iff]
        intro r hr hrg
        rw [decide_eq_true_eq, (hrow r hr).1] at hrg
        exact hold i hi (hig.trans hrg.symm)
      rw [hnil, List.map_nil, List.append_nil]
      exact hperm
    · rw [(hrow i hi).1] at hig
      injection hig with hig
      subst hig
      refine ⟨n, (hrow i hi).2.2.2, ?_⟩
      have hnil : db.instances.filter (fun j => j.parallelGroupId = some g) = [] := by
        rw [List.filter_eq_nil_iff]
        intro j hj hjg
        exact hold j hj (by simpa using hjg)
      have hall : rows.filter (fun j => j.parallelGroupId = some g) = rows := by
        rw [List.filter_eq_self]
        intro r hr
        simpa using (hrow r hr).1
      rw [hnil, hall, List.map_nil, List.nil_append, hranks]
  · intro i hi j hj g' hig hjg
    rcases hboth i hi j hj g' hig hjg with ⟨hi, hj⟩ | ⟨hi, hj⟩
    · exact h.together i hi j hj g' hig hjg
    · rw [(hrow i hi).2.2.1, (hrow j hj).2.2.1]
  · intro i hi hig
    rw [hrows, List.mem_append] at hi
    rcases hi with hi | hi
    · obtain ⟨m, hm, hlt⟩ := h.home i hi hig
      exact ⟨m, hshape _ hm, hlt⟩
    · exact ⟨n, (hrow i hi).2.2.1 ▸ hshape _ hd, hn⟩

/-! ### New groups -/

/-- A group of `n` ranks takes `n` hosts, if so many fit. -/
theorem length_chooseHosts {fitting : List Candidate} (hnd : (fitting.map (·.worker.id)).Nodup)
    {n : ℕ} (hn : 1 ≤ n) (hle : n ≤ fitting.length) {head : Candidate} {others : List Candidate}
    (h : chooseHosts fitting n = head :: others) : others.length = n - 1 := by
  have hhead : head ∈ fitting := by
    refine mem_of_mem_chooseHosts (n := n) ?_
    rw [h]
    exact List.mem_cons_self
  unfold chooseHosts at h
  split at h
  · cases h
  rename_i head' rest hsort
  injection h with hh ho
  subst hh
  have hothers : (fitting.filter fun c => c.worker.id ≠ head'.worker.id).length =
      fitting.length - 1 := by
    have hmap : (fitting.filter fun c => c.worker.id ≠ head'.worker.id).map (·.worker.id) =
        (fitting.map (·.worker.id)).erase head'.worker.id := by
      rw [hnd.erase_eq_filter, List.filter_map]
      congr 1
      refine List.filter_congr fun c _ => ?_
      simp [bne, beq_eq_decide]
    have hlen := congrArg List.length hmap
    rw [List.length_map, List.length_erase_of_mem (List.mem_map_of_mem hhead),
      List.length_map] at hlen
    exact hlen
  rw [← ho, List.length_take, List.length_insertionSort, hothers]
  omega

/-- **A placed group has the ranks `0 … n - 1`.** -/
theorem ranks_allocateParallelReplicas {s : Settings} {db : Db} {clusterId : Uuid} {vram : ℕ}
    {engine : Engine} {n : ℕ} {exclude : List Uuid} {allocations : List ParallelAllocation}
    (hkeys : (db.workers.map (·.id)).Nodup) (hn : 1 ≤ n)
    (h : allocateParallelReplicas s db clusterId vram engine n exclude = .ok allocations) :
    allocations.map (·.nodeRank) = List.range n := by
  obtain ⟨fitting, rfl, hfit, head, others, hhosts, _, _, -, -, rfl⟩ := allocateParallelReplicas_ok h
  have hnd : (((connectedWorkers db clusterId).filter (·.id ∉ exclude)).map (·.id)).Nodup :=
    (List.Sublist.map _ List.filter_sublist).nodup (nodup_connectedWorkers hkeys)
  have hlen := length_chooseHosts (nodup_filterMap_bestFittingGpu db engine vram hnd) hn hfit hhosts
  have hranks : (others.mapIdx fun k c =>
      (⟨c.worker, [c.gpuIndex], k + 1, none, none⟩ : ParallelAllocation)).map (·.nodeRank) =
      (List.range others.length).map (· + 1) := by
    refine List.ext_getElem (by simp) fun k hk hk' => ?_
    simp
  rw [List.map_cons, hranks, hlen, show n = n - 1 + 1 by omega, List.range_succ_eq_map]
  rfl

/-- Inserting a group whose ranks are all there keeps groups whole. -/
theorem groupInv_addGroup {db : Db} (h : GroupInv db) {d : Deployment} (now : ℕ)
    {allocations : List ParallelAllocation} (hn : 1 < d.nodesPerReplica)
    (hd : (d.id, d.nodesPerReplica) ∈ db.shape)
    (hranks : allocations.map (·.nodeRank) = List.range d.nodesPerReplica) :
    GroupInv (addGroup db d now allocations) := by
  refine h.appendGroup rfl (fun _ he => he)
    (fun i hi hg => absurd (Db.groupId_lt_nextUuid hi hg) (lt_irrefl _)) ?_ ?_ hd hn
  · intro r hr
    obtain ⟨k, hk, rfl⟩ := List.mem_mapIdx.mp hr
    exact ⟨rfl, rfl, rfl, rfl⟩
  · rw [← hranks, List.map_map]
    refine List.ext_getElem (by simp) fun k hk hk' => ?_
    simp [rankRow]

/-- Scaling out inserts whole groups. -/
theorem groupInv_scaleOut (s : Settings) {d : Deployment} (now n : ℕ) (used : List (Uuid × ℕ))
    (occupied : List Uuid) {db : Db} (hkeys : (db.workers.map (·.id)).Nodup)
    (hd : (d.id, d.nodesPerReplica) ∈ db.shape) (h : GroupInv db) :
    GroupInv (scaleOut s d now n used occupied db).1 := by
  refine (scaleOut_invariant (fun db' => GroupInv db' ∧ db'.workers = db.workers ∧
    db'.shape = db.shape) _ rfl ⟨h, rfl, rfl⟩ ?_ n used ?_ occupied).1
  · rintro hn db' occupied' allocations ⟨hgroups, hworkers, hshape⟩ halloc
    have hranks := ranks_allocateParallelReplicas (hworkers ▸ hkeys) (by omega) halloc
    exact ⟨groupInv_addGroup hgroups now hn (hshape ▸ hd) hranks, hworkers, hshape⟩
  · intro allocations _
    refine ⟨h.append rfl (fun _ he => he) fun r hr => ?_, rfl, rfl⟩
    obtain ⟨k, hk, rfl⟩ := List.mem_mapIdx.mp hr
    rfl

/-! ### Scaling -/

/-- The rows of a group are all in the units that are stopped, or none is. -/
theorem mem_units_of_group {db : Db} (hids : (db.instances.map (·.id)).Nodup) (h : GroupInv db)
    {d : Deployment} (hd : ∀ n, (d.id, n) ∈ db.shape → n = d.nodesPerReplica)
    {us : List (List Instance)} (hus : ∀ u ∈ us, u ∈ unitsOf d db) {i j : Instance}
    (hi : i ∈ db.instances) (hj : j ∈ db.instances) {g : Uuid} (hig : i.parallelGroupId = some g)
    (hjg : j.parallelGroupId = some g) (hmem : i.id ∈ us.flatten.map (·.id)) :
    j.id ∈ us.flatten.map (·.id) := by
  obtain ⟨u, hu, k, hk, hki⟩ := mem_flatten_ids.mp hmem
  obtain ⟨hkdb, hkd⟩ := mem_of_mem_unit hids (hus u hu) hk
  obtain rfl : k = i := List.inj_on_of_nodup_map hids hkdb hi hki
  have hjd : j.deploymentId = d.id := (h.together j hj k hi g hjg hig).trans hkd
  have hnodes : ¬ d.nodesPerReplica ≤ 1 := by
    obtain ⟨n, hn, hlt⟩ := h.home k hi (by rw [hig]; exact Option.some_ne_none _)
    rw [hkd] at hn
    rw [← hd n hn]
    omega
  -- a unit of a multi-node deployment is a group
  obtain ⟨x, hx, rfl⟩ := (mem_replicaUnits (nodup_instancesOf hids d.id)).mp (hus u hu)
  refine mem_flatten_ids.mpr ⟨_, hu, j, ?_, rfl⟩
  rw [List.mem_filter, decide_eq_true_eq] at hk ⊢
  refine ⟨mem_instancesOf.mpr ⟨hj, hjd⟩, ?_⟩
  rw [← hk.2]
  unfold keyOf Instance.unitKey
  rw [if_neg hnodes, if_neg hnodes, hig, hjg]
  rfl

/-- Stopping units keeps groups whole. -/
theorem groupInv_stop {db db' : Db} (hids : (db.instances.map (·.id)).Nodup) (h : GroupInv db)
    {d : Deployment} (hd : ∀ n, (d.id, n) ∈ db.shape → n = d.nodesPerReplica)
    {us : List (List Instance)} (hus : ∀ u ∈ us, u ∈ unitsOf d db)
    (hrows : db'.instances = db.instances.map fun i =>
      if i.id ∈ us.flatten.map (·.id) then i.stop else i) (hshape : db'.shape = db.shape) :
    GroupInv db' := by
  refine h.map hrows hshape ?_ ?_ ?_ ?_ ?_
  · intro i; split <;> rfl
  · intro i; split <;> rfl
  · intro i; split <;> rfl
  · intro i; split <;> rfl
  · intro i hi j hj g hig hjg
    have hij := mem_units_of_group hids h hd hus hi hj hig hjg
    have hji := mem_units_of_group hids h hd hus hj hi hjg hig
    by_cases hmem : i.id ∈ us.flatten.map (·.id)
    · rw [if_pos hmem, if_pos (hij hmem)]
      rfl
    · rw [if_neg hmem, if_neg fun hmem' => hmem (hji hmem')]
      exact h.desired i hi j hj g hig hjg

/-- **Scaling keeps groups whole, also when it fails.** -/
theorem groupInv_moveReplicas (s : Settings) {d : Deployment} (target now : ℕ) {db : Db}
    (hk : db.Keyed) (h : GroupInv db) (hmem : (d.id, d.nodesPerReplica) ∈ db.shape)
    (hd : ∀ n, (d.id, n) ∈ db.shape → n = d.nodesPerReplica) :
    GroupInv (moveReplicas s d target now db).1 := by
  have hbroken : GroupInv (stopUnits db (brokenUnits d db)) := by
    have hus : ∀ u ∈ brokenUnits d db, u ∈ unitsOf d db :=
      fun u hu => (mem_liveUnits.mp (mem_brokenUnits.mp hu).1).1
    refine groupInv_stop hk.instances h hd hus ?_ rfl
    simp only [stopUnits, Db.updateWhere, decide_eq_true_eq]
  unfold moveReplicas
  simp only
  split
  · refine groupInv_scaleOut s now _ _ _ ?_ hmem hbroken
    exact hk.workers
  · rename_i hge
    have hus : ∀ u ∈ stoppedUnits d db target, u ∈ unitsOf d db :=
      fun u hu => (mem_liveUnits.mp (stoppedUnits_live hu)).1
    refine groupInv_stop hk.instances h hd hus ?_ rfl
    rw [stopUnits_stopUnits hk.instances hge]
    refine List.map_congr_left fun i _ => ?_
    simp only [scaledRow, isStopped, decide_eq_true_eq]

/-- The deployments keep their shape. -/
theorem shape_applyScale (s : Settings) (obj : DeploymentObj) (replicas : ℕ) (setRange : Bool)
    (now : ℕ) (db : Db) : (applyScale s obj replicas setRange now db).1.shape = db.shape := by
  have hmove := (moveReplicas_tables s obj.loaded (scaleTarget obj replicas setRange) now db).1
  rcases applyScale_cases s obj replicas setRange now db with ⟨e, -, heq⟩ | ⟨-, heq⟩
  · rw [heq]
    unfold Db.shape
    rw [hmove]
  · rw [heq]
    unfold Db.shape Db.writeDeployment
    rw [List.map_map, hmove]
    refine List.map_congr_left fun d _ => ?_
    simp only [Function.comp_apply]
    split <;> rfl

/-- The invariant of a session: keys, whole groups, and deployments of a given shape. -/
structure ScaleGroups (shape : List (Uuid × ℕ)) (db : Db) : Prop where
  keyed : db.Keyed
  groups : GroupInv db
  shape_eq : db.shape = shape

theorem scaleGroups_applyScale {shape : List (Uuid × ℕ)} (hnd : (shape.map Prod.fst).Nodup)
    (s : Settings) {obj : DeploymentObj} (hobj : (obj.loaded.id, obj.loaded.nodesPerReplica) ∈ shape)
    (replicas : ℕ) (setRange : Bool) (now : ℕ) {db : Db} (h : ScaleGroups shape db) :
    ScaleGroups shape (applyScale s obj replicas setRange now db).1 := by
  have hmem : (obj.loaded.id, obj.loaded.nodesPerReplica) ∈ db.shape := h.shape_eq ▸ hobj
  have huniq : ∀ n, (obj.loaded.id, n) ∈ db.shape → n = obj.loaded.nodesPerReplica := by
    intro n hn
    rw [h.shape_eq] at hn
    exact congrArg Prod.snd (List.inj_on_of_nodup_map hnd hn hobj rfl)
  have hmove := groupInv_moveReplicas s (scaleTarget obj replicas setRange) now h.keyed h.groups hmem
    huniq
  have hshape := shape_applyScale s obj replicas setRange now db
  refine ⟨?_, ?_, hshape.trans h.shape_eq⟩
  · exact (moves_applyScale s obj replicas setRange now h.keyed.workers).preserves
      (fun _ _ => keyed_of_move) h.keyed
  · -- the row of the deployment that is written does not matter
    have hinst := applyScale_instances s obj replicas setRange now db
    have hsame : (moveReplicas s obj.loaded (scaleTarget obj replicas setRange) now db).1.shape =
        db.shape := by
      unfold Db.shape
      rw [(moveReplicas_tables s obj.loaded _ now db).1]
    refine hmove.map ((hinst.trans (List.map_id _).symm)) (hshape.trans hsame.symm) (fun _ => rfl)
      (fun _ => rfl) (fun _ => rfl) (fun _ => rfl) hmove.desired

theorem nodup_shape {db : Db} (hk : db.Keyed) : (db.shape.map Prod.fst).Nodup := by
  unfold Db.shape
  rw [List.map_map]
  exact hk.deployments

theorem mem_shape {db : Db} {d : Deployment} (hd : d ∈ db.deployments) :
    (d.id, d.nodesPerReplica) ∈ db.shape :=
  List.mem_map_of_mem hd

theorem groupInv_scaleCandidate {s : Settings} {db db' : Db} {obj : DeploymentObj}
    {replicas now : ℕ} {setRange : Bool} (hk : db.Keyed) (h : GroupInv db)
    (hobj : obj.loaded ∈ db.deployments)
    (hok : scaleCandidate s db obj replicas setRange now = .ok db') : GroupInv db' := by
  have hscale := (scaleGroups_applyScale (nodup_shape hk) s (mem_shape hobj) replicas setRange now
    ⟨hk, h, rfl⟩).groups
  rw [scaleCandidate_ok hok] at hscale
  exact hscale

theorem groupInv_tick {s : Settings} (m : Metrics) (clock : ℕ) (now : ℚ) (cooldown : Dict Uuid ℚ)
    {db : Db} (hk : db.Keyed) (h : GroupInv db) :
    GroupInv (autoscaleTick s m clock now cooldown db).session.committed := by
  have hcall : ∀ d ∈ windowedDeployments db, ∀ db' target, ScaleGroups db.shape db' →
      ScaleGroups db.shape (applyScale s d.load target false clock db').1 := by
    intro d hd db' target hdb'
    have hmem : d ∈ db.deployments := List.mem_of_mem_filter hd
    exact @scaleGroups_applyScale _ (nodup_shape hk) s d.load (mem_shape hmem) target false clock _ hdb'
  exact (preserves_tick m now cooldown hcall ⟨hk, h, rfl⟩).groups

/-! ### Single rows -/

/-- Writing the desired state of one row keeps groups whole if the row is of no group,
or already has this desired state. -/
theorem groupInv_updateRow {db : Db} (h : GroupInv db) {id : Uuid} {f : Instance → Instance}
    {des : DesiredState} (hgroup : ∀ i, (f i).parallelGroupId = i.parallelGroupId)
    (hrank : ∀ i, (f i).nodeRank = i.nodeRank) (hsize : ∀ i, (f i).worldSize = i.worldSize)
    (hdep : ∀ i, (f i).deploymentId = i.deploymentId) (hdes : ∀ i, (f i).desiredState = des)
    (hok : ∀ i ∈ db.instances, i.id = id → i.parallelGroupId ≠ none → i.desiredState = des) :
    GroupInv (db.updateWhere (·.id = id) f) := by
  -- the rows of groups keep their desired state
  have hsame : ∀ i ∈ db.instances, ∀ g, i.parallelGroupId = some g →
      (if i.id = id then f i else i).desiredState = i.desiredState := by
    intro i hi g hig
    split
    · rename_i hid
      rw [hdes, hok i hi hid (by simp [hig])]
    · rfl
  refine h.map (f := fun i => if i.id = id then f i else i) ?_ rfl ?_ ?_ ?_ ?_ ?_
  · simp only [Db.updateWhere, decide_eq_true_eq]
  · intro i; split <;> simp [hgroup]
  · intro i; split <;> simp [hrank]
  · intro i; split <;> simp [hsize]
  · intro i; split <;> simp [hdep]
  · intro i hi j hj g hig hjg
    simp only [hsame i hi g hig, hsame j hj g hjg]
    exact h.desired i hi j hj g hig hjg

/-- Dropping a deployment drops whole groups. -/
theorem groupInv_dropDeployment {db : Db} (h : GroupInv db) (id : Uuid) :
    GroupInv (db.dropDeployment id) := by
  refine h.filter rfl ?_ ?_
  · intro i hi j hj g hig hjg
    rw [h.together i hi j hj g hig hjg]
  · intro i _ hkeep n hn
    obtain ⟨d, hd, heq⟩ := List.mem_map.mp hn
    refine List.mem_map.mpr ⟨d, List.mem_filter.mpr ⟨hd, ?_⟩, heq⟩
    have hid : d.id = i.deploymentId := congrArg Prod.fst heq
    rw [hid]
    exact hkeep

theorem groupInv_deleteInstance {db db' : Db} (h : GroupInv db) {id : Uuid}
    (hok : ∀ i ∈ db.instances, i.id = id → i.parallelGroupId = none)
    (hdel : deleteInstance db id = .ok db') : GroupInv db' := by
  obtain ⟨row, -, rfl | rfl⟩ := deleteInstance_ok hdel
  · exact groupInv_dropDeployment h _
  · refine h.filter rfl ?_ fun _ _ _ _ hn => hn
    -- the row that goes is of no group
    have hkept : ∀ i ∈ db.instances, ∀ g, i.parallelGroupId = some g → i.id ≠ id := by
      intro i hi g hig hid
      rw [hok i hi hid] at hig
      cases hig
    intro i hi j hj g hig hjg
    simp [hkept i hi g hig, hkept j hj g hjg]

/-! ### Every step -/

theorem groupInv_deploy {s : Settings} {db db' : Db} {body : DeployRequest} {now : ℕ}
    (hkeys : (db.workers.map (·.id)).Nodup) (h : GroupInv db)
    (hok : deploy s db body now = .ok db') : GroupInv db' := by
  obtain ⟨model, -, hrows⟩ := deploy_ok hok
  set d := deploymentRow body now db.nextUuid with hd
  have hadd : GroupInv (db.addDeployment d) := by
    have hrows : (db.addDeployment d).instances = db.instances ++ [] := (List.append_nil _).symm
    refine h.append hrows ?_ fun r hr => absurd hr List.not_mem_nil
    intro e he
    obtain ⟨d', hd', rfl⟩ := List.mem_map.mp he
    exact mem_shape (List.mem_append_left _ hd')
  rcases hrows with ⟨hn, allocations, halloc, rfl⟩ | ⟨-, allocations, -, rfl⟩
  · have hranks := ranks_allocateParallelReplicas hkeys (by omega) halloc
    exact groupInv_addGroup hadd now hn (mem_shape (List.mem_append_right _ List.mem_cons_self))
      hranks
  · refine hadd.append rfl (fun _ he => he) fun r hr => ?_
    obtain ⟨k, hk, rfl⟩ := List.mem_mapIdx.mp hr
    rfl

theorem groupInv_markDisconnected {db : Db} (h : GroupInv db) (now : ℕ) :
    GroupInv (markDisconnected db now) := by
  refine h.map rfl rfl ?_ ?_ ?_ ?_ ?_
  · intro i; split <;> rfl
  · intro i; split <;> rfl
  · intro i; split <;> rfl
  · intro i; split <;> rfl
  · intro i hi j hj g hig hjg
    have hdes := h.desired i hi j hj g hig hjg
    split <;> split <;> exact hdes

theorem groupInv_storeReports {db : Db} (h : GroupInv db) (req : SyncRequest) (w : Uuid) (now : ℕ) :
    GroupInv (storeReports db req w now) := by
  refine h.map (f := applyStatuses req w) rfl rfl ?_ ?_ ?_ ?_ ?_
  · exact applyStatuses_keeps (·.parallelGroupId) (fun _ _ => rfl) req w
  · exact applyStatuses_keeps (·.nodeRank) (fun _ _ => rfl) req w
  · exact applyStatuses_keeps (·.worldSize) (fun _ _ => rfl) req w
  · exact applyStatuses_keeps (·.deploymentId) (fun _ _ => rfl) req w
  · intro i hi j hj g hig hjg
    have hkeeps := applyStatuses_keeps (·.desiredState) (fun _ _ => rfl) req w
    rw [hkeeps i, hkeeps j]
    exact h.desired i hi j hj g hig hjg

/-- **Every allowed step keeps groups whole.** -/
theorem groupInv_next {env : Env} {wd : World} (hk : wd.db.Keyed) (h : GroupInv wd.db) {a : Step}
    (hok : GroupStep wd a) : GroupInv (wd.next env a).db := by
  cases a with
  | deploy body now =>
    exact preserves_commitTo GroupInv h fun db' hdb' => groupInv_deploy hk.workers h hdb'
  | scale id body now =>
    refine preserves_commitTo GroupInv h ?_
    intro db' hdb'
    obtain ⟨d, hd, hcall⟩ := scaleDeployment_ok hdb'
    have hmem : d.load.loaded ∈ wd.db.deployments := List.mem_of_find?_eq_some hd
    exact groupInv_scaleCandidate hk h hmem hcall
  | setRange id body now =>
    refine preserves_commitTo GroupInv h ?_
    intro db' hdb'
    obtain ⟨d, hd, hcall⟩ := setDeploymentRange_ok hdb'
    have hmem : (rangeObj d body).loaded ∈ wd.db.deployments := List.mem_of_find?_eq_some hd
    exact groupInv_scaleCandidate hk h hmem hcall
  | autoscaleTick m clock now => exact groupInv_tick m clock now wd.cooldown hk h
  | stop id =>
    refine preserves_commitTo GroupInv h ?_
    intro db' hdb'
    rcases stopInstance_ok hdb' with rfl | rfl
    · exact groupInv_updateRow h (fun _ => rfl) (fun _ => rfl) (fun _ => rfl) (fun _ => rfl)
        (fun _ => rfl) hok
    · exact h
  | restart id =>
    rcases (restart_cases env wd id).2 with heq | heq
    · rw [heq]
      exact h
    · rw [heq]
      exact groupInv_updateRow h (fun _ => rfl) (fun _ => rfl) (fun _ => rfl) (fun _ => rfl)
        (fun _ => rfl) hok
  | deleteInstance id =>
    exact preserves_commitTo GroupInv h fun db' hdb' => groupInv_deleteInstance h hok hdb'
  | deleteDeployment id =>
    refine preserves_commitTo GroupInv h ?_
    intro db' hdb'
    obtain rfl := deleteDeployment_ok hdb'
    exact groupInv_dropDeployment h id
  | markDisconnected now =>
    refine preserves_commitTo GroupInv h ?_
    intro db' hdb'
    injection hdb' with hdb'
    exact hdb' ▸ groupInv_markDisconnected h now
  | register req token now =>
    -- a registration touches the workers alone
    have hsame := tables_register env wd req token now
    have hrows : (wd.next env (.register req token now)).db.instances = wd.db.instances ++ [] := by
      rw [hsame.1, List.append_nil]
    refine h.append hrows ?_ fun r hr => absurd hr List.not_mem_nil
    intro e he
    unfold Db.shape
    rw [hsame.2]
    exact he
  | sync w now =>
    rcases sync_cases env wd w now with heq | hsync
    · rw [heq]
      exact h
    · rw [hsync.1]
      exact groupInv_storeReports h _ w now
  | applyNext w => exact h
  | probe w id ready => exact h
  | containerExit w id => exact h
  | restartWorker w => exact h

/-- **Groups are whole after every run that spares the single rows of groups.**  Deploys,
scalings, autoscaler passes, Syncs and the watchdog may come in any order; what splits
a group is a request for one of its rows. -/
theorem groups_whole (env : Env) (wd : World) (h0 : wd.Initial) (as : List Step)
    (hok : Conforms (World.next env) GroupStep wd as) :
    WholeGroups (exec (World.next env) wd as).db := by
  have hstep : ∀ wd a, (wd.db.Keyed ∧ GroupInv wd.db) → GroupStep wd a →
      (wd.next env a).db.Keyed ∧ GroupInv (wd.next env a).db :=
    fun wd a hinv hok => ⟨keyed_next env wd a hinv.1, groupInv_next hinv.1 hinv.2 hok⟩
  have hinit : GroupInv wd.db := by
    have hnone : ∀ i, i ∉ wd.db.instances := by
      rw [h0.instances]
      exact fun _ => List.not_mem_nil
    exact ⟨⟨fun i hi => absurd hi (hnone i), fun i hi => absurd hi (hnone i)⟩,
      fun i hi => absurd hi (hnone i), fun i hi => absurd hi (hnone i)⟩
  exact (invariant_of_conforms (fun wd => wd.db.Keyed ∧ GroupInv wd.db) hstep as wd
    ⟨h0.keyed, hinit⟩ hok).2.toWholeGroups

/-- A second worker joins, and a replica of two ranks is deployed, as the rows `5` and `6`. -/
def groupRun : List Step :=
  sampleJoin ++
    [.register { clusterToken := "inferna-registration-token", hostname := "peer",
                 version := "0.2.0", address := "10.0.0.2" } "token" 0,
     .sync 2 0, .applyNext 2,
     .deploy { modelId := 1, clusterId := 1, engine := .vllm, profile := .latency,
               nodesPerReplica := 2, parallelMode := .tp, replicas_bounds := bounds_one,
               nodes_bounds := bounds_two } 1]

/-- The group of the two ranks is whole. -/
theorem groups_whole_sample :
    (∃ i ∈ (exec (World.next sampleEnv) sampleWorld groupRun).db.instances,
        i.id = 5 ∧ i.parallelGroupId ≠ none) ∧
      WholeGroups (exec (World.next sampleEnv) sampleWorld groupRun).db :=
  ⟨by decide +kernel,
    groups_whole sampleEnv sampleWorld sampleWorld_initial groupRun (by decide +kernel)⟩

/-- **Stopping one rank splits its group**: rank `0` is to stop while rank `1` is to run. -/
theorem stop_splits_group :
    ¬ ∀ (env : Env) (wd : World), wd.Initial → ∀ as : List Step,
      WholeGroups (exec (World.next env) wd as).db := by
  intro h
  have hwhole := h sampleEnv sampleWorld sampleWorld_initial (groupRun ++ [.stop 5])
  have hsplit : ∃ i ∈ (exec (World.next sampleEnv) sampleWorld (groupRun ++ [.stop 5])).db.instances,
      ∃ j ∈ (exec (World.next sampleEnv) sampleWorld (groupRun ++ [.stop 5])).db.instances,
        i.parallelGroupId = some 4 ∧ j.parallelGroupId = some 4 ∧
          i.desiredState ≠ j.desiredState := by
    decide +kernel
  obtain ⟨i, hi, j, hj, hig, hjg, hne⟩ := hsplit
  exact hne (hwhole.desired i hi j hj 4 hig hjg)

end Inferna
