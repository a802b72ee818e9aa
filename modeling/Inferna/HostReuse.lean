import Inferna.Hosts
import Inferna.Ports
import Inferna.TickRollback

/-!
# Hosts of stopped groups

`apply_scale` places each new group away from the hosts of all units of the deployment, the stopped
ones that are kept for the record included.  A host that once carried a group is never used again
by the deployment, however long the group has been gone.

## Main definitions

* `Ready` — a multi-node deployment on hosts with addresses and free ports.
* `neededHosts`, `liveFreeHosts`, `neverUsedHosts` — what a call needs, the fitting hosts without a
  live rank of the deployment, and those without any row of it.

## Main results

* `placeGroups_isOk_iff` — the rounds of a call succeed as long as there are fresh hosts.
* `scaleBack_iff` — **free hosts are enough exactly when they have never been used.**
* `scaleBack_fails` — out, in, and not out again.
-/

namespace Inferna

open Run

/-! ### What the allocators see of a worker -/

theorem freeVram_congr {db db' : Db} {w : Worker}
    (h : ∀ index, usage db' w.id index = usage db w.id index) (pending : Dict (Uuid × ℕ) ℕ)
    (g : Gpu) : freeVram db' pending w g = freeVram db pending w g := by
  have hg := h g.index
  unfold usage at hg
  unfold freeVram
  rw [hg]

theorem fits_congr {db db' : Db} {engine : Engine} {vram : ℕ} {w : Worker}
    (h : ∀ index, usage db' w.id index = usage db w.id index) :
    fits db' engine vram w = fits db engine vram w := by
  unfold fits
  simp only [freeVram_congr h]

/-- Stopping rows leaves the memory they use as it is. -/
theorem usage_stopUnits (db : Db) (units : List (List Instance)) (w : Uuid) (index : ℕ) :
    usage (stopUnits db units) w index = usage db w index := by
  have hlive : liveInstances (stopUnits db units) w = (liveInstances db w).map fun i =>
      if i.id ∈ units.flatten.map (·.id) then i.stop else i := by
    unfold liveInstances stopUnits Db.updateWhere
    simp only [decide_eq_true_eq]
    rw [List.filter_map]
    congr 1
    refine List.filter_congr fun i _ => ?_
    simp only [Function.comp_apply]
    split <;> rfl
  unfold usage
  rw [getD_gpuUsage, getD_gpuUsage, hlive, List.map_map]
  congr 1
  refine List.map_congr_left fun i _ => ?_
  simp only [Function.comp_apply]
  split <;> rfl

/-- A row of the tables after a stop reserves the ports it reserved before. -/
theorem mem_portInstances_stopUnits {db : Db} {units : List (List Instance)} {w : Uuid}
    {i' : Instance} (h : i' ∈ portInstances (stopUnits db units) w) :
    ∃ i ∈ portInstances db w, i'.port = i.port ∧ i'.rendezvous = i.rendezvous := by
  unfold portInstances at h ⊢
  rw [List.mem_filter, decide_eq_true_eq] at h
  obtain ⟨hmem, hw, hres⟩ := h
  obtain ⟨i, hi, rfl⟩ := List.mem_map.mp hmem
  simp only at hw hres
  split_ifs at hw hres ⊢ with hstop
  · exact ⟨i, List.mem_filter.mpr ⟨hi, decide_eq_true ⟨hw, portReserved_stop hres⟩⟩, rfl, rfl⟩
  · exact ⟨i, List.mem_filter.mpr ⟨hi, decide_eq_true ⟨hw, hres⟩⟩, rfl, rfl⟩

/-- Fewer reserved ports leave more to hand out. -/
theorem HasPorts.mono {s : Settings} {rows rows' : List Instance} (h : HasPorts s rows)
    (hrows : ∀ i' ∈ rows', ∃ i ∈ rows, i'.port = i.port ∧ i'.rendezvous = i.rendezvous) :
    HasPorts s rows' := by
  have hused : ∀ p, p ∈ usedPorts rows' → p ∈ usedPorts rows := by
    intro p hp
    obtain ⟨hne, i', hi', hport⟩ := mem_usedPorts.mp hp
    obtain ⟨i, hi, heq, -⟩ := hrows i' hi'
    exact mem_usedPorts.mpr ⟨hne, i, hi, heq ▸ hport⟩
  have hrdv : ∀ p, p ∈ rendezvousPorts rows' → p ∈ rendezvousPorts rows := by
    intro p hp
    obtain ⟨i', hi', hport⟩ := List.mem_filterMap.mp hp
    obtain ⟨i, hi, -, heq⟩ := hrows i' hi'
    exact List.mem_filterMap.mpr ⟨i, hi, heq ▸ hport⟩
  obtain ⟨⟨p, hp, hfree⟩, r, hr, hfree'⟩ := h
  refine ⟨⟨p, hp, fun hmem => hfree (hused p hmem)⟩, r, hr, fun hmem => hfree' ?_⟩
  rw [List.mem_append] at hmem ⊢
  exact hmem.imp (hused r) (hrdv r)

section AddGroup

variable {s : Settings} {d : Deployment} {vram now : ℕ} {db : Db} {occupied : List Uuid}
  {as : List ParallelAllocation}

/-- The rows of a group that is inserted. -/
def groupRows (db : Db) (d : Deployment) (now : ℕ) (as : List ParallelAllocation) :
    List Instance :=
  as.mapIdx fun k a => rankRow d now db.nextUuid (rendezvousText as) (db.nextUuid + 1 + k) a

theorem instances_addGroup (db : Db) (d : Deployment) (now : ℕ) (as : List ParallelAllocation) :
    (addGroup db d now as).instances = db.instances ++ groupRows db d now as := rfl

theorem mem_groupRows {r : Instance} (h : r ∈ groupRows db d now as) :
    ∃ a ∈ as, ∃ k, r = rankRow d now db.nextUuid (rendezvousText as) (db.nextUuid + 1 + k) a := by
  obtain ⟨k, hk, rfl⟩ := List.mem_mapIdx.mp h
  exact ⟨as[k], List.getElem_mem hk, k, rfl⟩

/-- A column of the rows of a group, read off the ranks. -/
theorem map_groupRows {α : Type} (get : Instance → α) (get' : ParallelAllocation → α)
    (h : ∀ groupId rendezvous id a, get (rankRow d now groupId rendezvous id a) = get' a) :
    (groupRows db d now as).map get = as.map get' := by
  refine List.ext_getElem (by simp [groupRows]) fun k hk hk' => ?_
  simp [groupRows, h]

/-- On another worker nothing has changed. -/
theorem filter_addGroup {w : Uuid} (hw : w ∉ as.map (·.worker.id)) (p : Instance → Bool)
    (hp : ∀ i, p i = true → i.workerId = some w) :
    (addGroup db d now as).instances.filter p = db.instances.filter p := by
  have hnil : (groupRows db d now as).filter p = [] := by
    rw [List.filter_eq_nil_iff]
    intro r hr hpr
    obtain ⟨a, ha, k, rfl⟩ := mem_groupRows hr
    have hworker : some a.worker.id = some w := hp _ hpr
    exact hw (List.mem_map.mpr ⟨a, ha, Option.some.inj hworker⟩)
  rw [instances_addGroup, List.filter_append, hnil, List.append_nil]

theorem portInstances_addGroup {w : Uuid} (hw : w ∉ as.map (·.worker.id)) :
    portInstances (addGroup db d now as) w = portInstances db w :=
  filter_addGroup hw _ fun _ h => (of_decide_eq_true h).1

theorem usage_addGroup {w : Uuid} (hw : w ∉ as.map (·.worker.id)) (index : ℕ) :
    usage (addGroup db d now as) w index = usage db w index := by
  have hlive : liveInstances (addGroup db d now as) w = liveInstances db w :=
    filter_addGroup hw _ fun _ h => (of_decide_eq_true h).1
  unfold usage
  rw [hlive]
  rfl

end AddGroup

/-! ### Rounds -/

/-- The hosts a deployment may use have an address and free ports; the port `0`, which would be
handed out again, is none of them. -/
structure OpenHosts (s : Settings) (db : Db) (clusterId : Uuid) (exclude : List Uuid) : Prop where
  names : db.NamesOk
  /-- `workers.id` is a primary key. -/
  keys : (db.workers.map (·.id)).Nodup
  address : ∀ w ∈ freeHosts db clusterId exclude, w.hasAddress = true
  ports : ∀ w ∈ freeHosts db clusterId exclude, HasPorts s (portInstances db w.id)
  zero : ∀ w ∈ freeHosts db clusterId exclude, 0 ∈ s.instancePortRange →
    ∀ i ∈ portInstances db w.id, i.port ≠ some 0

section Rounds

variable {s : Settings} {d : Deployment} {vram now : ℕ} {db : Db} {occupied : List Uuid}
  {as : List ParallelAllocation}

/-- On open hosts a group is placed as soon as there are enough that fit. -/
theorem OpenHosts.isOk_iff (h : OpenHosts s db d.clusterId occupied) (hn : 1 ≤ d.nodesPerReplica) :
    (∃ as, allocateParallelReplicas s db d.clusterId vram d.engine d.nodesPerReplica occupied =
      .ok as) ↔
      d.nodesPerReplica ≤ (freeHosts db d.clusterId occupied).countP (fits db d.engine vram) := by
  rw [allocateParallelReplicas_isOk_iff h.names]
  refine ⟨fun hok => hok.1, fun hle => ⟨hle, ?_⟩⟩
  obtain ⟨w, hw, hfit⟩ := List.countP_pos_iff.mp (hn.trans hle)
  obtain ⟨c, hc⟩ := exists_isHead ⟨w, hw, hfit, h.address w hw⟩
  exact ⟨c, hc, h.ports c.worker (mem_fittingHosts.mp hc.1).1⟩

/-- After a group the hosts it took are closed. -/
theorem freeHosts_addGroup : freeHosts (addGroup db d now as) d.clusterId
      (occupied ++ as.map (·.worker.id)) =
    (freeHosts db d.clusterId occupied).filter (·.id ∉ as.map (·.worker.id)) := by
  unfold freeHosts
  rw [List.filter_filter]
  refine List.filter_congr fun w _ => ?_
  rw [← Bool.decide_and, decide_eq_decide, List.mem_append, not_or, and_comm]

theorem mem_freeHosts_addGroup {w : Worker}
    (hw : w ∈ freeHosts (addGroup db d now as) d.clusterId (occupied ++ as.map (·.worker.id))) :
    w ∈ freeHosts db d.clusterId occupied ∧ w.id ∉ as.map (·.worker.id) := by
  rw [freeHosts_addGroup, List.mem_filter, decide_eq_true_eq] at hw
  exact hw

/-- The other hosts stay open. -/
theorem OpenHosts.addGroup (h : OpenHosts s db d.clusterId occupied) :
    OpenHosts s (addGroup db d now as) d.clusterId (occupied ++ as.map (·.worker.id)) where
  names := h.names
  keys := h.keys
  address := fun w hw => h.address w (mem_freeHosts_addGroup hw).1
  ports := fun w hw => by
    obtain ⟨hfree, hnot⟩ := mem_freeHosts_addGroup hw
    rw [portInstances_addGroup hnot]
    exact h.ports w hfree
  zero := fun w hw => by
    obtain ⟨hfree, hnot⟩ := mem_freeHosts_addGroup hw
    rw [portInstances_addGroup hnot]
    exact h.zero w hfree

/-- A group takes as many fitting hosts as it has ranks. -/
theorem countP_fits_addGroup (hkeys : (db.workers.map (·.id)).Nodup) (hn : 1 ≤ d.nodesPerReplica)
    (h : allocateParallelReplicas s db d.clusterId vram d.engine d.nodesPerReplica occupied =
      .ok as) :
    (freeHosts db d.clusterId occupied).countP (fits db d.engine vram) = d.nodesPerReplica +
      (freeHosts (addGroup db d now as) d.clusterId (occupied ++ as.map (·.worker.id))).countP
        (fits (addGroup db d now as) d.engine vram) := by
  obtain ⟨hdistinct, hworkers⟩ := hosts_allocateParallelReplicas hkeys h
  have hlen : as.length = d.nodesPerReplica := by
    have hranks := congrArg List.length (ranks_allocateParallelReplicas hkeys hn h)
    simpa only [List.length_map, List.length_range] using hranks
  have hfreeNd : ((freeHosts db d.clusterId occupied).map (·.id)).Nodup := nodup_freeHosts hkeys
  -- the hosts of the group are those with its identifiers, and they all fit
  have htaken : ((freeHosts db d.clusterId occupied).filter
      (·.id ∈ as.map (·.worker.id))).countP (fits db d.engine vram) = d.nodesPerReplica := by
    have hperm : (((freeHosts db d.clusterId occupied).filter
        (·.id ∈ as.map (·.worker.id))).map (·.id)).Perm (as.map (·.worker.id)) := by
      refine (List.perm_ext_iff_of_nodup ((List.Sublist.map _ List.filter_sublist).nodup hfreeNd)
        hdistinct).mpr fun k => ?_
      rw [List.mem_map]
      constructor
      · rintro ⟨w, hw, rfl⟩
        exact of_decide_eq_true (List.mem_filter.mp hw).2
      · intro hk
        obtain ⟨a, ha, rfl⟩ := List.mem_map.mp hk
        exact ⟨a.worker, List.mem_filter.mpr ⟨(hworkers a ha).1, decide_eq_true hk⟩, rfl⟩
    have hall : ∀ w ∈ (freeHosts db d.clusterId occupied).filter (·.id ∈ as.map (·.worker.id)),
        fits db d.engine vram w = true := by
      intro w hw
      obtain ⟨hfree, hk⟩ := List.mem_filter.mp hw
      obtain ⟨a, ha, hid⟩ := List.mem_map.mp (of_decide_eq_true hk)
      obtain ⟨haFree, g, hg, -, hfit⟩ := hworkers a ha
      have hsame : a.worker = w := List.inj_on_of_nodup_map hfreeNd haFree hfree hid
      exact fits_iff.mpr ⟨g, hsame ▸ hg, hsame ▸ hfit⟩
    rw [List.countP_eq_length.mpr hall, ← List.length_map (·.id), hperm.length_eq,
      List.length_map, hlen]
  have hsplit := (List.filter_append_perm (fun w : Worker => decide (w.id ∈ as.map (·.worker.id)))
    (freeHosts db d.clusterId occupied)).countP_eq (fits db d.engine vram)
  rw [List.countP_append, htaken] at hsplit
  rw [← hsplit, freeHosts_addGroup]
  congr 1
  have hnot : ∀ w : Worker, (!decide (w.id ∈ as.map (·.worker.id))) =
      decide (w.id ∉ as.map (·.worker.id)) := fun w => by rw [decide_not]
  simp only [hnot]
  refine List.countP_congr fun w hw => ?_
  rw [fits_congr fun index => usage_addGroup (of_decide_eq_true (List.mem_filter.mp hw).2) index]

/-- **The rounds of a call succeed exactly when** there are hosts for all of them. -/
theorem placeGroups_isOk_iff (hn : 1 ≤ d.nodesPerReplica) (k : ℕ) :
    ∀ (db : Db) (occupied : List Uuid), OpenHosts s db d.clusterId occupied →
      ((placeGroups s d vram now k db occupied).2 = .ok () ↔
        d.nodesPerReplica * k ≤
          (freeHosts db d.clusterId occupied).countP (fits db d.engine vram)) := by
  induction k with
  | zero =>
    intro db occupied _
    exact iff_of_true rfl (Nat.zero_le _)
  | succ k ih =>
    intro db occupied h
    have hok : (∃ as, allocateParallelReplicas s db d.clusterId vram d.engine d.nodesPerReplica
        occupied = .ok as) ↔ _ := h.isOk_iff hn
    unfold placeGroups
    cases halloc : allocateParallelReplicas s db d.clusterId vram d.engine d.nodesPerReplica
      occupied with
    | error e =>
      refine iff_of_false (fun herr => by cases herr) fun hle => ?_
      have hroom : d.nodesPerReplica ≤ d.nodesPerReplica * (k + 1) :=
        Nat.le_mul_of_pos_right _ (Nat.succ_pos k)
      obtain ⟨as, has⟩ := hok.mpr (hroom.trans hle)
      rw [halloc] at has
      cases has
    | ok as =>
      -- a group takes as many fitting hosts as it has ranks
      simp only
      rw [ih _ _ h.addGroup, countP_fits_addGroup h.keys hn halloc, Nat.mul_succ, Nat.add_comm,
        Nat.add_le_add_iff_left]

/-- The rows of a group are on different workers. -/
theorem pairwise_groupRows (hdistinct : (as.map (·.worker.id)).Nodup) :
    (groupRows db d now as).Pairwise fun i j => i.workerId ≠ j.workerId := by
  have hmap : (groupRows db d now as).map (·.workerId) = as.map fun a => some a.worker.id :=
    map_groupRows _ _ fun _ _ _ _ => rfl
  rw [← List.pairwise_map (f := fun i : Instance => i.workerId) (R := (· ≠ ·)), hmap]
  have hnd := hdistinct.map (Option.some_injective _)
  rw [List.map_map] at hnd
  exact hnd

/-- The port of a group is no port of a row on its worker. -/
theorem OpenHosts.portIndexOk_addGroup (h : OpenHosts s db d.clusterId occupied)
    (halloc : allocateParallelReplicas s db d.clusterId vram d.engine d.nodesPerReplica occupied =
      .ok as) (hok : db.PortIndexOk) : (Inferna.addGroup db d now as).PortIndexOk := by
  obtain ⟨hdistinct, hworkers⟩ := hosts_allocateParallelReplicas h.keys halloc
  unfold Db.PortIndexOk
  rw [instances_addGroup, List.pairwise_append]
  refine ⟨hok, (pairwise_groupRows hdistinct).imp fun hne hclash => hne hclash.2.2.1, ?_⟩
  rintro i hi r hr ⟨hres, -, hw, -, hport, hne⟩
  obtain ⟨a, ha, k, rfl⟩ := mem_groupRows hr
  obtain ⟨head, others, p, rdv, hhosts, hp, -, rfl⟩ := allocateParallelReplicas_eq_ok halloc
  rcases mem_groupRanks ha with rfl | ⟨c, -, j, rfl⟩
  · -- the row has the port of the head, which the allocator took for free
    have hmem : i ∈ portInstances db head.worker.id :=
      List.mem_filter.mpr ⟨hi, decide_eq_true ⟨hw, hres⟩⟩
    refine port_ne_of_notMem hp.2.1 (fun hzero => ?_) i hmem hport
    rintro ⟨j, hj, hj0⟩
    exact h.zero head.worker (hworkers _ ha).1 (hzero ▸ hp.1) j hj hj0
  · exact hne hport

/-- The ranks of a group are different, and its identifier is new. -/
theorem OpenHosts.rankIndexOk_addGroup (h : OpenHosts s db d.clusterId occupied)
    (hn : 1 ≤ d.nodesPerReplica)
    (halloc : allocateParallelReplicas s db d.clusterId vram d.engine d.nodesPerReplica occupied =
      .ok as) (hok : db.RankIndexOk) : (Inferna.addGroup db d now as).RankIndexOk := by
  have hranks := ranks_allocateParallelReplicas h.keys hn halloc
  unfold Db.RankIndexOk
  rw [instances_addGroup, List.pairwise_append]
  refine ⟨hok, ?_, ?_⟩
  · have hmap : (groupRows db d now as).map (·.nodeRank) = as.map fun a => some a.nodeRank :=
      map_groupRows _ _ fun _ _ _ _ => rfl
    have hpair : (groupRows db d now as).Pairwise fun i j => i.nodeRank ≠ j.nodeRank := by
      rw [← List.pairwise_map (f := fun i : Instance => i.nodeRank) (R := (· ≠ ·)), hmap]
      have hnd := (hranks ▸ List.nodup_range : (as.map (·.nodeRank)).Nodup).map
        (Option.some_injective _)
      rw [List.map_map] at hnd
      exact hnd
    exact hpair.imp fun hne hclash => hne hclash.2.2.1
  · rintro i hi r hr ⟨hgroup, -⟩
    obtain ⟨a, -, k, rfl⟩ := mem_groupRows hr
    exact absurd (Db.groupId_lt_nextUuid hi hgroup) (lt_irrefl _)

/-- **The rounds keep the indexes of the tables.** -/
theorem placeGroups_indexes (hn : 1 ≤ d.nodesPerReplica) (k : ℕ) :
    ∀ (db : Db) (occupied : List Uuid), OpenHosts s db d.clusterId occupied →
      db.PortIndexOk → db.RankIndexOk →
        (placeGroups s d vram now k db occupied).1.PortIndexOk ∧
          (placeGroups s d vram now k db occupied).1.RankIndexOk := by
  induction k with
  | zero => exact fun _ _ _ hport hrank => ⟨hport, hrank⟩
  | succ k ih =>
    intro db occupied h hport hrank
    unfold placeGroups
    split
    · exact ⟨hport, hrank⟩
    · rename_i as halloc
      exact ih _ _ h.addGroup (h.portIndexOk_addGroup halloc hport)
        (h.rankIndexOk_addGroup hn halloc hrank)

end Rounds

/-! ### The call -/

/-- A multi-node deployment in tables that keep their constraints, on connected workers that all
have an address and free ports. -/
@[mk_iff]
structure Ready (s : Settings) (db : Db) (d : Deployment) : Prop where
  valid : db.violation = none
  /-- `deployments.id` is a primary key. -/
  deployments : (db.deployments.map (·.id)).Nodup
  /-- `workers.id` is a primary key. -/
  workers : (db.workers.map (·.id)).Nodup
  row : d ∈ db.deployments
  multi : 1 < d.nodesPerReplica
  address : ∀ w ∈ connectedWorkers db d.clusterId, w.hasAddress = true
  ports : ∀ w ∈ connectedWorkers db d.clusterId, HasPorts s (portInstances db w.id)
  /-- The port `0` is not a free port. -/
  zero : ∀ w ∈ connectedWorkers db d.clusterId, 0 ∈ s.instancePortRange →
    ∀ i ∈ portInstances db w.id, i.port ≠ some 0

/-- A GPU of the worker has room for a rank of the deployment. -/
def fitsRank (db : Db) (d : Deployment) (w : Worker) : Bool :=
  fits db d.engine (((db.findModel d.modelId).map (·.vramRequiredMb)).getD 0) w

/-- The hosts that a call to `target` needs. -/
def neededHosts (db : Db) (d : Deployment) (target : ℕ) : ℕ :=
  d.nodesPerReplica * (target - (capacityUnits d db).length)

/-- The fitting hosts without a desired-running or live rank of the deployment. -/
def liveFreeHosts (db : Db) (d : Deployment) : ℕ :=
  (connectedWorkers db d.clusterId).countP fun w => fitsRank db d w ∧
    ∀ i ∈ db.instancesOf d.id, i.workerId = some w.id →
      i.desiredState ≠ .running ∧ i.state.isLive = false

/-- The fitting hosts without any row of the deployment. -/
def neverUsedHosts (db : Db) (d : Deployment) : ℕ :=
  (connectedWorkers db d.clusterId).countP fun w => fitsRank db d w ∧
    ∀ i ∈ db.instancesOf d.id, i.workerId ≠ some w.id

/-- The call succeeds, with its commit. -/
def ScaleSucceeds (s : Settings) (db : Db) (d : Deployment) (replicas : ℕ) (setRange : Bool)
    (now : ℕ) : Prop :=
  (scaleInSession s d.load replicas setRange now (Session.fresh db)).2 = .ok ()

section Call

variable {s : Settings} {db : Db} {d : Deployment}

theorem mem_occupiedWorkers {w : Uuid} :
    w ∈ occupiedWorkers d db ↔ ∃ i ∈ db.instancesOf d.id, i.workerId = some w := by
  unfold occupiedWorkers
  rw [((flatten_replicaUnits_perm _ _).filterMap _).mem_iff, List.mem_filterMap]

theorem portIndexOk_stopUnits (h : db.PortIndexOk) (units : List (List Instance)) :
    (stopUnits db units).PortIndexOk := by
  refine portIndexOk_map h rfl fun i => ?_
  split
  · exact ⟨rfl, rfl, portReserved_stop⟩
  · exact ⟨rfl, rfl, id⟩

theorem rankIndexOk_stopUnits (h : db.RankIndexOk) (units : List (List Instance)) :
    (stopUnits db units).RankIndexOk := by
  unfold Db.RankIndexOk stopUnits Db.updateWhere at *
  rw [List.pairwise_map]
  refine h.imp fun hij hclash => hij ?_
  unfold RankClash at hclash ⊢
  split_ifs at hclash <;> exact hclash

/-- The hosts are open to the rounds of a call, after the broken units are stopped. -/
theorem Ready.openHosts (h : Ready s db d) (units : List (List Instance)) (exclude : List Uuid) :
    OpenHosts s (stopUnits db units) d.clusterId exclude where
  names := ((Db.violation_eq_none_iff db).mp h.valid).2.2.2.2.1
  keys := h.workers
  address := fun w hw => h.address w (List.mem_of_mem_filter hw)
  ports := fun w hw => (h.ports w (List.mem_of_mem_filter hw)).mono fun _ hi =>
    mem_portInstances_stopUnits hi
  zero := fun w hw h0 i' hi' hport => by
    obtain ⟨i, hi, heq, -⟩ := mem_portInstances_stopUnits hi'
    exact h.zero w (List.mem_of_mem_filter hw) h0 i hi (heq ▸ hport)

/-- The open hosts that fit are those that were never used. -/
theorem countP_fits_occupied (units : List (List Instance)) :
    (freeHosts (stopUnits db units) d.clusterId (occupiedWorkers d db)).countP
        (fits (stopUnits db units) d.engine
          (((db.findModel d.modelId).map (·.vramRequiredMb)).getD 0)) =
      neverUsedHosts db d := by
  unfold freeHosts neverUsedHosts
  rw [List.countP_filter]
  change (connectedWorkers db d.clusterId).countP _ = _
  refine List.countP_congr fun w _ => ?_
  rw [fits_congr fun index => usage_stopUnits db units w.id index]
  simp only [mem_occupiedWorkers, not_exists, not_and, Bool.and_eq_true, decide_eq_true_eq]
  exact Iff.rfl

/-- **The replicas are moved exactly when** there are enough hosts that were never used. -/
theorem Ready.moveReplicas_isOk_iff (h : Ready s db d) (target now : ℕ) :
    (moveReplicas s d target now db).2 = .ok () ↔
      neededHosts db d target ≤ neverUsedHosts db d := by
  unfold moveReplicas neededHosts
  simp only
  split
  · unfold scaleOut
    simp only [if_pos h.multi]
    rw [placeGroups_isOk_iff h.multi.le _ _ _ (h.openHosts _ _), ← countP_fits_occupied]
    exact Iff.rfl
  · rename_i hge
    rw [Nat.sub_eq_zero_of_le (not_lt.mp hge), Nat.mul_zero]
    exact iff_of_true rfl (Nat.zero_le _)

/-- The indexes hold after the replicas are moved. -/
theorem Ready.indexes_moveReplicas (h : Ready s db d) (target now : ℕ) :
    (moveReplicas s d target now db).1.PortIndexOk ∧
      (moveReplicas s d target now db).1.RankIndexOk := by
  obtain ⟨hport, hrank, -⟩ := (Db.violation_eq_none_iff db).mp h.valid
  unfold moveReplicas
  simp only
  split
  · unfold scaleOut
    simp only [if_pos h.multi]
    exact placeGroups_indexes h.multi.le _ _ _ (h.openHosts _ _) (portIndexOk_stopUnits hport _)
      (rankIndexOk_stopUnits hrank _)
  · exact ⟨portIndexOk_stopUnits (portIndexOk_stopUnits hport _) _,
      rankIndexOk_stopUnits (rankIndexOk_stopUnits hrank _) _⟩

/-- The window that a call writes is one that the schema accepts. -/
theorem Ready.minMaxOk (h : Ready s db d) {replicas : ℕ} {setRange : Bool}
    (hreplicas : setRange = true → 1 ≤ replicas ∧ replicas ≤ 8) (now : ℕ) {db' : Db}
    (hdb' : db'.deployments = db.deployments) :
    (db'.writeDeployment (pinWindow d.load (scaleTarget d.load replicas setRange) setRange)
      now).MinMaxOk := by
  obtain ⟨-, -, hwindows, -⟩ := (Db.violation_eq_none_iff db).mp h.valid
  intro e he
  obtain ⟨row, hrow, rfl⟩ := List.mem_map.mp he
  rw [hdb'] at hrow
  split
  · rename_i hid
    have hloaded : (pinWindow d.load (scaleTarget d.load replicas setRange) setRange).loaded =
        d := by
      unfold pinWindow
      split <;> rfl
    rw [hloaded] at hid
    obtain rfl : row = d := List.inj_on_of_nodup_map h.deployments hrow h.row hid
    simp only [flushDeployment, hloaded, flushColumn_loaded]
    -- a pinned window is the requested number twice
    cases setRange with
    | true =>
      obtain ⟨hlo, hhi⟩ := hreplicas rfl
      exact ⟨hlo, le_rfl, hhi⟩
    | false => exact hwindows row h.row
  · exact hwindows row hrow

/-- **A call succeeds exactly when** there are enough hosts that were never used. -/
theorem Ready.scaleSucceeds_iff (h : Ready s db d) {replicas : ℕ} {setRange : Bool}
    (hreplicas : setRange = true → 1 ≤ replicas ∧ replicas ≤ 8) (now : ℕ) :
    ScaleSucceeds s db d replicas setRange now ↔
      neededHosts db d (scaleTarget d.load replicas setRange) ≤ neverUsedHosts db d := by
  rw [← h.moveReplicas_isOk_iff _ now]
  obtain ⟨-, -, -, hhost, hname, hgpu⟩ := (Db.violation_eq_none_iff db).mp h.valid
  unfold ScaleSucceeds scaleInSession
  -- a call that places its units commits: it breaks no constraint
  rcases applyScale_cases s d.load replicas setRange now db with ⟨e, hmove, heq⟩ | ⟨hmove, heq⟩
  · have hloaded : d.load.loaded = d := rfl
    rw [hloaded] at hmove
    rw [hmove]
    simp only [Session.fresh, heq]
  · have hloaded : d.load.loaded = d := rfl
    rw [hloaded] at hmove heq
    refine iff_of_true ?_ hmove
    obtain ⟨hdeps, hworkers, -⟩ :=
      moveReplicas_tables s d (scaleTarget d.load replicas setRange) now db
    obtain ⟨hport, hrank⟩ :=
      h.indexes_moveReplicas (scaleTarget d.load replicas setRange) now
    have hviolation : ((moveReplicas s d (scaleTarget d.load replicas setRange) now
        db).1.writeDeployment (pinWindow d.load (scaleTarget d.load replicas setRange) setRange)
        now).violation = none := by
      refine (Db.violation_eq_none_iff _).mpr ⟨hport, hrank, h.minMaxOk hreplicas now hdeps, ?_,
        ?_, ?_⟩
      · unfold Db.HostnamesOk Db.writeDeployment
        rw [hworkers]
        exact hhost
      · unfold Db.NamesOk Db.writeDeployment
        rw [hworkers]
        exact hname
      · unfold Db.GpuIndexesOk Db.writeDeployment
        rw [hworkers]
        exact hgpu
    simp only [Session.fresh, heq, Session.commit, hviolation]

/-- **Free hosts are enough exactly when they were never used**: a call succeeds whenever there are
enough fitting hosts without a live rank of the deployment if and only if, when there are, so many
have no row of it at all. -/
theorem scaleBack_iff (h : Ready s db d) {replicas : ℕ} {setRange : Bool}
    (hreplicas : setRange = true → 1 ≤ replicas ∧ replicas ≤ 8) (now : ℕ) :
    (neededHosts db d (scaleTarget d.load replicas setRange) ≤ liveFreeHosts db d →
      ScaleSucceeds s db d replicas setRange now) ↔
    (neededHosts db d (scaleTarget d.load replicas setRange) ≤ liveFreeHosts db d →
      neededHosts db d (scaleTarget d.load replicas setRange) ≤ neverUsedHosts db d) := by
  rw [h.scaleSucceeds_iff hreplicas now]

end Call

instance (s : Settings) (rows : List Instance) : Decidable (HasPorts s rows) :=
  inferInstanceAs (Decidable (_ ∧ _))

instance (s : Settings) (db : Db) (d : Deployment) : Decidable (Ready s db d) :=
  decidable_of_iff _ (ready_iff s db d).symm

/-- A worker of a host joins. -/
def hostJoins (w : Uuid) (hostname address : String) : List Step :=
  [.register { clusterToken := "inferna-registration-token", hostname := hostname,
               version := "0.2.0", address := address } "token" 0,
   .sync w 0, .applyNext w]

/-- A rank is started on its worker, and reported running. -/
def comesUp (w id : Uuid) : List Step :=
  [.sync w 3, .applyNext w, .applyNext w, .probe w id true, .sync w 4, .applyNext w]

/-- A stopped rank is reported stopped. -/
def goesDown (w : Uuid) : List Step := [.sync w 6, .applyNext w, .applyNext w, .sync w 7]

/-- Four hosts, and a deployment of two ranks on the first two. -/
def firstGroup : List Step :=
  hostJoins 1 "a" "10.0.0.1" ++ hostJoins 2 "b" "10.0.0.2" ++ hostJoins 3 "c" "10.0.0.3" ++
    hostJoins 4 "d" "10.0.0.4" ++
    [.deploy { modelId := 1, clusterId := 1, engine := .vllm, profile := .latency,
               nodesPerReplica := 2, parallelMode := .tp, replicas_bounds := bounds_one,
               nodes_bounds := bounds_two } 1]

/-- It is scaled out to two groups, which come up, and in to one; the other is reported stopped. -/
def outAndIn : List Step :=
  firstGroup ++ [.scale 5 { replicas := 2, bounds := bounds_two } 2] ++ comesUp 1 7 ++
    comesUp 2 8 ++ comesUp 3 11 ++ comesUp 4 12 ++
    [.scale 5 { replicas := 1, bounds := bounds_one } 5] ++ goesDown 1 ++ goesDown 2

/-- The row of the deployment. -/
def groupDeployment (lastScaledAt : Option ℕ) : Deployment where
  id := 5
  modelId := 1
  clusterId := 1
  engine := .vllm
  profile := .latency
  nodesPerReplica := 2
  parallelMode := some .tp
  createdAt := 1
  lastScaledAt := lastScaledAt

theorem firstGroup_ready :
    Ready {} (exec (World.next sampleEnv) sampleWorld firstGroup).db (groupDeployment none) := by
  decide +kernel

theorem outAndIn_ready :
    Ready {} (exec (World.next sampleEnv) sampleWorld outAndIn).db
      (groupDeployment (some 5)) := by
  decide +kernel

/-- Two hosts that were never used take the second group. -/
theorem scaleBack_firstGroup :
    ScaleSucceeds {} (exec (World.next sampleEnv) sampleWorld firstGroup).db
      (groupDeployment none) 2 true 2 :=
  (scaleBack_iff firstGroup_ready (fun _ => by decide) 2).mpr (fun _ => by decide +kernel)
    (by decide +kernel)

/-- **Out, in, and not out again**: the hosts of the stopped group are free, and not taken. -/
theorem scaleBack_fails : ¬ ∀ (s : Settings) (db : Db) (d : Deployment) (replicas : ℕ)
    (setRange : Bool) (now : ℕ), Ready s db d → (setRange = true → 1 ≤ replicas ∧ replicas ≤ 8) →
      neededHosts db d (scaleTarget d.load replicas setRange) ≤ liveFreeHosts db d →
        ScaleSucceeds s db d replicas setRange now := by
  intro h
  have hok := h {} _ _ 2 true 8 outAndIn_ready (fun _ => by decide) (by decide +kernel)
  revert hok
  unfold ScaleSucceeds
  decide +kernel

end Inferna
