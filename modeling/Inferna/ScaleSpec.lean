import Inferna.Moves

/-!
# What scaling does to the rows

`apply_scale` stops whole units and inserts whole units.  This module says which
rows it stops and which it inserts, so that the results about scaling read the
new table off the old one.

A unit is the sublist of the deployment's rows with one key: the row's own id for
single-node replicas, the group for parallel ones.

## Main definitions

* `keyOf` — the key of a row's unit.
* `stoppedUnits` — the units a call stops.
* `AddedRow` — a row a call inserts.

## Main results

* `replicaUnits_eq` — units are the rows of one key.
* `moveReplicas_rows` — **the table after the call**: rows of the stopped units
  are stopped, the others are as they were, and the inserted rows follow.
* `card_addedKeys` — a call that succeeds inserts exactly the missing units.
-/

namespace Inferna

/-! ### Units and their keys -/

/-- The key of a row's unit. -/
def keyOf (nodesPerReplica : ℕ) (i : Instance) : Uuid :=
  if nodesPerReplica ≤ 1 then i.id else i.unitKey

/-- A row alone has its id. -/
theorem filter_id_eq_singleton {xs : List Instance} (hids : (xs.map (·.id)).Nodup) {i : Instance}
    (hi : i ∈ xs) : xs.filter (fun j => j.id = i.id) = [i] := by
  induction xs with
  | nil => exact absurd hi List.not_mem_nil
  | cons x xs ih =>
    rw [List.map_cons, List.nodup_cons] at hids
    rcases List.mem_cons.mp hi with rfl | hi
    · rw [List.filter_cons_of_pos (by simp), List.cons.injEq]
      refine ⟨rfl, List.filter_eq_nil_iff.mpr ?_⟩
      intro j hj heq
      exact hids.1 (List.mem_map.mpr ⟨j, hj, by simpa using heq⟩)
    · have hne : ¬ x.id = i.id := fun h => hids.1 (h ▸ List.mem_map_of_mem hi)
      rw [List.filter_cons_of_neg (by simpa using hne)]
      exact ih hids.2 hi

/-- **The units are the rows of one key**, one unit for each key. -/
theorem replicaUnits_eq (n : ℕ) {xs : List Instance} (hids : (xs.map (·.id)).Nodup) :
    ∃ ks : List Uuid, ks.Nodup ∧ (∀ k, k ∈ ks ↔ ∃ x ∈ xs, keyOf n x = k) ∧
      replicaUnits n xs = ks.map fun k => xs.filter fun i => keyOf n i = k := by
  unfold replicaUnits keyOf
  by_cases hn : n ≤ 1
  · simp only [if_pos hn]
    refine ⟨xs.map (·.id), hids, ?_, ?_⟩
    · intro k
      rw [List.mem_map]
    · rw [List.map_map]
      apply List.map_congr_left
      intro i hi
      exact (filter_id_eq_singleton hids hi).symm
  · simp only [if_neg hn]
    exact ⟨_, (Dict.groupBy Instance.unitKey xs).nodup_keys, Dict.mem_keys_groupBy _ _,
      Dict.values_groupBy _ _⟩

theorem mem_replicaUnits {n : ℕ} {xs : List Instance} (hids : (xs.map (·.id)).Nodup)
    {u : List Instance} : u ∈ replicaUnits n xs ↔
      ∃ x ∈ xs, u = xs.filter fun i => keyOf n i = keyOf n x := by
  obtain ⟨ks, -, hks, heq⟩ := replicaUnits_eq n hids
  rw [heq, List.mem_map]
  constructor
  · rintro ⟨k, hk, rfl⟩
    obtain ⟨x, hx, rfl⟩ := (hks k).mp hk
    exact ⟨x, hx, rfl⟩
  · rintro ⟨x, hx, rfl⟩
    exact ⟨keyOf n x, (hks _).mpr ⟨x, hx, rfl⟩, rfl⟩

/-- A row is in one unit only. -/
theorem unit_eq_of_mem {n : ℕ} {xs : List Instance} (hids : (xs.map (·.id)).Nodup)
    {u v : List Instance} (hu : u ∈ replicaUnits n xs) (hv : v ∈ replicaUnits n xs) {i : Instance}
    (hiu : i ∈ u) (hiv : i ∈ v) : u = v := by
  obtain ⟨x, hx, rfl⟩ := (mem_replicaUnits hids).mp hu
  obtain ⟨y, hy, rfl⟩ := (mem_replicaUnits hids).mp hv
  rw [List.mem_filter, decide_eq_true_eq] at hiu hiv
  rw [← hiu.2, ← hiv.2]

/-- A unit has a row. -/
theorem unit_ne_nil {n : ℕ} {xs : List Instance} (hids : (xs.map (·.id)).Nodup)
    {u : List Instance} (hu : u ∈ replicaUnits n xs) : u ≠ [] := by
  obtain ⟨x, hx, rfl⟩ := (mem_replicaUnits hids).mp hu
  exact List.ne_nil_of_mem (List.mem_filter.mpr ⟨hx, by simp⟩)

/-! ### The rows of a deployment -/

theorem mem_instancesOf {db : Db} {d : Uuid} {i : Instance} :
    i ∈ db.instancesOf d ↔ i ∈ db.instances ∧ i.deploymentId = d := by
  unfold Db.instancesOf
  rw [(List.perm_insertionSort _ _).mem_iff, List.mem_filter, decide_eq_true_eq]

theorem nodup_instancesOf {db : Db} (hids : (db.instances.map (·.id)).Nodup) (d : Uuid) :
    ((db.instancesOf d).map (·.id)).Nodup := by
  unfold Db.instancesOf
  rw [((List.perm_insertionSort _ _).map _).nodup_iff]
  exact (List.Sublist.map _ List.filter_sublist).nodup hids

/-- The units of a deployment. -/
def unitsOf (d : Deployment) (db : Db) : List (List Instance) :=
  replicaUnits d.nodesPerReplica (db.instancesOf d.id)

theorem mem_liveUnits {d : Deployment} {db : Db} {u : List Instance} :
    u ∈ liveUnits d db ↔ u ∈ unitsOf d db ∧ unitLive u = true := by
  unfold liveUnits unitsOf
  rw [List.mem_filter]

theorem mem_brokenUnits {d : Deployment} {db : Db} {u : List Instance} :
    u ∈ brokenUnits d db ↔ u ∈ liveUnits d db ∧ unitBroken u = true := by
  unfold brokenUnits
  rw [List.mem_filter]

theorem mem_capacityUnits {d : Deployment} {db : Db} {u : List Instance} :
    u ∈ capacityUnits d db ↔
      u ∈ liveUnits d db ∧ (unitServing u = true ∨ unitPending u = true) := by
  unfold capacityUnits
  rw [List.mem_append, List.mem_filter, List.mem_filter, ← and_or_left]

theorem mem_unitsToStop {d : Deployment} {db : Db} {n : ℕ} {u : List Instance}
    (h : u ∈ unitsToStop d db n) : u ∈ capacityUnits d db := by
  have hmem := List.mem_of_mem_take h
  rwa [(List.perm_insertionSort _ _).mem_iff] at hmem

/-- Every rank of a unit that counts as capacity is live. -/
theorem isLive_of_capacity {u : List Instance} (h : unitServing u = true ∨ unitPending u = true)
    {i : Instance} (hi : i ∈ u) : i.state.isLive = true := by
  rcases h with h | h
  · have := List.all_eq_true.mp h i hi
    rw [decide_eq_true_eq] at this
    rw [this]
    rfl
  · unfold unitPending at h
    rw [Bool.and_eq_true] at h
    exact List.all_eq_true.mp h.2 i hi

/-- A unit does not count as capacity and as broken. -/
theorem not_broken_of_capacity {u : List Instance}
    (h : unitServing u = true ∨ unitPending u = true) : unitBroken u = false := by
  unfold unitBroken
  rw [List.any_eq_false]
  intro i hi herr
  have hlive := isLive_of_capacity h hi
  rw [decide_eq_true_eq] at herr
  rw [herr] at hlive
  cases hlive

/-- The rows of a unit are rows of the deployment. -/
theorem mem_of_mem_unit {db : Db} (hids : (db.instances.map (·.id)).Nodup) {d : Deployment}
    {u : List Instance} (hu : u ∈ unitsOf d db) {i : Instance} (hi : i ∈ u) :
    i ∈ db.instances ∧ i.deploymentId = d.id := by
  obtain ⟨x, -, rfl⟩ := (mem_replicaUnits (nodup_instancesOf hids d.id)).mp hu
  exact mem_instancesOf.mp (List.mem_of_mem_filter hi)

/-! ### Stopped units -/

/-- The units a call stops: the broken ones, and on the way down the surplus. -/
def stoppedUnits (d : Deployment) (db : Db) (target : ℕ) : List (List Instance) :=
  brokenUnits d db ++
    if (capacityUnits d db).length < target then [] else unitsToStop d db target

/-- The row is in a unit that the call stops. -/
def isStopped (d : Deployment) (db : Db) (target : ℕ) (i : Instance) : Bool :=
  i.id ∈ (stoppedUnits d db target).flatten.map (·.id)

/-- A row as the call leaves it. -/
def scaledRow (d : Deployment) (db : Db) (target : ℕ) (i : Instance) : Instance :=
  if isStopped d db target i then i.stop else i

theorem scaledRow_of_isStopped {d : Deployment} {db : Db} {target : ℕ} {i : Instance}
    (h : isStopped d db target i = true) : scaledRow d db target i = i.stop := if_pos h

theorem scaledRow_of_not_isStopped {d : Deployment} {db : Db} {target : ℕ} {i : Instance}
    (h : ¬ isStopped d db target i = true) : scaledRow d db target i = i := if_neg h

/-- A row that is still to run has not been stopped. -/
theorem not_isStopped_of_running {d : Deployment} {db : Db} {target : ℕ} {i : Instance}
    (h : (scaledRow d db target i).desiredState = .running) : ¬ isStopped d db target i = true := by
  intro hst
  rw [scaledRow_of_isStopped hst] at h
  cases h

theorem scaledRow_keeps {α : Type} (get : Instance → α) (hget : ∀ i : Instance, get i.stop = get i)
    (d : Deployment) (db : Db) (target : ℕ) (i : Instance) :
    get (scaledRow d db target i) = get i := by
  unfold scaledRow
  split
  · exact hget i
  · rfl

theorem stoppedUnits_live {d : Deployment} {db : Db} {target : ℕ} {u : List Instance}
    (h : u ∈ stoppedUnits d db target) : u ∈ liveUnits d db := by
  unfold stoppedUnits at h
  rw [List.mem_append] at h
  rcases h with h | h
  · exact (mem_brokenUnits.mp h).1
  · split at h
    · exact absurd h List.not_mem_nil
    · exact (mem_capacityUnits.mp (mem_unitsToStop h)).1

theorem mem_flatten_ids {us : List (List Instance)} {k : Uuid} :
    k ∈ us.flatten.map (·.id) ↔ ∃ u ∈ us, ∃ i ∈ u, i.id = k := by
  rw [List.mem_map]
  constructor
  · rintro ⟨i, hi, rfl⟩
    obtain ⟨u, hu, hiu⟩ := List.mem_flatten.mp hi
    exact ⟨u, hu, i, hiu, rfl⟩
  · rintro ⟨u, hu, i, hi, rfl⟩
    exact ⟨i, List.mem_flatten.mpr ⟨u, hu, hi⟩, rfl⟩

/-- A stopped row is in the unit that is stopped. -/
theorem isStopped_iff {db : Db} (hids : (db.instances.map (·.id)).Nodup) {d : Deployment}
    {target : ℕ} {i : Instance} (hi : i ∈ db.instances) :
    isStopped d db target i = true ↔ ∃ u ∈ stoppedUnits d db target, i ∈ u := by
  unfold isStopped
  rw [decide_eq_true_eq, mem_flatten_ids]
  constructor
  · rintro ⟨u, hu, j, hj, hid⟩
    have hlive := (mem_liveUnits.mp (stoppedUnits_live hu)).1
    have hjd := (mem_of_mem_unit hids hlive hj).1
    have hij : j = i := List.inj_on_of_nodup_map hids hjd hi hid
    exact ⟨u, hu, hij ▸ hj⟩
  · rintro ⟨u, hu, hiu⟩
    exact ⟨u, hu, i, hiu, rfl⟩

/-- A stopped row is a row of the deployment. -/
theorem deploymentId_of_isStopped {db : Db} (hids : (db.instances.map (·.id)).Nodup)
    {d : Deployment} {target : ℕ} {i : Instance} (hi : i ∈ db.instances)
    (h : isStopped d db target i = true) : i.deploymentId = d.id := by
  obtain ⟨u, hu, hiu⟩ := (isStopped_iff hids hi).mp h
  exact (mem_of_mem_unit hids (mem_liveUnits.mp (stoppedUnits_live hu)).1 hiu).2

/-- Stopping the broken units and then the surplus stops no row twice. -/
theorem stopUnits_stopUnits {db : Db} (hids : (db.instances.map (·.id)).Nodup) {d : Deployment}
    {target : ℕ} (hge : ¬ (capacityUnits d db).length < target) :
    (stopUnits (stopUnits db (brokenUnits d db)) (unitsToStop d db target)).instances =
      db.instances.map (scaledRow d db target) := by
  unfold stopUnits Db.updateWhere
  simp only [List.map_map]
  apply List.map_congr_left
  intro i hi
  simp only [Function.comp_apply, scaledRow, isStopped, stoppedUnits, if_neg hge,
    List.flatten_append, List.map_append, List.mem_append, decide_eq_true_eq]
  by_cases hb : i.id ∈ (brokenUnits d db).flatten.map (·.id)
  · -- a row of a broken unit is in no unit of the surplus
    have hs : i.stop.id ∉ (unitsToStop d db target).flatten.map (·.id) := by
      intro hs
      obtain ⟨u, hu, j, hj, hju⟩ := mem_flatten_ids.mp hb
      obtain ⟨v, hv, k, hk, hkv⟩ := mem_flatten_ids.mp hs
      have hul := (mem_brokenUnits.mp hu).1
      have hvc := mem_capacityUnits.mp (mem_unitsToStop hv)
      have hu' := (mem_liveUnits.mp hul).1
      have hv' := (mem_liveUnits.mp hvc.1).1
      have hjk : j = k := List.inj_on_of_nodup_map hids (mem_of_mem_unit hids hu' hj).1
        (mem_of_mem_unit hids hv' hk).1 (hju.trans hkv.symm)
      have huv : u = v := unit_eq_of_mem (nodup_instancesOf hids d.id) hu' hv' hj (hjk ▸ hk)
      have := (mem_brokenUnits.mp hu).2
      rw [huv, not_broken_of_capacity hvc.2] at this
      cases this
    simp only [hb, true_or, if_true, if_neg hs]
  · simp only [hb, false_or, if_false]

/-! ### Inserted rows -/

/-- A row that a call for `d` inserts into `db`. -/
structure AddedRow (d : Deployment) (db : Db) (r : Instance) : Prop where
  deployment : r.deploymentId = d.id
  state : r.state = .scheduled
  desired : r.desiredState = .running
  id_fresh : db.nextUuid ≤ r.id
  key_fresh : db.nextUuid ≤ keyOf d.nodesPerReplica r

theorem AddedRow.mono {d : Deployment} {db db' : Db} {r : Instance} (h : AddedRow d db' r)
    (hle : db.nextUuid ≤ db'.nextUuid) : AddedRow d db r :=
  ⟨h.deployment, h.state, h.desired, le_trans hle h.id_fresh, le_trans hle h.key_fresh⟩

/-- The keys of the inserted rows are new. -/
theorem AddedRow.key_ne {d : Deployment} {db : Db} {r i : Instance} (h : AddedRow d db r)
    (hi : i ∈ db.instances) (n : ℕ) : keyOf n i ≠ keyOf d.nodesPerReplica r := by
  have hlt : keyOf n i < db.nextUuid := by
    unfold keyOf
    split
    · exact Db.id_lt_nextUuid hi
    · exact Db.unitKey_lt_nextUuid hi
  exact Nat.ne_of_lt (lt_of_lt_of_le hlt h.key_fresh)

/-- The rows of single-node placements. -/
theorem addReplicas_rows (d : Deployment) (hn : d.nodesPerReplica ≤ 1) (now : ℕ) (db : Db)
    (allocations : List Allocation) :
    ∃ rows, (addReplicas db d now allocations).instances = db.instances ++ rows ∧
      (∀ r ∈ rows, AddedRow d db r) ∧ (rows.map (·.id)).Nodup ∧
      (rows.map (keyOf d.nodesPerReplica)).toFinset.card = allocations.length := by
  have hnd := nodup_mapIdx_id db.nextUuid (fun k a => replicaRow d now (db.nextUuid + k) a)
    (fun _ _ => rfl) allocations
  refine ⟨_, rfl, ?_, hnd, ?_⟩
  · intro r hr
    obtain ⟨k, hk, rfl⟩ := List.mem_mapIdx.mp hr
    refine ⟨rfl, rfl, rfl, Nat.le_add_right _ _, ?_⟩
    unfold keyOf
    rw [if_pos hn]
    exact Nat.le_add_right _ _
  · have hkeys : keyOf d.nodesPerReplica = fun i => i.id := by
      funext i
      unfold keyOf
      rw [if_pos hn]
    rw [hkeys, List.toFinset_card_of_nodup hnd, List.length_map, List.length_mapIdx]

/-- The rows of one group. -/
theorem addGroup_rows (d : Deployment) (hn : ¬ d.nodesPerReplica ≤ 1) (now : ℕ) (db : Db)
    {allocations : List ParallelAllocation} (hne : allocations ≠ []) :
    ∃ rows, (addGroup db d now allocations).instances = db.instances ++ rows ∧
      (∀ r ∈ rows, AddedRow d db r) ∧ (rows.map (·.id)).Nodup ∧
      (rows.map (keyOf d.nodesPerReplica)).toFinset = {db.nextUuid} := by
  have hkey : ∀ k a, keyOf d.nodesPerReplica (rankRow d now db.nextUuid (rendezvousText allocations)
      (db.nextUuid + 1 + k) a) = db.nextUuid := by
    intro k a
    unfold keyOf
    rw [if_neg hn]
    rfl
  refine ⟨_, rfl, ?_, nodup_mapIdx_id (db.nextUuid + 1) _ (fun _ _ => rfl) allocations, ?_⟩
  · intro r hr
    obtain ⟨k, hk, rfl⟩ := List.mem_mapIdx.mp hr
    refine ⟨rfl, rfl, rfl, ?_, le_of_eq (hkey k _).symm⟩
    exact le_trans (Nat.le_succ _) (Nat.le_add_right _ _)
  · ext k
    rw [List.mem_toFinset, List.mem_map, Finset.mem_singleton]
    constructor
    · rintro ⟨r, hr, rfl⟩
      obtain ⟨j, hj, rfl⟩ := List.mem_mapIdx.mp hr
      exact hkey j _
    · rintro rfl
      obtain ⟨a, ha⟩ := List.exists_mem_of_ne_nil _ hne
      obtain ⟨j, hj, heq⟩ := List.getElem_of_mem ha
      exact ⟨_, List.mem_mapIdx.mpr ⟨j, hj, rfl⟩, hkey j _⟩

theorem length_placeReplica {s : Settings} {db : Db} {engine : Engine} {vram count : ℕ}
    {workers : List Worker} {st st' : ReplicaLoop} {i : ℕ}
    (h : placeReplica s db engine vram count workers st i = .ok st') :
    st'.allocations.length = st.allocations.length + 1 := by
  obtain ⟨best, port, -, -, rfl⟩ := placeReplica_eq_ok h
  rw [List.length_append]
  rfl

/-- A placement of `count` replicas has `count` allocations. -/
theorem length_allocateReplicas {s : Settings} {db : Db} {clusterId : Uuid} {vram : ℕ}
    {engine : Engine} {count : ℕ} {used : List (Uuid × ℕ)} {allocations : List Allocation}
    (h : allocateReplicas s db clusterId vram engine count used = .ok allocations) :
    allocations.length = count := by
  obtain ⟨st, hfold, rfl⟩ := allocateReplicas_ok h
  -- every round of the loop appends one allocation
  have hcount := Run.foldlM_invariant
    (fun is (st : ReplicaLoop) => st.allocations.length + is.length = count)
    (fun i is st st' hst hstep => by
      rw [length_placeReplica hstep, ← hst, List.length_cons]
      omega) _ (by simp) hfold
  simpa using hcount

/-- A placed group has its head. -/
theorem allocateParallelReplicas_ne_nil {s : Settings} {db : Db} {clusterId : Uuid} {vram : ℕ}
    {engine : Engine} {n : ℕ} {exclude : List Uuid} {allocations : List ParallelAllocation}
    (h : allocateParallelReplicas s db clusterId vram engine n exclude = .ok allocations) :
    allocations ≠ [] := by
  obtain ⟨_, -, -, head, others, -, _, _, -, -, rfl⟩ := allocateParallelReplicas_ok h
  exact List.cons_ne_nil _ _

theorem nextUuid_lt_addGroup (db : Db) (d : Deployment) (now : ℕ)
    (allocations : List ParallelAllocation) :
    db.nextUuid < (addGroup db d now allocations).nextUuid := by
  have hlast : db.nextUuid ≤ (addGroup db d now allocations).lastUuid :=
    le_trans (Nat.le_succ _) (Nat.le_add_right _ _)
  exact lt_of_le_of_lt hlast (Db.lastUuid_lt_nextUuid _)

/-- The groups that find room, up to the first that does not. -/
def placedGroups (s : Settings) (d : Deployment) (vramRequiredMb now : ℕ) :
    ℕ → Db → List Uuid → ℕ
  | 0, _, _ => 0
  | n + 1, db, occupied =>
    match allocateParallelReplicas s db d.clusterId vramRequiredMb d.engine d.nodesPerReplica
        occupied with
    | .error _ => 0
    | .ok allocations =>
      placedGroups s d vramRequiredMb now n (addGroup db d now allocations)
        (occupied ++ allocations.map (·.worker.id)) + 1

theorem placedGroups_of_ok (s : Settings) (d : Deployment) (vram now : ℕ) (n : ℕ) :
    ∀ (db : Db) (occupied : List Uuid), (placeGroups s d vram now n db occupied).2 = .ok () →
      placedGroups s d vram now n db occupied = n := by
  induction n with
  | zero => exact fun _ _ _ => rfl
  | succ n ih =>
    intro db occupied h
    unfold placeGroups at h
    unfold placedGroups
    cases halloc : allocateParallelReplicas s db d.clusterId vram d.engine d.nodesPerReplica
      occupied with
    | error e =>
      rw [halloc] at h
      cases h
    | ok allocations =>
      rw [halloc] at h
      simp only
      rw [ih _ _ h]

/-- The groups placed one after the other: each has a key of its own. -/
theorem placeGroups_rows (s : Settings) (d : Deployment) (hn : ¬ d.nodesPerReplica ≤ 1)
    (vram now : ℕ) (n : ℕ) : ∀ (db : Db) (occupied : List Uuid),
    ∃ rows, (placeGroups s d vram now n db occupied).1.instances = db.instances ++ rows ∧
      (∀ r ∈ rows, AddedRow d db r) ∧ (rows.map (·.id)).Nodup ∧
      (rows.map (keyOf d.nodesPerReplica)).toFinset.card =
        placedGroups s d vram now n db occupied := by
  induction n with
  | zero =>
    intro db occupied
    exact ⟨[], (List.append_nil _).symm, fun _ h => absurd h List.not_mem_nil, List.nodup_nil, rfl⟩
  | succ n ih =>
    intro db occupied
    unfold placeGroups placedGroups
    cases halloc : allocateParallelReplicas s db d.clusterId vram d.engine d.nodesPerReplica
      occupied with
    | error e =>
      exact ⟨[], (List.append_nil _).symm, fun _ h => absurd h List.not_mem_nil, List.nodup_nil,
        rfl⟩
    | ok allocations =>
      simp only
      obtain ⟨rows, hrows, hadd, hnd, hkeys⟩ :=
        addGroup_rows d hn now db (allocateParallelReplicas_ne_nil halloc)
      obtain ⟨rows', hrows', hadd', hnd', hcard⟩ :=
        ih (addGroup db d now allocations) (occupied ++ allocations.map (·.worker.id))
      have hlt := nextUuid_lt_addGroup db d now allocations
      refine ⟨rows ++ rows', ?_, ?_, ?_, ?_⟩
      · rw [hrows', hrows, List.append_assoc]
      · intro r hr
        rcases List.mem_append.mp hr with hr | hr
        · exact hadd r hr
        · exact (hadd' r hr).mono hlt.le
      · rw [List.map_append, List.nodup_append]
        refine ⟨hnd, hnd', ?_⟩
        intro a ha b hb
        obtain ⟨r, hr, rfl⟩ := List.mem_map.mp ha
        obtain ⟨r', hr', rfl⟩ := List.mem_map.mp hb
        have hmem : r ∈ (addGroup db d now allocations).instances :=
          hrows ▸ List.mem_append_right _ hr
        exact Nat.ne_of_lt (lt_of_lt_of_le (Db.id_lt_nextUuid hmem) (hadd' r' hr').id_fresh)
      · -- the later groups have later keys
        have hnot : db.nextUuid ∉ (rows'.map (keyOf d.nodesPerReplica)).toFinset := by
          rw [List.mem_toFinset, List.mem_map]
          rintro ⟨r, hr, heq⟩
          have hge := (hadd' r hr).key_fresh
          rw [heq] at hge
          exact absurd hlt (not_lt.mpr hge)
        rw [List.map_append, List.toFinset_append, hkeys, ← Finset.insert_eq,
          Finset.card_insert_of_notMem hnot, hcard]

/-- The units that a scale-out inserts, whether it gets through or not. -/
def placedUnits (s : Settings) (d : Deployment) (now n : ℕ) (used : List (Uuid × ℕ))
    (occupied : List Uuid) (db : Db) : ℕ :=
  let vramRequiredMb := ((db.findModel d.modelId).map (·.vramRequiredMb)).getD 0
  if 1 < d.nodesPerReplica then placedGroups s d vramRequiredMb now n db occupied
  else if (allocateReplicas s db d.clusterId vramRequiredMb d.engine n used).toBool then n else 0

theorem placedUnits_of_ok {s : Settings} {d : Deployment} {now n : ℕ} {used : List (Uuid × ℕ)}
    {occupied : List Uuid} {db : Db} (h : (scaleOut s d now n used occupied db).2 = .ok ()) :
    placedUnits s d now n used occupied db = n := by
  unfold scaleOut at h
  unfold placedUnits
  simp only at h ⊢
  split
  · rename_i hn
    rw [if_pos hn] at h
    exact placedGroups_of_ok s d _ now n db occupied h
  · rename_i hn
    rw [if_neg hn] at h
    split at h
    · cases h
    · rename_i allocations halloc
      rw [halloc]
      rfl

/-- What a scale-out inserts. -/
theorem scaleOut_rows (s : Settings) (d : Deployment) (now n : ℕ) (used : List (Uuid × ℕ))
    (occupied : List Uuid) (db : Db) :
    ∃ rows, (scaleOut s d now n used occupied db).1.instances = db.instances ++ rows ∧
      (∀ r ∈ rows, AddedRow d db r) ∧ (rows.map (·.id)).Nodup ∧
      (rows.map (keyOf d.nodesPerReplica)).toFinset.card =
        placedUnits s d now n used occupied db := by
  unfold scaleOut placedUnits
  simp only
  split
  · rename_i hn
    exact placeGroups_rows s d (by omega) _ now n db occupied
  · rename_i hn
    split
    · rename_i halloc
      rw [halloc]
      exact ⟨[], (List.append_nil _).symm, fun _ h => absurd h List.not_mem_nil, List.nodup_nil,
        rfl⟩
    · rename_i allocations halloc
      obtain ⟨rows, hrows, hadd, hnd, hcard⟩ := addReplicas_rows d (by omega) now db allocations
      rw [halloc]
      exact ⟨rows, hrows, hadd, hnd, hcard.trans (length_allocateReplicas halloc)⟩

/-! ### The whole call -/

/-- Stopping rows hands out no identifier. -/
theorem nextUuid_stopUnits (db : Db) (units : List (List Instance)) :
    (stopUnits db units).nextUuid = db.nextUuid := by
  have hids : (stopUnits db units).instances.map (·.id) = db.instances.map (·.id) := by
    unfold stopUnits Db.updateWhere
    rw [List.map_map]
    apply List.map_congr_left
    intro i _
    simp only [Function.comp_apply]
    split <;> rfl
  have hgroups : (stopUnits db units).instances.filterMap (·.parallelGroupId) =
      db.instances.filterMap (·.parallelGroupId) := by
    unfold stopUnits Db.updateWhere
    rw [List.filterMap_map]
    apply List.filterMap_congr
    intro i _
    simp only [Function.comp_apply]
    split <;> rfl
  unfold Db.nextUuid Db.uuids
  rw [hids, hgroups]
  rfl

/-- The units that a call inserts, whether it succeeds or not. -/
def addedUnits (s : Settings) (d : Deployment) (target now : ℕ) (db : Db) : ℕ :=
  if (capacityUnits d db).length < target then
    placedUnits s d now (target - (capacityUnits d db).length) (usedGpus (capacityUnits d db))
      (occupiedWorkers d db) (stopUnits db (brokenUnits d db))
  else 0

theorem addedUnits_of_ok {s : Settings} {d : Deployment} {target now : ℕ} {db : Db}
    (h : (moveReplicas s d target now db).2 = .ok ()) :
    addedUnits s d target now db = target - (capacityUnits d db).length := by
  unfold moveReplicas at h
  unfold addedUnits
  simp only at h
  split
  · rename_i hlt
    rw [if_pos hlt] at h
    exact placedUnits_of_ok h
  · omega

/-- **The table after a call**, whether it succeeds or not. -/
theorem moveReplicas_added (s : Settings) (d : Deployment) (target now : ℕ) {db : Db}
    (hids : (db.instances.map (·.id)).Nodup) :
    ∃ rows, (moveReplicas s d target now db).1.instances =
        db.instances.map (scaledRow d db target) ++ rows ∧
      (∀ r ∈ rows, AddedRow d db r) ∧ (rows.map (·.id)).Nodup ∧
      (rows.map (keyOf d.nodesPerReplica)).toFinset.card = addedUnits s d target now db := by
  unfold moveReplicas addedUnits
  simp only
  split
  · rename_i hlt
    obtain ⟨rows, hrows, hadd, hnd, hcard⟩ := scaleOut_rows s d now (target - (capacityUnits d db).length)
      (usedGpus (capacityUnits d db)) (occupiedWorkers d db) (stopUnits db (brokenUnits d db))
    refine ⟨rows, ?_, ?_, hnd, hcard⟩
    · have hstop : (stopUnits db (brokenUnits d db)).instances =
          db.instances.map (scaledRow d db target) := by
        have hbroken : stoppedUnits d db target = brokenUnits d db := by
          unfold stoppedUnits
          rw [if_pos hlt, List.append_nil]
        unfold stopUnits Db.updateWhere scaledRow isStopped
        rw [hbroken]
      rw [hrows, hstop]
    · intro r hr
      exact (hadd r hr).mono (le_of_eq (nextUuid_stopUnits db _).symm)
  · rename_i hge
    refine ⟨[], ?_, fun _ h => absurd h List.not_mem_nil, List.nodup_nil, ?_⟩
    · rw [List.append_nil]
      exact stopUnits_stopUnits hids hge
    · rfl

/-- The table after a call, and the units that a call that succeeds has inserted. -/
theorem moveReplicas_rows (s : Settings) (d : Deployment) (target now : ℕ) {db : Db}
    (hids : (db.instances.map (·.id)).Nodup) :
    ∃ rows, (moveReplicas s d target now db).1.instances =
        db.instances.map (scaledRow d db target) ++ rows ∧
      (∀ r ∈ rows, AddedRow d db r) ∧ (rows.map (·.id)).Nodup ∧
      ((moveReplicas s d target now db).2 = .ok () →
        (rows.map (keyOf d.nodesPerReplica)).toFinset.card =
          target - (capacityUnits d db).length) := by
  obtain ⟨rows, hrows, hadd, hnd, hcard⟩ := moveReplicas_added s d target now hids
  exact ⟨rows, hrows, hadd, hnd, fun hok => hcard.trans (addedUnits_of_ok hok)⟩

/-- A call leaves the deployments, the workers and the models alone until it
writes its own row. -/
theorem moveReplicas_tables (s : Settings) (d : Deployment) (target now : ℕ) (db : Db) :
    (moveReplicas s d target now db).1.deployments = db.deployments ∧
      (moveReplicas s d target now db).1.workers = db.workers ∧
      (moveReplicas s d target now db).1.models = db.models := by
  unfold moveReplicas
  simp only
  split
  · refine scaleOut_invariant (fun db' => db'.deployments = db.deployments ∧
      db'.workers = db.workers ∧ db'.models = db.models) _ rfl ?_ ?_ _ _ ?_ _
    · exact ⟨rfl, rfl, rfl⟩
    · exact fun _ _ _ _ h _ => h
    · exact fun _ _ => ⟨rfl, rfl, rfl⟩
  · exact ⟨rfl, rfl, rfl⟩

/-- **The rows of another deployment are not touched.** -/
theorem instancesOf_moveReplicas_of_ne (s : Settings) (d : Deployment) (target now : ℕ) {db : Db}
    (hids : (db.instances.map (·.id)).Nodup) {e : Uuid} (hne : e ≠ d.id) :
    (moveReplicas s d target now db).1.instancesOf e = db.instancesOf e := by
  obtain ⟨rows, hrows, hadd, -, -⟩ := moveReplicas_rows s d target now hids
  have hnone : rows.filter (fun i => i.deploymentId = e) = [] := by
    rw [List.filter_eq_nil_iff]
    intro r hr heq
    rw [decide_eq_true_eq, (hadd r hr).deployment] at heq
    exact hne heq.symm
  have hsame : (db.instances.map (scaledRow d db target)).filter (fun i => i.deploymentId = e) =
      db.instances.filter (fun i => i.deploymentId = e) := by
    have hfun : ∀ i ∈ db.instances, scaledRow d db target i = i ∨ i.deploymentId = d.id := by
      intro i hi
      by_cases hst : isStopped d db target i = true
      · exact Or.inr (deploymentId_of_isStopped hids hi hst)
      · exact Or.inl (scaledRow_of_not_isStopped hst)
    clear hrows hadd
    generalize db.instances = is at hfun
    induction is with
    | nil => rfl
    | cons i is ih =>
      have htail := ih (fun j hj => hfun j (List.mem_cons_of_mem _ hj))
      have hdep := scaledRow_keeps (·.deploymentId) (fun _ => rfl) d db target i
      rw [List.map_cons, List.filter_cons, List.filter_cons, htail, hdep]
      by_cases hi : i.deploymentId = e
      · rcases hfun i List.mem_cons_self with heq | hd
        · rw [heq]
        · exact absurd (hi.symm.trans hd) hne
      · simp [hi]
  unfold Db.instancesOf
  rw [hrows, List.filter_append, hnone, List.append_nil, hsame]

/-- The instances after a call are those its replica part left. -/
theorem applyScale_instances (s : Settings) (obj : DeploymentObj) (replicas : ℕ)
    (setRange : Bool) (now : ℕ) (db : Db) :
    (applyScale s obj replicas setRange now db).1.instances =
      (moveReplicas s obj.loaded (scaleTarget obj replicas setRange) now db).1.instances := by
  rcases applyScale_cases s obj replicas setRange now db with ⟨e, -, heq⟩ | ⟨-, heq⟩
  · rw [heq]
  · rw [heq]
    rfl

/-- Another deployment's row is not written. -/
theorem findDeployment_writeDeployment_of_ne (db : Db) (obj : DeploymentObj) (now : ℕ) {k : Uuid}
    (hne : k ≠ obj.loaded.id) : (db.writeDeployment obj now).findDeployment k = db.findDeployment k := by
  unfold Db.findDeployment Db.writeDeployment
  simp only
  induction db.deployments with
  | nil => rfl
  | cons row rows ih =>
    have hid : (if row.id = obj.loaded.id then flushDeployment obj now row else row).id = row.id := by
      split <;> rfl
    rw [List.map_cons, List.find?_cons, List.find?_cons, ih, hid]
    by_cases hk : row.id = k
    · simp [hk, hne]
    · simp [hk]

end Inferna
