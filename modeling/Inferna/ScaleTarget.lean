import Inferna.ScaleSpec

/-!
# Scaling to a target

`apply_scale` sorts the live units into serving, pending and broken ones, and
counts the first two as capacity.  A live unit with no failed rank but a stopped
one, as a restart leaves it, is in none of the three classes: it is neither
stopped nor counted, and the call ends with that many units too many.

## Main definitions

* `ScaleState` — a deployment object and the tables it was loaded from.
* `Unclassified`, `AllClassified` — a unit in none of the classes, and that there
  is none.
* `ReachesTarget` — what a successful call is to do.

## Main results

* `length_liveUnits_call` — a call ends with the target and the unclassified
  units.
* `reachesTarget_iff` — **a successful call reaches its target exactly when every
  unit is classified.**
* `scale_misses_target` — a restarted row makes it miss.
-/

namespace Inferna

/-! ### States and their property -/

/-- A deployment as a session holds it, with the tables it was loaded from. -/
structure ScaleState where
  db : Db
  obj : DeploymentObj
  /-- `model_instances.id` is a primary key. -/
  ids : (db.instances.map (·.id)).Nodup
  /-- `deployments.id` is a primary key. -/
  deployments : (db.deployments.map (·.id)).Nodup
  /-- The object was loaded from the row. -/
  current : obj.loaded ∈ db.deployments

/-- A live unit that is neither serving nor pending nor broken. -/
def Unclassified (u : List Instance) : Bool :=
  !unitServing u && !unitPending u && !unitBroken u

/-- Every unit with a rank that is to run has a failed rank, or no stopped one. -/
def ScaleState.AllClassified (st : ScaleState) : Prop :=
  ∀ u ∈ unitsOf st.obj.loaded st.db, unitLive u = true →
    (∃ i ∈ u, i.state = .error) ∨ ∀ i ∈ u, i.state ≠ .stopped

/-- What a call that succeeds is to do: exactly `target` live units, none of them
with a failed rank; units changed whole; stopped ranks one generation on, all
other rows as they were; the window pinned exactly when `setRange`. -/
structure ReachesTarget (st : ScaleState) (target : ℕ) (setRange : Bool) (db' : Db) : Prop where
  count : runningUnits st.obj.loaded.nodesPerReplica (db'.instancesOf st.obj.loaded.id) = target
  healthy : ∀ u ∈ unitsOf st.obj.loaded db', unitLive u = true → ∀ i ∈ u, i.state ≠ .error
  whole : ∀ u ∈ unitsOf st.obj.loaded st.db,
    (∀ i ∈ u, i ∈ db'.instances) ∨ ∀ i ∈ u, i.stop ∈ db'.instances
  kept : ∀ i ∈ st.db.instances, ∃ j ∈ db'.instances, j.id = i.id
  rows : ∀ i ∈ st.db.instances, ∀ j ∈ db'.instances, j.id = i.id →
    j = i ∨ (i.deploymentId = st.obj.loaded.id ∧ j = i.stop)
  window : ∀ e ∈ db'.deployments, e.id = st.obj.loaded.id →
    if setRange then e.minReplicas = target ∧ e.maxReplicas = target
    else e.minReplicas = st.obj.minReplicas ∧ e.maxReplicas = st.obj.maxReplicas

/-- A unit counts as capacity when all of its ranks are in a live state. -/
theorem capacity_iff {u : List Instance} :
    (unitServing u = true ∨ unitPending u = true) ↔ ∀ i ∈ u, i.state.isLive = true := by
  constructor
  · intro h i hi
    exact isLive_of_capacity h hi
  · intro h
    by_cases hs : unitServing u = true
    · exact Or.inl hs
    · rw [Bool.not_eq_true] at hs
      refine Or.inr ?_
      unfold unitPending
      rw [hs, Bool.not_false, Bool.true_and, List.all_eq_true]
      exact h

/-- The classes, read off the states of the ranks. -/
theorem unclassified_eq_false_iff {u : List Instance} :
    Unclassified u = false ↔ (∃ i ∈ u, i.state = .error) ∨ ∀ i ∈ u, i.state ≠ .stopped := by
  have hbroken : unitBroken u = true ↔ ∃ i ∈ u, i.state = .error := by
    unfold unitBroken
    rw [List.any_eq_true]
    simp
  have hsplit : Unclassified u = false ↔
      (unitServing u = true ∨ unitPending u = true) ∨ unitBroken u = true := by
    unfold Unclassified
    cases unitServing u <;> cases unitPending u <;> cases unitBroken u <;> simp
  rw [hsplit, capacity_iff, hbroken]
  constructor
  · rintro (h | h)
    · refine Or.inr fun i hi hstop => ?_
      have := h i hi
      rw [hstop] at this
      cases this
    · exact Or.inl h
  · rintro (h | h)
    · exact Or.inr h
    · -- no stopped rank: either one failed, or all are live
      by_cases herr : ∃ i ∈ u, i.state = .error
      · exact Or.inr herr
      · refine Or.inl fun i hi => ?_
        have h1 := h i hi
        have h2 : i.state ≠ .error := fun he => herr ⟨i, hi, he⟩
        cases hst : i.state with
        | stopped => exact absurd hst h1
        | error => exact absurd hst h2
        | scheduled => rfl
        | starting => rfl
        | running => rfl

/-! ### Counting units -/

/-- The key of a unit. -/
def headKey (n : ℕ) (u : List Instance) : Uuid := (u.head?.map (keyOf n)).getD 0

/-- The key of a unit is the key of each of its rows. -/
theorem headKey_eq {n : ℕ} {xs : List Instance} (hids : (xs.map (·.id)).Nodup)
    {u : List Instance} (hu : u ∈ replicaUnits n xs) {i : Instance} (hi : i ∈ u) :
    headKey n u = keyOf n i := by
  obtain ⟨x, hx, rfl⟩ := (mem_replicaUnits hids).mp hu
  have hkey : ∀ j ∈ xs.filter (fun i => keyOf n i = keyOf n x), keyOf n j = keyOf n x := by
    intro j hj
    rw [List.mem_filter, decide_eq_true_eq] at hj
    exact hj.2
  unfold headKey
  cases hfil : xs.filter (fun i => keyOf n i = keyOf n x) with
  | nil => rw [hfil] at hi; exact absurd hi List.not_mem_nil
  | cons j js =>
    rw [hkey i hi]
    exact hkey j (hfil ▸ List.mem_cons_self)

/-- Units with one key are one unit. -/
theorem unit_eq_of_headKey {n : ℕ} {xs : List Instance} (hids : (xs.map (·.id)).Nodup)
    {u v : List Instance} (hu : u ∈ replicaUnits n xs) (hv : v ∈ replicaUnits n xs)
    (hkey : headKey n u = headKey n v) : u = v := by
  obtain ⟨i, hi⟩ := List.exists_mem_of_ne_nil _ (unit_ne_nil hids hu)
  obtain ⟨j, hj⟩ := List.exists_mem_of_ne_nil _ (unit_ne_nil hids hv)
  rw [headKey_eq hids hu hi, headKey_eq hids hv hj] at hkey
  obtain ⟨x, hx, rfl⟩ := (mem_replicaUnits hids).mp hu
  obtain ⟨y, hy, rfl⟩ := (mem_replicaUnits hids).mp hv
  rw [List.mem_filter, decide_eq_true_eq] at hi hj
  rw [← hi.2, ← hj.2, hkey]

/-- The keys of a list of units. -/
def unitKeys (n : ℕ) (us : List (List Instance)) : Finset Uuid := (us.map (headKey n)).toFinset

/-- Different units have different keys. -/
theorem card_unitKeys {n : ℕ} {xs : List Instance} (hids : (xs.map (·.id)).Nodup)
    {us : List (List Instance)} (hnd : us.Nodup) (hsub : ∀ u ∈ us, u ∈ replicaUnits n xs) :
    (unitKeys n us).card = us.length := by
  unfold unitKeys
  have hmap : (us.map (headKey n)).Nodup := by
    refine (List.nodup_map_iff_inj_on hnd).mpr ?_
    intro u hu v hv heq
    exact unit_eq_of_headKey hids (hsub u hu) (hsub v hv) heq
  rw [List.toFinset_card_of_nodup hmap, List.length_map]

/-- A key of the units is the key of one of their rows. -/
theorem mem_unitKeys {n : ℕ} {xs : List Instance} (hids : (xs.map (·.id)).Nodup)
    {us : List (List Instance)} (hsub : ∀ u ∈ us, u ∈ replicaUnits n xs) {k : Uuid} :
    k ∈ unitKeys n us ↔ ∃ u ∈ us, ∃ i ∈ u, keyOf n i = k := by
  unfold unitKeys
  rw [List.mem_toFinset, List.mem_map]
  constructor
  · rintro ⟨u, hu, rfl⟩
    obtain ⟨i, hi⟩ := List.exists_mem_of_ne_nil _ (unit_ne_nil hids (hsub u hu))
    exact ⟨u, hu, i, hi, (headKey_eq hids (hsub u hu) hi).symm⟩
  · rintro ⟨u, hu, i, hi, rfl⟩
    exact ⟨u, hu, headKey_eq hids (hsub u hu) hi⟩

theorem nodup_replicaUnits (n : ℕ) {xs : List Instance} (hids : (xs.map (·.id)).Nodup) :
    (replicaUnits n xs).Nodup := by
  obtain ⟨ks, hnd, hks, heq⟩ := replicaUnits_eq n hids
  rw [heq]
  refine (List.nodup_map_iff_inj_on hnd).mpr ?_
  intro k hk k' hk' hfil
  obtain ⟨x, hx, rfl⟩ := (hks k).mp hk
  have hmem : x ∈ xs.filter (fun i => keyOf n i = k') := by
    rw [← hfil]
    exact List.mem_filter.mpr ⟨hx, by simp⟩
  rw [List.mem_filter, decide_eq_true_eq] at hmem
  exact hmem.2

/-- The live units fall into capacity, broken and unclassified ones. -/
theorem length_classes (us : List (List Instance)) :
    us.length = (us.filter unitServing ++ us.filter unitPending).length +
      (us.filter unitBroken).length + (us.filter Unclassified).length := by
  induction us with
  | nil => rfl
  | cons u us ih =>
    have hexcl : unitPending u = true → unitServing u = false := by
      intro h
      unfold unitPending at h
      rw [Bool.and_eq_true, Bool.not_eq_true'] at h
      exact h.1
    have hbroken : unitServing u = true ∨ unitPending u = true → unitBroken u = false :=
      not_broken_of_capacity
    unfold Unclassified at ih ⊢
    rw [List.length_append] at ih ⊢
    simp only [List.filter_cons, List.length_cons]
    cases hs : unitServing u <;> cases hp : unitPending u <;> cases hb : unitBroken u <;>
      simp_all <;> omega

/-! ### The units after a call -/

theorem liveUnits_subset {d : Deployment} {db : Db} :
    ∀ u ∈ liveUnits d db, u ∈ replicaUnits d.nodesPerReplica (db.instancesOf d.id) :=
  fun _ hu => (mem_liveUnits.mp hu).1

/-- The keys of the live units are the keys of the rows that are to run. -/
theorem mem_unitKeys_liveUnits {db : Db} (hids : (db.instances.map (·.id)).Nodup) {d : Deployment}
    {k : Uuid} : k ∈ unitKeys d.nodesPerReplica (liveUnits d db) ↔
      ∃ i ∈ db.instancesOf d.id, i.desiredState = .running ∧ keyOf d.nodesPerReplica i = k := by
  have hids' := nodup_instancesOf hids d.id
  rw [mem_unitKeys hids' liveUnits_subset]
  constructor
  · rintro ⟨u, hu, i, hi, rfl⟩
    obtain ⟨hu, hlive⟩ := mem_liveUnits.mp hu
    unfold unitLive at hlive
    rw [List.any_eq_true] at hlive
    obtain ⟨j, hj, hrun⟩ := hlive
    rw [decide_eq_true_eq] at hrun
    refine ⟨j, mem_instancesOf.mpr (mem_of_mem_unit hids hu hj), hrun, ?_⟩
    rw [← headKey_eq hids' hu hj, headKey_eq hids' hu hi]
  · rintro ⟨i, hi, hrun, rfl⟩
    have hu := (mem_replicaUnits (n := d.nodesPerReplica) hids').mpr ⟨i, hi, rfl⟩
    have hiu : i ∈ (db.instancesOf d.id).filter (fun j =>
        keyOf d.nodesPerReplica j = keyOf d.nodesPerReplica i) :=
      List.mem_filter.mpr ⟨hi, by simp⟩
    refine ⟨_, mem_liveUnits.mpr ⟨hu, ?_⟩, i, hiu, rfl⟩
    unfold unitLive
    rw [List.any_eq_true]
    exact ⟨i, hiu, by simpa using hrun⟩

theorem nodup_liveUnits {db : Db} (hids : (db.instances.map (·.id)).Nodup) (d : Deployment) :
    (liveUnits d db).Nodup :=
  (nodup_replicaUnits _ (nodup_instancesOf hids d.id)).filter _

theorem nodup_capacityUnits {db : Db} (hids : (db.instances.map (·.id)).Nodup) (d : Deployment) :
    (capacityUnits d db).Nodup := by
  have hlive := nodup_liveUnits hids d
  unfold capacityUnits
  rw [List.nodup_append]
  refine ⟨hlive.filter _, hlive.filter _, ?_⟩
  rintro u hu v hv rfl
  rw [List.mem_filter] at hu hv
  have hp := hv.2
  unfold unitPending at hp
  rw [hu.2] at hp
  cases hp

/-- No unit is stopped twice. -/
theorem nodup_stoppedUnits {db : Db} (hids : (db.instances.map (·.id)).Nodup) (d : Deployment)
    (target : ℕ) : (stoppedUnits d db target).Nodup := by
  unfold stoppedUnits
  rw [List.nodup_append]
  refine ⟨(nodup_liveUnits hids d).filter _, ?_, ?_⟩
  · split
    · exact List.nodup_nil
    · unfold unitsToStop
      refine (List.take_sublist _ _).nodup ?_
      rw [(List.perm_insertionSort _ _).nodup_iff]
      exact nodup_capacityUnits hids d
  · rintro u hu v hv rfl
    split at hv
    · exact absurd hv List.not_mem_nil
    · have hb := (mem_brokenUnits.mp hu).2
      rw [not_broken_of_capacity (mem_capacityUnits.mp (mem_unitsToStop hv)).2] at hb
      cases hb

theorem length_stoppedUnits (d : Deployment) (db : Db) (target : ℕ) :
    (stoppedUnits d db target).length =
      (brokenUnits d db).length + ((capacityUnits d db).length - target) := by
  unfold stoppedUnits
  rw [List.length_append]
  split
  · rename_i hlt
    rw [List.length_nil]
    omega
  · unfold unitsToStop
    rw [List.length_take, List.length_insertionSort]
    omega

section Call

variable {d : Deployment} {target : ℕ} {db db' : Db} {rows : List Instance}
  (hids : (db.instances.map (·.id)).Nodup)
  (hrows : db'.instances = db.instances.map (scaledRow d db target) ++ rows)
  (hadd : ∀ r ∈ rows, AddedRow d db r) (hnd : (rows.map (·.id)).Nodup)

include hids hrows hadd hnd in
/-- The ids are still a key after the call. -/
theorem nodup_ids_call : (db'.instances.map (·.id)).Nodup := by
  rw [hrows, List.map_append, List.map_map, List.nodup_append]
  have hold : db.instances.map ((·.id) ∘ scaledRow d db target) = db.instances.map (·.id) := by
    apply List.map_congr_left
    intro i _
    exact scaledRow_keeps (·.id) (fun _ => rfl) d db target i
  rw [hold]
  refine ⟨hids, hnd, ?_⟩
  intro a ha b hb
  obtain ⟨i, hi, rfl⟩ := List.mem_map.mp ha
  obtain ⟨r, hr, rfl⟩ := List.mem_map.mp hb
  exact Nat.ne_of_lt (lt_of_lt_of_le (Db.id_lt_nextUuid hi) (hadd r hr).id_fresh)

include hrows hadd in
/-- The deployment's rows after the call. -/
theorem mem_instancesOf_call {j : Instance} : j ∈ db'.instancesOf d.id ↔
    (∃ i ∈ db.instancesOf d.id, j = scaledRow d db target i) ∨ j ∈ rows := by
  rw [mem_instancesOf, hrows, List.mem_append, List.mem_map]
  constructor
  · rintro ⟨⟨i, hi, rfl⟩ | hr, hd⟩
    · rw [scaledRow_keeps (·.deploymentId) (fun _ => rfl)] at hd
      exact Or.inl ⟨i, mem_instancesOf.mpr ⟨hi, hd⟩, rfl⟩
    · exact Or.inr hr
  · rintro (⟨i, hi, rfl⟩ | hr)
    · obtain ⟨hi, hd⟩ := mem_instancesOf.mp hi
      refine ⟨Or.inl ⟨i, hi, rfl⟩, ?_⟩
      rw [scaledRow_keeps (·.deploymentId) (fun _ => rfl)]
      exact hd
    · exact ⟨Or.inr hr, (hadd j hr).deployment⟩

include hids in
/-- A row is stopped exactly when its unit is. -/
theorem isStopped_iff_key {i : Instance} (hi : i ∈ db.instancesOf d.id) :
    isStopped d db target i = true ↔
      keyOf d.nodesPerReplica i ∈ unitKeys d.nodesPerReplica (stoppedUnits d db target) := by
  have hids' := nodup_instancesOf hids d.id
  have hsub : ∀ u ∈ stoppedUnits d db target,
      u ∈ replicaUnits d.nodesPerReplica (db.instancesOf d.id) :=
    fun u hu => liveUnits_subset u (stoppedUnits_live hu)
  rw [isStopped_iff hids (mem_instancesOf.mp hi).1, mem_unitKeys hids' hsub]
  constructor
  · rintro ⟨u, hu, hiu⟩
    exact ⟨u, hu, i, hiu, rfl⟩
  · rintro ⟨u, hu, j, hj, hkey⟩
    -- the unit of `j` has every row with its key
    refine ⟨u, hu, ?_⟩
    obtain ⟨x, hx, rfl⟩ := (mem_replicaUnits hids').mp (hsub u hu)
    rw [List.mem_filter, decide_eq_true_eq] at hj ⊢
    exact ⟨hi, hkey.symm.trans hj.2⟩

include hids hrows hadd hnd in
/-- The live units after the call: those that were not stopped, and the new ones. -/
theorem unitKeys_call :
    unitKeys d.nodesPerReplica (liveUnits d db') =
      (unitKeys d.nodesPerReplica (liveUnits d db) \
        unitKeys d.nodesPerReplica (stoppedUnits d db target)) ∪
      (rows.map (keyOf d.nodesPerReplica)).toFinset := by
  ext k
  rw [mem_unitKeys_liveUnits (nodup_ids_call hids hrows hadd hnd), Finset.mem_union,
    Finset.mem_sdiff, mem_unitKeys_liveUnits hids, List.mem_toFinset, List.mem_map]
  constructor
  · rintro ⟨j, hj, hrun, rfl⟩
    rcases (mem_instancesOf_call hrows hadd).mp hj with ⟨i, hi, rfl⟩ | hr
    · have hst := not_isStopped_of_running hrun
      rw [scaledRow_of_not_isStopped hst] at hrun ⊢
      exact Or.inl ⟨⟨i, hi, hrun, rfl⟩, fun hmem => hst ((isStopped_iff_key hids hi).mpr hmem)⟩
    · exact Or.inr ⟨j, hr, rfl⟩
  · rintro (⟨⟨i, hi, hrun, rfl⟩, hnot⟩ | ⟨r, hr, rfl⟩)
    · have hst : ¬ isStopped d db target i = true :=
        fun h => hnot ((isStopped_iff_key hids hi).mp h)
      have heq := scaledRow_of_not_isStopped hst
      exact ⟨i, (mem_instancesOf_call hrows hadd).mpr (Or.inl ⟨i, hi, heq.symm⟩), hrun, rfl⟩
    · exact ⟨r, (mem_instancesOf_call hrows hadd).mpr (Or.inr hr), (hadd r hr).desired, rfl⟩

include hids hrows hadd hnd in
/-- The live units after the call and the stopped ones are those before it and the new ones. -/
theorem length_liveUnits_rows : (liveUnits d db').length + (stoppedUnits d db target).length =
    (liveUnits d db).length + (rows.map (keyOf d.nodesPerReplica)).toFinset.card := by
  have hids' := nodup_instancesOf hids d.id
  have hidsCall := nodup_ids_call hids hrows hadd hnd
  have hstopSub : ∀ u ∈ stoppedUnits d db target, u ∈ liveUnits d db :=
    fun _ hu => stoppedUnits_live hu
  have hlive' := card_unitKeys (nodup_instancesOf hidsCall d.id) (nodup_liveUnits hidsCall d)
    liveUnits_subset
  have hlive := card_unitKeys hids' (nodup_liveUnits hids d) liveUnits_subset
  have hstop := card_unitKeys hids' (nodup_stoppedUnits hids d target)
    (fun u hu => liveUnits_subset u (hstopSub u hu))
  -- the stopped keys are live ones, and the new keys are new
  have hsub : unitKeys d.nodesPerReplica (stoppedUnits d db target) ⊆
      unitKeys d.nodesPerReplica (liveUnits d db) := by
    intro k hk
    unfold unitKeys at hk ⊢
    rw [List.mem_toFinset, List.mem_map] at hk ⊢
    obtain ⟨u, hu, rfl⟩ := hk
    exact ⟨u, hstopSub u hu, rfl⟩
  have hdisj : Disjoint (unitKeys d.nodesPerReplica (liveUnits d db) \
      unitKeys d.nodesPerReplica (stoppedUnits d db target))
      (rows.map (keyOf d.nodesPerReplica)).toFinset := by
    rw [Finset.disjoint_left]
    intro k hk hnew
    rw [Finset.mem_sdiff, mem_unitKeys_liveUnits hids] at hk
    obtain ⟨⟨i, hi, -, rfl⟩, -⟩ := hk
    rw [List.mem_toFinset, List.mem_map] at hnew
    obtain ⟨r, hr, heq⟩ := hnew
    exact (hadd r hr).key_ne (mem_instancesOf.mp hi).1 _ heq.symm
  have hle := Finset.card_le_card hsub
  have hcount := congrArg Finset.card (unitKeys_call hids hrows hadd hnd)
  rw [Finset.card_union_of_disjoint hdisj, Finset.card_sdiff_of_subset hsub, hlive', hlive,
    hstop] at hcount
  rw [hlive, hstop] at hle
  omega

include hids hrows hadd hnd in
/-- **How many units a call leaves**: the target, and those in no class. -/
theorem length_liveUnits_call
    (hcard : (rows.map (keyOf d.nodesPerReplica)).toFinset.card =
      target - (capacityUnits d db).length) :
    (liveUnits d db').length = target + ((liveUnits d db).filter Unclassified).length := by
  have hcount := length_liveUnits_rows hids hrows hadd hnd
  rw [hcard, length_stoppedUnits] at hcount
  have hclasses := length_classes (liveUnits d db)
  change _ = (capacityUnits d db).length + (brokenUnits d db).length + _ at hclasses
  omega

include hids hrows hadd hnd in
/-- A rank of a live unit after the call is new, or has its state from a live unit
that the call did not stop. -/
theorem rank_call : ∀ u ∈ unitsOf d db', unitLive u = true → ∀ i ∈ u,
    i ∈ rows ∨ ∃ v ∈ liveUnits d db, v ∉ stoppedUnits d db target ∧
      ∃ j ∈ v, i.state = j.state := by
  intro u hu hlive i hi
  have hids' := nodup_instancesOf hids d.id
  have hidsCall := nodup_ids_call hids hrows hadd hnd
  have hidsCall' := nodup_instancesOf hidsCall d.id
  unfold unitLive at hlive
  rw [List.any_eq_true] at hlive
  obtain ⟨j, hj, hrun⟩ := hlive
  rw [decide_eq_true_eq] at hrun
  have hkey : keyOf d.nodesPerReplica i = keyOf d.nodesPerReplica j := by
    rw [← headKey_eq hidsCall' hu hi, headKey_eq hidsCall' hu hj]
  have hi' := mem_instancesOf.mpr (mem_of_mem_unit hidsCall hu hi)
  have hj' := mem_instancesOf.mpr (mem_of_mem_unit hidsCall hu hj)
  rcases (mem_instancesOf_call hrows hadd).mp hi' with ⟨i₀, hi₀, rfl⟩ | hir
  · right
    rw [scaledRow_keeps (keyOf d.nodesPerReplica) (fun i => rfl)] at hkey
    rw [scaledRow_keeps (·.state) (fun _ => rfl)]
    rcases (mem_instancesOf_call hrows hadd).mp hj' with ⟨j₀, hj₀, rfl⟩ | hjr
    · -- two old rows of one unit, one of which is still to run
      rw [scaledRow_keeps (keyOf d.nodesPerReplica) (fun i => rfl)] at hkey
      have hst := not_isStopped_of_running hrun
      have hrun₀ : j₀.desiredState = .running := by
        rw [scaledRow_of_not_isStopped hst] at hrun
        exact hrun
      have hmem : ∀ x ∈ db.instancesOf d.id, keyOf d.nodesPerReplica x =
          keyOf d.nodesPerReplica j₀ → x ∈ (db.instancesOf d.id).filter (fun x =>
            keyOf d.nodesPerReplica x = keyOf d.nodesPerReplica j₀) := by
        intro x hx hk
        exact List.mem_filter.mpr ⟨hx, by simpa using hk⟩
      refine ⟨(db.instancesOf d.id).filter (fun x =>
        keyOf d.nodesPerReplica x = keyOf d.nodesPerReplica j₀), ?_, ?_, i₀, hmem i₀ hi₀ hkey, rfl⟩
      · refine mem_liveUnits.mpr
          ⟨(mem_replicaUnits (n := d.nodesPerReplica) hids').mpr ⟨j₀, hj₀, rfl⟩, ?_⟩
        unfold unitLive
        rw [List.any_eq_true]
        exact ⟨j₀, hmem j₀ hj₀ rfl, by simpa using hrun₀⟩
      · intro hstopped
        exact hst ((isStopped_iff hids (mem_instancesOf.mp hj₀).1).mpr
          ⟨_, hstopped, hmem j₀ hj₀ rfl⟩)
    · exact absurd hkey ((hadd j hjr).key_ne (mem_instancesOf.mp hi₀).1 _)
  · exact Or.inl hir

include hids hrows hadd hnd in
/-- No live unit after the call has a failed rank. -/
theorem healthy_call : ∀ u ∈ unitsOf d db', unitLive u = true → ∀ i ∈ u, i.state ≠ .error := by
  intro u hu hlive i hi herr
  rcases rank_call hids hrows hadd hnd u hu hlive i hi with hr | ⟨v, hv, hnot, j, hj, hstate⟩
  · rw [(hadd i hr).state] at herr
    cases herr
  · -- a live unit with a failed rank is stopped
    rw [herr] at hstate
    have hbroken : unitBroken v = true := by
      unfold unitBroken
      rw [List.any_eq_true]
      exact ⟨j, hj, by simpa using hstate.symm⟩
    exact hnot (List.mem_append_left _ (mem_brokenUnits.mpr ⟨hv, hbroken⟩))

include hids hrows hadd hnd in
/-- When all live units count as capacity, so do those after the call. -/
theorem ready_call
    (hready : ∀ u ∈ liveUnits d db, ∀ i ∈ u, i.state.isLive = true) :
    ∀ u ∈ liveUnits d db', ∀ i ∈ u, i.state.isLive = true := by
  intro u hu i hi
  obtain ⟨hu, hlive⟩ := mem_liveUnits.mp hu
  rcases rank_call hids hrows hadd hnd u hu hlive i hi with hr | ⟨v, hv, -, j, hj, hstate⟩
  · rw [(hadd i hr).state]
    rfl
  · rw [hstate]
    exact hready v hv j hj

include hids hrows in
/-- A unit is changed on all of its ranks or on none. -/
theorem whole_call : ∀ u ∈ unitsOf d db,
    (∀ i ∈ u, i ∈ db'.instances) ∨ ∀ i ∈ u, i.stop ∈ db'.instances := by
  intro u hu
  have hmem : ∀ i ∈ u, scaledRow d db target i ∈ db'.instances := by
    intro i hi
    rw [hrows]
    exact List.mem_append_left _ (List.mem_map_of_mem (mem_of_mem_unit hids hu hi).1)
  by_cases hst : u ∈ stoppedUnits d db target
  · right
    intro i hi
    have hstop := (isStopped_iff hids (mem_of_mem_unit hids hu hi).1).mpr ⟨u, hst, hi⟩
    have := hmem i hi
    rwa [scaledRow_of_isStopped hstop] at this
  · left
    intro i hi
    have hstop : ¬ isStopped d db target i = true := by
      intro h
      obtain ⟨v, hv, hiv⟩ := (isStopped_iff hids (mem_of_mem_unit hids hu hi).1).mp h
      have huv : u = v := unit_eq_of_mem (nodup_instancesOf hids d.id) hu
        (liveUnits_subset v (stoppedUnits_live hv)) hi hiv
      exact hst (huv ▸ hv)
    have := hmem i hi
    rwa [scaledRow_of_not_isStopped hstop] at this

include hids hrows hadd in
/-- A row of before is as it was, or stopped once. -/
theorem rows_call : ∀ i ∈ db.instances, ∀ j ∈ db'.instances, j.id = i.id →
    j = i ∨ (i.deploymentId = d.id ∧ j = i.stop) := by
  intro i hi j hj hid
  rw [hrows] at hj
  rcases List.mem_append.mp hj with hj | hj
  · obtain ⟨k, hk, rfl⟩ := List.mem_map.mp hj
    rw [scaledRow_keeps (·.id) (fun _ => rfl)] at hid
    have hki : k = i := List.inj_on_of_nodup_map hids hk hi hid
    subst hki
    by_cases hst : isStopped d db target k = true
    · exact Or.inr ⟨deploymentId_of_isStopped hids hk hst, scaledRow_of_isStopped hst⟩
    · exact Or.inl (scaledRow_of_not_isStopped hst)
  · exact absurd hid (Nat.ne_of_gt (lt_of_lt_of_le (Db.id_lt_nextUuid hi) (hadd j hj).id_fresh))

end Call

/-! ### The call with its commit -/

/-- A column written by the object that was loaded from it. -/
theorem flushColumn_loaded (loaded assigned : ℕ) : flushColumn loaded assigned loaded = assigned := by
  unfold flushColumn
  split
  · rename_i h
    exact h.symm
  · rfl

/-- A call that succeeds has moved the replicas and written its row. -/
theorem applyScale_ok {s : Settings} {obj : DeploymentObj} {replicas : ℕ} {setRange : Bool}
    {now : ℕ} {db db' : Db} (h : applyScale s obj replicas setRange now db = (db', .ok ())) :
    (moveReplicas s obj.loaded (scaleTarget obj replicas setRange) now db).2 = .ok () ∧
      db' = (moveReplicas s obj.loaded (scaleTarget obj replicas setRange) now db).1.writeDeployment
        (pinWindow obj (scaleTarget obj replicas setRange) setRange) now := by
  rcases applyScale_cases s obj replicas setRange now db with ⟨e, -, heq⟩ | ⟨hmove, heq⟩
  · rw [heq] at h
    cases h
  · rw [heq] at h
    exact ⟨hmove, (congrArg Prod.fst h).symm⟩

/-- What the session holds after a call that succeeded. -/
theorem scaleInSession_ok {s : Settings} {obj : DeploymentObj} {replicas : ℕ} {setRange : Bool}
    {now : ℕ} {ss : Session} (h : (scaleInSession s obj replicas setRange now ss).2 = .ok ()) :
    ∃ db', applyScale s obj replicas setRange now ss.working = (db', .ok ()) ∧
      (scaleInSession s obj replicas setRange now ss).1 = ⟨db', db'⟩ := by
  unfold scaleInSession at h ⊢
  rcases happ : applyScale s obj replicas setRange now ss.working with ⟨db', e | u⟩
  · rw [happ] at h
    cases h
  · rw [happ] at h
    simp only [Session.commit] at h ⊢
    cases hv : db'.violation with
    | none => exact ⟨db', rfl, rfl⟩
    | some c => rw [hv] at h; cases h

theorem ScaleState.window_write (st : ScaleState) (target now : ℕ) (setRange : Bool) {db₁ : Db}
    (hdep : db₁.deployments = st.db.deployments) :
    ∀ e ∈ (db₁.writeDeployment (pinWindow st.obj target setRange) now).deployments,
      e.id = st.obj.loaded.id →
      if setRange then e.minReplicas = target ∧ e.maxReplicas = target
      else e.minReplicas = st.obj.minReplicas ∧ e.maxReplicas = st.obj.maxReplicas := by
  intro e he hid
  have hloaded : (pinWindow st.obj target setRange).loaded = st.obj.loaded := by
    unfold pinWindow
    split <;> rfl
  unfold Db.writeDeployment at he
  rw [hdep] at he
  obtain ⟨row, hrow, rfl⟩ := List.mem_map.mp he
  rw [hloaded] at hid ⊢
  split at hid
  · rename_i heq
    rw [if_pos heq]
    have hcur : row = st.obj.loaded := List.inj_on_of_nodup_map st.deployments hrow st.current heq
    subst hcur
    unfold flushDeployment
    simp only [hloaded, flushColumn_loaded]
    cases setRange <;> exact ⟨rfl, rfl⟩
  · rename_i hne
    exact absurd hid hne

/-- **`apply_scale` reaches its target exactly when every unit is classified.**  A
call that succeeds does what `ReachesTarget` lists if and only if every unit with
a rank that is to run has a failed rank or no stopped one. -/
theorem reachesTarget_iff (s : Settings) (st : ScaleState) (replicas : ℕ) (setRange : Bool)
    (now : ℕ)
    (hok : (scaleInSession s st.obj replicas setRange now (Session.fresh st.db)).2 = .ok ()) :
    ReachesTarget st (scaleTarget st.obj replicas setRange) setRange
        (scaleInSession s st.obj replicas setRange now (Session.fresh st.db)).1.committed ↔
      st.AllClassified := by
  obtain ⟨db', happ, hss⟩ := scaleInSession_ok hok
  obtain ⟨hmove, rfl⟩ := applyScale_ok happ
  rw [hss]
  set target := scaleTarget st.obj replicas setRange with htarget
  obtain ⟨rows, hrows, hadd, hnd, hcard⟩ :=
    moveReplicas_rows s st.obj.loaded target now st.ids
  have hcount := length_liveUnits_call st.ids hrows hadd hnd (hcard hmove)
  -- the units in no class decide it
  have hiff : ((liveUnits st.obj.loaded st.db).filter Unclassified).length = 0 ↔
      st.AllClassified := by
    rw [List.length_eq_zero_iff, List.filter_eq_nil_iff]
    constructor
    · intro h u hu hlive
      have := h u (mem_liveUnits.mpr ⟨hu, hlive⟩)
      rw [Bool.not_eq_true] at this
      exact unclassified_eq_false_iff.mp this
    · intro h u hu
      obtain ⟨hu, hlive⟩ := mem_liveUnits.mp hu
      rw [Bool.not_eq_true]
      exact unclassified_eq_false_iff.mpr (h u hu hlive)
  rw [← hiff]
  constructor
  · intro h
    have := h.count
    change (liveUnits st.obj.loaded (moveReplicas s st.obj.loaded target now st.db).1).length =
      target at this
    omega
  · intro hzero
    refine ⟨?_, ?_, ?_, ?_, ?_, ?_⟩
    · change (liveUnits st.obj.loaded (moveReplicas s st.obj.loaded target now st.db).1).length =
        target
      omega
    · exact healthy_call st.ids hrows hadd hnd
    · exact whole_call st.ids hrows
    · intro i hi
      refine ⟨scaledRow st.obj.loaded st.db target i, ?_,
        scaledRow_keeps (·.id) (fun _ => rfl) _ _ _ i⟩
      change _ ∈ (moveReplicas s st.obj.loaded target now st.db).1.instances
      rw [hrows]
      exact List.mem_append_left _ (List.mem_map_of_mem hi)
    · exact rows_call st.ids hrows hadd
    · exact st.window_write target now setRange (moveReplicas_tables s st.obj.loaded target now
        st.db).1

/-- A state of the sample installation with its only deployment. -/
def sampleScale (as : List Step) (d : Deployment)
    (h : ((Run.exec (World.next sampleEnv) sampleWorld as).db.instances.map (·.id)).Nodup ∧
      ((Run.exec (World.next sampleEnv) sampleWorld as).db.deployments.map (·.id)).Nodup ∧
      d ∈ (Run.exec (World.next sampleEnv) sampleWorld as).db.deployments) : ScaleState where
  db := (Run.exec (World.next sampleEnv) sampleWorld as).db
  obj := d.load
  ids := h.1
  deployments := h.2.1
  current := h.2.2

/-- The deployment of the sample. -/
def sampleDeployment : Deployment where
  id := 2
  modelId := 1
  clusterId := 1
  engine := .vllm
  profile := .latency
  parallelMode := some .single

/-- Serving one replica, a scale to one leaves it as it is. -/
def servingScale : ScaleState := sampleScale sampleServe sampleDeployment (by decide +kernel)

theorem reachesTarget_serving :
    (scaleInSession sampleEnv.settings servingScale.obj 1 true 7
        (Session.fresh servingScale.db)).2 = .ok () ∧
      (ReachesTarget servingScale 1 true (scaleInSession sampleEnv.settings servingScale.obj 1 true 7
        (Session.fresh servingScale.db)).1.committed ↔ servingScale.AllClassified) ∧
      servingScale.AllClassified :=
  ⟨by decide +kernel,
    reachesTarget_iff sampleEnv.settings servingScale 1 true 7 (by decide +kernel),
    by unfold ScaleState.AllClassified; decide +kernel⟩

/-- The replica was stopped and restarted, and is not up yet. -/
def restartedScale : ScaleState :=
  sampleScale (sampleStopped ++ [.restart 3]) sampleDeployment (by decide +kernel)

/-- **A restarted row makes a call miss its target**: a scale to one leaves two
units that are to run. -/
theorem scale_misses_target :
    ¬ ∀ (s : Settings) (st : ScaleState) (replicas : ℕ) (setRange : Bool) (now : ℕ),
      (scaleInSession s st.obj replicas setRange now (Session.fresh st.db)).2 = .ok () →
      ReachesTarget st (scaleTarget st.obj replicas setRange) setRange
        (scaleInSession s st.obj replicas setRange now (Session.fresh st.db)).1.committed := by
  intro h
  have hcount := (h sampleEnv.settings restartedScale 1 true 7 (by decide +kernel)).count
  revert hcount
  decide +kernel

end Inferna
