import Inferna.Window
import Inferna.TickRollback
import Inferna.World

/-!
# A window that already fits

`PUT /range` writes a window and clamps the count into it.  The count it clamps is that of all
units of the deployment, the stopped ones kept for the record included, and `apply_scale` then
moves the units that count as capacity to it.  The two agree only when no unit is left over from
an earlier scale-in, or the window ends at the count.

## Main definitions

* `FittingRange` — a deployment without errored units, and a window around its count.
* `KeepsRows` — the request succeeds, writes the window and leaves the rows as they were.

## Main results

* `rangeTarget_of_fitting` — the count that is asked for.
* `keepsRows_iff` — **exactly when a window that fits leaves the rows alone.**
* `scaledIn_range_grows` — a scale-in brings its units back with the next window.
-/

namespace Inferna

open Run

/-! ### Windows that fit -/

/-- A deployment none of whose live units has a failed rank, in tables that keep their constraints,
and a window around the number of its live units. -/
structure FittingRange (db : Db) (d : Deployment) (body : RangeRequest) : Prop where
  /-- `model_instances.id` is a primary key. -/
  ids : (db.instances.map (·.id)).Nodup
  /-- `deployments.id` is a primary key. -/
  deployments : (db.deployments.map (·.id)).Nodup
  valid : db.violation = none
  row : db.findDeployment d.id = some d
  healthy : ∀ u ∈ unitsOf d db, unitLive u = true → ∀ i ∈ u, i.state ≠ .error
  lower : body.minReplicas ≤ liveCount db d
  upper : liveCount db d ≤ body.maxReplicas

/-- The request succeeds, the row of the deployment has the window, and its instances are as they
were. -/
def KeepsRows (s : Settings) (db : Db) (id : Uuid) (body : RangeRequest) (now : ℕ) : Prop :=
  ∃ db', commitTo db (setDeploymentRange s db id body now) = (db', []) ∧
    (∃ row, db'.findDeployment id = some row ∧ row.minReplicas = body.minReplicas ∧
      row.maxReplicas = body.maxReplicas) ∧
    db'.instancesOf id = db.instancesOf id

section Fitting

variable {db : Db} {d : Deployment} {body : RangeRequest} (h : FittingRange db d body)

/-- The live units are some of all units. -/
theorem liveCount_le_unitCount (db : Db) (d : Deployment) :
    liveCount db d ≤ replicaUnitCount d.nodesPerReplica (db.instancesOf d.id) :=
  List.length_filter_le _ _

include h in
theorem FittingRange.brokenUnits_eq_nil : brokenUnits d db = [] := by
  unfold brokenUnits
  rw [List.filter_eq_nil_iff]
  intro u hu hbroken
  obtain ⟨hunit, hlive⟩ := mem_liveUnits.mp hu
  obtain ⟨i, hi, herr⟩ := List.any_eq_true.mp hbroken
  exact h.healthy u hunit hlive i hi (of_decide_eq_true herr)

include h in
/-- Without broken units the live ones are capacity, or in no class. -/
theorem FittingRange.liveCount_classes :
    liveCount db d = (capacityUnits d db).length + ((liveUnits d db).filter Unclassified).length := by
  have hclasses := length_classes (liveUnits d db)
  have hbroken : (liveUnits d db).filter unitBroken = [] := h.brokenUnits_eq_nil
  rw [hbroken, List.length_nil, Nat.add_zero] at hclasses
  exact hclasses

include h in
/-- Every live unit is capacity exactly when none of its ranks has stopped. -/
theorem FittingRange.capacity_eq_iff : (capacityUnits d db).length = liveCount db d ↔
    ∀ u ∈ unitsOf d db, unitLive u = true → ∀ i ∈ u, i.state ≠ .stopped := by
  have hnil : (capacityUnits d db).length = liveCount db d ↔
      (liveUnits d db).filter Unclassified = [] := by
    rw [h.liveCount_classes, ← List.length_eq_zero_iff]
    omega
  rw [hnil, List.filter_eq_nil_iff]
  constructor
  · intro hall u hu hlive
    have hclass := hall u (mem_liveUnits.mpr ⟨hu, hlive⟩)
    rw [Bool.not_eq_true, unclassified_eq_false_iff] at hclass
    rcases hclass with ⟨i, hi, herr⟩ | hno
    · exact absurd herr (h.healthy u hu hlive i hi)
    · exact hno
  · intro hall u hu
    obtain ⟨hunit, hlive⟩ := mem_liveUnits.mp hu
    rw [Bool.not_eq_true, unclassified_eq_false_iff]
    exact Or.inr (hall u hunit hlive)

/-- Every unit is live exactly when the two counts agree. -/
theorem unitCount_eq_iff (db : Db) (d : Deployment) :
    replicaUnitCount d.nodesPerReplica (db.instancesOf d.id) = liveCount db d ↔
      ∀ u ∈ unitsOf d db, unitLive u = true := by
  rw [eq_comm]
  exact List.length_filter_eq_length_iff

include h in
/-- **The count that is asked for**: all units, up to the end of the window. -/
theorem FittingRange.rangeTarget_eq :
    scaleTarget (rangeObj d body) (rangeTarget d (db.instancesOf d.id) body) false =
      min body.maxReplicas (replicaUnitCount d.nodesPerReplica (db.instancesOf d.id)) := by
  have hle := liveCount_le_unitCount db d
  have hlower := h.lower
  have hupper := h.upper
  unfold scaleTarget rangeTarget rangeObj clampReplicas
  simp only [Bool.false_eq_true, if_false]
  omega

/-! ### The request -/

include h in
/-- Writing a window that the schema of the request accepts keeps the constraints. -/
theorem FittingRange.violation_eq_none (now : ℕ) :
    (db.writeDeployment (rangeObj d body) now).violation = none := by
  obtain ⟨hport, hrank, hwindows, hhost, hname, hgpu⟩ := (Db.violation_eq_none_iff db).mp h.valid
  refine (Db.violation_eq_none_iff _).mpr ⟨hport, hrank, ?_, hhost, hname, hgpu⟩
  intro e he
  obtain ⟨row, hrow, rfl⟩ := List.mem_map.mp he
  split
  · rename_i hid
    have hsame : row = d := List.inj_on_of_nodup_map h.deployments hrow
      (List.mem_of_find?_eq_some h.row) hid
    subst hsame
    simp only [flushDeployment, rangeObj, flushColumn_loaded]
    exact body.bounds
  · exact hwindows row hrow

include h in
/-- A call whose capacity is the target leaves the replicas alone. -/
theorem FittingRange.moveReplicas_eq (s : Settings) (now : ℕ) :
    moveReplicas s d (capacityUnits d db).length now db = (db, .ok ()) := by
  have hstop : unitsToStop d db (capacityUnits d db).length = [] := by
    unfold unitsToStop
    rw [Nat.sub_self, List.take_zero]
  unfold moveReplicas
  simp only [lt_irrefl, if_false, h.brokenUnits_eq_nil, hstop, stopUnits_nil]

include h in
/-- A window whose target is the capacity leaves the rows as they were. -/
theorem FittingRange.keepsRows (s : Settings) (now : ℕ)
    (htarget : (capacityUnits d db).length =
      min body.maxReplicas (replicaUnitCount d.nodesPerReplica (db.instancesOf d.id))) :
    KeepsRows s db d.id body now := by
  have hmove := h.moveReplicas_eq s now
  rw [htarget, ← h.rangeTarget_eq] at hmove
  -- nothing is started or stopped, so only the row of the deployment is written
  have hrange : setDeploymentRange s db d.id body now =
      .ok (db.writeDeployment (rangeObj d body) now) := by
    have hobj : (rangeObj d body).loaded = d := rfl
    unfold setDeploymentRange
    simp only [h.row]
    unfold scaleCandidate applyScale
    simp only [hobj, hmove]
    rfl
  refine ⟨db.writeDeployment (rangeObj d body) now, ?_, ?_, rfl⟩
  · rw [hrange]
    simp only [commitTo, h.violation_eq_none]
  · have hrow := findDeployment_writeDeployment_self db (rangeObj d body) now
    change _ = (db.findDeployment d.id).map _ at hrow
    rw [h.row, Option.map_some] at hrow
    refine ⟨_, hrow, ?_, ?_⟩
    · simp only [flushDeployment, rangeObj, flushColumn_loaded]
    · simp only [flushDeployment, rangeObj, flushColumn_loaded]

include h in
/-- A window whose target is above the capacity adds a row, or fails. -/
theorem FittingRange.not_keepsRows (s : Settings) (now : ℕ)
    (htarget : (capacityUnits d db).length <
      min body.maxReplicas (replicaUnitCount d.nodesPerReplica (db.instancesOf d.id))) :
    ¬ KeepsRows s db d.id body now := by
  rintro ⟨db', hcommit, -, hrows'⟩
  -- the request went through
  have hok : setDeploymentRange s db d.id body now = .ok db' := by
    unfold commitTo at hcommit
    split at hcommit
    · cases hcommit
    · rename_i db'' heq
      split at hcommit
      · injection hcommit with hdb
        rw [heq, hdb]
      · cases hcommit
  obtain ⟨d', hd', hcand⟩ := setDeploymentRange_ok hok
  obtain rfl := Option.some.inj (h.row.symm.trans hd')
  obtain ⟨hmove, rfl⟩ := applyScale_ok (scaleCandidate_ok hcand)
  rw [h.rangeTarget_eq] at hmove hrows'
  obtain ⟨rows, hrows, hadd, -, hcard⟩ := moveReplicas_rows s d
    (min body.maxReplicas (replicaUnitCount d.nodesPerReplica (db.instancesOf d.id))) now h.ids
  have hpos := hcard hmove
  have hne : (rows.map (keyOf d.nodesPerReplica)).toFinset.Nonempty := by
    rw [← Finset.card_pos, hpos]
    omega
  obtain ⟨k, hk⟩ := hne
  obtain ⟨r, hr, -⟩ := List.mem_map.mp (List.mem_toFinset.mp hk)
  -- the new row was not there before
  have hmem : r ∈ db.instancesOf d.id := by
    rw [← hrows']
    refine mem_instancesOf.mpr ⟨?_, (hadd r hr).deployment⟩
    change r ∈ (moveReplicas s d _ now db).1.instances
    rw [hrows]
    exact List.mem_append_right _ hr
  exact absurd (hadd r hr).id_fresh (not_le.mpr (Db.id_lt_nextUuid (mem_instancesOf.mp hmem).1))

end Fitting

/-- **A window that fits leaves the rows alone exactly when** no live unit has a stopped rank, and
no unit is left over or the window ends at the count. -/
theorem keepsRows_iff (s : Settings) {db : Db} {d : Deployment} {body : RangeRequest}
    (h : FittingRange db d body) (now : ℕ) :
    KeepsRows s db d.id body now ↔
      (∀ u ∈ unitsOf d db, unitLive u = true → ∀ i ∈ u, i.state ≠ .stopped) ∧
        ((∀ u ∈ unitsOf d db, unitLive u = true) ∨ body.maxReplicas = liveCount db d) := by
  rw [← h.capacity_eq_iff, ← unitCount_eq_iff]
  have hle := liveCount_le_unitCount db d
  have hclasses := h.liveCount_classes
  have hupper := h.upper
  rcases Nat.lt_or_ge (capacityUnits d db).length (min body.maxReplicas
    (replicaUnitCount d.nodesPerReplica (db.instancesOf d.id))) with hlt | hge
  · refine iff_of_false (h.not_keepsRows s now hlt) ?_
    omega
  · refine iff_of_true (h.keepsRows s now (by omega)) ?_
    omega

/-- Workers whose GPU has room for two replicas. -/
def wideEnv : Env := { sampleEnv with gpuList := fun _ => [⟨0, .nvidia, 20⟩] }

/-- The deployment `2` is scaled to two replicas, which come up. -/
def scaledOut : List Step :=
  sampleJoin ++ [sampleDeploy, .scale 2 { replicas := 2, bounds := bounds_two } 1, .sync 1 2,
    .applyNext 1, .applyNext 1, .applyNext 1, .probe 1 3 true, .probe 1 5 true, .sync 1 3,
    .applyNext 1]

/-- It is then scaled in to one, and the other is reported stopped. -/
def scaledIn : List Step :=
  scaledOut ++ [.scale 2 { replicas := 1, bounds := bounds_one } 4, .sync 1 5, .applyNext 1,
    .applyNext 1, .sync 1 6]

/-- A window from one to three replicas. -/
def oneToThree : RangeRequest := { minReplicas := 1, maxReplicas := 3 }

/-- The row of the deployment after both. -/
def scaledDeployment (replicas now : ℕ) : Deployment :=
  { sampleDeployment with
    minReplicas := replicas
    maxReplicas := replicas
    lastScaledAt := some now }

theorem scaledOut_fits :
    FittingRange (exec (World.next wideEnv) sampleWorld scaledOut).db (scaledDeployment 2 1)
      oneToThree where
  ids := by decide +kernel
  deployments := by decide +kernel
  valid := by decide +kernel
  row := by decide +kernel
  healthy := by decide +kernel
  lower := by decide +kernel
  upper := by decide +kernel

theorem scaledIn_fits :
    FittingRange (exec (World.next wideEnv) sampleWorld scaledIn).db (scaledDeployment 1 4)
      oneToThree where
  ids := by decide +kernel
  deployments := by decide +kernel
  valid := by decide +kernel
  row := by decide +kernel
  healthy := by decide +kernel
  lower := by decide +kernel
  upper := by decide +kernel

/-- The window around two replicas leaves them alone. -/
theorem keepsRows_scaledOut :
    KeepsRows {} (exec (World.next wideEnv) sampleWorld scaledOut).db 2 oneToThree 4 :=
  (keepsRows_iff {} scaledOut_fits 4).mpr ⟨by decide +kernel, Or.inl (by decide +kernel)⟩

/-- **A scale-in brings its units back**: the window around the one replica that is left starts
another. -/
theorem scaledIn_range_grows : ¬ ∀ (s : Settings) (db : Db) (d : Deployment) (body : RangeRequest)
    (now : ℕ), FittingRange db d body → KeepsRows s db d.id body now := by
  intro h
  obtain ⟨db', hcommit, -, hrows⟩ := h {} _ _ _ 7 scaledIn_fits
  have hdb := congrArg Prod.fst hcommit
  have hlen : ((commitTo (exec (World.next wideEnv) sampleWorld scaledIn).db (setDeploymentRange {}
      (exec (World.next wideEnv) sampleWorld scaledIn).db 2 oneToThree 7)).1.instancesOf 2).length =
      3 ∧ ((exec (World.next wideEnv) sampleWorld scaledIn).db.instancesOf 2).length = 2 := by
    decide +kernel
  change (commitTo _ (setDeploymentRange {} _ 2 oneToThree 7)).1 = db' at hdb
  change db'.instancesOf 2 = _ at hrows
  rw [hdb, hrows] at hlen
  exact absurd (hlen.1.symm.trans hlen.2) (by decide)

end Inferna
