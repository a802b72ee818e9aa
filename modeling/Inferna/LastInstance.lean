import Inferna.Instances
import Inferna.ScaleSpec
import Inferna.Moves
import Inferna.Lib.Race

/-!
# The last instance of a deployment

`delete_instance` decides from the rows it has read between deleting one row and deleting
the whole deployment, and takes no lock.  Here it races with `delete_deployment` and
`scale_deployment`, each split into its reads and its commit.  A scale request locks the
row of the deployment and reads the rows again before it computes; a commit that deletes
the deployment waits for that lock.

A commit of `apply_scale` writes the rows that its session has changed since it read them.
A row that has gone meanwhile makes the flush fail.

## Main definitions

* `LockedDb` — the tables, with the lock of the deployment's row.
* `DeploymentRequest`, `DeploymentPhase`, `DeploymentPhase.advance`.
* `Db.NoEmptyDeployment` — every deployment has an instance.
* `RowNotLast` — the row a commit deletes is not the last of its deployment.

## Main results

* `deleteInstance_plan` — undisturbed, read and commit are `delete_instance`.
* `rowNotLast_of_fresh` — the decision is right while what it was taken on is current.
* `no_empty_deployment` — **no deployment is empty exactly while no commit deletes a last row.**
* `both_rows_deleted` — two requests delete the two rows of a deployment.
-/

namespace Inferna

/-! ### Requests -/

/-- The tables, and whether a scale request holds the lock of the deployment's row. -/
structure LockedDb where
  db : Db
  locked : Bool := false

/-- The requests on a deployment. -/
inductive DeploymentRequest
  | deleteInstance (id : Uuid)
  | deleteDeployment
  | scale (body : ScaleRequest) (now : ℕ)

/-- Where a request waits. -/
inductive DeploymentPhase
  /-- For its first read. -/
  | read (req : DeploymentRequest)
  /-- For the commit that deletes one instance. -/
  | dropRow (id : Uuid)
  /-- For the commit that deletes a deployment. -/
  | dropGroup (deploymentId : Uuid)
  /-- `apply_scale`, for the lock. -/
  | lock (obj : DeploymentObj) (body : ScaleRequest) (now : ℕ)
  /-- `apply_scale`, for its commit: the tables it read under the lock, and its session. -/
  | write (obj : DeploymentObj) (body : ScaleRequest) (now : ℕ) (seen scaled : Db)
  | answered (result : Except ServerError Unit)

/-- What `delete_instance` decides from the rows it has read. -/
def deletePlan (db : Db) (id : Uuid) : DeploymentPhase :=
  match db.findInstance id with
  | none => .answered (.error (.http 404 "instance not found"))
  | some i =>
    if (db.findDeployment i.deploymentId).isSome ∧ (db.instancesOf i.deploymentId).length ≤ 1 then
      .dropGroup i.deploymentId
    else .dropRow id

/-- The rows of the session that were changed since they were read. -/
def changedRows (seen scaled : Db) : List Instance :=
  scaled.instances.filter fun r => seen.instances.any fun i => i.id = r.id ∧ i ≠ r

/-- The rows of the session that are new. -/
def insertedRows (seen scaled : Db) : List Instance :=
  scaled.instances.filter fun r => seen.instances.all fun i => i.id ≠ r.id

/-- The columns that `apply_scale` changes, written to a row. -/
def overwrite (row new : Instance) : Instance :=
  { row with
    desiredState := new.desiredState
    generation := new.generation
    errorDetail := new.errorDetail }

/-- The flush of `apply_scale`: `UPDATE`s by id, and `INSERT`s. -/
def flushScale (db : Db) (obj : DeploymentObj) (body : ScaleRequest) (now : ℕ)
    (seen scaled : Db) : Except ServerError Db :=
  if (db.findDeployment obj.loaded.id).isNone ∨
      (changedRows seen scaled).any fun r => (db.findInstance r.id).isNone then
    -- an `UPDATE` that matches no row is a `StaleDataError`
    .error (.http 500 "Internal Server Error")
  else if (insertedRows seen scaled).any fun r => (db.findDeployment r.deploymentId).isNone then
    .error (.http 409 "allocation conflict; retry")
  else
    .ok { db.writeDeployment (pinWindow obj body.replicas true) now with
      instances := (db.instances.map fun i =>
        ((changedRows seen scaled).find? (·.id = i.id)).elim i (overwrite i)) ++
          insertedRows seen scaled
      lastUuid := max db.lastUuid scaled.lastUuid }

/-- A commit of `scale_deployment`. -/
def commitScale (db : Db) : Except ServerError Db → Db × Except ServerError Unit
  | .error e => (db, .error e)
  | .ok db' =>
    match db'.violation with
    | none => (db', .ok ())
    | some _ => (db, .error (.http 409 "allocation conflict; retry"))

/-- One step of a request on the deployment `id`. -/
def DeploymentPhase.advance (s : Settings) (id : Uuid) (t : LockedDb) :
    DeploymentPhase → LockedDb × DeploymentPhase
  | .read (.deleteInstance i) => (t, deletePlan t.db i)
  | .read .deleteDeployment =>
    match t.db.findDeployment id with
    | none => (t, .answered (.error (.http 404 "deployment not found")))
    | some _ => (t, .dropGroup id)
  | .read (.scale body now) =>
    match t.db.findDeployment id with
    | none => (t, .answered (.error (.http 404 "deployment not found")))
    | some d => (t, .lock d.load body now)
  | .dropRow i =>
    ({ t with db := { t.db with instances := t.db.instances.filter (·.id ≠ i) } },
      .answered (.ok ()))
  | .dropGroup d =>
    if t.locked ∧ d = id then (t, .dropGroup d)
    else ({ t with db := t.db.dropDeployment d }, .answered (.ok ()))
  | .lock obj body now =>
    if t.locked then (t, .lock obj body now)
    else if (t.db.findDeployment id).isNone then
      (t, .answered (.error (.http 500 "Internal Server Error")))
    else
      match applyScale s obj body.replicas true now t.db with
      | (_, .error e) => (t, .answered (.error e))
      | (scaled, .ok ()) => ({ t with locked := true }, .write obj body now t.db scaled)
  | .write obj body now seen scaled =>
    let r := commitScale t.db (flushScale t.db obj body now seen scaled)
    (⟨r.1, false⟩, .answered r.2)
  | .answered result => (t, .answered result)

/-- The requests on the deployment `id`. -/
def deploymentRace (s : Settings) (id : Uuid) :
    Race LockedDb DeploymentPhase → RaceEvent DeploymentRequest → Race LockedDb DeploymentPhase :=
  Race.step DeploymentPhase.read (DeploymentPhase.advance s id)

/-- Read and commit of `delete_instance` with nothing in between are `delete_instance`. -/
theorem deleteInstance_plan (s : Settings) (id : Uuid) (db db' : Db) (i : Uuid)
    (h : deleteInstance db i = .ok db') :
    (((deletePlan db i).advance s id ⟨db, false⟩).1).db = db' := by
  unfold deleteInstance at h
  unfold deletePlan
  cases hfind : db.findInstance i with
  | none => rw [hfind] at h; cases h
  | some row =>
    rw [hfind] at h
    simp only at h ⊢
    split_ifs at h ⊢
    · exact Except.ok.inj h
    · exact Except.ok.inj h

/-! ### Deployments without an instance -/

/-- Every deployment has an instance. -/
def Db.NoEmptyDeployment (db : Db) : Prop :=
  ∀ d ∈ db.deployments, ∃ i ∈ db.instances, i.deploymentId = d.id

instance (db : Db) : Decidable db.NoEmptyDeployment :=
  inferInstanceAs (Decidable (∀ d ∈ db.deployments, ∃ i ∈ db.instances, i.deploymentId = d.id))

/-- The foreign key of an instance on its deployment. -/
def Db.DeploymentsExist (db : Db) : Prop :=
  ∀ i ∈ db.instances, ∃ d ∈ db.deployments, d.id = i.deploymentId

/-- If the request is about to delete a row, another of its deployment is there. -/
def RowNotLast (t : LockedDb) : DeploymentPhase → Prop
  | .dropRow id => ∀ i ∈ t.db.instances, i.id = id →
      ∃ j ∈ t.db.instances, j.id ≠ id ∧ j.deploymentId = i.deploymentId
  | _ => True

instance (t : LockedDb) : ∀ p, Decidable (RowNotLast t p)
  | .dropRow id => inferInstanceAs (Decidable (∀ i ∈ t.db.instances, i.id = id →
      ∃ j ∈ t.db.instances, j.id ≠ id ∧ j.deploymentId = i.deploymentId))
  | .read _ => isTrue trivial
  | .dropGroup _ => isTrue trivial
  | .lock _ _ _ => isTrue trivial
  | .write _ _ _ _ _ => isTrue trivial
  | .answered _ => isTrue trivial

/-- The decision of `delete_instance` is right while the rows it has read are current. -/
theorem rowNotLast_of_fresh {db : Db} (hids : (db.instances.map (·.id)).Nodup)
    (hfk : db.DeploymentsExist) {id : Uuid} (h : deletePlan db id = .dropRow id) (locked : Bool) :
    RowNotLast ⟨db, locked⟩ (.dropRow id) := by
  intro i hi hid
  unfold deletePlan at h
  cases hfind : db.findInstance id with
  | none => rw [hfind] at h; cases h
  | some row =>
    have hrow : row ∈ db.instances := List.mem_of_find?_eq_some hfind
    have hrowid : row.id = id := by simpa using List.find?_some hfind
    obtain rfl : row = i := List.inj_on_of_nodup_map hids hrow hi (hrowid.trans hid.symm)
    rw [hfind] at h
    simp only at h
    split_ifs at h with hlast
    obtain ⟨d, hd, hdi⟩ := hfk row hrow
    have hsome : (db.findDeployment row.deploymentId).isSome = true := by
      rw [Db.findDeployment, List.find?_isSome]
      exact ⟨d, hd, by simpa using hdi⟩
    have hlen : 1 < (db.instancesOf row.deploymentId).length :=
      Nat.lt_of_not_le fun hle => hlast ⟨hsome, hle⟩
    -- two rows of the deployment cannot both be the row of the request
    obtain ⟨j, hj, hne⟩ : ∃ j ∈ db.instancesOf row.deploymentId, j ≠ row := by
      by_contra hall
      push Not at hall
      have hnd := List.Nodup.of_map _ (nodup_instancesOf hids row.deploymentId)
      have hrep := List.eq_replicate_of_mem hall
      rw [hrep] at hnd
      have := List.nodup_replicate.mp hnd
      omega
    rw [mem_instancesOf] at hj
    refine ⟨j, hj.1, ?_, hj.2⟩
    intro hjid
    exact hne (List.inj_on_of_nodup_map hids hj.1 hrow (hjid.trans hrowid.symm))

/-- Deleting a deployment empties no other. -/
theorem noEmptyDeployment_dropDeployment {db : Db} (h : db.NoEmptyDeployment) (id : Uuid) :
    (db.dropDeployment id).NoEmptyDeployment := by
  intro d hd
  obtain ⟨hd, hne⟩ := List.mem_filter.mp hd
  obtain ⟨i, hi, heq⟩ := h d hd
  exact ⟨i, List.mem_filter.mpr ⟨hi, by simpa [heq] using hne⟩, heq⟩

theorem deploymentsExist_dropDeployment {db : Db} (h : db.DeploymentsExist) (id : Uuid) :
    (db.dropDeployment id).DeploymentsExist := by
  intro i hi
  obtain ⟨hi, hne⟩ := List.mem_filter.mp hi
  obtain ⟨d, hd, heq⟩ := h i hi
  exact ⟨d, List.mem_filter.mpr ⟨hd, by simpa [heq] using hne⟩, heq⟩

/-- **A commit that deletes a row keeps the property exactly if the row is not the last.** -/
theorem noEmptyDeployment_dropRow_iff {db : Db} (h : db.NoEmptyDeployment)
    (hfk : db.DeploymentsExist) (id : Uuid) (locked : Bool) :
    Db.NoEmptyDeployment { db with instances := db.instances.filter (·.id ≠ id) } ↔
      RowNotLast ⟨db, locked⟩ (.dropRow id) := by
  constructor
  · intro hafter i hi _
    obtain ⟨d, hd, hdi⟩ := hfk i hi
    obtain ⟨j, hj, hjd⟩ := hafter d hd
    obtain ⟨hj, hne⟩ := List.mem_filter.mp hj
    exact ⟨j, hj, by simpa using hne, hjd.trans hdi⟩
  · intro hsafe d hd
    obtain ⟨i, hi, hid⟩ := h d hd
    by_cases hrow : i.id = id
    · obtain ⟨j, hj, hne, hjd⟩ := hsafe i hi hrow
      exact ⟨j, List.mem_filter.mpr ⟨hj, by simpa using hne⟩, hjd.trans hid⟩
    · exact ⟨i, List.mem_filter.mpr ⟨hi, by simpa using hrow⟩, hid⟩

/-- A flush deletes no row, and gives new ones to deployments that exist. -/
theorem flushScale_ok {db db' seen scaled : Db} {obj : DeploymentObj} {body : ScaleRequest}
    {now : ℕ} (h : flushScale db obj body now seen scaled = .ok db') :
    (db.NoEmptyDeployment → db'.NoEmptyDeployment) ∧
      (db.DeploymentsExist → db'.DeploymentsExist) := by
  unfold flushScale at h
  split_ifs at h with hstale hmissing
  injection h with h
  subst h
  have hwritten : ∀ d ∈ (db.writeDeployment (pinWindow obj body.replicas true) now).deployments,
      ∃ e ∈ db.deployments, e.id = d.id := by
    intro d hd
    have hmem := List.mem_map_of_mem (f := Deployment.id) hd
    rw [ids_writeDeployment, List.mem_map] at hmem
    exact hmem
  have hkept : ∀ e ∈ db.deployments,
      ∃ d ∈ (db.writeDeployment (pinWindow obj body.replicas true) now).deployments,
        d.id = e.id := by
    intro e he
    have hmem := List.mem_map_of_mem (f := Deployment.id) he
    rw [← ids_writeDeployment db (pinWindow obj body.replicas true) now, List.mem_map] at hmem
    exact hmem
  have hrow : ∀ i : Instance,
      (((changedRows seen scaled).find? (·.id = i.id)).elim i (overwrite i)).deploymentId =
        i.deploymentId := by
    intro i
    cases (changedRows seen scaled).find? (·.id = i.id) <;> rfl
  constructor
  · intro hP d hd
    obtain ⟨e, he, hed⟩ := hwritten d hd
    obtain ⟨i, hi, hid⟩ := hP e he
    exact ⟨_, List.mem_append_left _ (List.mem_map_of_mem hi), (hrow i).trans (hid.trans hed)⟩
  · intro hfk i hi
    rcases List.mem_append.mp hi with hi | hi
    · obtain ⟨j, hj, rfl⟩ := List.mem_map.mp hi
      obtain ⟨e, he, hej⟩ := hfk j hj
      obtain ⟨d, hd, hde⟩ := hkept e he
      exact ⟨d, hd, by rw [hrow, hde, hej]⟩
    · have hfound : (db.findDeployment i.deploymentId).isSome = true := by
        rw [Bool.not_eq_true, List.any_eq_false] at hmissing
        simpa [Option.isSome_iff_ne_none] using hmissing i hi
      rw [Db.findDeployment, List.find?_isSome] at hfound
      obtain ⟨e, he, hei⟩ := hfound
      obtain ⟨d, hd, hde⟩ := hkept e he
      exact ⟨d, hd, hde.trans (by simpa using hei)⟩

/-- What a commit leaves is what was there, or what the flush has made. -/
theorem commitScale_cases (db : Db) (c : Except ServerError Db) :
    (commitScale db c).1 = db ∨ c = .ok (commitScale db c).1 := by
  cases c with
  | error e => exact Or.inl rfl
  | ok db' =>
    unfold commitScale
    simp only
    split
    · exact Or.inr rfl
    · exact Or.inl rfl

/-- A step that does not delete a single row keeps both properties. -/
theorem advance_keeps (s : Settings) (id : Uuid) (t : LockedDb) (p : DeploymentPhase)
    (hp : ∀ i, p ≠ .dropRow i) :
    (t.db.NoEmptyDeployment → (p.advance s id t).1.db.NoEmptyDeployment) ∧
      (t.db.DeploymentsExist → (p.advance s id t).1.db.DeploymentsExist) := by
  cases p with
  | read req =>
    have hsame : ((DeploymentPhase.read req).advance s id t).1 = t := by
      unfold DeploymentPhase.advance
      cases req with
      | deleteInstance i => rfl
      | deleteDeployment => simp only; split <;> rfl
      | scale body now => simp only; split <;> rfl
    rw [hsame]
    exact ⟨fun h => h, fun h => h⟩
  | dropRow i => exact absurd rfl (hp i)
  | dropGroup d =>
    unfold DeploymentPhase.advance
    simp only
    split
    · exact ⟨fun h => h, fun h => h⟩
    · exact ⟨fun h => noEmptyDeployment_dropDeployment h d,
        fun h => deploymentsExist_dropDeployment h d⟩
  | lock obj body now =>
    have hsame : ((DeploymentPhase.lock obj body now).advance s id t).1.db = t.db := by
      unfold DeploymentPhase.advance
      simp only
      split
      · rfl
      · split
        · rfl
        · split <;> rfl
    rw [hsame]
    exact ⟨fun h => h, fun h => h⟩
  | write obj body now seen scaled =>
    unfold DeploymentPhase.advance
    simp only
    rcases commitScale_cases t.db (flushScale t.db obj body now seen scaled) with hsame | hok
    · rw [hsame]
      exact ⟨fun h => h, fun h => h⟩
    · exact flushScale_ok hok
  | answered result => exact ⟨fun h => h, fun h => h⟩

/-- **In every interleaving of requests on a deployment no deployment is empty in a
committed state exactly while no commit deletes the last row of a deployment.** -/
theorem no_empty_deployment (s : Settings) (id : Uuid) (db : Db) (h : db.NoEmptyDeployment)
    (hfk : db.DeploymentsExist) (es : List (RaceEvent DeploymentRequest)) :
    Run.Always (deploymentRace s id) (fun c => c.shared.db.NoEmptyDeployment) ⟨⟨db, false⟩, []⟩ es ↔
      Run.Conforms (deploymentRace s id) (Race.AtAdvance RowNotLast) ⟨⟨db, false⟩, []⟩ es := by
  refine Race.always_iff (P := fun t : LockedDb => t.db.NoEmptyDeployment)
    (fun t => t.db.DeploymentsExist) ?_ ?_ hfk h es
  · intro t p hfk _ _
    by_cases hp : ∃ i, p = .dropRow i
    · obtain ⟨i, rfl⟩ := hp
      intro j hj
      exact hfk j (List.mem_of_mem_filter hj)
    · exact (advance_keeps s id t p fun i hi => hp ⟨i, hi⟩).2 hfk
  · intro t p hfk hP
    by_cases hp : ∃ i, p = .dropRow i
    · obtain ⟨i, rfl⟩ := hp
      exact noEmptyDeployment_dropRow_iff hP hfk i t.locked
    · have hp' : ∀ i, p ≠ .dropRow i := fun i hi => hp ⟨i, hi⟩
      refine iff_of_true ((advance_keeps s id t p hp').1 hP) ?_
      cases p with
      | dropRow i => exact absurd rfl (hp' i)
      | read _ => trivial
      | dropGroup _ => trivial
      | lock _ _ _ => trivial
      | write _ _ _ _ _ => trivial
      | answered _ => trivial

/-! ### Two rows -/

/-- A row of the deployment `1`. -/
def pairRow (id : Uuid) : Instance where
  id := id
  modelId := 1
  clusterId := 1
  workerId := none
  deploymentId := 1
  engine := .vllm
  profile := .latency
  gpuIndexes := [0]

/-- A deployment with two instances. -/
def pairDb : Db where
  deployments := [{ id := 1, modelId := 1, clusterId := 1, engine := .vllm, profile := .latency,
                    minReplicas := 2, maxReplicas := 2 }]
  instances := [pairRow 2, pairRow 3]

/-- One request after the other: the second takes the deployment along. -/
def orderlyDeletes : List (RaceEvent DeploymentRequest) :=
  [.arrive (.deleteInstance 2), .advance 0, .advance 0, .arrive (.deleteInstance 3), .advance 1,
    .advance 1]

theorem no_empty_deployment_orderly :
    Run.Always (deploymentRace {} 1) (fun c => c.shared.db.NoEmptyDeployment) ⟨⟨pairDb, false⟩, []⟩
      orderlyDeletes :=
  (no_empty_deployment {} 1 pairDb (by decide) (by unfold Db.DeploymentsExist; decide)
    orderlyDeletes).mpr (by decide +kernel)

/-- **Two requests delete the two rows of a deployment**: each has read two rows. -/
theorem both_rows_deleted :
    ¬ ∀ es, Run.Always (deploymentRace {} 1) (fun c => c.shared.db.NoEmptyDeployment)
      ⟨⟨pairDb, false⟩, []⟩ es := by
  intro h
  have hend : Db.NoEmptyDeployment _ := h [.arrive (.deleteInstance 2), .arrive (.deleteInstance 3),
    .advance 0, .advance 1, .advance 0, .advance 1] _ (List.prefix_refl _)
  revert hend
  decide +kernel

end Inferna
