import Inferna.Lib.UuidText
import Inferna.Lib.Run

/-!
# The replica groups migration

Revision `e8f2a6c41d93` gives every instance a deployment of its own.  Its statements are raw
SQL, so on SQLite the id of a new deployment is stored as the text it is bound as: with dashes.
The ORM binds the same id as 32 digits, and finds nothing.

The cells are texts.  `uuid4` is the sequence of the identifiers that are drawn.

## Main definitions

* `Tables`, `upgrade` — the tables under the revision, and its backfill.
* `bindProcessor`, `resultProcessor`, `getDeployment` — the column type of the ORM on SQLite,
  and `db.get(Deployment, id)`.
* `Reachable` — every instance has a deployment of its own, and the ORM finds it.

## Main results

* `upgrade_eq` — the tables that the backfill leaves.
* `getDeployment_eq_none` — **the ORM finds none of the backfilled deployments**, whatever it
  asks for.
* `reachable_iff` — the deployments are reachable exactly when there was no instance.
-/

namespace Inferna.Phase2

open UuidText

/-! ### The tables -/

/-- A cell as SQLite stores it. -/
abbrev Cell := List Char

/-- A row of `model_instances` before the revision, with the columns it reads. -/
structure OldInstanceRow where
  id : Cell
  modelId : Cell
  clusterId : Cell
  engine : Cell
  profile : Cell
  createdAt : Cell
  deriving DecidableEq, Repr

/-- A row of `model_instances` with the new column. -/
structure InstanceRow extends OldInstanceRow where
  deploymentId : Option Cell
  deriving DecidableEq, Repr

/-- A row of `deployments`. -/
structure DeploymentRow where
  id : Cell
  modelId : Cell
  clusterId : Cell
  engine : Cell
  profile : Cell
  minReplicas : ℕ
  maxReplicas : ℕ
  createdAt : Cell
  deriving DecidableEq, Repr

/-- The two tables under the revision. -/
structure Tables where
  deployments : List DeploymentRow
  instances : List InstanceRow
  deriving DecidableEq, Repr

/-- What stops the revision. -/
inductive MigrationError
  /-- `IntegrityError`: the primary key of `deployments`. -/
  | integrity
  /-- `RuntimeError`: rows that the backfill left without a group. -/
  | orphaned (count : ℕ)
  deriving DecidableEq, Repr

/-! ### The backfill -/

/-- The nullable column. -/
def addDeploymentId (row : OldInstanceRow) : InstanceRow := { row with deploymentId := none }

/-- The row inserted for an instance. -/
def deploymentOf (row : OldInstanceRow) (depId : Cell) : DeploymentRow where
  id := depId
  modelId := row.modelId
  clusterId := row.clusterId
  engine := row.engine
  profile := row.profile
  minReplicas := 1
  maxReplicas := 1
  createdAt := row.createdAt

/-- One round of the loop: the `INSERT` and the `UPDATE`, both with `str(uuid.uuid4())`. -/
def backfillRow (t : Tables) (row : OldInstanceRow) (uuid : Uuid128) :
    Except MigrationError Tables :=
  let depId := dashed uuid
  if depId ∈ t.deployments.map (·.id) then .error .integrity
  else .ok {
    deployments := t.deployments ++ [deploymentOf row depId]
    instances := t.instances.map fun i =>
      if i.id = row.id then { i with deploymentId := some depId } else i }

/-- The rows without a group. -/
def Tables.orphanCount (t : Tables) : ℕ := (t.instances.filter (·.deploymentId = none)).length

/-- `upgrade`, up to the end of the backfill. -/
def upgrade (uuid4 : ℕ → Uuid128) (old : List OldInstanceRow) : Except MigrationError Tables :=
  match old.zipIdx.foldlM (fun t r => backfillRow t r.1 (uuid4 r.2))
      ⟨[], old.map addDeploymentId⟩ with
  | .error e => .error e
  | .ok t => if t.orphanCount ≠ 0 then .error (.orphaned t.orphanCount) else .ok t

/-! ### The ORM -/

/-- What the column type `Uuid` binds on SQLite. -/
def bindProcessor (u : Uuid128) : Cell := hex u

/-- What the column type `Uuid` reads on SQLite. -/
def resultProcessor (c : Cell) : Option Uuid128 := parse c

/-- `db.get(Deployment, id)`. -/
def getDeployment (t : Tables) (u : Uuid128) : Option DeploymentRow :=
  t.deployments.find? (·.id = bindProcessor u)

/-- The instance has a deployment of its own, made from its own columns. -/
def OwnDeployment (t : Tables) (i : InstanceRow) : Prop :=
  ∃ d ∈ t.deployments, i.deploymentId = some d.id ∧ d.minReplicas = 1 ∧ d.maxReplicas = 1 ∧
    d.modelId = i.modelId ∧ d.clusterId = i.clusterId ∧ d.engine = i.engine ∧
    d.profile = i.profile ∧ ∀ j ∈ t.instances, j.deploymentId = i.deploymentId → j = i

/-- `db.get(Deployment, i.deployment_id)` finds the row that the instance refers to. -/
def OrmFinds (t : Tables) (i : InstanceRow) : Prop :=
  ∃ c u d, i.deploymentId = some c ∧ resultProcessor c = some u ∧ getDeployment t u = some d ∧
    d.id = c

/-- The backfill leaves every instance with a deployment of its own, which the ORM finds. -/
def Reachable (uuid4 : ℕ → Uuid128) (old : List OldInstanceRow) : Prop :=
  ∃ t, upgrade uuid4 old = .ok t ∧ t.instances.map (·.toOldInstanceRow) = old ∧
    ∀ i ∈ t.instances, OwnDeployment t i ∧ OrmFinds t i

/-! ### What the backfill leaves -/

theorem dashed_injective {u v : Uuid128} (h : dashed u = dashed v) : u = v :=
  Option.some.inj ((parse_dashed u).symm.trans ((congrArg parse h).trans (parse_dashed v)))

/-- The row of an instance after the backfill. -/
def groupedRow (row : OldInstanceRow) (depId : Cell) : InstanceRow :=
  { row with deploymentId := some depId }

/-- Rows that are not the row of the round are left alone. -/
theorem map_update_of_ne {rows : List InstanceRow} {id : Cell} (h : ∀ i ∈ rows, i.id ≠ id)
    (depId : Cell) :
    rows.map (fun i => if i.id = id then { i with deploymentId := some depId } else i) = rows := by
  conv_rhs => rw [← List.map_id rows]
  refine List.map_congr_left fun i hi => ?_
  rw [if_neg (h i hi)]
  rfl

/-- A round writes the row it is about, and no other. -/
theorem backfillRow_eq {deployments : List DeploymentRow} {done : List InstanceRow}
    {row : OldInstanceRow} {rest : List OldInstanceRow} {uuid : Uuid128}
    (hfresh : dashed uuid ∉ deployments.map (·.id)) (hdone : ∀ i ∈ done, i.id ≠ row.id)
    (hrest : row.id ∉ rest.map (·.id)) :
    backfillRow ⟨deployments, done ++ (row :: rest).map addDeploymentId⟩ row uuid =
      .ok ⟨deployments ++ [deploymentOf row (dashed uuid)],
        (done ++ [groupedRow row (dashed uuid)]) ++ rest.map addDeploymentId⟩ := by
  have hrest' : ∀ i ∈ rest.map addDeploymentId, i.id ≠ row.id := by
    intro i hi heq
    obtain ⟨r, hr, rfl⟩ := List.mem_map.mp hi
    exact hrest (heq ▸ List.mem_map_of_mem hr)
  unfold backfillRow
  simp only [if_neg hfresh, List.map_append, List.map_cons]
  rw [map_update_of_ne hdone, map_update_of_ne hrest', List.append_assoc]
  simp only [addDeploymentId, if_true]
  rfl

/-- The loop from its `k`-th round on: `done` are the rows it has been through. -/
theorem foldlM_backfillRow (uuid4 : ℕ → Uuid128) (rest : List OldInstanceRow) :
    ∀ (k : ℕ) (deployments : List DeploymentRow) (done : List InstanceRow),
      (∀ r ∈ rest, ∀ i ∈ done, i.id ≠ r.id) → (rest.map (·.id)).Nodup →
      (∀ j, k ≤ j → j < k + rest.length → dashed (uuid4 j) ∉ deployments.map (·.id)) →
      (∀ i j, k ≤ i → i < j → j < k + rest.length → uuid4 i ≠ uuid4 j) →
      (rest.zipIdx k).foldlM (fun t r => backfillRow t r.1 (uuid4 r.2))
          ⟨deployments, done ++ rest.map addDeploymentId⟩ =
        .ok ⟨deployments ++ (rest.zipIdx k).map (fun r => deploymentOf r.1 (dashed (uuid4 r.2))),
          done ++ (rest.zipIdx k).map fun r => groupedRow r.1 (dashed (uuid4 r.2))⟩ := by
  -- the rows before are done, and no key that is still to be drawn is taken
  induction rest with
  | nil =>
    intro k deployments done _ _ _ _
    simp only [List.zipIdx_nil, List.foldlM_nil, List.map_nil, List.append_nil]
    rfl
  | cons row rest ih =>
    intro k deployments done hdone hnd hfresh hinj
    rw [List.map_cons, List.nodup_cons] at hnd
    rw [List.length_cons] at hfresh hinj
    have hstep := backfillRow_eq (hfresh k le_rfl (by omega))
      (hdone row List.mem_cons_self) hnd.1
    rw [List.zipIdx_cons, List.foldlM_cons, hstep]
    simp only [bind, Except.bind]
    rw [ih (k + 1) _ _ ?_ hnd.2 ?_ ?_]
    · simp [List.append_assoc]
    · intro r hr i hi
      rcases List.mem_append.mp hi with hi | hi
      · exact hdone r (List.mem_cons_of_mem _ hr) i hi
      · rw [List.mem_singleton] at hi
        subst hi
        exact fun heq => hnd.1 (heq ▸ List.mem_map_of_mem hr)
    · intro j hj hlt hmem
      rw [List.map_append, List.mem_append] at hmem
      rcases hmem with hmem | hmem
      · exact hfresh j (by omega) (by omega) hmem
      · rw [List.map_singleton, List.mem_singleton] at hmem
        exact hinj k j le_rfl (by omega) (by omega) (dashed_injective hmem).symm
    · intro i j hi hij hj
      exact hinj i j (by omega) hij (by omega)

/-- **The tables that the backfill leaves**, if no identifier is drawn twice: one deployment for
each instance, in their order. -/
theorem upgrade_eq {uuid4 : ℕ → Uuid128} {old : List OldInstanceRow}
    (hids : (old.map (·.id)).Nodup)
    (hinj : ∀ i j, i < j → j < old.length → uuid4 i ≠ uuid4 j) :
    upgrade uuid4 old =
      .ok ⟨old.zipIdx.map fun r => deploymentOf r.1 (dashed (uuid4 r.2)),
        old.zipIdx.map fun r => groupedRow r.1 (dashed (uuid4 r.2))⟩ := by
  have hloop := foldlM_backfillRow uuid4 old 0 [] [] (fun _ _ _ h => absurd h List.not_mem_nil)
    hids (fun _ _ _ => List.not_mem_nil)
    (fun i j _ hij hj => hinj i j hij (by rwa [Nat.zero_add] at hj))
  simp only [List.nil_append] at hloop
  unfold upgrade
  rw [hloop]
  -- no instance is left without a deployment, so the check at the end passes
  have hnone : Tables.orphanCount ⟨old.zipIdx.map fun r => deploymentOf r.1 (dashed (uuid4 r.2)),
      old.zipIdx.map fun r => groupedRow r.1 (dashed (uuid4 r.2))⟩ = 0 := by
    unfold Tables.orphanCount
    rw [List.length_eq_zero_iff, List.filter_eq_nil_iff]
    intro i hi hnull
    obtain ⟨r, -, rfl⟩ := List.mem_map.mp hi
    exact Option.some_ne_none _ (of_decide_eq_true hnull)
  simp only [hnone, ne_eq, not_true_eq_false, if_false]

/-- Each instance has a deployment of its own, made from its own columns. -/
theorem ownDeployment_of_upgrade {uuid4 : ℕ → Uuid128} {old : List OldInstanceRow}
    (hids : (old.map (·.id)).Nodup)
    (hinj : ∀ i j, i < j → j < old.length → uuid4 i ≠ uuid4 j) {t : Tables}
    (h : upgrade uuid4 old = .ok t) : ∀ i ∈ t.instances, OwnDeployment t i := by
  rw [upgrade_eq hids hinj] at h
  injection h with h
  subst h
  intro i hi
  obtain ⟨r, hr, rfl⟩ := List.mem_map.mp hi
  refine ⟨deploymentOf r.1 (dashed (uuid4 r.2)), List.mem_map_of_mem hr, rfl, rfl, rfl, rfl, rfl,
    rfl, rfl, ?_⟩
  intro j hj heq
  obtain ⟨q, hq, rfl⟩ := List.mem_map.mp hj
  -- two rows with one deployment were written in one round
  have hsame : uuid4 q.2 = uuid4 r.2 := dashed_injective (Option.some.inj heq)
  obtain ⟨hqlt, hqrow⟩ := List.mem_zipIdx' hq
  obtain ⟨hrlt, hrrow⟩ := List.mem_zipIdx' hr
  have hround : q.2 = r.2 := by
    rcases Nat.lt_trichotomy q.2 r.2 with hlt | heq | hlt
    · exact absurd hsame (hinj _ _ hlt hrlt)
    · exact heq
    · exact absurd hsame.symm (hinj _ _ hlt hqlt)
  simp only [hround] at hqrow
  rw [show q = r from Prod.ext (hqrow.trans hrrow.symm) hround]

/-- Along the loop every deployment has an id with dashes, and no instance is lost. -/
theorem dashed_of_upgrade {uuid4 : ℕ → Uuid128} {old : List OldInstanceRow} {t : Tables}
    (h : upgrade uuid4 old = .ok t) :
    (∀ d ∈ t.deployments, ∃ u, d.id = dashed u) ∧ t.instances.length = old.length := by
  unfold upgrade at h
  cases hloop : old.zipIdx.foldlM (fun t r => backfillRow t r.1 (uuid4 r.2))
      (⟨[], old.map addDeploymentId⟩ : Tables) with
  | error e => rw [hloop] at h; cases h
  | ok t' =>
    rw [hloop] at h
    simp only at h
    split at h
    · cases h
    injection h with h
    subst h
    refine Run.foldlM_invariant (fun _ (t : Tables) =>
      (∀ d ∈ t.deployments, ∃ u, d.id = dashed u) ∧ t.instances.length = old.length) ?_
      _ ⟨fun _ h => absurd h List.not_mem_nil, List.length_map ..⟩ hloop
    intro r _ t t' ht hstep
    unfold backfillRow at hstep
    simp only at hstep
    split at hstep
    · cases hstep
    injection hstep with hstep
    subst hstep
    refine ⟨?_, (List.length_map ..).trans ht.2⟩
    intro d hd
    rcases List.mem_append.mp hd with hd | hd
    · exact ht.1 d hd
    · exact ⟨uuid4 r.2, by rw [List.mem_singleton.mp hd]; rfl⟩

/-! ### What the ORM finds -/

/-- **The ORM finds none of the backfilled deployments**, whatever it asks for. -/
theorem getDeployment_eq_none {uuid4 : ℕ → Uuid128} {old : List OldInstanceRow} {t : Tables}
    (h : upgrade uuid4 old = .ok t) (u : Uuid128) : getDeployment t u = none := by
  refine List.find?_eq_none.mpr fun d hd heq => ?_
  obtain ⟨v, hv⟩ := (dashed_of_upgrade h).1 d hd
  exact dashed_ne_hex v u (hv.symm.trans (of_decide_eq_true heq))

/-- The deployment of an instance would be one that the ORM finds. -/
theorem eq_nil_of_reachable {uuid4 : ℕ → Uuid128} {old : List OldInstanceRow}
    (h : Reachable uuid4 old) : old = [] := by
  obtain ⟨t, hok, -, hall⟩ := h
  obtain ⟨-, hlen⟩ := dashed_of_upgrade hok
  cases hi : t.instances with
  | nil =>
    rw [hi] at hlen
    exact List.length_eq_zero_iff.mp hlen.symm
  | cons i is =>
    obtain ⟨-, -, u, d, -, -, hget, -⟩ := hall i (hi ▸ List.mem_cons_self)
    rw [getDeployment_eq_none hok u] at hget
    cases hget

/-- **The deployments are reachable exactly when there was no instance** to make one for. -/
theorem reachable_iff (uuid4 : ℕ → Uuid128) (old : List OldInstanceRow) :
    Reachable uuid4 old ↔ old = [] := by
  constructor
  · exact eq_nil_of_reachable
  · rintro rfl
    exact ⟨⟨[], []⟩, rfl, rfl, fun _ h => absurd h List.not_mem_nil⟩

/-- One instance, as it was stored before the revision. -/
def oneInstance : OldInstanceRow where
  id := hex 1
  modelId := hex 2
  clusterId := hex 3
  engine := "vllm".toList
  profile := "latency".toList
  createdAt := "2026-08-20 10:00:00".toList

/-- **An upgrade of a database with an instance loses its deployment**: the tables are as they
should be, but the ORM does not find the row. -/
theorem backfilled_deployment_lost :
    ¬ ∀ (uuid4 : ℕ → Uuid128) (old : List OldInstanceRow), (old.map (·.id)).Nodup →
      (∀ i j, i < j → j < old.length → uuid4 i ≠ uuid4 j) → Reachable uuid4 old := by
  intro h
  have hreach := h (fun _ => 7) [oneInstance] (List.nodup_singleton _)
    (fun i j hij hj => absurd hj (by simp; omega))
  exact List.cons_ne_nil _ _ (eq_nil_of_reachable hreach)

end Inferna.Phase2
