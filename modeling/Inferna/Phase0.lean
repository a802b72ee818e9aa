import Inferna.Models
import Inferna.Lib.Run

/-!
# The production-readiness migration

Revision `d88ae166a92a` makes three columns sets unique that were not: the host names and the
names of a cluster's workers, and the ports of a worker's active instances.  Before it can, it
merges workers that share a host name, then workers that share a name, and at last frees the
ports that several active instances of one worker hold.

The statements are raw SQL on columns that no check constrains yet, so the states are texts and
the times are what `str` makes of them.  A `SELECT` without `ORDER BY` gives its rows in any
order: `RowOrder` is the database's choice.

## Main definitions

* `OldTables`, `Tables` — the two tables before and after the columns are added.
* `mergeDup`, `dedupGroup`, `dedupWorkers` — the merge of duplicate workers, for either column.
* `freePorts` — the pass over the ports that are held twice.
* `upgrade` — the revision up to its unique indexes, which fail on a duplicate entry.

## Main results

* `dedupWorkers_spec` — after a merge the column is unique, and every instance has moved along
  with its worker.
* `holders_freePorts` — after the pass a port of a worker has one active holder at most.
* `upgrade_reaches_constraints` — **the revision succeeds on every content.**
-/

namespace Inferna.Phase0

/-! ### The tables -/

/-- A row of `workers`, with the columns the revision reads. -/
structure WorkerRow where
  id : Uuid
  clusterId : Uuid
  name : String
  hostname : String
  lastSeenAt : Option String
  createdAt : String
  deriving DecidableEq, Repr

/-- A row of `model_instances` before the revision. -/
structure OldInstanceRow where
  id : Uuid
  workerId : Option Uuid
  state : String
  port : Option ℕ
  errorDetail : Option String
  createdAt : String
  deriving DecidableEq, Repr

/-- A row of `model_instances` with `desired_state`. -/
structure InstanceRow extends OldInstanceRow where
  desiredState : String
  deriving DecidableEq, Repr

/-- The tables before the revision. -/
structure OldTables where
  workers : List WorkerRow
  instances : List OldInstanceRow

/-- The tables under the revision. -/
structure Tables where
  workers : List WorkerRow
  instances : List InstanceRow
  deriving DecidableEq, Repr

/-- What the schema promises: two primary keys, and the foreign key to `workers`. -/
structure OldTables.WellFormed (old : OldTables) : Prop where
  workers : (old.workers.map (·.id)).Nodup
  instances : (old.instances.map (·.id)).Nodup
  homes : ∀ i ∈ old.instances, ∀ w, i.workerId = some w → w ∈ old.workers.map (·.id)

/-- The order in which the database gives the rows of a `SELECT` that asks for none. -/
structure RowOrder where
  arrange : ∀ {α : Type}, List α → List α
  perm : ∀ {α : Type} (rows : List α), (arrange rows).Perm rows

/-- What stops the revision. -/
inductive MigrationError
  /-- `rows[0]` of an empty list. -/
  | indexError
  /-- `RuntimeError`: instances whose worker is gone. -/
  | orphaned (count : ℕ)
  /-- A unique index meets an entry twice. -/
  | duplicate (index : String)
  deriving DecidableEq, Repr

/-! ### The new columns -/

/-- `desired_state`: the server default, and the `UPDATE` for stopped rows. -/
def addDesiredState (i : OldInstanceRow) : InstanceRow :=
  { i with desiredState := if i.state = "stopped" then "stopped" else "running" }

/-- The tables with the new columns. -/
def OldTables.addColumns (old : OldTables) : Tables :=
  ⟨old.workers, old.instances.map addDesiredState⟩

/-- The predicate of the partial index. -/
def InstanceRow.active (i : InstanceRow) : Bool :=
  i.desiredState = "running" || i.state ∈ ["scheduled", "starting", "running"]

/-- The port an active row holds, with the worker it holds it on: its entry in the partial
index.  A missing worker or port is no entry. -/
def InstanceRow.slot (i : InstanceRow) : Option (Uuid × ℕ) :=
  if i.active then i.workerId.bind fun w => i.port.map fun p => (w, p) else none

/-! ### Merging duplicate workers -/

/-- The first component of `sort_key`. -/
def WorkerRow.primary (w : WorkerRow) : String :=
  if w.lastSeenAt.getD "" = "" then w.createdAt else w.lastSeenAt.getD ""

/-- `sort_key`, reversed: the worker seen last comes first. -/
def newestFirst (v w : WorkerRow) : Prop :=
  w.primary < v.primary ∨ (v.primary = w.primary ∧
    (w.createdAt < v.createdAt ∨ (v.createdAt = w.createdAt ∧ w.id ≤ v.id)))

instance : DecidableRel newestFirst := fun _ _ => inferInstanceAs (Decidable (_ ∨ _))

/-- Take the port from a row, and mark the row as failed. -/
def InstanceRow.dropPort (i : InstanceRow) (detail : String) : InstanceRow :=
  { i with port := none, state := "error", errorDetail := some detail, desiredState := "stopped" }

/-- `UPDATE model_instances SET port = NULL, … WHERE id = :iid`. -/
def Tables.dropPort (detail : String) (t : Tables) (id : Uuid) : Tables :=
  { t with instances := t.instances.map fun i => if i.id = id then i.dropPort detail else i }

/-- An active row of the kept worker holds the port. -/
def Tables.colliding (t : Tables) (kept : Uuid) (port : ℕ) : Bool :=
  t.instances.any fun i => i.slot = some (kept, port)

/-- The active rows of a worker that hold a port. -/
def Tables.activePorts (o : RowOrder) (t : Tables) (worker : Uuid) : List (Uuid × ℕ) :=
  o.arrange (t.instances.filterMap fun i =>
    i.slot.bind fun s => if s.1 = worker then some (i.id, s.2) else none)

/-- Take the port from a row of the duplicate if the kept worker has it in use. -/
def dropColliding (kept : Uuid) (t : Tables) (inst : Uuid × ℕ) : Tables :=
  if t.colliding kept inst.2 then t.dropPort "worker dedup port collision" inst.1 else t

/-- Hand the instances of one duplicate over to the kept worker, and delete it. -/
def mergeDup (o : RowOrder) (kept : Uuid) (t : Tables) (dup : WorkerRow) : Tables :=
  let t := (t.activePorts o dup.id).foldl (dropColliding kept) t
  { workers := t.workers.filter (·.id ≠ dup.id)
    instances := t.instances.map fun i =>
      if i.workerId = some dup.id then { i with workerId := some kept } else i }

/-- The workers of one group: all but the newest are merged into it. -/
def dedupGroup (o : RowOrder) (column : WorkerRow → String) (t : Tables)
    (group : Uuid × String) : Except MigrationError Tables :=
  let rows := o.arrange (t.workers.filter fun w => (w.clusterId, column w) = group)
  match rows.insertionSort newestFirst with
  | [] => .error .indexError
  | kept :: dups => .ok (dups.foldl (mergeDup o kept.id) t)

/-- `GROUP BY … HAVING COUNT(*) > 1`. -/
def duplicated {κ : Type} [DecidableEq κ] (o : RowOrder) (keys : List κ) : List κ :=
  o.arrange (keys.dedup.filter fun k => 1 < keys.countP (· = k))

/-- The entries of a unique index on the cluster and a column. -/
def Tables.columnKeys (t : Tables) (column : WorkerRow → String) : List (Uuid × String) :=
  t.workers.map fun w => (w.clusterId, column w)

/-- Deduplicate `(cluster_id, column)`. -/
def dedupWorkers (o : RowOrder) (column : WorkerRow → String) (t : Tables) :
    Except MigrationError Tables :=
  (duplicated o (t.columnKeys column)).foldlM (dedupGroup o column) t

/-! ### Freeing ports -/

/-- The instances without their worker. -/
def Tables.orphanCount (t : Tables) : ℕ :=
  (t.instances.filter fun i => i.workerId.any (· ∉ t.workers.map (·.id))).length

/-- `ORDER BY created_at ASC, id ASC`. -/
def oldestFirst (i j : InstanceRow) : Prop :=
  i.createdAt < j.createdAt ∨ (i.createdAt = j.createdAt ∧ i.id ≤ j.id)

instance : DecidableRel oldestFirst := fun _ _ => inferInstanceAs (Decidable (_ ∨ _))

/-- The active rows that hold a port on a worker. -/
def Tables.holders (t : Tables) (slot : Uuid × ℕ) : List InstanceRow :=
  t.instances.filter fun i => i.slot = some slot

/-- All holders of a port but the earliest lose it. -/
def freePort (t : Tables) (slot : Uuid × ℕ) : Tables :=
  (((t.holders slot).insertionSort oldestFirst).tail.map (·.id)).foldl
    (Tables.dropPort "dedup duplicate port") t

/-- The entries of the partial index on the ports. -/
def Tables.slots (t : Tables) : List (Uuid × ℕ) := t.instances.filterMap (·.slot)

/-- The global pass.  Rows without a worker are grouped too, but `worker_id = NULL` selects
none of them. -/
def freePorts (o : RowOrder) (t : Tables) : Tables := (duplicated o t.slots).foldl freePort t

/-! ### The revision -/

/-- A unique index can be created when no entry comes twice. -/
def createUnique {κ : Type} [DecidableEq κ] (index : String) (entries : List κ) :
    Except MigrationError Unit :=
  if entries.Nodup then .ok () else .error (.duplicate index)

/-- `upgrade`, up to the three unique indexes. -/
def upgrade (o : RowOrder) (old : OldTables) : Except MigrationError Tables := do
  let t ← dedupWorkers o (·.hostname) old.addColumns
  let t ← dedupWorkers o (·.name) t
  if t.orphanCount ≠ 0 then throw (.orphaned t.orphanCount)
  let t := freePorts o t
  createUnique "uq_model_instances_worker_port_active" t.slots
  createUnique "uq_workers_cluster_hostname" (t.columnKeys (·.hostname))
  createUnique "uq_workers_cluster_name" (t.columnKeys (·.name))
  return t

/-! ### What a merge keeps -/

/-- What the schema promises of the tables under the revision. -/
structure Tables.WellFormed (t : Tables) : Prop where
  workers : (t.workers.map (·.id)).Nodup
  instances : (t.instances.map (·.id)).Nodup
  homes : ∀ i ∈ t.instances, ∀ w, i.workerId = some w → w ∈ t.workers.map (·.id)

/-- From `t` to `t'` no instance is lost, and each has moved to a worker of its cluster. -/
structure Carried (t t' : Tables) : Prop where
  ids : t'.instances.map (·.id) = t.instances.map (·.id)
  workers : t'.workers.Sublist t.workers
  homes : ∀ i' ∈ t'.instances, ∃ i ∈ t.instances, i.id = i'.id ∧
    ((i.workerId = none ∧ i'.workerId = none) ∨ ∃ w ∈ t.workers, i.workerId = some w.id ∧
      ∃ w' ∈ t'.workers, i'.workerId = some w'.id ∧ w'.clusterId = w.clusterId)

theorem Carried.refl {t : Tables} (h : t.WellFormed) : Carried t t where
  ids := rfl
  workers := List.Sublist.refl _
  homes := by
    intro i hi
    refine ⟨i, hi, rfl, ?_⟩
    cases hw : i.workerId with
    | none => exact Or.inl ⟨rfl, rfl⟩
    | some id =>
      obtain ⟨w, hmem, rfl⟩ := List.mem_map.mp (h.homes i hi id hw)
      exact Or.inr ⟨w, hmem, rfl, w, hmem, rfl, rfl⟩

theorem Carried.trans {t₁ t₂ t₃ : Tables} (h : t₁.WellFormed) (h₁ : Carried t₁ t₂)
    (h₂ : Carried t₂ t₃) : Carried t₁ t₃ where
  ids := h₂.ids.trans h₁.ids
  workers := h₂.workers.trans h₁.workers
  homes := by
    intro i₃ hi₃
    obtain ⟨i₂, hi₂, hid₂, hw₂⟩ := h₂.homes i₃ hi₃
    obtain ⟨i₁, hi₁, hid₁, hw₁⟩ := h₁.homes i₂ hi₂
    refine ⟨i₁, hi₁, hid₁.trans hid₂, ?_⟩
    rcases hw₁ with ⟨hn₁, hn₂⟩ | ⟨v, hv, hv₁, v', hv', hv₂, hc₁⟩
    · rcases hw₂ with ⟨-, hn₃⟩ | ⟨w, -, hw, -⟩
      · -- no worker in the first step and none in the second
        exact Or.inl ⟨hn₁, hn₃⟩
      · rw [hn₂] at hw
        cases hw
    · rcases hw₂ with ⟨hn, -⟩ | ⟨w, hw, hw₁, w', hw', hw₂, hc₂⟩
      · rw [hn] at hv₂
        cases hv₂
      · -- the two steps name the worker between them by one id
        have hid : w.id = v'.id := Option.some.inj (hw₁.symm.trans hv₂)
        have hsame : w = v' :=
          List.inj_on_of_nodup_map h.workers (h₁.workers.subset hw) (h₁.workers.subset hv') hid
        exact Or.inr ⟨v, hv, hv₁, w', hw', hw₂, hc₂.trans (hsame ▸ hc₁)⟩

/-- Along a step that keeps the instances at home, the tables stay well formed. -/
theorem Carried.wellFormed {t t' : Tables} (h : t.WellFormed) (hc : Carried t t') :
    t'.WellFormed where
  workers := (hc.workers.map _).nodup h.workers
  instances := hc.ids ▸ h.instances
  homes := by
    intro i hi w hw
    obtain ⟨-, -, -, ⟨-, hn⟩ | ⟨-, -, -, w', hw', heq, -⟩⟩ := hc.homes i hi
    · rw [hn] at hw
      cases hw
    · rw [hw] at heq
      exact Option.some.inj heq ▸ List.mem_map_of_mem hw'

/-- Taking a port away moves nothing. -/
theorem dropPort_homes (detail : String) (t : Tables) (id : Uuid) :
    (t.dropPort detail id).workers = t.workers ∧
      (t.dropPort detail id).instances.map (fun i => (i.id, i.workerId)) =
        t.instances.map fun i => (i.id, i.workerId) := by
  refine ⟨rfl, ?_⟩
  unfold Tables.dropPort
  rw [List.map_map]
  refine List.map_congr_left fun i _ => ?_
  simp only [Function.comp_apply]
  split <;> rfl

/-- A loop whose steps move nothing moves nothing. -/
theorem foldl_homes {α : Type} {step : Tables → α → Tables}
    (hstep : ∀ t a, (step t a).workers = t.workers ∧
      (step t a).instances.map (fun i => (i.id, i.workerId)) =
        t.instances.map fun i => (i.id, i.workerId)) :
    ∀ (as : List α) (t : Tables), (as.foldl step t).workers = t.workers ∧
      (as.foldl step t).instances.map (fun i => (i.id, i.workerId)) =
        t.instances.map fun i => (i.id, i.workerId) := by
  intro as
  induction as with
  | nil => exact fun t => ⟨rfl, rfl⟩
  | cons a as ih =>
    intro t
    obtain ⟨hw, hi⟩ := ih (step t a)
    exact ⟨hw.trans (hstep t a).1, hi.trans (hstep t a).2⟩

theorem dropColliding_homes (kept : Uuid) (t : Tables) (inst : Uuid × ℕ) :
    (dropColliding kept t inst).workers = t.workers ∧
      (dropColliding kept t inst).instances.map (fun i => (i.id, i.workerId)) =
        t.instances.map fun i => (i.id, i.workerId) := by
  unfold dropColliding
  split
  · exact dropPort_homes _ t _
  · exact ⟨rfl, rfl⟩

/-- Tables that differ in ports and states only. -/
theorem Carried.of_homes {t t' : Tables} (h : t.WellFormed) (hw : t'.workers = t.workers)
    (hi : t'.instances.map (fun i => (i.id, i.workerId)) =
      t.instances.map fun i => (i.id, i.workerId)) : Carried t t' where
  ids := by
    have := congrArg (List.map Prod.fst) hi
    rwa [List.map_map, List.map_map] at this
  workers := hw ▸ List.Sublist.refl _
  homes := by
    intro i' hi'
    have hmem : (i'.id, i'.workerId) ∈ t.instances.map fun i => (i.id, i.workerId) :=
      hi ▸ List.mem_map_of_mem hi'
    obtain ⟨i, hmem, heq⟩ := List.mem_map.mp hmem
    injection heq with hid hhome
    obtain ⟨j, hj, hjid, hcases⟩ := (Carried.refl h).homes i hmem
    have hsame : j = i := List.inj_on_of_nodup_map h.instances hj hmem hjid
    subst hsame
    refine ⟨j, hj, hid, ?_⟩
    rw [← hhome, hw]
    exact hcases

/-- The rows of a duplicate move to the kept worker, which is of the same cluster. -/
theorem carried_mergeDup (o : RowOrder) {t : Tables} (h : t.WellFormed) {kept dup : WorkerRow}
    (hkept : kept ∈ t.workers) (hne : kept.id ≠ dup.id) (hcluster : kept.clusterId = dup.clusterId)
    (hdup : dup ∈ t.workers) : Carried t (mergeDup o kept.id t dup) := by
  -- first the ports that collide are taken away, then the rows move
  set t₁ := (t.activePorts o dup.id).foldl (dropColliding kept.id) t with ht₁
  obtain ⟨hw₁, hi₁⟩ := foldl_homes (dropColliding_homes kept.id) (t.activePorts o dup.id) t
  rw [← ht₁] at hw₁ hi₁
  have hc₁ : Carried t t₁ := Carried.of_homes h hw₁ hi₁
  refine hc₁.trans h ⟨?_, ?_, ?_⟩
  · change (t₁.instances.map _).map _ = _
    rw [List.map_map]
    refine List.map_congr_left fun i _ => ?_
    simp only [Function.comp_apply]
    split <;> rfl
  · exact List.filter_sublist
  · intro i' hi'
    obtain ⟨i, hi, rfl⟩ := List.mem_map.mp hi'
    have hmerged : (mergeDup o kept.id t dup).workers = t₁.workers.filter (·.id ≠ dup.id) := rfl
    rw [hmerged]
    split
    · rename_i hon
      refine ⟨i, hi, rfl, Or.inr ⟨dup, hw₁ ▸ hdup, hon, kept, ?_, rfl, hcluster⟩⟩
      rw [List.mem_filter, decide_eq_true_eq, hw₁]
      exact ⟨hkept, hne⟩
    · rename_i hoff
      obtain ⟨j, hj, hjid, hcases⟩ := (Carried.refl (hc₁.wellFormed h)).homes i hi
      refine ⟨i, hi, rfl, ?_⟩
      have hsame : j = i := List.inj_on_of_nodup_map (hc₁.wellFormed h).instances hj hi hjid
      subst hsame
      rcases hcases with hn | ⟨w, hw, hjw, -⟩
      · exact Or.inl hn
      · refine Or.inr ⟨w, hw, hjw, w, ?_, hjw, rfl⟩
        rw [List.mem_filter, decide_eq_true_eq]
        exact ⟨hw, fun heq => hoff (heq ▸ hjw)⟩

theorem workers_mergeDup (o : RowOrder) (kept : Uuid) (t : Tables) (dup : WorkerRow) :
    (mergeDup o kept t dup).workers = t.workers.filter (·.id ≠ dup.id) := by
  unfold mergeDup
  simp only [(foldl_homes (dropColliding_homes kept) (t.activePorts o dup.id) t).1]

/-- All duplicates of a group are merged, one after the other. -/
theorem carried_mergeDups (o : RowOrder) {kept : WorkerRow} (dups : List WorkerRow) :
    ∀ t : Tables, t.WellFormed → kept ∈ t.workers → (dups.map (·.id)).Nodup →
      (∀ d ∈ dups, d ∈ t.workers ∧ kept.id ≠ d.id ∧ kept.clusterId = d.clusterId) →
      Carried t (dups.foldl (mergeDup o kept.id) t) ∧
        (dups.foldl (mergeDup o kept.id) t).workers =
          t.workers.filter fun w => w.id ∉ dups.map (·.id) := by
  induction dups with
  | nil =>
    intro t h _ _ _
    exact ⟨Carried.refl h, by simp⟩
  | cons dup dups ih =>
    intro t h hkept hnd hdups
    rw [List.map_cons, List.nodup_cons] at hnd
    obtain ⟨hdup, hne, hcluster⟩ := hdups dup List.mem_cons_self
    have hc := carried_mergeDup o h hkept hne hcluster hdup
    -- merging one duplicate removes no other worker
    have hstay : ∀ w ∈ t.workers, w.id ≠ dup.id → w ∈ (mergeDup o kept.id t dup).workers := by
      intro w hw hid
      rw [workers_mergeDup, List.mem_filter, decide_eq_true_eq]
      exact ⟨hw, hid⟩
    obtain ⟨hcarried, hworkers⟩ := ih (mergeDup o kept.id t dup) (hc.wellFormed h)
      (hstay kept hkept hne) hnd.2 (by
        intro d hd
        obtain ⟨hmem, hned, hcl⟩ := hdups d (List.mem_cons_of_mem _ hd)
        exact ⟨hstay d hmem fun heq => hnd.1 (heq ▸ List.mem_map_of_mem hd), hned, hcl⟩)
    refine ⟨hc.trans h hcarried, ?_⟩
    rw [List.foldl_cons, hworkers, workers_mergeDup, List.filter_filter]
    refine List.filter_congr fun w _ => ?_
    rw [← Bool.decide_and]
    refine decide_eq_decide.mpr ?_
    rw [List.map_cons, List.mem_cons, not_or, and_comm]

/-- The size of a group. -/
theorem countP_columnKeys (t : Tables) (column : WorkerRow → String) (k : Uuid × String) :
    (t.columnKeys column).countP (· = k) =
      (t.workers.filter fun w => (w.clusterId, column w) = k).length := by
  unfold Tables.columnKeys
  rw [List.countP_map, List.countP_eq_length_filter]
  rfl

/-- Only the kept worker is left of a group. -/
theorem filter_kept_length_le {column : WorkerRow → String} {t : Tables} (h : t.WellFormed)
    {group : Uuid × String} {kept : WorkerRow} {dups : List WorkerRow}
    (hmem : ∀ w, w ∈ kept :: dups ↔ w ∈ t.workers ∧ (w.clusterId, column w) = group) :
    (t.workers.filter fun w => decide ((w.clusterId, column w) = group) &&
      decide (w.id ∉ dups.map (·.id))).length ≤ 1 := by
  have hsub : (t.workers.filter fun w => decide ((w.clusterId, column w) = group) &&
      decide (w.id ∉ dups.map (·.id))) ⊆ [kept] := by
    intro w hw
    rw [List.mem_filter, Bool.and_eq_true, decide_eq_true_eq, decide_eq_true_eq] at hw
    obtain ⟨hw, hkey, hnot⟩ := hw
    rcases List.mem_cons.mp ((hmem w).mpr ⟨hw, hkey⟩) with rfl | hd
    · exact List.mem_singleton_self _
    · exact absurd (List.mem_map_of_mem hd) hnot
  exact (List.subperm_of_subset (h.workers.of_map.filter _) hsub).length_le

/-- **One group**: one of its workers is left, and the other groups are as they were. -/
theorem dedupGroup_spec (o : RowOrder) (column : WorkerRow → String) {t : Tables}
    (h : t.WellFormed) {group : Uuid × String} (hgroup : group ∈ t.columnKeys column) :
    ∃ t', dedupGroup o column t group = .ok t' ∧ Carried t t' ∧
      (t'.columnKeys column).countP (· = group) ≤ 1 ∧
      ∀ k, k ≠ group → (t'.columnKeys column).countP (· = k) = (t.columnKeys column).countP (· = k) := by
  set rows := (o.arrange (t.workers.filter fun w => (w.clusterId, column w) = group)).insertionSort
    newestFirst with hrows
  have hperm : rows.Perm (t.workers.filter fun w => (w.clusterId, column w) = group) :=
    (List.perm_insertionSort _ _).trans (o.perm _)
  have hmem : ∀ w, w ∈ rows ↔ w ∈ t.workers ∧ (w.clusterId, column w) = group := by
    intro w
    rw [hperm.mem_iff, List.mem_filter, decide_eq_true_eq]
  have hnd : (rows.map (·.id)).Nodup :=
    (hperm.map _).nodup_iff.mpr ((List.filter_sublist.map _).nodup h.workers)
  unfold dedupGroup
  simp only [← hrows]
  cases hcase : rows with
  | nil =>
    -- the group was listed, so it has a row
    obtain ⟨w, hw, hkey⟩ := List.mem_map.mp hgroup
    have hin := (hmem w).mpr ⟨hw, hkey⟩
    rw [hcase] at hin
    exact absurd hin List.not_mem_nil
  | cons kept dups =>
    rw [hcase] at hmem hnd
    rw [List.map_cons, List.nodup_cons] at hnd
    obtain ⟨hkept, hkeptKey⟩ := (hmem kept).mp List.mem_cons_self
    have hdups : ∀ d ∈ dups, d ∈ t.workers ∧ kept.id ≠ d.id ∧ kept.clusterId = d.clusterId := by
      intro d hd
      obtain ⟨hdt, hkey⟩ := (hmem d).mp (List.mem_cons_of_mem _ hd)
      exact ⟨hdt, fun heq => hnd.1 (heq ▸ List.mem_map_of_mem hd),
        congrArg Prod.fst (hkeptKey.trans hkey.symm)⟩
    obtain ⟨hcarried, hworkers⟩ := carried_mergeDups o dups t h hkept hnd.2 hdups
    refine ⟨_, rfl, hcarried, ?_, ?_⟩
    · rw [countP_columnKeys, hworkers, List.filter_filter]
      exact filter_kept_length_le h hmem
    · intro k hk
      rw [countP_columnKeys, countP_columnKeys, hworkers, List.filter_filter]
      congr 1
      refine List.filter_congr fun w hw => ?_
      by_cases hkey : (w.clusterId, column w) = k
      · have hnot : w.id ∉ dups.map (·.id) := by
          intro hin
          obtain ⟨d, hd, hid⟩ := List.mem_map.mp hin
          have hsame := List.inj_on_of_nodup_map h.workers (hdups d hd).1 hw hid
          exact hk (hkey.symm.trans (hsame ▸ ((hmem d).mp (List.mem_cons_of_mem _ hd)).2))
        rw [decide_eq_true hkey, decide_eq_true hnot, Bool.and_self]
      · rw [decide_eq_false hkey, Bool.false_and]

/-! ### The merges over all groups -/

theorem countP_pos_iff_mem {κ : Type} [DecidableEq κ] {keys : List κ} {k : κ} :
    0 < keys.countP (· = k) ↔ k ∈ keys := by
  rw [List.countP_pos_iff]
  simp

/-- Keys whose groups have one member at most. -/
theorem nodup_of_countP {κ : Type} [DecidableEq κ] {keys : List κ}
    (h : ∀ k, keys.countP (· = k) ≤ 1) : keys.Nodup := by
  refine List.nodup_iff_count_le_one.mpr fun k => ?_
  rw [List.count_eq_countP]
  exact (List.countP_congr fun x _ => by simp).trans_le (h k)

theorem mem_duplicated {κ : Type} [DecidableEq κ] (o : RowOrder) {keys : List κ} {k : κ} :
    k ∈ duplicated o keys ↔ 1 < keys.countP (· = k) := by
  unfold duplicated
  rw [(o.perm _).mem_iff, List.mem_filter, List.mem_dedup, decide_eq_true_eq, and_iff_right_iff_imp]
  exact fun h => countP_pos_iff_mem.mp (by omega)

theorem nodup_duplicated {κ : Type} [DecidableEq κ] (o : RowOrder) (keys : List κ) :
    (duplicated o keys).Nodup :=
  (o.perm _).nodup_iff.mpr ((List.nodup_dedup keys).filter _)

/-- The groups are merged one after the other; those still to come keep their workers. -/
theorem foldlM_dedupGroup (o : RowOrder) (column : WorkerRow → String)
    (groups : List (Uuid × String)) : ∀ t : Tables, t.WellFormed → groups.Nodup →
      (∀ g ∈ groups, g ∈ t.columnKeys column) →
      ∃ t', groups.foldlM (dedupGroup o column) t = .ok t' ∧ Carried t t' ∧
        (∀ g ∈ groups, (t'.columnKeys column).countP (· = g) ≤ 1) ∧
        ∀ k, k ∉ groups → (t'.columnKeys column).countP (· = k) = (t.columnKeys column).countP (· = k) := by
  induction groups with
  | nil =>
    intro t h _ _
    exact ⟨t, rfl, Carried.refl h, fun _ hg => absurd hg List.not_mem_nil, fun _ _ => rfl⟩
  | cons g gs ih =>
    intro t h hnd hin
    rw [List.nodup_cons] at hnd
    obtain ⟨t₁, hok, hc₁, hone, hothers⟩ := dedupGroup_spec o column h (hin g List.mem_cons_self)
    -- the round left the groups after it as they were, so they are still there
    obtain ⟨t', hok', hc', hones, hrest⟩ := ih t₁ (hc₁.wellFormed h) hnd.2 (by
      intro g' hg'
      have hne : g' ≠ g := fun heq => hnd.1 (heq ▸ hg')
      have hpos := countP_pos_iff_mem.mpr (hin g' (List.mem_cons_of_mem _ hg'))
      rw [← hothers g' hne] at hpos
      exact countP_pos_iff_mem.mp hpos)
    refine ⟨t', ?_, hc₁.trans h hc', ?_, ?_⟩
    · rw [List.foldlM_cons, hok]
      exact hok'
    · intro g' hg'
      rcases List.mem_cons.mp hg' with rfl | hg'
      · exact (hrest g' hnd.1).trans_le hone
      · exact hones g' hg'
    · intro k hk
      rw [List.mem_cons, not_or] at hk
      rw [hrest k hk.2, hothers k hk.1]

/-- **After a merge the column is unique in each cluster**, and every instance has moved along
with its worker. -/
theorem dedupWorkers_spec (o : RowOrder) (column : WorkerRow → String) {t : Tables}
    (h : t.WellFormed) :
    ∃ t', dedupWorkers o column t = .ok t' ∧ Carried t t' ∧ (t'.columnKeys column).Nodup := by
  obtain ⟨t', hok, hc, hones, hrest⟩ := foldlM_dedupGroup o column _ t h
    (nodup_duplicated o (t.columnKeys column))
    (fun g hg => countP_pos_iff_mem.mp (by have := (mem_duplicated o).mp hg; omega))
  refine ⟨t', hok, hc, nodup_of_countP fun k => ?_⟩
  by_cases hk : k ∈ duplicated o (t.columnKeys column)
  · exact hones k hk
  · rw [hrest k hk]
    rw [mem_duplicated] at hk
    omega

/-! ### The pass over the ports -/

/-- A row without a port holds none. -/
@[simp] theorem slot_dropPort (i : InstanceRow) (detail : String) :
    (i.dropPort detail).slot = none := by
  unfold InstanceRow.slot
  split
  · cases hw : (i.dropPort detail).workerId <;> rfl
  · rfl

/-- The holders that are left when one row loses its port. -/
theorem holders_dropPort (detail : String) (t : Tables) (id : Uuid) (slot : Uuid × ℕ) :
    (t.dropPort detail id).holders slot = (t.holders slot).filter (·.id ≠ id) := by
  unfold Tables.holders Tables.dropPort
  induction t.instances with
  | nil => rfl
  | cons i is ih =>
    rw [List.map_cons, List.filter_cons, List.filter_cons, ih]
    by_cases hid : i.id = id
    · -- the row itself holds no slot any more
      rw [if_pos hid, slot_dropPort]
      split
      · rename_i h
        exact absurd (of_decide_eq_true h) (Option.some_ne_none slot).symm
      · split
        · rw [List.filter_cons, decide_eq_false (not_not.mpr hid)]
          rfl
        · rfl
    · rw [if_neg hid]
      split
      · rw [List.filter_cons, decide_eq_true hid]
        rfl
      · rfl

/-- The holders that are left when several rows lose their ports. -/
theorem holders_dropPorts (detail : String) (slot : Uuid × ℕ) (ids : List Uuid) : ∀ t : Tables,
    (ids.foldl (Tables.dropPort detail) t).holders slot =
      (t.holders slot).filter (·.id ∉ ids) := by
  induction ids with
  | nil =>
    intro t
    exact (List.filter_eq_self.mpr fun i _ => decide_eq_true List.not_mem_nil).symm
  | cons id ids ih =>
    intro t
    rw [List.foldl_cons, ih, holders_dropPort, List.filter_filter]
    refine List.filter_congr fun i _ => ?_
    rw [← Bool.decide_and]
    refine decide_eq_decide.mpr ?_
    rw [List.mem_cons, not_or, and_comm]

theorem holders_freePort (t : Tables) (slot s : Uuid × ℕ) :
    (freePort t slot).holders s = (t.holders s).filter
      (·.id ∉ ((t.holders slot).insertionSort oldestFirst).tail.map (·.id)) :=
  holders_dropPorts _ _ _ _

theorem freePort_homes (t : Tables) (slot : Uuid × ℕ) : (freePort t slot).workers = t.workers ∧
    (freePort t slot).instances.map (fun i => (i.id, i.workerId)) =
      t.instances.map fun i => (i.id, i.workerId) :=
  foldl_homes (dropPort_homes "dedup duplicate port") _ t

/-- The pass over one port leaves one holder. -/
theorem length_holders_freePort {t : Tables} (h : (t.instances.map (·.id)).Nodup)
    (slot : Uuid × ℕ) : ((freePort t slot).holders slot).length ≤ 1 := by
  rw [holders_freePort]
  have hnd : (t.holders slot).Nodup := h.of_map.filter _
  cases hcase : (t.holders slot).insertionSort oldestFirst with
  | nil =>
    have hperm := List.perm_insertionSort oldestFirst (t.holders slot)
    rw [hcase] at hperm
    rw [List.nil_perm.mp hperm]
    exact Nat.zero_le 1
  | cons first rest =>
    -- every holder but the oldest is cleared
    have hsub : (t.holders slot).filter (·.id ∉ rest.map (·.id)) ⊆ [first] := by
      intro i hi
      rw [List.mem_filter, decide_eq_true_eq] at hi
      have hmem := (List.perm_insertionSort oldestFirst (t.holders slot)).mem_iff.mpr hi.1
      rw [hcase, List.mem_cons] at hmem
      rcases hmem with rfl | hrest
      · exact List.mem_singleton_self _
      · exact absurd (List.mem_map_of_mem hrest) hi.2
    exact (List.subperm_of_subset (hnd.filter _) hsub).length_le

/-- The pass over some ports leaves one holder of each of them, and no port gains one. -/
theorem holders_foldl_freePort (slots : List (Uuid × ℕ)) : ∀ t : Tables,
    (t.instances.map (·.id)).Nodup →
      (∀ s ∈ slots, ((slots.foldl freePort t).holders s).length ≤ 1) ∧
        ∀ s, ((slots.foldl freePort t).holders s).length ≤ (t.holders s).length := by
  induction slots with
  | nil => exact fun t _ => ⟨fun _ hs => absurd hs List.not_mem_nil, fun _ => le_rfl⟩
  | cons slot slots ih =>
    intro t h
    have hids : ((freePort t slot).instances.map (·.id)).Nodup := by
      have := congrArg (List.map Prod.fst) (freePort_homes t slot).2
      rw [List.map_map, List.map_map] at this
      exact this ▸ h
    obtain ⟨hone, hless⟩ := ih (freePort t slot) hids
    -- a later pass only takes holders away, so one holder stays at most one
    refine ⟨?_, ?_⟩
    · intro s hs
      rcases List.mem_cons.mp hs with rfl | hs
      · exact (hless s).trans (length_holders_freePort h s)
      · exact hone s hs
    · intro s
      refine (hless s).trans ?_
      rw [holders_freePort]
      exact List.length_filter_le _ _

/-- A port comes in the index as often as it has holders. -/
theorem countP_slots (t : Tables) (slot : Uuid × ℕ) :
    t.slots.countP (· = slot) = (t.holders slot).length := by
  unfold Tables.slots Tables.holders
  rw [List.countP_filterMap, List.countP_eq_length_filter]
  congr 1
  refine List.filter_congr fun i _ => ?_
  cases hs : i.slot with
  | none => rfl
  | some s => simp

/-- **After the pass every port of a worker has one active holder at most.** -/
theorem holders_freePorts (o : RowOrder) {t : Tables} (h : (t.instances.map (·.id)).Nodup) :
    (freePorts o t).slots.Nodup := by
  obtain ⟨hone, hless⟩ := holders_foldl_freePort (duplicated o t.slots) t h
  refine nodup_of_countP fun slot => ?_
  rw [countP_slots]
  by_cases hs : slot ∈ duplicated o t.slots
  · exact hone slot hs
  · refine (hless slot).trans ?_
    rw [mem_duplicated, countP_slots] at hs
    omega

theorem freePorts_homes (o : RowOrder) (t : Tables) : (freePorts o t).workers = t.workers ∧
    (freePorts o t).instances.map (fun i => (i.id, i.workerId)) =
      t.instances.map fun i => (i.id, i.workerId) :=
  foldl_homes freePort_homes _ t

/-! ### The revision -/

theorem OldTables.WellFormed.addColumns {old : OldTables} (h : old.WellFormed) :
    old.addColumns.WellFormed where
  workers := h.workers
  instances := by
    unfold OldTables.addColumns
    rw [List.map_map]
    exact h.instances
  homes := by
    intro i hi
    obtain ⟨j, hj, rfl⟩ := List.mem_map.mp hi
    exact h.homes j hj

/-- Well-formed tables have no orphans. -/
theorem orphanCount_eq_zero {t : Tables} (h : t.WellFormed) : t.orphanCount = 0 := by
  unfold Tables.orphanCount
  rw [List.length_eq_zero_iff, List.filter_eq_nil_iff]
  intro i hi horphan
  cases hw : i.workerId with
  | none =>
    rw [hw] at horphan
    cases horphan
  | some w =>
    rw [hw, Option.any_some] at horphan
    exact of_decide_eq_true horphan (h.homes i hi w hw)

/-- Two active rows have no worker and port in common. -/
def Tables.PortsUnique (t : Tables) : Prop :=
  t.instances.Pairwise fun i j => i.active = true → j.active = true →
    i.workerId = j.workerId → i.port = j.port → i.workerId = none ∨ i.port = none

theorem portsUnique_of_slots {t : Tables} (h : t.slots.Nodup) : t.PortsUnique := by
  refine (List.pairwise_filterMap.mp h).imp ?_
  intro i j hij hi hj hw hp
  by_contra hboth
  rw [not_or] at hboth
  obtain ⟨w, hiw⟩ := Option.ne_none_iff_exists'.mp hboth.1
  obtain ⟨p, hip⟩ := Option.ne_none_iff_exists'.mp hboth.2
  have hsi : i.slot = some (w, p) := by rw [InstanceRow.slot, if_pos hi, hiw, hip]; rfl
  have hsj : j.slot = some (w, p) := by rw [InstanceRow.slot, if_pos hj, ← hw, ← hp, hiw, hip]; rfl
  exact hij _ hsi _ hsj rfl

/-- The home of an instance after a step that keeps it in its cluster. -/
theorem Carried.home {t t' : Tables} (h : t.WellFormed) (hc : Carried t t') {i : InstanceRow}
    (hi : i ∈ t.instances) {w : WorkerRow} (hw : w ∈ t.workers) (hon : i.workerId = some w.id) :
    ∃ i' ∈ t'.instances, i'.id = i.id ∧
      ∃ w' ∈ t'.workers, i'.workerId = some w'.id ∧ w'.clusterId = w.clusterId := by
  obtain ⟨i', hi', hid⟩ := List.mem_map.mp (hc.ids ▸ List.mem_map_of_mem hi : i.id ∈ _)
  obtain ⟨j, hj, hjid, hcases⟩ := hc.homes i' hi'
  have hsame : j = i := List.inj_on_of_nodup_map h.instances hj hi (hjid.trans hid)
  subst hsame
  refine ⟨i', hi', hid, ?_⟩
  rcases hcases with ⟨hn, -⟩ | ⟨v, hv, hjv, w', hw', hiw', hcl⟩
  · rw [hn] at hon
    cases hon
  · have hvw : v = w :=
      List.inj_on_of_nodup_map h.workers hv hw (Option.some.inj (hjv.symm.trans hon))
    exact ⟨w', hw', hiw', hvw ▸ hcl⟩

/-- **The revision reaches a state that its constraints accept**, whatever the tables hold: both
columns of the workers are unique in each cluster, no two active rows share a port of a worker,
no instance is lost, and each that had a worker has one of the same cluster.  The unique indexes
are created on the way, so creating them does not fail. -/
theorem upgrade_reaches_constraints (o : RowOrder) (old : OldTables) (h : old.WellFormed) :
    ∃ t, upgrade o old = .ok t ∧ (t.columnKeys (·.hostname)).Nodup ∧
      (t.columnKeys (·.name)).Nodup ∧ t.PortsUnique ∧
      t.instances.map (·.id) = old.instances.map (·.id) ∧
      ∀ i ∈ old.instances, ∀ w ∈ old.workers, i.workerId = some w.id →
        ∃ i' ∈ t.instances, i'.id = i.id ∧
          ∃ w' ∈ t.workers, i'.workerId = some w'.id ∧ w'.clusterId = w.clusterId := by
  have h₀ := h.addColumns
  obtain ⟨t₁, hok₁, hc₁, hhost⟩ := dedupWorkers_spec o (·.hostname) h₀
  have h₁ := hc₁.wellFormed h₀
  obtain ⟨t₂, hok₂, hc₂, hname⟩ := dedupWorkers_spec o (·.name) h₁
  have h₂ := hc₂.wellFormed h₁
  have hc₃ := Carried.of_homes h₂ (freePorts_homes o t₂).1 (freePorts_homes o t₂).2
  have hc : Carried old.addColumns (freePorts o t₂) := (hc₁.trans h₀ hc₂).trans h₀ hc₃
  -- later steps only delete workers, so a column that is unique stays so
  have hhost₃ : ((freePorts o t₂).columnKeys (·.hostname)).Nodup :=
    ((hc₃.workers.trans hc₂.workers).map _).nodup hhost
  have hname₃ : ((freePorts o t₂).columnKeys (·.name)).Nodup := (hc₃.workers.map _).nodup hname
  have hslots := holders_freePorts o h₂.instances
  refine ⟨freePorts o t₂, ?_, hhost₃, hname₃, portsUnique_of_slots hslots, ?_, ?_⟩
  · unfold upgrade
    rw [hok₁]
    simp only [bind, Except.bind]
    rw [hok₂]
    simp only [orphanCount_eq_zero h₂, createUnique, if_pos hslots, if_pos hhost₃, if_pos hname₃]
    rfl
  · rw [hc.ids]
    unfold OldTables.addColumns
    rw [List.map_map]
    rfl
  · intro i hi w hw hon
    exact hc.home h₀ (i := addDesiredState i) (List.mem_map_of_mem hi) hw hon

/-- Rows in the order of the table. -/
def tableOrder : RowOrder where
  arrange := id
  perm := fun _ => List.Perm.refl _

/-- Three workers of one cluster, two with one host name and two with one name, whose instances
hold one port. -/
def sharedTables : OldTables where
  workers :=
    [⟨1, 1, "gpu-a", "node-1", some "2026-08-20 10:00:00", "2026-08-15 09:00:00"⟩,
      ⟨2, 1, "gpu-b", "node-1", none, "2026-08-16 09:00:00"⟩,
      ⟨3, 1, "gpu-a", "node-2", some "2026-08-21 10:00:00", "2026-08-17 09:00:00"⟩]
  instances :=
    [⟨10, some 1, "running", some 8010, none, "2026-08-18 09:00:00"⟩,
      ⟨11, some 2, "running", some 8010, none, "2026-08-18 10:00:00"⟩,
      ⟨12, some 3, "error", some 8011, none, "2026-08-18 11:00:00"⟩,
      ⟨13, some 3, "scheduled", some 8011, none, "2026-08-18 12:00:00"⟩,
      ⟨14, none, "stopped", none, none, "2026-08-18 13:00:00"⟩]

theorem sharedTables_wellFormed : sharedTables.WellFormed where
  workers := by decide
  instances := by decide
  homes := by
    intro i hi w hw
    simp only [sharedTables, List.mem_cons, List.not_mem_nil, or_false] at hi
    rcases hi with rfl | rfl | rfl | rfl | rfl <;> simp_all [sharedTables]

theorem upgrade_sharedTables :
    ∃ t, upgrade tableOrder sharedTables = .ok t ∧ (t.columnKeys (·.hostname)).Nodup ∧
      (t.columnKeys (·.name)).Nodup ∧ t.PortsUnique ∧
      t.instances.map (·.id) = sharedTables.instances.map (·.id) ∧
      ∀ i ∈ sharedTables.instances, ∀ w ∈ sharedTables.workers, i.workerId = some w.id →
        ∃ i' ∈ t.instances, i'.id = i.id ∧
          ∃ w' ∈ t.workers, i'.workerId = some w'.id ∧ w'.clusterId = w.clusterId :=
  upgrade_reaches_constraints tableOrder sharedTables sharedTables_wellFormed

/-- Everything ends up on the worker seen last, with one holder of each port. -/
example : (upgrade tableOrder sharedTables).toOption.map (fun t => (t.workers.map (·.id), t.slots)) =
    some ([3], [(3, 8010), (3, 8011)]) := by
  decide +kernel

end Inferna.Phase0
