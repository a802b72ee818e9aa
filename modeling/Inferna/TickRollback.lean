import Inferna.ScaleTarget

/-!
# Failed scales of an autoscaler pass

A pass of the autoscaler shares one session between its deployments and rolls
nothing back.  A scale that raises may have stopped broken units or inserted
groups by then, and the next commit of the pass stores them.

## Main definitions

* `FailedUntouched` — the rows of each deployment whose scale raised are as before.
* `LeavesRows` — what a scale that raises has changed by then.
* `CleanFrom`, `CleanPass` — no scale commits after one that raised and left rows.

## Main results

* `instancesOf_failed_iff` — a failed call leaves rows exactly when there was a
  broken unit or a first group had room.
* `failedUntouched_iff` — **exactly the clean passes leave the failed deployments
  untouched.**
* `failed_scale_is_committed` — a pass that is not clean.
-/

namespace Inferna

/-! ### What a failed call leaves -/

/-- What a call that raises has changed before it did: it stopped a broken unit, or
it inserted a first group. -/
def LeavesRows (s : Settings) (d : Deployment) (db : Db) : Prop :=
  brokenUnits d db ≠ [] ∨
    (1 < d.nodesPerReplica ∧
      (allocateParallelReplicas s db d.clusterId
        (((db.findModel d.modelId).map (·.vramRequiredMb)).getD 0) d.engine d.nodesPerReplica
        (occupiedWorkers d db)).toBool = true)

instance (s : Settings) (d : Deployment) (db : Db) : Decidable (LeavesRows s d db) :=
  inferInstanceAs (Decidable (_ ∨ _ ∧ _))

theorem stopUnits_nil (db : Db) : stopUnits db [] = db := by
  unfold stopUnits Db.updateWhere
  simp

/-- A call that changed nothing before it raised leaves no trace. -/
theorem moveReplicas_of_not_leavesRows {s : Settings} {d : Deployment} {target now : ℕ} {db : Db}
    (hclean : ¬ LeavesRows s d db) {e : ServerError}
    (herr : (moveReplicas s d target now db).2 = .error e) :
    (moveReplicas s d target now db).1 = db := by
  unfold LeavesRows at hclean
  rw [not_or, not_not] at hclean
  obtain ⟨hbroken, hgroup⟩ := hclean
  unfold moveReplicas at herr ⊢
  simp only [hbroken, stopUnits_nil] at herr ⊢
  split
  · rename_i hlt
    rw [if_pos hlt] at herr
    unfold scaleOut at herr ⊢
    simp only at herr ⊢
    split
    · rename_i hn
      -- the first group already has no room
      obtain ⟨k, hk⟩ : ∃ k, target - (capacityUnits d db).length = k + 1 :=
        ⟨target - (capacityUnits d db).length - 1, by omega⟩
      rw [hk]
      unfold placeGroups
      split
      · rfl
      · rename_i allocations halloc
        rw [halloc] at hgroup
        exact absurd ⟨hn, rfl⟩ hgroup
    · rename_i hn
      rw [if_neg hn] at herr
      split
      · rfl
      · rename_i heq
        rw [heq] at herr
        cases herr
  · rename_i hge
    rw [if_neg hge] at herr
    cases herr

/-- A first group that has room leaves a new row. -/
theorem exists_row_placeGroups {s : Settings} {d : Deployment} (hn : 1 < d.nodesPerReplica)
    {vram now n : ℕ} {db : Db} {occupied : List Uuid}
    (hroom : (allocateParallelReplicas s db d.clusterId vram d.engine d.nodesPerReplica
      occupied).toBool = true) :
    ∃ r ∈ (placeGroups s d vram now (n + 1) db occupied).1.instances,
      r.deploymentId = d.id ∧ db.nextUuid ≤ r.id := by
  have hmulti : ¬ d.nodesPerReplica ≤ 1 := by omega
  unfold placeGroups
  split
  · rename_i heq
    rw [heq] at hroom
    cases hroom
  · rename_i allocations halloc
    obtain ⟨rows, hrows, hadd, -, hkeys⟩ :=
      addGroup_rows d hmulti now db (allocateParallelReplicas_ne_nil halloc)
    obtain ⟨rows', hrows', -, -, -⟩ := placeGroups_rows s d hmulti vram now n
      (addGroup db d now allocations) (occupied ++ allocations.map (·.worker.id))
    have hkey : db.nextUuid ∈ (rows.map (keyOf d.nodesPerReplica)).toFinset := by
      rw [hkeys]
      exact Finset.mem_singleton_self _
    obtain ⟨r, hr, -⟩ := List.mem_map.mp (List.mem_toFinset.mp hkey)
    refine ⟨r, ?_, (hadd r hr).deployment, (hadd r hr).id_fresh⟩
    rw [hrows', hrows]
    exact List.mem_append_left _ (List.mem_append_right _ hr)

/-- A broken unit has a row that was to run and is stopped now. -/
theorem instancesOf_ne_of_broken {s : Settings} {d : Deployment} {target now : ℕ} {db : Db}
    (hids : (db.instances.map (·.id)).Nodup) (hbroken : brokenUnits d db ≠ []) :
    (moveReplicas s d target now db).1.instancesOf d.id ≠ db.instancesOf d.id := by
  obtain ⟨rows, hrows, hadd, -, -⟩ := moveReplicas_rows s d target now hids
  obtain ⟨u, hu⟩ := List.exists_mem_of_ne_nil _ hbroken
  obtain ⟨hunit, hlive⟩ := mem_liveUnits.mp (mem_brokenUnits.mp hu).1
  obtain ⟨i, hiu, hrun⟩ := List.any_eq_true.mp hlive
  rw [decide_eq_true_eq] at hrun
  obtain ⟨hi, hdep⟩ := mem_of_mem_unit hids hunit hiu
  intro heq
  have hmem : i ∈ (moveReplicas s d target now db).1.instancesOf d.id := by
    rw [heq]
    exact mem_instancesOf.mpr ⟨hi, hdep⟩
  have hnew := (mem_instancesOf.mp hmem).1
  rw [hrows] at hnew
  rcases List.mem_append.mp hnew with hold | hadded
  · obtain ⟨j, hj, hji⟩ := List.mem_map.mp hold
    have hid := scaledRow_keeps (·.id) (fun _ => rfl) d db target j
    have hsame : j = i := List.inj_on_of_nodup_map hids hj hi (by rw [← hid, hji])
    have hstop : isStopped d db target i = true :=
      (isStopped_iff hids hi).mpr ⟨u, List.mem_append_left _ hu, hiu⟩
    subst hsame
    rw [scaledRow_of_isStopped hstop] at hji
    rw [← hji] at hrun
    cases hrun
  · have hlt := Db.id_lt_nextUuid hi
    exact absurd (hadd i hadded).id_fresh (not_le.mpr hlt)

/-- **What a failed call leaves**: the rows of its deployment are others exactly
when a broken unit was stopped or a first group had room. -/
theorem instancesOf_failed_iff {s : Settings} {d : Deployment} {target now : ℕ} {db : Db}
    (hids : (db.instances.map (·.id)).Nodup) {e : ServerError}
    (herr : (moveReplicas s d target now db).2 = .error e) :
    (moveReplicas s d target now db).1.instancesOf d.id ≠ db.instancesOf d.id ↔
      LeavesRows s d db := by
  constructor
  · intro hne
    by_contra hclean
    exact hne (by rw [moveReplicas_of_not_leavesRows hclean herr])
  · intro hleaves
    by_cases hbroken : brokenUnits d db = []
    · obtain ⟨hn, hroom⟩ := hleaves.resolve_left (fun h => h hbroken)
      -- the call got as far as its groups
      unfold moveReplicas at herr ⊢
      simp only [hbroken, stopUnits_nil] at herr ⊢
      split
      · rename_i hlt
        unfold scaleOut
        simp only [if_pos hn]
        obtain ⟨k, hk⟩ : ∃ k, target - (capacityUnits d db).length = k + 1 :=
          ⟨target - (capacityUnits d db).length - 1, by omega⟩
        rw [hk]
        obtain ⟨r, hr, hdep, hfresh⟩ := exists_row_placeGroups hn hroom
        intro heq
        have hold : r ∈ db.instancesOf d.id := heq ▸ mem_instancesOf.mpr ⟨hr, hdep⟩
        exact absurd hfresh (not_le.mpr (Db.id_lt_nextUuid (mem_instancesOf.mp hold).1))
      · rename_i hge
        rw [if_neg hge] at herr
        cases herr
    · exact instancesOf_ne_of_broken hids hbroken

/-! ### Passes -/

/-- The rows of a deployment: its instances and its own row. -/
def Db.rowsOf (db : Db) (id : Uuid) : List Instance × Option Deployment :=
  (db.instancesOf id, db.findDeployment id)

/-- The rows of each deployment whose scale raised are as they were before. -/
def FailedUntouched (db : Db) (t : TickState) : Prop :=
  ∀ f ∈ t.failed, t.session.committed.rowsOf f.1 = db.rowsOf f.1

section Pass

variable (s : Settings) (m : Metrics) (clock : ℕ) (now : ℚ)

/-- The call of `apply_scale` that the pass makes for a deployment. -/
def tickCall (st : TickState) (d : Deployment) : Db × Except ServerError Unit :=
  applyScale s d.load (tickTarget s m st.session.working d) false clock st.session.working

/-- The pass calls `apply_scale` for the deployment. -/
def TickCalls (st : TickState) (d : Deployment) : Prop :=
  st.dead = false ∧ tickActs s m st.cooldown now st.session.working d = true

/-- The call raises and leaves rows in the session. -/
def RaisesDirty (st : TickState) (d : Deployment) : Prop :=
  TickCalls s m now st d ∧ (tickCall s m clock st d).2.toBool = false ∧
    LeavesRows s d st.session.working

/-- The call succeeds and commits the session. -/
def TickCommits (st : TickState) (d : Deployment) : Prop :=
  TickCalls s m now st d ∧ (tickCall s m clock st d).2.toBool = true ∧
    (tickCall s m clock st d).1.violation = none

instance (st : TickState) (d : Deployment) : Decidable (TickCalls s m now st d) :=
  inferInstanceAs (Decidable (_ ∧ _))

instance (st : TickState) (d : Deployment) : Decidable (RaisesDirty s m clock now st d) :=
  inferInstanceAs (Decidable (_ ∧ _ ∧ _))

instance (st : TickState) (d : Deployment) : Decidable (TickCommits s m clock now st d) :=
  inferInstanceAs (Decidable (_ ∧ _ ∧ _))

/-- No call commits once a call has raised and left rows; `dirty` says that one has. -/
def CleanFrom : Bool → TickState → List Deployment → Prop
  | _, _, [] => True
  | dirty, st, d :: ds =>
    (dirty = true → ¬ TickCommits s m clock now st d) ∧
      CleanFrom (dirty || decide (RaisesDirty s m clock now st d)) (tickStep s m clock now st d) ds

/-- **The clean passes**: no deployment is scaled after one whose scale raised when
it had stopped a broken unit or inserted a group. -/
def CleanPass (cooldown : Dict Uuid ℚ) (db : Db) : Prop :=
  CleanFrom s m clock now false ⟨Session.fresh db, cooldown, [], [], false⟩ (windowedDeployments db)

instance decidableCleanFrom : ∀ (dirty : Bool) (st : TickState) (ds : List Deployment),
    Decidable (CleanFrom s m clock now dirty st ds)
  | _, _, [] => isTrue trivial
  | dirty, st, d :: ds =>
    haveI := decidableCleanFrom (dirty || decide (RaisesDirty s m clock now st d))
      (tickStep s m clock now st d) ds
    inferInstanceAs (Decidable (_ ∧ _))

instance (cooldown : Dict Uuid ℚ) (db : Db) : Decidable (CleanPass s m clock now cooldown db) :=
  inferInstanceAs (Decidable (CleanFrom s m clock now _ _ _))

variable {s m clock now}

theorem not_tickCommits_of_error {st : TickState} {d : Deployment} {e : ServerError}
    (herr : (tickCall s m clock st d).2 = .error e) : ¬ TickCommits s m clock now st d := by
  rintro ⟨-, hok, -⟩
  rw [herr] at hok
  cases hok

theorem not_raisesDirty_of_ok {st : TickState} {d : Deployment}
    (hok : (tickCall s m clock st d).2.toBool = true) : ¬ RaisesDirty s m clock now st d := by
  rintro ⟨-, herr, -⟩
  rw [hok] at herr
  cases herr

/-- **What one deployment does to a pass**: nothing, or its call raises, commits, or
is refused at its commit. -/
theorem tickStep_cases (st : TickState) (d : Deployment) :
    (¬ TickCalls s m now st d ∧ tickStep s m clock now st d = st) ∨
    (TickCalls s m now st d ∧ ∃ e, (tickCall s m clock st d).2 = .error e ∧
      (tickStep s m clock now st d).session = ⟨st.session.committed, (tickCall s m clock st d).1⟩ ∧
      (tickStep s m clock now st d).failed = st.failed ++ [(d.id, e)] ∧
      (tickStep s m clock now st d).dead = false) ∨
    (TickCommits s m clock now st d ∧
      (tickStep s m clock now st d).session =
        ⟨(tickCall s m clock st d).1, (tickCall s m clock st d).1⟩ ∧
      (tickStep s m clock now st d).failed = st.failed) ∨
    (TickCalls s m now st d ∧ (tickCall s m clock st d).2 = .ok () ∧
      ¬ TickCommits s m clock now st d ∧ ∃ c,
      (tickStep s m clock now st d).session = ⟨st.session.committed, st.session.committed⟩ ∧
      (tickStep s m clock now st d).failed = st.failed ++ [(d.id, .integrity c)] ∧
      (tickStep s m clock now st d).dead = true) := by
  by_cases hcalls : TickCalls s m now st d
  · right
    have hcall : ¬ (st.dead = true ∨
        ¬ tickActs s m st.cooldown now st.session.working d = true) := by
      rw [not_or, not_not, Bool.not_eq_true]
      exact hcalls
    unfold TickCommits
    unfold tickStep
    simp only [if_neg hcall]
    unfold scaleInSession
    rcases happ : tickCall s m clock st d with ⟨db', e | u⟩
    · left
      refine ⟨hcalls, e, rfl, ?_⟩
      have herr : e.IsHttp := applyScale_error (congrArg Prod.snd happ)
      obtain ⟨code, detail, rfl⟩ := herr
      unfold tickCall at happ
      rw [happ]
      exact ⟨rfl, rfl, rfl⟩
    · right
      unfold tickCall at happ
      rw [happ]
      simp only [Session.commit]
      cases hv : db'.violation with
      | none => exact Or.inl ⟨⟨hcalls, rfl, rfl⟩, rfl, rfl⟩
      | some c =>
        refine Or.inr ⟨hcalls, trivial, ?_, c, rfl, rfl, rfl⟩
        rintro ⟨-, -, h⟩
        cases h
  · refine Or.inl ⟨hcalls, ?_⟩
    unfold tickStep
    simp only
    rw [if_pos]
    unfold TickCalls at hcalls
    rw [not_and_or, Bool.not_eq_false] at hcalls
    exact hcalls

/-- The keys hold after a call. -/
theorem nodup_applyScale {d : Deployment} {target : ℕ} {db : Db}
    (hids : (db.instances.map (·.id)).Nodup) :
    ((applyScale s d.load target false clock db).1.instances.map (·.id)).Nodup := by
  rw [applyScale_instances]
  obtain ⟨rows, hrows, hadd, hfresh, -⟩ :=
    moveReplicas_rows s d (scaleTarget d.load target false) clock hids
  exact nodup_ids_call hids hrows hadd hfresh

/-- A call leaves the rows of every other deployment alone. -/
theorem rowsOf_applyScale_of_ne {d : Deployment} {target : ℕ} {db : Db}
    (hids : (db.instances.map (·.id)).Nodup) {k : Uuid} (hne : k ≠ d.id) :
    (applyScale s d.load target false clock db).1.rowsOf k = db.rowsOf k := by
  have hinst : (applyScale s d.load target false clock db).1.instancesOf k = db.instancesOf k := by
    rw [← instancesOf_moveReplicas_of_ne s d (scaleTarget d.load target false) clock hids hne]
    unfold Db.instancesOf
    rw [applyScale_instances]
    rfl
  have hrow : (applyScale s d.load target false clock db).1.findDeployment k =
      db.findDeployment k := by
    have htables :=
      (moveReplicas_tables s d.load.loaded (scaleTarget d.load target false) clock db).1
    rcases applyScale_cases s d.load target false clock db with ⟨e, -, heq⟩ | ⟨-, heq⟩
    · rw [heq]
      unfold Db.findDeployment
      rw [htables]
    · rw [heq, findDeployment_writeDeployment_of_ne _ _ _ hne]
      unfold Db.findDeployment
      rw [htables]
  unfold Db.rowsOf
  rw [hinst, hrow]

/-- A call that raises changes the rows of its deployment exactly when it leaves
rows. -/
theorem rowsOf_failed_iff {d : Deployment} {target : ℕ} {db : Db}
    (hids : (db.instances.map (·.id)).Nodup) {e : ServerError}
    (herr : (applyScale s d.load target false clock db).2 = .error e) :
    (applyScale s d.load target false clock db).1.rowsOf d.id ≠ db.rowsOf d.id ↔
      LeavesRows s d db := by
  -- the row of the deployment is written last
  have hmove : applyScale s d.load target false clock db =
      moveReplicas s d (scaleTarget d.load target false) clock db := by
    rcases applyScale_cases s d.load target false clock db with ⟨e', hmove, heq⟩ | ⟨-, heq⟩
    · rw [heq, ← hmove]
      rfl
    · rw [heq] at herr
      cases herr
  rw [hmove] at herr ⊢
  rw [← instancesOf_failed_iff hids herr]
  have hrow : (moveReplicas s d (scaleTarget d.load target false) clock db).1.findDeployment d.id =
      db.findDeployment d.id := by
    unfold Db.findDeployment
    rw [(moveReplicas_tables s d (scaleTarget d.load target false) clock db).1]
  unfold Db.rowsOf
  rw [hrow]
  constructor
  · exact fun h heq => h (by rw [heq])
  · exact fun h heq => h (congrArg Prod.fst heq)

/-- The rest of a pass leaves the rows of a deployment it does not visit alone. -/
theorem rowsOf_pass_of_notMem {k : Uuid} {r : List Instance × Option Deployment} :
    ∀ (ds : List Deployment) (st : TickState), k ∉ ds.map (·.id) →
      ((st.session.committed.instances.map (·.id)).Nodup ∧ st.session.committed.rowsOf k = r) ∧
        ((st.session.working.instances.map (·.id)).Nodup ∧ st.session.working.rowsOf k = r) →
      (ds.foldl (tickStep s m clock now) st).session.committed.rowsOf k = r := by
  intro ds
  induction ds with
  | nil => exact fun st _ h => h.1.2
  | cons d ds ih =>
    intro st hk h
    rw [List.map_cons, List.mem_cons, not_or] at hk
    refine ih _ hk.2 (preserves_tickStep
      (P := fun db => (db.instances.map (·.id)).Nodup ∧ db.rowsOf k = r) ?_ h)
    intro db target hdb
    exact ⟨nodup_applyScale hdb.1, (rowsOf_applyScale_of_ne hdb.1 hk.1).trans hdb.2⟩

/-- A failure stays on the list. -/
theorem mem_failed_pass {f : Uuid × ServerError} : ∀ (ds : List Deployment) (st : TickState),
    f ∈ st.failed → f ∈ (ds.foldl (tickStep s m clock now) st).failed := by
  intro ds
  induction ds with
  | nil => exact fun _ h => h
  | cons d ds ih =>
    intro st h
    refine ih _ ?_
    obtain ⟨-, heq⟩ | ⟨-, e, -, -, heq, -⟩ | ⟨-, -, heq⟩ | ⟨-, -, -, c, -, heq, -⟩ :=
      @tickStep_cases s m clock now st d
    · rwa [heq]
    · rw [heq]; exact List.mem_append_left _ h
    · rwa [heq]
    · rw [heq]; exact List.mem_append_left _ h

/-- What is known on the way of a pass that was clean so far: `ds` is still ahead,
and `dirty` says whether the session holds rows of a failed call. -/
structure PassInv (db : Db) (dirty : Bool) (st : TickState) (ds : List Deployment) : Prop where
  nodup : (ds.map (·.id)).Nodup
  committed : (st.session.committed.instances.map (·.id)).Nodup
  working : (st.session.working.instances.map (·.id)).Nodup
  ahead : ∀ d ∈ ds, st.session.committed.rowsOf d.id = db.rowsOf d.id ∧
    st.session.working.rowsOf d.id = db.rowsOf d.id
  past : ∀ f ∈ st.failed, f.1 ∉ ds.map (·.id) ∧ st.session.committed.rowsOf f.1 = db.rowsOf f.1
  clean : dirty = false → ∀ f ∈ st.failed, st.session.working.rowsOf f.1 = db.rowsOf f.1
  soiled : dirty = true → st.dead = true ∨
    ∃ f ∈ st.failed, st.session.working.rowsOf f.1 ≠ db.rowsOf f.1

/-- A deployment that is skipped changes nothing. -/
theorem PassInv.skip {db : Db} {dirty : Bool} {st : TickState} {d : Deployment}
    {ds : List Deployment} (h : PassInv db dirty st (d :: ds)) : PassInv db dirty st ds where
  nodup := (List.nodup_cons.mp h.nodup).2
  committed := h.committed
  working := h.working
  ahead e he := h.ahead e (List.mem_cons_of_mem _ he)
  past f hf := ⟨fun hmem => (h.past f hf).1 (List.mem_cons_of_mem _ hmem), (h.past f hf).2⟩
  clean := h.clean
  soiled := h.soiled

theorem PassInv.ne_of_failed {db : Db} {dirty : Bool} {st : TickState} {d : Deployment}
    {ds : List Deployment} (h : PassInv db dirty st (d :: ds)) {f : Uuid × ServerError}
    (hf : f ∈ st.failed) : f.1 ≠ d.id :=
  fun heq => (h.past f hf).1 (List.mem_cons.mpr (Or.inl heq))

theorem PassInv.ne_of_ahead {db : Db} {dirty : Bool} {st : TickState} {d : Deployment}
    {ds : List Deployment} (h : PassInv db dirty st (d :: ds)) {e : Deployment} (he : e ∈ ds) :
    e.id ≠ d.id := by
  intro heq
  have hnot := (List.nodup_cons.mp h.nodup).1
  exact hnot (List.mem_map.mpr ⟨e, he, heq⟩)

/-- A call that raises. -/
theorem PassInv.raise {db : Db} {dirty : Bool} {st st' : TickState} {d : Deployment}
    {ds : List Deployment} (h : PassInv db dirty st (d :: ds)) {e : ServerError}
    (hcalls : TickCalls s m now st d) (herr : (tickCall s m clock st d).2 = .error e)
    (hsession : st'.session = ⟨st.session.committed, (tickCall s m clock st d).1⟩)
    (hfailed : st'.failed = st.failed ++ [(d.id, e)]) :
    PassInv db (dirty || decide (RaisesDirty s m clock now st d)) st' ds := by
  have hself := rowsOf_failed_iff h.working herr
  have hother : ∀ {k : Uuid}, k ≠ d.id →
      (tickCall s m clock st d).1.rowsOf k = st.session.working.rowsOf k :=
    fun hne => rowsOf_applyScale_of_ne h.working hne
  have hd := h.ahead d List.mem_cons_self
  refine ⟨h.skip.nodup, ?_, ?_, ?_, ?_, ?_, ?_⟩
  · rw [hsession]
    exact h.committed
  · rw [hsession]
    exact nodup_applyScale h.working
  · intro e' he'
    rw [hsession]
    have hahead := h.ahead e' (List.mem_cons_of_mem _ he')
    exact ⟨hahead.1, (hother (h.ne_of_ahead he')).trans hahead.2⟩
  · intro f hf
    rw [hsession]
    rw [hfailed, List.mem_append, List.mem_singleton] at hf
    rcases hf with hf | rfl
    · exact h.skip.past f hf
    · exact ⟨(List.nodup_cons.mp h.nodup).1, hd.1⟩
  · intro hclean f hf
    rw [Bool.or_eq_false_iff, decide_eq_false_iff_not] at hclean
    rw [hsession]
    rw [hfailed, List.mem_append, List.mem_singleton] at hf
    rcases hf with hf | rfl
    · exact (hother (h.ne_of_failed hf)).trans (h.clean hclean.1 f hf)
    · -- the call itself left nothing
      have hnot : ¬ LeavesRows s d st.session.working := by
        intro hleaves
        refine hclean.2 ⟨hcalls, ?_, hleaves⟩
        rw [herr]
        rfl
      have hsame := not_not.mp (fun hne => hnot (hself.mp hne))
      exact hsame.trans hd.2
  · intro hdirty
    right
    rw [hsession, hfailed]
    by_cases hold : dirty = true
    · rcases h.soiled hold with hdead | ⟨f, hf, hne⟩
      · rw [hcalls.1] at hdead
        cases hdead
      · refine ⟨f, List.mem_append_left _ hf, ?_⟩
        rwa [hother (h.ne_of_failed hf)]
    · have hraises : RaisesDirty s m clock now st d := by
        simpa [hold] using hdirty
      refine ⟨(d.id, e), List.mem_append_right _ (List.mem_singleton.mpr rfl), ?_⟩
      rw [← hd.2]
      exact hself.mpr hraises.2.2

/-- A call that commits a clean session. -/
theorem PassInv.commit {db : Db} {st st' : TickState} {d : Deployment} {ds : List Deployment}
    (h : PassInv db false st (d :: ds))
    (hsession : st'.session = ⟨(tickCall s m clock st d).1, (tickCall s m clock st d).1⟩)
    (hfailed : st'.failed = st.failed) : PassInv db false st' ds := by
  have hother : ∀ {k : Uuid}, k ≠ d.id →
      (tickCall s m clock st d).1.rowsOf k = st.session.working.rowsOf k :=
    fun hne => rowsOf_applyScale_of_ne h.working hne
  have hrows : ∀ f ∈ st.failed, (tickCall s m clock st d).1.rowsOf f.1 = db.rowsOf f.1 := by
    intro f hf
    exact (hother (h.ne_of_failed hf)).trans (h.clean rfl f hf)
  have hnodup : ((tickCall s m clock st d).1.instances.map (·.id)).Nodup :=
    nodup_applyScale h.working
  have hahead : ∀ e ∈ ds, (tickCall s m clock st d).1.rowsOf e.id = db.rowsOf e.id := by
    intro e he
    exact (hother (h.ne_of_ahead he)).trans (h.ahead e (List.mem_cons_of_mem _ he)).2
  refine ⟨h.skip.nodup, ?_, ?_, ?_, ?_, ?_, fun hdirty => by cases hdirty⟩
  · rw [hsession]
    exact hnodup
  · rw [hsession]
    exact hnodup
  · intro e he
    rw [hsession]
    exact ⟨hahead e he, hahead e he⟩
  · intro f hf
    rw [hfailed] at hf
    rw [hsession]
    exact ⟨(h.skip.past f hf).1, hrows f hf⟩
  · intro _ f hf
    rw [hfailed] at hf
    rw [hsession]
    exact hrows f hf

/-- A call whose commit is refused: the session is rolled back and dead. -/
theorem PassInv.refuse {db : Db} {dirty dirty' : Bool} {st st' : TickState} {d : Deployment}
    {ds : List Deployment} (h : PassInv db dirty st (d :: ds)) {e : ServerError}
    (hsession : st'.session = ⟨st.session.committed, st.session.committed⟩)
    (hfailed : st'.failed = st.failed ++ [(d.id, e)]) (hdead : st'.dead = true) :
    PassInv db dirty' st' ds := by
  have hrows : ∀ f ∈ st'.failed, f.1 ∉ ds.map (·.id) ∧
      st.session.committed.rowsOf f.1 = db.rowsOf f.1 := by
    intro f hf
    rw [hfailed, List.mem_append, List.mem_singleton] at hf
    rcases hf with hf | rfl
    · exact h.skip.past f hf
    · exact ⟨(List.nodup_cons.mp h.nodup).1, (h.ahead d List.mem_cons_self).1⟩
  refine ⟨h.skip.nodup, ?_, ?_, ?_, ?_, ?_, fun _ => Or.inl hdead⟩
  · rw [hsession]
    exact h.committed
  · rw [hsession]
    exact h.committed
  · intro e' he'
    rw [hsession]
    have hahead := (h.ahead e' (List.mem_cons_of_mem _ he')).1
    exact ⟨hahead, hahead⟩
  · intro f hf
    rw [hsession]
    exact hrows f hf
  · intro _ f hf
    rw [hsession]
    exact (hrows f hf).2

/-- **A pass from any point of it**: the failed deployments are untouched at its end
exactly when the rest is clean. -/
theorem failedUntouched_pass {db : Db} : ∀ (ds : List Deployment) (dirty : Bool) (st : TickState),
    PassInv db dirty st ds →
      (FailedUntouched db (ds.foldl (tickStep s m clock now) st) ↔
        CleanFrom s m clock now dirty st ds) := by
  intro ds
  induction ds with
  | nil =>
    intro dirty st h
    exact ⟨fun _ => trivial, fun _ f hf => (h.past f hf).2⟩
  | cons d ds ih =>
    intro dirty st h
    rw [List.foldl_cons]
    unfold CleanFrom
    obtain ⟨hno, heq⟩ | ⟨hcalls, e, herr, hsession, hfailed, -⟩ | ⟨hcommit, hsession, hfailed⟩ |
      ⟨hcalls, hok, hno, c, hsession, hfailed, hdead⟩ := @tickStep_cases s m clock now st d
    · -- skipped
      have hnc : ¬ TickCommits s m clock now st d := fun hc => hno hc.1
      have hnr : ¬ RaisesDirty s m clock now st d := fun hr => hno hr.1
      rw [heq, decide_eq_false hnr, Bool.or_false, ih dirty st h.skip]
      exact ⟨fun hrest => ⟨fun _ => hnc, hrest⟩, fun hrest => hrest.2⟩
    · -- raised
      have hnc : ¬ TickCommits s m clock now st d := not_tickCommits_of_error herr
      rw [ih _ _ (h.raise hcalls herr hsession hfailed)]
      exact ⟨fun hrest => ⟨fun _ => hnc, hrest⟩, fun hrest => hrest.2⟩
    · -- committed, with whatever the session held
      have hnr : ¬ RaisesDirty s m clock now st d := not_raisesDirty_of_ok hcommit.2.1
      cases dirty with
      | false =>
        rw [decide_eq_false hnr, Bool.or_false, ih false _ (h.commit hsession hfailed)]
        exact ⟨fun hrest => ⟨fun hd => absurd hd Bool.false_ne_true, hrest⟩, fun hrest => hrest.2⟩
      | true =>
        refine ⟨fun huntouched => ?_, fun hrest => absurd hcommit (hrest.1 rfl)⟩
        rcases h.soiled rfl with hdead | ⟨f, hf, hne⟩
        · rw [hcommit.1.1] at hdead
          cases hdead
        · -- the rows of the failed call are committed, and stay
          have hkept : (tickCall s m clock st d).1.rowsOf f.1 = st.session.working.rowsOf f.1 :=
            rowsOf_applyScale_of_ne h.working (h.ne_of_failed hf)
          have hnodup : ((tickCall s m clock st d).1.instances.map (·.id)).Nodup :=
            nodup_applyScale h.working
          have hfinal := @rowsOf_pass_of_notMem s m clock now _ _ ds (tickStep s m clock now st d)
            (h.skip.past f hf).1 (by rw [hsession]; exact ⟨⟨hnodup, hkept⟩, hnodup, hkept⟩)
          have hmem :=
            @mem_failed_pass s m clock now _ ds (tickStep s m clock now st d) (hfailed ▸ hf)
          exact absurd (hfinal.symm.trans (huntouched f hmem)) hne
    · -- refused
      rw [ih _ _ (h.refuse hsession hfailed hdead)]
      exact ⟨fun hrest => ⟨fun _ => hno, hrest⟩, fun hrest => hrest.2⟩

/-- **When failed scales leave their deployments untouched**: exactly in the passes
where no scale commits after one that raised with rows left in the session. -/
theorem failedUntouched_iff (s : Settings) (m : Metrics) (clock : ℕ) (now : ℚ)
    (cooldown : Dict Uuid ℚ) {db : Db}
    (hids : (db.instances.map (·.id)).Nodup) (hdeps : (db.deployments.map (·.id)).Nodup) :
    FailedUntouched db (autoscaleTick s m clock now cooldown db) ↔
      CleanPass s m clock now cooldown db := by
  have hnd : ((windowedDeployments db).map (·.id)).Nodup :=
    (List.Sublist.map _ List.filter_sublist).nodup hdeps
  refine failedUntouched_pass (windowedDeployments db) false _
    ⟨hnd, hids, hids, fun _ _ => ⟨rfl, rfl⟩, ?_, ?_, fun h => by cases h⟩
  · exact fun f hf => absurd hf List.not_mem_nil
  · exact fun _ f hf => absurd hf List.not_mem_nil

end Pass

/-! ### Two deployments in one pass -/

/-- The first model answers slowly, the second is idle. -/
def sampleMetrics : Metrics where
  ttftP95Ms name := if name = "busy" then some 5000 else some 10
  activeRequests _ := none

/-- A replica of the samples on its own GPU of the worker `1`. -/
def passReplica (id deployment gpu : ℕ) (state : InstanceState) : Instance where
  id := id
  modelId := deployment
  clusterId := 1
  workerId := some 1
  deploymentId := deployment
  engine := .vllm
  profile := .latency
  gpuIndexes := [gpu]
  state := state
  port := some (8010 + gpu)

/-- Two deployments with a window fill a worker of three GPUs: one replica of the
busy model, in the given state, and two of the idle one. -/
def passDb (state : InstanceState) : Db where
  clusters := [⟨1, "default"⟩]
  workers := [{ id := 1, clusterId := 1, name := "node", hostname := "node", state := .connected,
                tokenHash := "token",
                gpus := [⟨0, .nvidia, 10⟩, ⟨1, .nvidia, 10⟩, ⟨2, .nvidia, 10⟩] }]
  models := [{ id := 1, name := "busy", category := "llm", vramRequiredMb := 10,
               supportedEngines := [.vllm] },
             { id := 2, name := "idle", category := "llm", vramRequiredMb := 10,
               supportedEngines := [.vllm] }]
  deployments := [{ id := 1, modelId := 1, clusterId := 1, engine := .vllm, profile := .latency,
                    minReplicas := 1, maxReplicas := 3 },
                  { id := 2, modelId := 2, clusterId := 1, engine := .vllm, profile := .latency,
                    minReplicas := 1, maxReplicas := 3 }]
  instances := [passReplica 3 1 0 state, passReplica 4 2 1 .running, passReplica 5 2 2 .running]
  lastUuid := 5

/-- The busy deployment finds no GPU; nothing of it was changed, and the idle one is
scaled in. -/
theorem failedUntouched_sample :
    ((passDb .running).instances.map (·.id)).Nodup ∧
      ((passDb .running).deployments.map (·.id)).Nodup ∧
      (autoscaleTick {} sampleMetrics 7 0 Dict.empty (passDb .running)).failed.map (·.1) = [1] ∧
      (autoscaleTick {} sampleMetrics 7 0 Dict.empty (passDb .running)).actions.map (·.1) = [2] ∧
      FailedUntouched (passDb .running)
        (autoscaleTick {} sampleMetrics 7 0 Dict.empty (passDb .running)) :=
  ⟨by decide, by decide, by decide +kernel, by decide +kernel,
    (failedUntouched_iff {} sampleMetrics 7 0 Dict.empty (by decide) (by decide)).mpr
      (by decide +kernel)⟩

/-- **A failed scale is committed**: the replica of the busy deployment has failed and
is stopped before the allocation raises, and the commit of the idle deployment's
scale stores that. -/
theorem failed_scale_is_committed :
    ¬ ∀ (s : Settings) (m : Metrics) (clock : ℕ) (now : ℚ) (cooldown : Dict Uuid ℚ) (db : Db),
      (db.instances.map (·.id)).Nodup → (db.deployments.map (·.id)).Nodup →
        FailedUntouched db (autoscaleTick s m clock now cooldown db) := by
  intro h
  have hpass := h {} sampleMetrics 7 0 Dict.empty (passDb .error) (by decide) (by decide)
  unfold FailedUntouched at hpass
  revert hpass
  decide +kernel

end Inferna
