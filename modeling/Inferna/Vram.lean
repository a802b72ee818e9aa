import Inferna.Moves

/-!
# GPU memory over whole runs

The allocators place a row only where the live rows leave room for it.  A row
that is not live takes no room, and two things make it live again without asking
an allocator: a Sync that reports its container up after a restart, and a late
report of a container that was taken for lost.

## Main definitions

* `committedMb` — the memory of the live rows that list a GPU.
* `revivedMb`, `stayingMb` — the memory of the rows a Sync makes live, and of the
  rows it leaves live.
* `SyncFits` — a Sync makes rows live only where they fit beside the rows that
  stay live.

## Main results

* `committedMb_le_of_syncFits` — **no GPU is over-committed in any state of a run
  whose Syncs fit.**
* `restart_overcommits` — a restart followed by a deploy over-commits.
-/

namespace Inferna

open Run

/-! ### Memory on a GPU -/

/-- The memory that the live rows listing a GPU need. -/
def committedMb (db : Db) (w : Uuid) (index : ℕ) : ℕ :=
  ((db.instances.filter fun i =>
    i.workerId = some w ∧ i.state.isLive ∧ index ∈ i.gpuIndexes).map db.vramOf).sum

/-- What one row of a worker takes on a GPU, if `p` holds of it. -/
def rowMb (db : Db) (w : Uuid) (index : ℕ) (p : Instance → Bool) (i : Instance) : ℕ :=
  if i.workerId = some w ∧ p i then i.gpuIndexes.count index * db.vramOf i else 0

/-- What the rows of a worker with `p` take on a GPU. -/
def loadMb (db : Db) (w : Uuid) (index : ℕ) (p : Instance → Bool) : ℕ :=
  (db.instances.map (rowMb db w index p)).sum

theorem sum_filter_map {α : Type} (xs : List α) (p : α → Bool) (f : α → ℕ) :
    ((xs.filter p).map f).sum = (xs.map fun x => if p x then f x else 0).sum := by
  induction xs with
  | nil => rfl
  | cons x xs ih =>
    by_cases hx : p x = true
    · rw [List.filter_cons_of_pos hx, List.map_cons, List.map_cons, List.sum_cons, List.sum_cons,
        ih, if_pos hx]
    · rw [List.filter_cons_of_neg hx, List.map_cons, List.sum_cons, ih, if_neg hx, Nat.zero_add]

/-- The allocators' usage, as a sum over all rows. -/
theorem usage_eq_loadMb (db : Db) (w : Uuid) (index : ℕ) :
    usage db w index = loadMb db w index Instance.live := by
  unfold usage loadMb liveInstances
  rw [getD_gpuUsage, sum_filter_map]
  apply congrArg List.sum
  apply List.map_congr_left
  intro i _
  by_cases h : i.workerId = some w ∧ i.state.isLive = true <;> simp [rowMb, Instance.live, h]

/-- The memory committed on a GPU is at most the allocators' usage, which counts a
row as often as it lists the GPU. -/
theorem committedMb_le_usage (db : Db) (w : Uuid) (index : ℕ) :
    committedMb db w index ≤ usage db w index := by
  rw [usage_eq_loadMb]
  unfold committedMb loadMb
  rw [sum_filter_map]
  apply List.sum_le_sum
  intro i _
  unfold rowMb Instance.live
  by_cases h : i.workerId = some w ∧ i.state.isLive ∧ index ∈ i.gpuIndexes
  · have hcount : 1 ≤ i.gpuIndexes.count index := List.count_pos_iff.mpr h.2.2
    rw [if_pos (by simpa using h), if_pos ⟨h.1, h.2.1⟩]
    calc db.vramOf i = 1 * db.vramOf i := (one_mul _).symm
      _ ≤ i.gpuIndexes.count index * db.vramOf i := Nat.mul_le_mul_right _ hcount
  · rw [if_neg (by simpa using h)]
    exact Nat.zero_le _

theorem vramOf_congr {db db' : Db} (hmodels : db'.models = db.models) {i j : Instance}
    (hmodel : j.modelId = i.modelId) : db'.vramOf j = db.vramOf i := by
  simp only [Db.vramOf, Db.findModel, hmodels, hmodel]

/-- Writing a row does not raise what it takes unless it makes the row count. -/
theorem rowMb_congr {db db' : Db} (hmodels : db'.models = db.models) {w : Uuid} {index : ℕ}
    {p q : Instance → Bool} {i j : Instance} (hplace : j.workerId = i.workerId)
    (hgpus : j.gpuIndexes = i.gpuIndexes) (hmodel : j.modelId = i.modelId)
    (hp : i.workerId = some w → q j = p i) : rowMb db' w index q j = rowMb db w index p i := by
  unfold rowMb
  rw [hplace, hgpus, vramOf_congr hmodels hmodel]
  by_cases hw : i.workerId = some w
  · rw [hp hw]
  · simp [hw]

/-! ### The invariant -/

/-- The invariant: the GPU rows come from the workers' fixed lists, and no GPU of
such a list is over-committed. -/
structure VramInv (env : Env) (db : Db) : Prop where
  keyed : db.Keyed
  known : ∀ v ∈ db.workers, ∀ g ∈ v.gpus, g ∈ env.gpuList v.id
  fits : ∀ w, ∀ g ∈ env.gpuList w, usage db w g.index ≤ g.vramMb

/-- A worker's list has one GPU for each index. -/
theorem gpu_eq_of_index {env : Env} {w : Uuid} {g h : Gpu} (hg : g ∈ env.gpuList w)
    (hh : h ∈ env.gpuList w) (hidx : g.index = h.index) : g = h :=
  List.inj_on_of_nodup_map (env.gpuList_nodup w) hg hh hidx

/-- The rows of a placement add what their slots list. -/
theorem sum_rowMb_placed {db db' : Db} (hmodels : db'.models = db.models) {vram : ℕ} {w : Uuid}
    {index : ℕ} : ∀ {rows : List Instance} {slots : List Slot},
      rows.map Instance.place = slots.map Slot.place → (∀ r ∈ rows, db.vramOf r = vram) →
      (∀ r ∈ rows, r.state = .scheduled ∧ r.desiredState = .running) →
      (rows.map (rowMb db' w index Instance.live)).sum = listed slots w index * vram := by
  intro rows
  induction rows with
  | nil =>
    intro slots hplace _ _
    have hnil : slots = [] := List.map_eq_nil_iff.mp hplace.symm
    subst hnil
    simp
  | cons r rows ih =>
    intro slots hplace hvram hstate
    cases slots with
    | nil => cases hplace
    | cons sl slots =>
      rw [List.map_cons, List.map_cons, List.cons.injEq] at hplace
      have htail := ih hplace.2 (fun r' h' => hvram r' (List.mem_cons_of_mem _ h'))
        (fun r' h' => hstate r' (List.mem_cons_of_mem _ h'))
      have hworker : r.workerId = some sl.workerId := congrArg Prod.fst hplace.1
      have hgpus : r.gpuIndexes = sl.gpuIndexes := congrArg (fun x => x.2.1) hplace.1
      have hrow : rowMb db' w index Instance.live r =
          (if sl.workerId = w then sl.gpuIndexes.count index else 0) * vram := by
        unfold rowMb Instance.live
        rw [vramOf_congr hmodels rfl, hvram r List.mem_cons_self, hworker, hgpus,
          (hstate r List.mem_cons_self).1]
        by_cases hw : sl.workerId = w
        · simp [hw]
        · simp [hw]
      rw [List.map_cons, List.sum_cons, htail, hrow, listed_cons]
      ring

/-- A placement leaves every GPU within its memory. -/
theorem usage_place_le {env : Env} {db db' : Db} {rows : List Instance} (hinv : VramInv env db)
    (hnew : NewRows env.settings db rows) (hrows : db'.instances = db.instances ++ rows)
    (hmodels : db'.models = db.models) {w : Uuid} {g : Gpu} (hg : g ∈ env.gpuList w) :
    usage db' w g.index ≤ g.vramMb := by
  obtain ⟨vram, slots, hplaced, hplace, hvram⟩ := hnew.placed
  have hold : (db.instances.map (rowMb db' w g.index Instance.live)).sum = usage db w g.index := by
    rw [usage_eq_loadMb]
    unfold loadMb
    apply congrArg List.sum
    apply List.map_congr_left
    intro i _
    exact rowMb_congr hmodels rfl rfl rfl (fun _ => rfl)
  have hsum : usage db' w g.index = usage db w g.index + listed slots w g.index * vram := by
    rw [usage_eq_loadMb]
    unfold loadMb
    rw [hrows, List.map_append, List.sum_append, hold,
      sum_rowMb_placed hmodels hplace hvram hnew.scheduled]
  rw [hsum]
  by_cases hpos : 0 < listed slots w g.index
  · -- the GPU the allocator looked at is the one of the worker's list
    obtain ⟨v, hv, rfl, g', hg', hidx, hroom⟩ := hplaced.roomy w g.index hpos
    have heq : g' = g := gpu_eq_of_index (hinv.known v hv g' hg') hg hidx
    exact heq ▸ hroom
  · have hzero : listed slots w g.index = 0 := by omega
    rw [hzero, zero_mul, Nat.add_zero]
    exact hinv.fits w g hg

/-- Rows that are written so that none becomes live need no more memory. -/
theorem loadMb_map_le {db db' : Db} {f : Instance → Instance} {w : Uuid} {index : ℕ}
    (hmodels : db'.models = db.models) (hrows : db'.instances = db.instances.map f)
    (hplace : ∀ i, (f i).workerId = i.workerId ∧ (f i).gpuIndexes = i.gpuIndexes ∧
      (f i).modelId = i.modelId)
    (hlive : ∀ i, (f i).live = true → i.live = true) :
    loadMb db' w index Instance.live ≤ loadMb db w index Instance.live := by
  unfold loadMb
  rw [hrows, List.map_map]
  apply List.sum_le_sum
  intro i _
  obtain ⟨h1, h2, h3⟩ := hplace i
  simp only [Function.comp_apply]
  by_cases hl : (f i).live = true
  · exact le_of_eq (rowMb_congr hmodels h1 h2 h3 (fun _ => by rw [hl, hlive i hl]))
  · unfold rowMb
    simp [hl]

/-- Such a write keeps the GPUs from being over-committed. -/
theorem VramInv.fits_map {env : Env} {db db' : Db} (hinv : VramInv env db)
    {f : Instance → Instance} (hmodels : db'.models = db.models)
    (hrows : db'.instances = db.instances.map f)
    (hplace : ∀ i, (f i).workerId = i.workerId ∧ (f i).gpuIndexes = i.gpuIndexes ∧
      (f i).modelId = i.modelId)
    (hlive : ∀ i, (f i).live = true → i.live = true) :
    ∀ w, ∀ g ∈ env.gpuList w, usage db' w g.index ≤ g.vramMb := by
  intro w g hg
  refine le_trans ?_ (hinv.fits w g hg)
  rw [usage_eq_loadMb, usage_eq_loadMb]
  exact loadMb_map_le hmodels hrows hplace hlive

theorem vramInv_of_move {env : Env} {db db' : Db} (h : ServerMove env.settings db db')
    (hinv : VramInv env db) : VramInv env db' := by
  have hkeyed := keyed_of_move h hinv.keyed
  cases h with
  | stop p =>
    refine ⟨hkeyed, hinv.known, hinv.fits_map rfl rfl ?_ ?_⟩
    · intro i
      split <;> exact ⟨rfl, rfl, rfl⟩
    · intro i hl
      split at hl <;> exact hl
  | place h =>
    refine ⟨hkeyed, ?_, ?_⟩
    · rw [h.workers]
      exact hinv.known
    · intro w g hg
      exact usage_place_le hinv h.new h.inserted h.models hg
  | tables hrows hworkers hmodels _ huuid =>
    refine ⟨hkeyed, ?_, ?_⟩
    · intro v hv g hg
      obtain ⟨u, hu, hid, hgu⟩ := hworkers.2 v hv g hg
      exact hid ▸ hinv.known u hu g hgu
    · intro w g hg
      refine le_trans ?_ (hinv.fits w g hg)
      rw [usage_eq_loadMb, usage_eq_loadMb]
      unfold loadMb
      have hsub : (db'.instances.map (rowMb db' w g.index Instance.live)).Sublist
          (db.instances.map (rowMb db w g.index Instance.live)) := by
        have hfun : rowMb db' w g.index Instance.live = rowMb db w g.index Instance.live := by
          funext i
          exact rowMb_congr hmodels rfl rfl rfl (fun _ => rfl)
        rw [hfun]
        exact hrows.map _
      exact hsub.sum_le_sum (fun _ _ => Nat.zero_le _)
  | disconnect now =>
    refine ⟨hkeyed, ?_, ?_⟩
    · intro v hv g hg
      obtain ⟨u, hu, rfl⟩ := List.mem_map.mp hv
      split at hg
      · rename_i hstale
        rw [if_pos hstale]
        exact hinv.known u hu g hg
      · rename_i hstale
        rw [if_neg hstale]
        exact hinv.known u hu g hg
    · refine hinv.fits_map rfl rfl ?_ ?_
      · intro i
        split <;> exact ⟨rfl, rfl, rfl⟩
      · intro i hl
        split at hl
        · cases hl
        · exact hl

/-! ### Sync -/

/-- The memory of the rows that a Sync of the worker makes live on a GPU. -/
def revivedMb (wd : World) (w : Uuid) (index : ℕ) : ℕ :=
  loadMb wd.db w index (revives (wd.hosts w))

/-- The memory of the rows that a Sync of the worker leaves live on a GPU. -/
def stayingMb (wd : World) (w : Uuid) (index : ℕ) : ℕ :=
  loadMb wd.db w index (stays (wd.hosts w))

/-- The rows that a Sync makes live fit beside the rows that stay live. -/
def SyncFits (env : Env) (wd : World) (w : Uuid) : Prop :=
  ∀ g ∈ env.gpuList w, 0 < revivedMb wd w g.index →
    stayingMb wd w g.index + revivedMb wd w g.index ≤ g.vramMb

/-- Every step is allowed but a Sync that does not fit. -/
def VramStep (env : Env) (wd : World) : Step → Prop
  | .sync w _ => SyncFits env wd w
  | _ => True

instance (env : Env) (wd : World) (w : Uuid) : Decidable (SyncFits env wd w) :=
  inferInstanceAs (Decidable (∀ g ∈ _, _))

instance (env : Env) (wd : World) (a : Step) : Decidable (VramStep env wd a) :=
  match a with
  | .sync w _ => inferInstanceAs (Decidable (SyncFits env wd w))
  | .deploy _ _ | .scale _ _ _ | .setRange _ _ _ | .autoscaleTick _ _ _ | .stop _ | .restart _
  | .deleteInstance _ | .deleteDeployment _ | .register _ _ _ | .markDisconnected _
  | .applyNext _ | .probe _ _ _ | .containerExit _ _ | .restartWorker _ => isTrue trivial

/-- What a row takes after a Sync. -/
theorem rowMb_storeReports (env : Env) (wd : World) (w now index : ℕ) (i : Instance) :
    rowMb (storeReports wd.db (wd.syncRequest env w) w now) w index Instance.live
        (applyStatuses (wd.syncRequest env w) w i) =
      rowMb wd.db w index (stays (wd.hosts w)) i + rowMb wd.db w index (revives (wd.hosts w)) i := by
  have hworker := applyStatuses_keeps (·.workerId) (fun _ _ => rfl) (wd.syncRequest env w) w i
  have hgpus := applyStatuses_keeps (·.gpuIndexes) (fun _ _ => rfl) (wd.syncRequest env w) w i
  have hmodel := applyStatuses_keeps (·.modelId) (fun _ _ => rfl) (wd.syncRequest env w) w i
  have hlive : rowMb (storeReports wd.db (wd.syncRequest env w) w now) w index Instance.live
      (applyStatuses (wd.syncRequest env w) w i) =
      rowMb wd.db w index (fun j => revives (wd.hosts w) j || stays (wd.hosts w) j) i := by
    refine rowMb_congr ?_ hworker hgpus hmodel (fun hw => live_applyStatuses env wd hw)
    rfl
  rw [hlive]
  unfold rowMb
  by_cases hw : i.workerId = some w
  · -- a row cannot both stay live and become live
    have hexcl : ¬ (revives (wd.hosts w) i = true ∧ stays (wd.hosts w) i = true) := by
      unfold revives stays
      cases i.state.isLive <;> simp
    cases hr : revives (wd.hosts w) i <;> cases hs : stays (wd.hosts w) i <;> simp_all
  · simp [hw]

/-- A GPU row after a Sync is one of the worker's list. -/
theorem mem_of_mem_upsertGpus {existing reported : List Gpu} {g : Gpu}
    (h : g ∈ upsertGpus existing reported) : g ∈ reported := by
  unfold upsertGpus at h
  rcases List.mem_append.mp h with h | h
  · obtain ⟨e, he, rfl⟩ := List.mem_map.mp h
    rw [List.mem_filter, decide_eq_true_eq] at he
    cases hf : reported.reverse.find? (·.index = e.index) with
    | none =>
      -- the row survived because its index is reported
      obtain ⟨r, hr, hidx⟩ := List.mem_map.mp he.2
      have := List.find?_eq_none.mp hf r (List.mem_reverse.mpr hr)
      simp [hidx] at this
    | some r =>
      rw [Option.getD_some]
      exact List.mem_reverse.mp (List.mem_of_find?_eq_some hf)
  · exact List.mem_of_mem_filter h

/-- After its Sync a worker uses what stays live and what has become live. -/
theorem usage_storeReports_self {env : Env} {wd : World} (w : Uuid) (now index : ℕ) :
    usage (storeReports wd.db (wd.syncRequest env w) w now) w index =
      stayingMb wd w index + revivedMb wd w index := by
  rw [usage_eq_loadMb]
  unfold stayingMb revivedMb loadMb
  rw [← List.sum_map_add]
  simp only [storeReports, List.map_map]
  apply congrArg List.sum
  apply List.map_congr_left
  intro i _
  exact rowMb_storeReports env wd w now index i

/-- The rows of another worker are not touched. -/
theorem usage_storeReports_of_ne {env : Env} {wd : World} {w v : Uuid} (hv : v ≠ w)
    (now index : ℕ) :
    usage (storeReports wd.db (wd.syncRequest env w) w now) v index = usage wd.db v index := by
  rw [usage_eq_loadMb, usage_eq_loadMb]
  unfold loadMb
  simp only [storeReports, List.map_map]
  apply congrArg List.sum
  apply List.map_congr_left
  intro i _
  simp only [Function.comp_apply]
  refine rowMb_congr rfl (applyStatuses_keeps (·.workerId) (fun _ _ => rfl) _ w i)
    (applyStatuses_keeps (·.gpuIndexes) (fun _ _ => rfl) _ w i)
    (applyStatuses_keeps (·.modelId) (fun _ _ => rfl) _ w i) ?_
  intro hi
  have hne : ¬ i.workerId = some w := by
    rw [hi]
    intro heq
    exact hv (Option.some.inj heq)
  rw [applyStatuses_syncRequest, if_neg hne]

/-- The rows that stay live were counted before the Sync. -/
theorem stayingMb_le_usage (wd : World) (w : Uuid) (index : ℕ) :
    stayingMb wd w index ≤ usage wd.db w index := by
  rw [usage_eq_loadMb]
  unfold stayingMb loadMb
  apply List.sum_le_sum
  intro i _
  unfold rowMb
  by_cases hs : i.workerId = some w ∧ stays (wd.hosts w) i = true
  · have hl : i.live = true := by
      have := hs.2
      unfold stays at this
      rw [Bool.and_eq_true] at this
      exact this.1
    rw [if_pos hs, if_pos ⟨hs.1, hl⟩]
  · rw [if_neg hs]
    exact Nat.zero_le _

theorem vramInv_storeReports {env : Env} {wd : World} (hinv : VramInv env wd.db) {w : Uuid}
    (now : ℕ) (hfits : SyncFits env wd w) :
    VramInv env (storeReports wd.db (wd.syncRequest env w) w now) := by
  refine ⟨keyed_storeReports hinv.keyed _ w now, ?_, ?_⟩
  · intro v hv g hg
    obtain ⟨u, hu, rfl⟩ := List.mem_map.mp hv
    split at hg
    · rename_i hid
      rw [if_pos hid]
      have hmem := mem_of_mem_upsertGpus hg
      exact hid ▸ hmem
    · rename_i hid
      rw [if_neg hid]
      exact hinv.known u hu g hg
  · intro v g hg
    by_cases hv : v = w
    · subst hv
      rw [usage_storeReports_self]
      by_cases hpos : 0 < revivedMb wd v g.index
      · exact hfits g hg hpos
      · -- nothing became live here
        have hstay := stayingMb_le_usage wd v g.index
        have hused := hinv.fits v g hg
        omega
    · rw [usage_storeReports_of_ne hv]
      exact hinv.fits v g hg

/-! ### Runs -/

theorem vramInv_next {env : Env} (wd : World) (a : Step) (hinv : VramInv env wd.db)
    (hok : VramStep env wd a) : VramInv env (wd.next env a).db := by
  rcases next_db_cases env wd a hinv.keyed.workers with ⟨id, rfl, h⟩ | ⟨w, now, rfl, h⟩ | h
  · -- a restart leaves the state column alone
    rw [h]
    have hkeyed := keyed_next env wd (.restart id) hinv.keyed
    refine ⟨h ▸ hkeyed, hinv.known, hinv.fits_map rfl rfl ?_ ?_⟩
    · intro i
      split <;> exact ⟨rfl, rfl, rfl⟩
    · intro i hl
      split at hl <;> exact hl
  · rw [h.1]
    exact vramInv_storeReports hinv now hok
  · exact h.preserves (fun _ _ => vramInv_of_move) hinv

theorem World.Initial.vramInv {env : Env} {wd : World} (h : wd.Initial) : VramInv env wd.db where
  keyed := h.keyed
  known := by rw [h.workers]; exact fun _ hv => absurd hv List.not_mem_nil
  fits := by
    intro w g _
    rw [usage_eq_loadMb]
    unfold loadMb
    rw [h.instances]
    exact Nat.zero_le _

/-- **GPU memory is never over-committed while Syncs fit.**  In every state of a
run of any steps from a fresh server, in which a Sync makes rows live only where
they fit beside those that stay live, the live rows on each GPU need at most its
memory. -/
theorem committedMb_le_of_syncFits (env : Env) (wd : World) (h0 : wd.Initial) (as : List Step)
    (hok : Conforms (World.next env) (VramStep env) wd as) :
    ∀ w ∈ (exec (World.next env) wd as).db.workers, ∀ g ∈ w.gpus,
      committedMb (exec (World.next env) wd as).db w.id g.index ≤ g.vramMb := by
  have hinv : VramInv env (exec (World.next env) wd as).db :=
    invariant_of_conforms (fun wd => VramInv env wd.db)
      (fun wd a hinv hstep => vramInv_next wd a hinv hstep) as wd h0.vramInv hok
  intro w hw g hg
  exact le_trans (committedMb_le_usage _ _ _) (hinv.fits w.id g (hinv.known w hw g hg))

/-- The bound at work on a run that deploys and serves one replica. -/
theorem committedMb_le_sampleServe :
    sampleWorld.Initial ∧ Conforms (World.next sampleEnv) (VramStep sampleEnv) sampleWorld sampleServe ∧
      ∀ w ∈ (exec (World.next sampleEnv) sampleWorld sampleServe).db.workers, ∀ g ∈ w.gpus,
        committedMb (exec (World.next sampleEnv) sampleWorld sampleServe).db w.id g.index ≤ g.vramMb :=
  ⟨sampleWorld_initial, by decide +kernel,
    committedMb_le_of_syncFits sampleEnv sampleWorld sampleWorld_initial sampleServe
      (by decide +kernel)⟩

/-- The replica is stopped and restarted; before its container is up again, a
second replica takes the GPU, and then both start. -/
def restartRun : List Step :=
  sampleStopped ++ [.restart 3, sampleDeploy, .sync 1 5, .applyNext 1, .applyNext 1, .applyNext 1,
    .sync 1 6]

/-- **A restart over-commits.**  After `restartRun` the live rows on the only GPU
need 20 MB of its 10. -/
theorem restart_overcommits :
    ¬ ∀ (env : Env) (wd : World), wd.Initial → ∀ as : List Step,
      ∀ w ∈ (exec (World.next env) wd as).db.workers, ∀ g ∈ w.gpus,
        committedMb (exec (World.next env) wd as).db w.id g.index ≤ g.vramMb := by
  intro h
  have hrun := h sampleEnv sampleWorld sampleWorld_initial restartRun
  revert hrun
  decide +kernel

end Inferna
