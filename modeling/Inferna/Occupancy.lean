import Inferna.Clusters
import Inferna.Lib.Tally
import Inferna.Lib.Run

/-!
# GPU occupancy

`sample_occupancy` of `services/usage.py`: every interval the flush loop charges each live
instance the interval for each of its GPUs, to its model and cluster on the current day.  The
sample comes after the flush of the usage, so that a flush that raises skips it, and it counts
when its commit does.

The table has a unique key of model, cluster and day, which `scalar_one_or_none` relies on.

## Main definitions

* `perKey` — the seconds of one sample, by model and cluster.
* `addSeconds`, `sampleOccupancy` — one row, and the whole sample.
* `OccupancyTick`, `Meter.step` — what a turn of the loop finds, and what it does.

## Main results

* `sampleOccupancy_spec` — a sample keeps the key and adds its seconds.
* `occupancy_metered` — **over every run of the loop the table holds, for any set of models,
  clusters and days, the interval for every GPU of a live instance at every sample that counted.**
-/

namespace Inferna

/-! ### One sample -/

/-- `USAGE_FLUSH_INTERVAL_SECONDS`. -/
def usageFlushIntervalSeconds : ℚ := 30

/-- Model and cluster. -/
abbrev OccupancyKey := Uuid × Uuid

/-- The seconds of a sample. -/
def occupied (interval : ℚ) (i : Instance) : ℚ :=
  if i.state.isLive then interval * i.gpuIndexes.length else 0

/-- The seconds of one sample, by model and cluster. -/
def perKey (interval : ℚ) (instances : List Instance) : Dict OccupancyKey ℚ :=
  (instances.filter (·.state.isLive)).foldl (fun d i =>
    if i.gpuIndexes.length = 0 then d
    else d.add (i.modelId, i.clusterId) (interval * i.gpuIndexes.length)) Dict.empty

/-- What a sample can raise by itself. -/
inductive SampleError
  /-- `MultipleResultsFound`, of `scalar_one_or_none`. -/
  | multipleResultsFound
  deriving DecidableEq, Repr

/-- The unique key of a row. -/
def GpuUsageRecord.key (r : GpuUsageRecord) : OccupancyKey × ℕ := ((r.modelId, r.clusterId), r.periodStart)

/-- `uuid4()`, which no row carries. -/
def nextRecordId (rows : List GpuUsageRecord) : Uuid := (rows.map (·.id)).foldr max 0 + 1

/-- One row of the sample: update the row of the day, or insert it. -/
def addSeconds (day : ℕ) (rows : List GpuUsageRecord) (e : OccupancyKey × ℚ) :
    Except SampleError (List GpuUsageRecord) :=
  match rows.filter (·.key = (e.1, day)) with
  | [] =>
    .ok (rows ++ [{ id := nextRecordId rows, modelId := e.1.1, clusterId := e.1.2,
                    periodStart := day, gpuSeconds := e.2 }])
  | [row] =>
    .ok (rows.map fun r => if r.id = row.id then { r with gpuSeconds := r.gpuSeconds + e.2 } else r)
  | _ => .error .multipleResultsFound

/-- `sample_occupancy`, up to its commit. -/
def sampleOccupancy (interval : ℚ) (day : ℕ) (instances : List Instance)
    (rows : List GpuUsageRecord) : Except SampleError (List GpuUsageRecord) :=
  (perKey interval instances).entries.foldlM (addSeconds day) rows

/-! ### The loop -/

/-- What a turn of `usage_flush_loop` finds. -/
structure OccupancyTick where
  day : ℕ
  /-- The table `model_instances`. -/
  instances : List Instance
  /-- `flush_usage` returns. -/
  flushed : Bool := true
  /-- The commit of the sample returns. -/
  committed : Bool := true

/-- The table `gpu_usage_records`, and the samples that raised by themselves. -/
structure Meter where
  rows : List GpuUsageRecord := []
  raised : List SampleError := []

/-- One turn of the loop; what it raises is logged. -/
def Meter.step (s : Meter) (t : OccupancyTick) : Meter :=
  if t.flushed then
    match sampleOccupancy usageFlushIntervalSeconds t.day t.instances s.rows with
    | .error e => { s with raised := s.raised ++ [e] }
    | .ok rows => if t.committed then { s with rows } else s
  else s

/-! ### The key of the table -/

/-- Ids and keys are unique. -/
structure RowsOk (rows : List GpuUsageRecord) : Prop where
  ids : (rows.map (·.id)).Nodup
  keys : (rows.map (·.key)).Nodup

/-- The seconds of the rows of a set of keys. -/
def secondsOf (p : OccupancyKey × ℕ → Bool) (rows : List GpuUsageRecord) : ℚ :=
  ((rows.filter fun r => p r.key).map (·.gpuSeconds)).sum

theorem secondsOf_cons (p : OccupancyKey × ℕ → Bool) (r : GpuUsageRecord)
    (rows : List GpuUsageRecord) :
    secondsOf p (r :: rows) = (if p r.key then r.gpuSeconds else 0) + secondsOf p rows := by
  unfold secondsOf
  rw [List.filter_cons]
  split
  · rw [List.map_cons, List.sum_cons]
  · rw [zero_add]

theorem secondsOf_append (p : OccupancyKey × ℕ → Bool) (rows rows' : List GpuUsageRecord) :
    secondsOf p (rows ++ rows') = secondsOf p rows + secondsOf p rows' := by
  unfold secondsOf
  rw [List.filter_append, List.map_append, List.sum_append]

theorem nextRecordId_notMem (rows : List GpuUsageRecord) : nextRecordId rows ∉ rows.map (·.id) := by
  have hle : ∀ (l : List ℕ), ∀ u ∈ l, u ≤ l.foldr max 0 := by
    intro l
    induction l with
    | nil => intro u hu; cases hu
    | cons a l ih =>
      intro u hu
      rcases List.mem_cons.mp hu with rfl | hu
      · exact le_max_left _ _
      · exact le_trans (ih u hu) (le_max_right _ _)
  intro hmem
  exact absurd (hle _ _ hmem) (Nat.not_succ_le_self _)

/-- The rows with seconds added to one of them. -/
theorem secondsOf_update (p : OccupancyKey × ℕ → Bool) (seconds : ℚ) {row : GpuUsageRecord} :
    ∀ rows : List GpuUsageRecord, (rows.map (·.id)).Nodup → row ∈ rows →
      secondsOf p (rows.map fun r =>
          if r.id = row.id then { r with gpuSeconds := r.gpuSeconds + seconds } else r) =
        secondsOf p rows + if p row.key then seconds else 0 := by
  intro rows
  induction rows with
  | nil => intro _ h; cases h
  | cons r rows ih =>
    intro hnd hmem
    rw [List.map_cons, List.nodup_cons] at hnd
    rw [List.map_cons, secondsOf_cons, secondsOf_cons]
    rcases List.mem_cons.mp hmem with rfl | hmem
    · -- no other row has its id
      have hrest : (rows.map fun r =>
          if r.id = row.id then { r with gpuSeconds := r.gpuSeconds + seconds } else r) = rows := by
        conv_rhs => rw [← List.map_id rows]
        refine List.map_congr_left fun x hx => if_neg fun hid => hnd.1 ?_
        exact hid ▸ List.mem_map_of_mem hx
      rw [hrest, if_pos rfl]
      show (if p row.key then row.gpuSeconds + seconds else 0) + _ = _
      split <;> ring
    · have hne : r.id ≠ row.id := fun hid => hnd.1 (hid ▸ List.mem_map_of_mem hmem)
      rw [if_neg hne, ih hnd.2 hmem, add_assoc]

/-- **One row of a sample keeps the key and adds its seconds.** -/
theorem addSeconds_spec {rows : List GpuUsageRecord} (h : RowsOk rows) (day : ℕ)
    (e : OccupancyKey × ℚ) : ∃ rows', addSeconds day rows e = .ok rows' ∧ RowsOk rows' ∧
      ∀ p, secondsOf p rows' = secondsOf p rows + if p (e.1, day) then e.2 else 0 := by
  unfold addSeconds
  have hlen : (rows.filter (·.key = (e.1, day))).length ≤ 1 := by
    rw [← List.countP_eq_length_filter]
    have hcount := List.nodup_iff_count_le_one.mp h.keys (e.1, day)
    rw [List.count, List.countP_map] at hcount
    rwa [List.countP_congr (q := (· == (e.1, day)) ∘ (·.key))]
    simp
  cases hfilter : rows.filter (·.key = (e.1, day)) with
  | nil =>
    refine ⟨_, rfl, ⟨?_, ?_⟩, fun p => ?_⟩
    · rw [List.map_append, List.map_singleton, (List.perm_append_singleton _ _).nodup_iff]
      exact List.nodup_cons.mpr ⟨nextRecordId_notMem rows, h.ids⟩
    · rw [List.map_append, List.map_singleton, (List.perm_append_singleton _ _).nodup_iff]
      refine List.nodup_cons.mpr ⟨fun hmem => ?_, h.keys⟩
      obtain ⟨r, hr, hkey⟩ := List.mem_map.mp hmem
      have := List.filter_eq_nil_iff.mp hfilter r hr
      simp only [decide_eq_true_eq] at this
      exact this hkey
    · rw [secondsOf_append, secondsOf_cons]
      exact congrArg _ (add_zero _)
  | cons row rest =>
    rw [hfilter, List.length_cons] at hlen
    obtain rfl := List.length_eq_zero_iff.mp (Nat.le_zero.mp (Nat.le_of_succ_le_succ hlen))
    have hmem : row ∈ rows.filter (·.key = (e.1, day)) := hfilter ▸ List.mem_singleton.mpr rfl
    obtain ⟨hrow, hkey⟩ := List.mem_filter.mp hmem
    rw [decide_eq_true_eq] at hkey
    refine ⟨_, rfl, ⟨?_, ?_⟩, fun p => ?_⟩
    · rw [List.map_map, List.map_congr_left (g := (·.id))]
      · exact h.ids
      · intro r _
        simp only [Function.comp_apply]
        split <;> rfl
    · rw [List.map_map, List.map_congr_left (g := (·.key))]
      · exact h.keys
      · intro r _
        simp only [Function.comp_apply]
        split <;> rfl
    · rw [secondsOf_update p e.2 rows h.ids hrow, hkey]

/-! ### A whole sample -/

/-- The seconds that a sample charges to a set of keys. -/
def charged (interval : ℚ) (p : OccupancyKey → Bool) (instances : List Instance) : ℚ :=
  ((instances.filter fun i => p (i.modelId, i.clusterId)).map (occupied interval)).sum

theorem total_perKey (interval : ℚ) (p : OccupancyKey → Bool) (instances : List Instance) :
    (perKey interval instances).total p = charged interval p instances := by
  have hgen : ∀ (l : List Instance) (d : Dict OccupancyKey ℚ),
      ((l.filter (·.state.isLive)).foldl (fun d i =>
        if i.gpuIndexes.length = 0 then d
        else d.add (i.modelId, i.clusterId) (interval * i.gpuIndexes.length)) d).total p =
      d.total p + charged interval p l := by
    intro l
    induction l with
    | nil => intro d; exact (add_zero _).symm
    | cons i l ih =>
      intro d
      have hcharged : charged interval p (i :: l) =
          (if p (i.modelId, i.clusterId) then occupied interval i else 0) + charged interval p l := by
        unfold charged
        rw [List.filter_cons]
        split
        · rw [List.map_cons, List.sum_cons]
        · rw [zero_add]
      rw [hcharged]
      unfold occupied
      by_cases hlive : i.state.isLive = true
      · rw [List.filter_cons_of_pos (by simpa using hlive), List.foldl_cons, ih, if_pos hlive]
        by_cases hlen : i.gpuIndexes.length = 0
        · rw [if_pos hlen, hlen]
          simp
        · rw [if_neg hlen, Dict.total_add, add_assoc]
      · rw [List.filter_cons_of_neg (by simpa using hlive), ih, if_neg hlive]
        simp
  rw [perKey, hgen, Dict.total_empty, zero_add]

/-- **A sample never raises by itself, keeps the key and adds its seconds.** -/
theorem sampleOccupancy_spec {rows : List GpuUsageRecord} (h : RowsOk rows) (interval : ℚ)
    (day : ℕ) (instances : List Instance) :
    ∃ rows', sampleOccupancy interval day instances rows = .ok rows' ∧ RowsOk rows' ∧
      ∀ p, secondsOf p rows' =
        secondsOf p rows + charged interval (fun k => p (k, day)) instances := by
  have hgen : ∀ (es : List (OccupancyKey × ℚ)) {rows : List GpuUsageRecord}, RowsOk rows →
      ∃ rows', es.foldlM (addSeconds day) rows = .ok rows' ∧ RowsOk rows' ∧
        ∀ p, secondsOf p rows' = secondsOf p rows + Dict.sumEntries (fun k => p (k, day)) es := by
    intro es
    induction es with
    | nil => exact fun {rows} h => ⟨rows, rfl, h, fun p => (add_zero _).symm⟩
    | cons e es ih =>
      intro rows h
      obtain ⟨rows₁, hone, hok₁, hsum₁⟩ := addSeconds_spec h day e
      obtain ⟨rows₂, hrest, hok₂, hsum₂⟩ := ih hok₁
      refine ⟨rows₂, ?_, hok₂, fun p => ?_⟩
      · rw [List.foldlM_cons, hone]
        exact hrest
      · rw [hsum₂, hsum₁, Dict.sumEntries_cons, add_assoc]
  obtain ⟨rows', hok, hrows, hsum⟩ := hgen (perKey interval instances).entries h
  refine ⟨rows', hok, hrows, fun p => ?_⟩
  rw [hsum, ← total_perKey]
  rfl

/-! ### Every run of the loop -/

/-- The sample of a turn counts. -/
def OccupancyTick.counts (t : OccupancyTick) : Bool := t.flushed && t.committed

/-- What the samples that counted have charged to a set of keys. -/
def metered (p : OccupancyKey × ℕ → Bool) (ticks : List OccupancyTick) : ℚ :=
  ((ticks.filter (·.counts)).map fun t =>
    charged usageFlushIntervalSeconds (fun k => p (k, t.day)) t.instances).sum

theorem Meter.step_spec {s : Meter} (h : RowsOk s.rows) (t : OccupancyTick) :
    RowsOk (s.step t).rows ∧ (s.step t).raised = s.raised ∧
      ∀ p, secondsOf p (s.step t).rows = secondsOf p s.rows + metered p [t] := by
  obtain ⟨rows', hok, hrows, hsum⟩ :=
    sampleOccupancy_spec h usageFlushIntervalSeconds t.day t.instances
  unfold Meter.step metered OccupancyTick.counts
  rw [hok]
  cases hf : t.flushed <;> cases hc : t.committed
  · simpa [hf] using h
  · simpa [hf] using h
  · simpa [hf, hc] using h
  · simpa [hf, hc] using ⟨hrows, hsum⟩

/-- A run of the loop from any table with unique keys. -/
theorem exec_meter_spec : ∀ (ticks : List OccupancyTick) (s : Meter), RowsOk s.rows →
    RowsOk (Run.exec Meter.step s ticks).rows ∧
      (Run.exec Meter.step s ticks).raised = s.raised ∧
        ∀ p, secondsOf p (Run.exec Meter.step s ticks).rows =
          secondsOf p s.rows + metered p ticks := by
  intro ticks
  induction ticks with
  | nil => exact fun s h => ⟨h, rfl, fun p => (add_zero _).symm⟩
  | cons t ticks ih =>
    intro s h
    obtain ⟨hok, hraised, hsum⟩ := Meter.step_spec h t
    obtain ⟨hok', hraised', hsum'⟩ := ih (s.step t) hok
    refine ⟨hok', hraised'.trans hraised, fun p => ?_⟩
    rw [Run.exec_cons, hsum', hsum, add_assoc]
    congr 1
    unfold metered
    rw [← List.sum_append, ← List.map_append, ← List.filter_append]
    rfl

/-- **Over every run of the loop the table keeps its key, no sample raises by itself, and for any
set of models, clusters and days the table holds the interval for every GPU of a live instance at
every sample that counted.** -/
theorem occupancy_metered (ticks : List OccupancyTick) :
    RowsOk (Run.exec Meter.step {} ticks).rows ∧ (Run.exec Meter.step {} ticks).raised = [] ∧
      ∀ p, secondsOf p (Run.exec Meter.step {} ticks).rows = metered p ticks := by
  obtain ⟨hok, hraised, hsum⟩ := exec_meter_spec ticks {} ⟨List.nodup_nil, List.nodup_nil⟩
  refine ⟨hok, hraised, fun p => ?_⟩
  rw [hsum]
  exact zero_add _

/-! ### No row is negative -/

theorem metered_nonneg (p : OccupancyKey × ℕ → Bool) (ticks : List OccupancyTick) :
    0 ≤ metered p ticks := by
  refine List.sum_nonneg fun x hx => ?_
  obtain ⟨t, -, rfl⟩ := List.mem_map.mp hx
  refine List.sum_nonneg fun y hy => ?_
  obtain ⟨i, -, rfl⟩ := List.mem_map.mp hy
  unfold occupied usageFlushIntervalSeconds
  split
  · positivity
  · exact le_rfl

/-- The seconds of a row are those of its key. -/
theorem secondsOf_key {rows : List GpuUsageRecord} (h : RowsOk rows) {r : GpuUsageRecord}
    (hr : r ∈ rows) : secondsOf (· = r.key) rows = r.gpuSeconds := by
  have hfilter : rows.filter (fun x => decide (x.key = r.key)) = [r] := by
    have hnd : (rows.filter fun x => decide (x.key = r.key)).Nodup :=
      (List.Nodup.of_map _ h.keys).filter _
    refine List.perm_singleton.mp ((List.perm_ext_iff_of_nodup hnd (List.nodup_singleton r)).mpr ?_)
    intro x
    rw [List.mem_filter, List.mem_singleton, decide_eq_true_eq]
    constructor
    · exact fun hx => List.inj_on_of_nodup_map h.keys hx.1 hr hx.2
    · rintro rfl
      exact ⟨hr, rfl⟩
  unfold secondsOf
  rw [hfilter]
  simp

theorem gpuSeconds_nonneg (ticks : List OccupancyTick) :
    ∀ r ∈ (Run.exec Meter.step {} ticks).rows, 0 ≤ r.gpuSeconds := by
  intro r hr
  obtain ⟨hok, -, hsum⟩ := exec_meter_spec ticks {} ⟨List.nodup_nil, List.nodup_nil⟩
  rw [← secondsOf_key hok hr, hsum]
  exact add_nonneg le_rfl (metered_nonneg _ ticks)

end Inferna
