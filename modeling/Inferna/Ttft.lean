import Inferna.Autoscaling
import Inferna.Lib.Quantile

/-!
# The latency signal

The autoscaler reads the 95th percentile of the time to the first token from the gateway's
histogram: cumulative counts of the finite buckets, summed over the labels of a model, with a
linear interpolation inside the bucket that the percentile falls into.  What was observed above
the last finite bound is in none of these counts.

Numbers are exact.  The registry holds what was observed; `collect` makes the samples of it, as
the metrics library defines them.

## Main definitions

* `Child`, `Registry` — the observations under their labels, and all metrics.
* `histP95`, `scanTtft`, `ttftP95Ms` — `hist_p95`, `_scan_ttft`, `_ttft_p95_ms`.
* `Honest` — the value read lies in the bucket of the percentile, or is at least the last bound.

## Main results

* `scanTtft_eq` — the scan reads the cumulative counts of all observations of the model.
* `histP95_spec` — the value is in the bucket of the percentile of what the buckets count.
* `honest_iff` — **when the value read is honest.**
-/

namespace Inferna

open Quantile

/-! ### The histogram -/

/-- `TTFT_BUCKETS`, in seconds. -/
def ttftBuckets : List ℚ :=
  [1 / 100, 1 / 40, 1 / 20, 1 / 10, 1 / 4, 1 / 2, 3 / 4, 1, 3 / 2, 5 / 2, 5, 10]

/-- A line of a metric.  The label `le` is what `float` makes of it; `none` is infinite. -/
structure MetricSample where
  name : String
  model : String
  engine : String
  parallelism : String
  le : Option ℚ
  value : ℚ

/-- A metric, as the registry collects it. -/
structure MetricFamily where
  name : String
  samples : List MetricSample

/-- The time series of one set of labels: what was observed under it. -/
structure Child where
  model : String
  engine : String
  parallelism : String
  observations : List ℚ

/-- A sample of a child. -/
def Child.sample (c : Child) (name : String) (le : Option ℚ) (value : ℚ) : MetricSample :=
  ⟨name, c.model, c.engine, c.parallelism, le, value⟩

/-- The samples of a child: the cumulative counts, then the count and the sum. -/
def Child.samples (c : Child) : List MetricSample :=
  (ttftBuckets.map fun b => c.sample "inferna_ttft_seconds_bucket" (some b)
      (cumulative c.observations b)) ++
    [c.sample "inferna_ttft_seconds_bucket" none c.observations.length,
      c.sample "inferna_ttft_seconds_count" none c.observations.length,
      c.sample "inferna_ttft_seconds_sum" none c.observations.sum]

/-- `REGISTRY`: the histogram among other metrics, which have other names. -/
structure Registry where
  children : List Child
  before : List MetricFamily
  after : List MetricFamily
  distinct : ∀ m ∈ before ++ after, m.name ≠ "inferna_ttft_seconds"

/-- `REGISTRY.collect()`. -/
def Registry.collect (r : Registry) : List MetricFamily :=
  r.before ++ ⟨"inferna_ttft_seconds", r.children.flatMap Child.samples⟩ :: r.after

/-- All observations of a model. -/
def Registry.observations (r : Registry) (modelName : String) : List ℚ :=
  (r.children.filter (·.model = modelName)).flatMap (·.observations)

/-! ### Reading it -/

/-- The loop of `hist_p95`, from the previous bound and count on; `none` falls through. -/
def interpolate (target : ℚ) : ℚ → ℚ → List (ℚ × ℚ) → Option ℚ
  | _, _, [] => none
  | previousBound, previousCount, (bound, count) :: rest =>
    if target ≤ count then
      if count = previousCount then some bound
      else some (previousBound + (bound - previousBound) *
        ((target - previousCount) / (count - previousCount)))
    else interpolate target bound count rest

/-- `hist_p95`, in milliseconds. -/
def histP95 (buckets counts : List ℚ) : Option ℚ :=
  match counts.getLast? with
  | none => none
  | some total =>
    if total ≤ 0 then none
    else some (((interpolate (95 / 100 * total) 0 0 (buckets.zip counts)).getD
      (buckets.getLastD 0)) * 1000)

/-- The totals of `_scan_ttft`, and whether a sample was seen. -/
structure ScanState where
  totals : Dict ℚ ℚ
  seen : Bool

/-- One sample of the scan. -/
def addSample (modelName : String) (st : ScanState) (s : MetricSample) : ScanState :=
  if s.name = "inferna_ttft_seconds_bucket" ∧ s.model = modelName then
    match s.le with
    | some upper =>
      match st.totals.get? upper with
      | some total => ⟨st.totals.set upper (total + s.value), true⟩
      | none => st
    | none => st
  else st

/-- `dict.fromkeys(TTFT_BUCKETS, 0.0)`. -/
def zeroTotals : Dict ℚ ℚ := ttftBuckets.foldl (fun d b => d.set b 0) Dict.empty

/-- `_scan_ttft`. -/
def scanTtft (r : Registry) (modelName : String) : Option ℚ :=
  let samples := (r.collect.filter (·.name = "inferna_ttft_seconds")).flatMap (·.samples)
  let st := samples.foldl (addSample modelName) ⟨zeroTotals, false⟩
  if st.seen then histP95 ttftBuckets (ttftBuckets.map fun b => st.totals.getD b 0) else none

/-- `REGISTRY.get_sample_value` of a bucket with the labels of a single vLLM engine. -/
def getSampleValue (r : Registry) (modelName : String) (le : ℚ) : Option ℚ :=
  ((r.collect.flatMap (·.samples)).find? fun s => s.name = "inferna_ttft_seconds_bucket" ∧
    s.model = modelName ∧ s.engine = "vllm" ∧ s.parallelism = "single" ∧ s.le = some le).map
      (·.value)

/-- `_ttft_p95_ms`. -/
def ttftP95Ms (r : Registry) (modelName : String) : Option ℚ :=
  match ttftBuckets.mapM (getSampleValue r modelName) with
  | some counts => histP95 ttftBuckets counts
  | none => scanTtft r modelName

/-- What the autoscaler's pass is given. -/
def Registry.metrics (r : Registry) (activeRequests : Uuid → Option ℚ) : Metrics :=
  ⟨ttftP95Ms r, activeRequests⟩

/-! ### The scan -/

/-- What the samples of a model add to a total. -/
def sumAt (modelName : String) (samples : List MetricSample) (b : ℚ) : ℚ :=
  ((samples.filter fun s => s.name = "inferna_ttft_seconds_bucket" ∧ s.model = modelName ∧
    s.le = some b).map (·.value)).sum

theorem sumAt_cons (modelName : String) (s : MetricSample) (samples : List MetricSample) (b : ℚ) :
    sumAt modelName (s :: samples) b =
      (if s.name = "inferna_ttft_seconds_bucket" ∧ s.model = modelName ∧ s.le = some b then s.value
        else 0) + sumAt modelName samples b := by
  unfold sumAt
  rw [List.filter_cons]
  simp only [decide_eq_true_eq]
  split
  · rw [List.map_cons, List.sum_cons]
  · rw [zero_add]

theorem sumAt_append (modelName : String) (samples samples' : List MetricSample) (b : ℚ) :
    sumAt modelName (samples ++ samples') b =
      sumAt modelName samples b + sumAt modelName samples' b := by
  simp [sumAt, List.filter_append]

/-- One sample adds to its total, if there is one. -/
theorem get?_addSample (modelName : String) (st : ScanState) (s : MetricSample) (b : ℚ) :
    (addSample modelName st s).totals.get? b = (st.totals.get? b).map (· + if s.name =
      "inferna_ttft_seconds_bucket" ∧ s.model = modelName ∧ s.le = some b then s.value else 0) := by
  have hkeep : st.totals.get? b = (st.totals.get? b).map (· + 0) := by
    cases st.totals.get? b <;> simp
  unfold addSample
  by_cases hs : s.name = "inferna_ttft_seconds_bucket" ∧ s.model = modelName
  · rw [if_pos hs]
    cases hle : s.le with
    | none => simp
    | some upper =>
      simp only [hs.1, hs.2, true_and, Option.some.injEq]
      by_cases hb : upper = b
      · subst hb
        cases ht : st.totals.get? upper with
        | none => simp [ht]
        | some total => simp
      · rw [if_neg hb]
        cases ht : st.totals.get? upper with
        -- a bound without a total stays without one
        | none => exact hkeep
        | some total =>
          simp only
          rw [Dict.get?_set_of_ne _ _ hb]
          exact hkeep
  · rw [if_neg hs, if_neg fun h => hs ⟨h.1, h.2.1⟩]
    exact hkeep

/-- The totals of a scan. -/
theorem get?_foldl_addSample (modelName : String) (samples : List MetricSample) (b : ℚ) :
    ∀ st : ScanState, (samples.foldl (addSample modelName) st).totals.get? b =
      (st.totals.get? b).map (· + sumAt modelName samples b) := by
  induction samples with
  | nil =>
    intro st
    cases h : st.totals.get? b <;> simp [sumAt, h]
  | cons s samples ih =>
    intro st
    rw [List.foldl_cons, ih, get?_addSample, Option.map_map, sumAt_cons]
    congr 1
    funext total
    simp only [Function.comp_apply, add_assoc]

/-- A sample of the model for one of the bounds is seen. -/
theorem seen_foldl_addSample {modelName : String} {s : MetricSample} {b : ℚ} (hs :
    s.name = "inferna_ttft_seconds_bucket" ∧ s.model = modelName ∧ s.le = some b) :
    ∀ (samples : List MetricSample) (st : ScanState), (st.totals.get? b).isSome →
      s ∈ samples ∨ st.seen = true → (samples.foldl (addSample modelName) st).seen = true := by
  intro samples
  induction samples with
  | nil =>
    intro st _ h
    exact h.resolve_left List.not_mem_nil
  | cons s' samples ih =>
    intro st hb h
    refine ih _ ?_ ?_
    · rw [get?_addSample, Option.isSome_map]
      exact hb
    · -- a mark that is set stays
      have hseen : st.seen = true → (addSample modelName st s').seen = true := by
        intro hseen
        unfold addSample
        split
        · split
          · split
            · rfl
            · exact hseen
          · exact hseen
        · exact hseen
      rcases h with h | h
      · rcases List.mem_cons.mp h with rfl | h
        · right
          obtain ⟨total, ht⟩ := Option.isSome_iff_exists.mp hb
          unfold addSample
          rw [if_pos ⟨hs.1, hs.2.1⟩, hs.2.2]
          simp only [ht]
        · exact Or.inl h
      · exact Or.inr (hseen h)

/-- The bucket samples of a child: one of them is about the bound. -/
theorem sumAt_bounds (modelName : String) (c : Child) (b : ℚ) (bounds : List ℚ) :
    bounds.Nodup → sumAt modelName (bounds.map fun b => c.sample "inferna_ttft_seconds_bucket"
        (some b) (cumulative c.observations b)) b =
      if c.model = modelName ∧ b ∈ bounds then (cumulative c.observations b : ℚ) else 0 := by
  induction bounds with
  | nil => simp [sumAt]
  | cons a bs ih =>
    intro hnd
    rw [List.nodup_cons] at hnd
    rw [List.map_cons, sumAt_cons, ih hnd.2]
    simp only [Child.sample, true_and, Option.some.injEq, List.mem_cons]
    by_cases hm : c.model = modelName
    · by_cases hab : a = b
      · subst hab
        simp [hm, hnd.1]
      · simp [hm, hab, Ne.symm hab]
    · simp [hm]

theorem nodup_ttftBuckets : ttftBuckets.Nodup := by decide +kernel

theorem ten_mem_ttftBuckets : 10 ∈ ttftBuckets := by decide +kernel

/-- The samples of a child add its cumulative count. -/
theorem sumAt_samples (modelName : String) (c : Child) {b : ℚ} (hb : b ∈ ttftBuckets) :
    sumAt modelName c.samples b =
      if c.model = modelName then (cumulative c.observations b : ℚ) else 0 := by
  have hrest : sumAt modelName [c.sample "inferna_ttft_seconds_bucket" none c.observations.length,
      c.sample "inferna_ttft_seconds_count" none c.observations.length,
      c.sample "inferna_ttft_seconds_sum" none c.observations.sum] b = 0 := by
    simp [sumAt, Child.sample]
  rw [Child.samples, sumAt_append, hrest, add_zero, sumAt_bounds _ _ _ _ nodup_ttftBuckets]
  simp only [hb, and_true]

/-- The totals of the scan are the cumulative counts of all observations of the model. -/
theorem sumAt_children (modelName : String) {b : ℚ} (hb : b ∈ ttftBuckets) (children : List Child) :
    sumAt modelName (children.flatMap Child.samples) b = (cumulative ((children.filter
      (·.model = modelName)).flatMap (·.observations)) b : ℚ) := by
  induction children with
  | nil => rfl
  | cons c cs ih =>
    rw [List.flatMap_cons, sumAt_append, sumAt_samples modelName c hb, ih, List.filter_cons]
    by_cases hm : c.model = modelName
    · rw [if_pos hm, if_pos (by simpa using hm), List.flatMap_cons]
      unfold cumulative
      rw [List.countP_append, Nat.cast_add]
    · rw [if_neg hm, if_neg (by simpa using hm), zero_add]

theorem get?_zeroTotals {b : ℚ} (hb : b ∈ ttftBuckets) : zeroTotals.get? b = some 0 := by
  have hall : ∀ b ∈ ttftBuckets, zeroTotals.get? b = some 0 := by decide +kernel
  exact hall b hb

/-- The samples that the scan goes through. -/
theorem samples_collect (r : Registry) :
    (r.collect.filter (·.name = "inferna_ttft_seconds")).flatMap (·.samples) =
      r.children.flatMap Child.samples := by
  have hnone : ∀ ms : List MetricFamily, (∀ m ∈ ms, m.name ≠ "inferna_ttft_seconds") →
      ms.filter (fun m => m.name = "inferna_ttft_seconds") = [] := fun ms h =>
    List.filter_eq_nil_iff.mpr fun m hm heq => h m hm (of_decide_eq_true heq)
  rw [Registry.collect, List.filter_append, List.filter_cons,
    hnone _ fun m hm => r.distinct m (List.mem_append_left _ hm),
    hnone _ fun m hm => r.distinct m (List.mem_append_right _ hm)]
  simp

/-- The totals of the scan are the cumulative counts of the model. -/
theorem map_totals_collect (r : Registry) (modelName : String) :
    ttftBuckets.map (fun b => ((r.children.flatMap Child.samples).foldl (addSample modelName)
      ⟨zeroTotals, false⟩).totals.getD b 0) =
      ttftBuckets.map fun b => (cumulative (r.observations modelName) b : ℚ) := by
  refine List.map_congr_left fun b hb => ?_
  rw [Dict.getD, get?_foldl_addSample, get?_zeroTotals hb, Option.map_some, Option.getD_some,
    zero_add, sumAt_children modelName hb]
  rfl

/-- **The scan reads the cumulative counts of all observations of the model.** -/
theorem scanTtft_eq (r : Registry) {modelName : String} (hne : r.observations modelName ≠ []) :
    scanTtft r modelName = histP95 ttftBuckets (ttftBuckets.map fun b =>
      (cumulative (r.observations modelName) b : ℚ)) := by
  -- a child of the model has a sample for each bound
  obtain ⟨x, hx⟩ := List.exists_mem_of_ne_nil _ hne
  obtain ⟨c, hc, -⟩ := List.mem_flatMap.mp hx
  rw [List.mem_filter, decide_eq_true_eq] at hc
  have hb := ten_mem_ttftBuckets
  have hs : c.sample "inferna_ttft_seconds_bucket" (some 10) (cumulative c.observations 10) ∈
      r.children.flatMap Child.samples :=
    List.mem_flatMap.mpr ⟨c, hc.1, List.mem_append_left _ (List.mem_map.mpr ⟨10, hb, rfl⟩)⟩
  have hseen := seen_foldl_addSample ⟨rfl, hc.2, rfl⟩ (r.children.flatMap Child.samples)
    ⟨zeroTotals, false⟩ (by rw [get?_zeroTotals hb]; rfl) (Or.inl hs)
  unfold scanTtft
  rw [samples_collect]
  simp only [hseen, if_true]
  rw [map_totals_collect]

/-! ### The percentile -/

/-- The rank of the 95th percentile. -/
def rank (n : ℕ) : ℕ := ⌈(95 / 100 * n : ℚ)⌉₊

theorem rank_mono {m n : ℕ} (h : m ≤ n) : rank m ≤ rank n := by
  refine Nat.ceil_mono ?_
  have hq : (m : ℚ) ≤ n := Nat.cast_le.mpr h
  linarith

theorem rank_le (n : ℕ) : rank n ≤ n := by
  rw [rank, Nat.ceil_le]
  have hq : (0 : ℚ) ≤ n := Nat.cast_nonneg n
  linarith

theorem rank_pos_iff (n : ℕ) : 1 ≤ rank n ↔ 0 < n := by
  rw [rank, Nat.one_le_ceil_iff, show 0 < n ↔ (0 : ℚ) < n from Nat.cast_pos.symm]
  constructor <;> intro h <;> linarith

/-- The interpolation is inside the bucket that holds the observation of the target's rank. -/
theorem interpolate_spec {obs : List ℚ} {target y : ℚ}
    (hy : ∀ b, target ≤ (cumulative obs b : ℚ) ↔ y ≤ b) {bounds : List ℚ} :
    ∀ {lo count : ℚ}, (lo :: bounds).Pairwise (· < ·) → count < target →
      ∀ {p : ℚ × ℚ}, bucketFrom lo bounds y = some p →
        ∃ v, interpolate target lo count
            (bounds.zip (bounds.map fun b => (cumulative obs b : ℚ))) = some v ∧
          p.1 < v ∧ v ≤ p.2 ∧ (target < cumulative obs p.2 → v < p.2) := by
  induction bounds with
  | nil => intro lo count _ _ p hp; cases hp
  | cons b bs ih =>
    intro lo count hlt hcount p hp
    rw [List.pairwise_cons] at hlt
    rw [List.map_cons, List.zip_cons_cons, interpolate]
    rw [bucketFrom] at hp
    by_cases hb : y ≤ b
    · -- the target is reached in this bucket
      rw [if_pos hb, Option.some.injEq] at hp
      subst hp
      have htarget := (hy b).mpr hb
      have hspan : 0 < (cumulative obs b : ℚ) - count := by linarith
      have hwidth : 0 < b - lo := by linarith [hlt.1 b List.mem_cons_self]
      rw [if_pos htarget, if_neg (by linarith)]
      refine ⟨_, rfl, ?_, ?_, fun h => ?_⟩
      · have := mul_pos hwidth (div_pos (sub_pos.mpr hcount) hspan)
        simp only
        linarith
      · have hle : (target - count) / ((cumulative obs b : ℚ) - count) ≤ 1 :=
          (div_le_one hspan).mpr (by linarith)
        have := mul_le_mul_of_nonneg_left hle hwidth.le
        simp only
        linarith
      · have hlt' : (target - count) / ((cumulative obs b : ℚ) - count) < 1 :=
          (div_lt_one hspan).mpr (by linarith)
        have := mul_lt_mul_of_pos_left hlt' hwidth
        simp only
        linarith
    · rw [if_neg hb] at hp
      have htarget : ¬ target ≤ (cumulative obs b : ℚ) := fun h => hb ((hy b).mp h)
      rw [if_neg htarget]
      exact ih hlt.2 (not_le.mp htarget) hp

theorem pairwise_ttftBuckets : (0 :: ttftBuckets).Pairwise (· < ·) := by decide +kernel

theorem le_ten {b : ℚ} (hb : b ∈ ttftBuckets) : b ≤ 10 := by
  have hall : ∀ b ∈ ttftBuckets, b ≤ 10 := by decide +kernel
  exact hall b hb

/-- The cumulative counts of the finite buckets. -/
def bucketCounts (obs : List ℚ) : List ℚ := ttftBuckets.map fun b => (cumulative obs b : ℚ)

/-- `hist_p95` on the counts of some observations. -/
theorem histP95_bucketCounts (obs : List ℚ) : histP95 ttftBuckets (bucketCounts obs) =
    if cumulative obs 10 = 0 then none
    else some ((interpolate (95 / 100 * cumulative obs 10) 0 0
      (ttftBuckets.zip (bucketCounts obs))).getD 10 * 1000) := by
  have hlast : (bucketCounts obs).getLast? = some (cumulative obs 10 : ℚ) := by
    simp [bucketCounts, ttftBuckets]
  have hbound : ttftBuckets.getLastD 0 = 10 := by simp [ttftBuckets]
  unfold histP95
  rw [hlast, hbound]
  simp only [Nat.cast_nonpos]

/-- **The value read is in the bucket of the percentile of what the buckets count.** -/
theorem histP95_spec {obs : List ℚ} (hpos : 0 < cumulative obs 10) :
    ∃ y p v, orderStat obs (rank (cumulative obs 10)) = some y ∧
      bucketFrom 0 ttftBuckets y = some p ∧
      histP95 ttftBuckets (bucketCounts obs) = some (v * 1000) ∧ p.1 < v ∧ v ≤ p.2 ∧ v < 10 := by
  obtain ⟨y, hy⟩ := (orderStat_isSome_iff obs (rank (cumulative obs 10))).mpr
    ⟨(rank_pos_iff _).mpr hpos, (rank_le _).trans (cumulative_le_length obs 10)⟩
  have hle : y ≤ 10 := (orderStat_le_iff hy 10).mpr (rank_le _)
  obtain ⟨p, hp⟩ := bucketFrom_isSome ten_mem_ttftBuckets hle 0
  -- the order statistic decides which cumulative counts reach the target
  have hrank : ∀ b, (95 / 100 * cumulative obs 10 : ℚ) ≤ (cumulative obs b : ℚ) ↔ y ≤ b := by
    intro b
    rw [orderStat_le_iff hy, rank, Nat.ceil_le]
  have hM : (0 : ℚ) < cumulative obs 10 := Nat.cast_pos.mpr hpos
  obtain ⟨v, hv, hlo, hup, hlt⟩ := interpolate_spec hrank pairwise_ttftBuckets
    (show (0 : ℚ) < 95 / 100 * cumulative obs 10 by linarith) hp
  refine ⟨y, p, v, hy, hp, ?_, hlo, hup, ?_⟩
  · rw [histP95_bucketCounts, if_neg hpos.ne', bucketCounts, hv, Option.getD_some]
  · have hmem := (bucketFrom_bounds pairwise_ttftBuckets hp).1
    rcases (le_ten hmem).lt_or_eq with h | h
    · exact hup.trans_lt h
    · rw [h] at hlt
      exact hlt (by linarith)

/-! ### Honesty -/

/-- What a percentile in milliseconds should be: in the bucket of the observation of its rank, or
at least the last bound when that is above it. -/
def Honest (obs : List ℚ) (p95 : Option ℚ) : Prop :=
  ∃ x value, orderStat obs (rank obs.length) = some x ∧ p95 = some value ∧
    (x ≤ 10 → ∃ p, bucketFrom 0 ttftBuckets x = some p ∧ p.1 * 1000 < value ∧
      value ≤ p.2 * 1000) ∧
    (10 < x → 10000 ≤ value)

/-- The percentile is within the last bound, and no bound separates it from the percentile of the
observations that are. -/
def Covered (obs : List ℚ) : Prop :=
  ∃ x y, orderStat obs (rank obs.length) = some x ∧
    orderStat obs (rank (cumulative obs 10)) = some y ∧ x ≤ 10 ∧
    ∀ b ∈ ttftBuckets, ¬ (y ≤ b ∧ b < x)

/-- **The value read is honest exactly when the percentile is covered.** -/
theorem honest_iff {obs : List ℚ} (hne : obs ≠ []) :
    Honest obs (histP95 ttftBuckets (bucketCounts obs)) ↔ Covered obs := by
  obtain ⟨x, hx⟩ := (orderStat_isSome_iff obs (rank obs.length)).mpr
    ⟨(rank_pos_iff _).mpr (List.length_pos_of_ne_nil hne), rank_le _⟩
  rcases Nat.eq_zero_or_pos (cumulative obs 10) with hzero | hpos
  · -- nothing is counted: there is no value, and no percentile of what is
    rw [histP95_bucketCounts, if_pos hzero]
    refine iff_of_false ?_ ?_
    · rintro ⟨_, value, -, h, -⟩
      cases h
    · rintro ⟨_, y, -, hy, -⟩
      have := ((orderStat_isSome_iff _ _).mp ⟨y, hy⟩).1
      rw [rank_pos_iff, hzero] at this
      exact Nat.lt_irrefl 0 this
  · obtain ⟨y, p, v, hy, hp, hv, hlo, hup, hlt⟩ := histP95_spec hpos
    have hyx : y ≤ x := orderStat_mono hy hx (rank_mono (cumulative_le_length obs 10))
    constructor
    · rintro ⟨x', value, hx', hvalue, hin, hout⟩
      obtain rfl := Option.some.inj (hx.symm.trans hx')
      obtain rfl := Option.some.inj (hv.symm.trans hvalue)
      have hx10 : x ≤ 10 := by
        by_contra h
        linarith [hout (not_le.mp h)]
      obtain ⟨q, hq, hqlo, hqup⟩ := hin hx10
      refine ⟨x, y, hx, hy, hx10, (bucketFrom_eq_iff hyx pairwise_ttftBuckets).mp ?_⟩
      -- the value is in both buckets
      have hvq := bucketFrom_of_mem pairwise_ttftBuckets hq (x := v) (by linarith) (by linarith)
      rw [hp, hq, ← bucketFrom_of_mem pairwise_ttftBuckets hp hlo hup, hvq]
    · rintro ⟨x', y', hx', hy', hx10, hsep⟩
      obtain rfl := Option.some.inj (hx.symm.trans hx')
      obtain rfl := Option.some.inj (hy.symm.trans hy')
      refine ⟨x, v * 1000, hx, hv, fun _ => ⟨p, ?_, by linarith, by linarith⟩, fun h => ?_⟩
      · rw [← hp, (bucketFrom_eq_iff hyx pairwise_ttftBuckets).mpr hsep]
      · exact absurd hx10 (not_le.mpr h)

/-- Without observations above the last bound the percentile is covered. -/
theorem covered_of_le {obs : List ℚ} (hne : obs ≠ []) (hle : ∀ x ∈ obs, x ≤ 10) : Covered obs := by
  have hall : cumulative obs 10 = obs.length := by
    rw [cumulative, List.countP_eq_length]
    exact fun x hx => decide_eq_true (hle x hx)
  obtain ⟨x, hx⟩ := (orderStat_isSome_iff obs (rank obs.length)).mpr
    ⟨(rank_pos_iff _).mpr (List.length_pos_of_ne_nil hne), rank_le _⟩
  refine ⟨x, x, hx, by rw [hall, hx], ?_, fun b _ h => absurd h.1 (not_le.mpr h.2)⟩
  rw [orderStat_le_iff hx, hall]
  exact rank_le _

/-- **The scan is honest exactly when the percentile of the model is covered.** -/
theorem scanTtft_honest_iff (r : Registry) (modelName : String)
    (hne : r.observations modelName ≠ []) :
    Honest (r.observations modelName) (scanTtft r modelName) ↔
      Covered (r.observations modelName) := by
  rw [scanTtft_eq r hne]
  exact honest_iff hne

/-- Thirty-nine fast answers under two labels, and one that took twenty seconds. -/
def fewSlow : Registry where
  children := [⟨"m", "vllm", "multi-node", List.replicate 20 (1 / 50)⟩,
    ⟨"m", "sglang", "single", List.replicate 19 (1 / 50) ++ [20]⟩]
  before := []
  after := []
  distinct := by simp

theorem scanTtft_fewSlow : Honest (fewSlow.observations "m") (scanTtft fewSlow "m") :=
  (scanTtft_honest_iff fewSlow "m" (by simp [Registry.observations, fewSlow])).mpr
    ⟨1 / 50, 1 / 50, by decide +kernel, by decide +kernel, by norm_num,
      fun _ _ h => absurd h.1 (not_le.mpr h.2)⟩

/-- Eighteen fast answers and two that took twenty seconds. -/
def tenthSlow : Registry where
  children := [⟨"m", "sglang", "single", List.replicate 18 (1 / 50) ++ [20, 20]⟩]
  before := []
  after := []
  distinct := by simp

/-- The percentile is twenty seconds, and what is read is under a fortieth of one. -/
theorem read_tenthSlow :
    orderStat (tenthSlow.observations "m") (rank (tenthSlow.observations "m").length) = some 20 ∧
      scanTtft tenthSlow "m" = some (97 / 4) := by
  decide +kernel

/-- The scan is not honest about slow answers. -/
theorem tenthSlow_misread : ¬ ∀ (r : Registry) (modelName : String),
    r.observations modelName ≠ [] →
      Honest (r.observations modelName) (scanTtft r modelName) := by
  intro h
  obtain ⟨hx, hv⟩ := read_tenthSlow
  obtain ⟨x, value, hx', hvalue, -, hout⟩ := h tenthSlow "m"
    (by simp [Registry.observations, tenthSlow])
  obtain rfl := Option.some.inj (hx.symm.trans hx')
  obtain rfl := Option.some.inj (hv.symm.trans hvalue)
  have := hout (by norm_num)
  norm_num at this

end Inferna
