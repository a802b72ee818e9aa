import Inferna.Ttft

/-!
# The fast path of the latency signal

`_ttft_p95_ms` first asks for the buckets of a single vLLM engine, and scans the whole histogram
only when that series is missing.  As soon as it is there, nothing else of the model is counted:
the value is the percentile of the one series, and not of the sum over engines and topologies.

The two agree when the percentiles fall into one bucket and take the same share of it.

## Main definitions

* `NamedRegistry` — no other metric has samples under the name of the buckets.
* `Registry.fastChild` — the series that the fast path reads.
* `SamePercentile` — the interpolations over two populations have one value.

## Main results

* `scanTtft_eq_histP95` — the scan is the percentile of all observations of the model.
* `ttftP95Ms_eq` — the fast path is the percentile of the one series, if there is one.
* `ttftP95Ms_eq_scanTtft_iff` — **when the two agree.**
-/

namespace Inferna

open Quantile

/-- A registry in which no other metric has samples under the name of the buckets: the metrics
library refuses to register a name twice. -/
structure NamedRegistry extends Registry where
  named : ∀ m ∈ before ++ after, ∀ s ∈ m.samples, s.name ≠ "inferna_ttft_seconds_bucket"

/-- The series of a single vLLM engine. -/
def Registry.fastChild (r : Registry) (modelName : String) : Option Child :=
  r.children.find? fun c => c.model = modelName ∧ c.engine = "vllm" ∧ c.parallelism = "single"

/-! ### Two percentiles -/

/-- What the loop of `hist_p95` has counted at the lower end of a bucket; it begins with none. -/
def countBelow (obs : List ℚ) (lo : ℚ) : ℚ := if lo = 0 then 0 else (cumulative obs lo : ℚ)

/-- Neither population has an observation up to the last bound, or the percentiles of what the
buckets count fall into one bucket and are equally far through it. -/
def SamePercentile (obs obs' : List ℚ) : Prop :=
  (cumulative obs 10 = 0 ∧ cumulative obs' 10 = 0) ∨
    ∃ x y p, orderStat obs (rank (cumulative obs 10)) = some x ∧
      orderStat obs' (rank (cumulative obs' 10)) = some y ∧
      bucketFrom 0 ttftBuckets x = some p ∧ bucketFrom 0 ttftBuckets y = some p ∧
      (95 / 100 * cumulative obs 10 - countBelow obs p.1) *
          (cumulative obs' p.2 - countBelow obs' p.1) =
        (95 / 100 * cumulative obs' 10 - countBelow obs' p.1) *
          (cumulative obs p.2 - countBelow obs p.1)

/-- The interpolation, as a share of the bucket that holds the observation of the target's rank. -/
theorem interpolate_eq {obs : List ℚ} {target y : ℚ}
    (hy : ∀ b, target ≤ (cumulative obs b : ℚ) ↔ y ≤ b) {bounds : List ℚ} :
    ∀ {lo count : ℚ}, (lo :: bounds).Pairwise (· < ·) → count < target →
      ∀ {p : ℚ × ℚ}, bucketFrom lo bounds y = some p →
        interpolate target lo count (bounds.zip (bounds.map fun b => (cumulative obs b : ℚ))) =
            some (p.1 + (p.2 - p.1) *
              ((target - if p.1 = lo then count else (cumulative obs p.1 : ℚ)) /
                (cumulative obs p.2 - if p.1 = lo then count else (cumulative obs p.1 : ℚ)))) ∧
          (if p.1 = lo then count else (cumulative obs p.1 : ℚ)) < target ∧
          target ≤ cumulative obs p.2 := by
  induction bounds with
  | nil => intro lo count _ _ p hp; cases hp
  | cons b bs ih =>
    intro lo count hlt hcount p hp
    rw [List.map_cons, List.zip_cons_cons, interpolate]
    rw [bucketFrom] at hp
    by_cases hb : y ≤ b
    · rw [if_pos hb, Option.some.injEq] at hp
      subst hp
      have htarget := (hy b).mpr hb
      have hne : (cumulative obs b : ℚ) ≠ count := (hcount.trans_le htarget).ne'
      simp only [if_pos htarget, if_neg hne, if_true]
      exact ⟨trivial, hcount, htarget⟩
    · rw [if_neg hb] at hp
      rw [List.pairwise_cons] at hlt
      have htarget : ¬ target ≤ (cumulative obs b : ℚ) := fun h => hb ((hy b).mp h)
      -- the bucket lies beyond this bound
      have hp1 : b ≤ p.1 := (bucketFrom_bounds hlt.2 hp).2.2.1
      have hlo : p.1 ≠ lo := ((hlt.1 b List.mem_cons_self).trans_le hp1).ne'
      have hcount' : (if p.1 = b then (cumulative obs b : ℚ) else (cumulative obs p.1 : ℚ)) =
          cumulative obs p.1 := by
        split
        · rename_i h
          rw [h]
        · rfl
      have := ih hlt.2 (not_le.mp htarget) hp
      rw [hcount'] at this
      rw [if_neg htarget, if_neg hlo]
      exact this

/-- The value read, with the bucket and the counts that decide it. -/
theorem histP95_share {obs : List ℚ} (hpos : 0 < cumulative obs 10) :
    ∃ y p v, orderStat obs (rank (cumulative obs 10)) = some y ∧
      bucketFrom 0 ttftBuckets y = some p ∧ p.1 < p.2 ∧
      histP95 ttftBuckets (bucketCounts obs) = some (v * 1000) ∧
      v = p.1 + (p.2 - p.1) * ((95 / 100 * cumulative obs 10 - countBelow obs p.1) /
        (cumulative obs p.2 - countBelow obs p.1)) ∧
      countBelow obs p.1 < cumulative obs p.2 ∧ p.1 < v ∧ v ≤ p.2 := by
  obtain ⟨y, p, v, hy, hp, hv, hlo, hup, -⟩ := histP95_spec hpos
  have hrank : ∀ b, (95 / 100 * cumulative obs 10 : ℚ) ≤ (cumulative obs b : ℚ) ↔ y ≤ b := by
    intro b
    rw [orderStat_le_iff hy, rank, Nat.ceil_le]
  have hM : (0 : ℚ) < cumulative obs 10 := Nat.cast_pos.mpr hpos
  obtain ⟨heq, hbelow, habove⟩ := interpolate_eq hrank pairwise_ttftBuckets
    (show (0 : ℚ) < 95 / 100 * cumulative obs 10 by linarith) hp
  refine ⟨y, p, v, hy, hp, (bucketFrom_bounds pairwise_ttftBuckets hp).2.2.2, hv, ?_,
    hbelow.trans_le habove, hlo, hup⟩
  rw [histP95_bucketCounts, if_neg hpos.ne', bucketCounts, heq, Option.getD_some,
    Option.some.injEq] at hv
  exact (mul_right_cancel₀ (by norm_num) hv).symm

theorem histP95_eq_none_iff (obs : List ℚ) :
    histP95 ttftBuckets (bucketCounts obs) = none ↔ cumulative obs 10 = 0 := by
  rw [histP95_bucketCounts]
  split <;> simp_all

/-- **Two populations have one value exactly when they have the same percentile.** -/
theorem histP95_eq_iff (obs obs' : List ℚ) :
    histP95 ttftBuckets (bucketCounts obs) = histP95 ttftBuckets (bucketCounts obs') ↔
      SamePercentile obs obs' := by
  unfold SamePercentile
  rcases Nat.eq_zero_or_pos (cumulative obs 10) with hzero | hpos
  · rw [(histP95_eq_none_iff obs).mpr hzero, eq_comm, histP95_eq_none_iff]
    refine ⟨fun h => Or.inl ⟨hzero, h⟩, fun h => h.elim (·.2) ?_⟩
    rintro ⟨x, -, -, hx, -⟩
    have := ((orderStat_isSome_iff _ _).mp ⟨x, hx⟩).1
    rw [rank_pos_iff, hzero] at this
    exact absurd this (Nat.lt_irrefl 0)
  obtain ⟨x, p, v, hx, hp, hwidth, hv, hveq, hspan, hlo, hup⟩ := histP95_share hpos
  rcases Nat.eq_zero_or_pos (cumulative obs' 10) with hzero | hpos'
  · rw [(histP95_eq_none_iff obs').mpr hzero, histP95_eq_none_iff]
    refine ⟨fun h => Or.inl ⟨h, hzero⟩, fun h => h.elim (·.1) ?_⟩
    rintro ⟨-, y, -, -, hy, -⟩
    have := ((orderStat_isSome_iff _ _).mp ⟨y, hy⟩).1
    rw [rank_pos_iff, hzero] at this
    exact absurd this (Nat.lt_irrefl 0)
  obtain ⟨y, q, w, hy, hq, -, hw, hweq, hspan', hlo', hup'⟩ := histP95_share hpos'
  rw [hv, hw, Option.some.injEq, mul_left_inj' (by norm_num : (1000 : ℚ) ≠ 0)]
  -- in one bucket the values are equal when the shares are
  have hshare : p = q → (v = w ↔ (95 / 100 * cumulative obs 10 - countBelow obs p.1) *
        (cumulative obs' p.2 - countBelow obs' p.1) =
      (95 / 100 * cumulative obs' 10 - countBelow obs' p.1) *
        (cumulative obs p.2 - countBelow obs p.1)) := by
    rintro rfl
    rw [hveq, hweq, add_right_inj, mul_right_inj' (sub_pos.mpr hwidth).ne',
      div_eq_div_iff (sub_pos.mpr hspan).ne' (sub_pos.mpr hspan').ne']
  constructor
  · rintro rfl
    -- the value tells its bucket
    have hpq : p = q := by
      have h := bucketFrom_of_mem pairwise_ttftBuckets hp hlo hup
      rw [bucketFrom_of_mem pairwise_ttftBuckets hq hlo' hup', Option.some.injEq] at h
      exact h.symm
    exact Or.inr ⟨x, y, p, hx, hy, hp, hpq ▸ hq, (hshare hpq).mp rfl⟩
  · rintro (h | ⟨x', y', p', hx', hy', hp', hq', hcross⟩)
    · exact absurd h.1 hpos.ne'
    · obtain rfl := Option.some.inj (hx.symm.trans hx')
      obtain rfl := Option.some.inj (hy.symm.trans hy')
      obtain rfl := Option.some.inj (hp.symm.trans hp')
      exact (hshare (Option.some.inj (hq'.symm.trans hq))).mpr hcross

/-! ### The two paths -/

/-- The scan is the percentile of all observations of the model. -/
theorem scanTtft_eq_histP95 (r : Registry) (modelName : String) :
    scanTtft r modelName = histP95 ttftBuckets (bucketCounts (r.observations modelName)) := by
  by_cases hne : r.observations modelName = []
  · -- without observations there is no percentile, seen or not
    have hnone : histP95 ttftBuckets (bucketCounts (r.observations modelName)) = none := by
      rw [histP95_eq_none_iff, hne]
      rfl
    unfold scanTtft
    rw [samples_collect]
    simp only [map_totals_collect]
    rw [show (ttftBuckets.map fun b => (cumulative (r.observations modelName) b : ℚ)) =
      bucketCounts (r.observations modelName) from rfl, hnone, ite_self]
  · exact scanTtft_eq r hne

/-- The labels that the fast path asks for. -/
def FastSample (modelName : String) (b : ℚ) (s : MetricSample) : Prop :=
  s.name = "inferna_ttft_seconds_bucket" ∧ s.model = modelName ∧ s.engine = "vllm" ∧
    s.parallelism = "single" ∧ s.le = some b

instance (modelName : String) (b : ℚ) : DecidablePred (FastSample modelName b) := fun _ =>
  inferInstanceAs (Decidable (_ ∧ _ ∧ _ ∧ _ ∧ _))

/-- A sample of a child with those labels is its cumulative count. -/
theorem mem_samples_fast {c : Child} {modelName : String} {b : ℚ} {s : MetricSample} :
    s ∈ c.samples ∧ FastSample modelName b s ↔ b ∈ ttftBuckets ∧
      (c.model = modelName ∧ c.engine = "vllm" ∧ c.parallelism = "single") ∧
      s = c.sample "inferna_ttft_seconds_bucket" (some b) (cumulative c.observations b) := by
  unfold FastSample Child.samples
  rw [List.mem_append]
  constructor
  · rintro ⟨hs | hs, hname, hmodel, hengine, hpar, hle⟩
    · obtain ⟨a, ha, rfl⟩ := List.mem_map.mp hs
      simp only [Child.sample, Option.some.injEq] at hmodel hengine hpar hle
      subst hle
      exact ⟨ha, ⟨hmodel, hengine, hpar⟩, rfl⟩
    · -- the infinite bucket, the count and the sum have no finite bound
      simp only [List.mem_cons, List.not_mem_nil, or_false] at hs
      rcases hs with rfl | rfl | rfl <;> cases hle
  · rintro ⟨hb, ⟨hmodel, hengine, hpar⟩, rfl⟩
    exact ⟨Or.inl (List.mem_map.mpr ⟨b, hb, rfl⟩), rfl, hmodel, hengine, hpar, rfl⟩

/-- The sample found among those of the children is of the series that the fast path reads. -/
theorem find?_children (modelName : String) {b : ℚ} (hb : b ∈ ttftBuckets)
    (children : List Child) :
    (children.flatMap Child.samples).find? (FastSample modelName b) =
      (children.find? fun c => c.model = modelName ∧ c.engine = "vllm" ∧
        c.parallelism = "single").map fun c =>
          c.sample "inferna_ttft_seconds_bucket" (some b) (cumulative c.observations b) := by
  induction children with
  | nil => rfl
  | cons c cs ih =>
    rw [List.flatMap_cons, List.find?_append, ih, List.find?_cons]
    by_cases hc : c.model = modelName ∧ c.engine = "vllm" ∧ c.parallelism = "single"
    · obtain ⟨hmem, hfast⟩ := mem_samples_fast.mpr ⟨hb, hc, rfl⟩
      have hsome : (c.samples.find? (FastSample modelName b)).isSome :=
        List.find?_isSome.mpr ⟨_, hmem, decide_eq_true hfast⟩
      obtain ⟨s, hs⟩ := Option.isSome_iff_exists.mp hsome
      have hsmem := List.mem_of_find?_eq_some hs
      have hsfast := List.find?_some hs
      rw [decide_eq_true_eq] at hsfast
      rw [hs, (mem_samples_fast.mp ⟨hsmem, hsfast⟩).2.2]
      simp [hc]
    · have hnone : c.samples.find? (FastSample modelName b) = none := by
        rw [List.find?_eq_none]
        intro s hs hfast
        exact hc (mem_samples_fast.mp ⟨hs, of_decide_eq_true hfast⟩).2.1
      rw [hnone]
      simp [hc]

/-- What the registry answers for the labels of the fast path. -/
theorem getSampleValue_eq (r : NamedRegistry) (modelName : String) {b : ℚ}
    (hb : b ∈ ttftBuckets) : getSampleValue r.toRegistry modelName b =
      (r.fastChild modelName).map fun c => (cumulative c.observations b : ℚ) := by
  have hother : ∀ ms : List MetricFamily, (∀ m ∈ ms, ∀ s ∈ m.samples,
      s.name ≠ "inferna_ttft_seconds_bucket") →
        (ms.flatMap (·.samples)).find? (FastSample modelName b) = none := by
    intro ms h
    rw [List.find?_eq_none]
    intro s hs hfast
    obtain ⟨m, hm, hs⟩ := List.mem_flatMap.mp hs
    exact h m hm s hs (of_decide_eq_true hfast).1
  have hfind : (r.collect.flatMap (·.samples)).find? (FastSample modelName b) =
      (r.children.flatMap Child.samples).find? (FastSample modelName b) := by
    rw [Registry.collect, List.flatMap_append, List.flatMap_cons, List.find?_append,
      List.find?_append, hother _ fun m hm => r.named m (List.mem_append_left _ hm),
      hother _ fun m hm => r.named m (List.mem_append_right _ hm), Option.none_or, Option.or_none]
  change ((r.collect.flatMap (·.samples)).find? (FastSample modelName b)).map (·.value) = _
  rw [hfind, find?_children modelName hb, Option.map_map]
  rfl

theorem mapM_eq_some_map {α β : Type} {f : α → Option β} {g : α → β} {l : List α}
    (h : ∀ a ∈ l, f a = some (g a)) : l.mapM f = some (l.map g) := by
  induction l with
  | nil => rfl
  | cons a l ih =>
    rw [List.mapM_cons, h a List.mem_cons_self, ih fun b hb => h b (List.mem_cons_of_mem _ hb)]
    rfl

/-- **The fast path is the percentile of the one series, if there is one.** -/
theorem ttftP95Ms_eq (r : NamedRegistry) (modelName : String) :
    ttftP95Ms r.toRegistry modelName =
      match r.fastChild modelName with
      | some c => histP95 ttftBuckets (bucketCounts c.observations)
      | none => scanTtft r.toRegistry modelName := by
  have hvalue := fun b (hb : b ∈ ttftBuckets) => getSampleValue_eq r modelName hb
  unfold ttftP95Ms
  cases hc : r.fastChild modelName with
  | none =>
    simp only [hc, Option.map_none] at hvalue
    have hmapM : ttftBuckets.mapM (getSampleValue r.toRegistry modelName) = none := by
      rw [ttftBuckets, List.mapM_cons, hvalue _ List.mem_cons_self]
      rfl
    rw [hmapM]
  | some c =>
    simp only [hc, Option.map_some] at hvalue
    have hmapM : ttftBuckets.mapM (getSampleValue r.toRegistry modelName) =
        some (bucketCounts c.observations) := mapM_eq_some_map hvalue
    rw [hmapM]

/-- **The fast path agrees with the scan exactly when the series it reads, if there is one, has
the percentile of all observations of the model.** -/
theorem ttftP95Ms_eq_scanTtft_iff (r : NamedRegistry) (modelName : String) :
    ttftP95Ms r.toRegistry modelName = scanTtft r.toRegistry modelName ↔
      ∀ c, r.fastChild modelName = some c →
        SamePercentile c.observations (r.observations modelName) := by
  rw [ttftP95Ms_eq]
  cases hc : r.fastChild modelName with
  | none => exact iff_of_true rfl fun c h => nomatch h
  | some c =>
    simp only [scanTtft_eq_histP95, histP95_eq_iff, Option.some.injEq, forall_eq']

theorem distinct_of_none :
    ∀ m ∈ ([] : List MetricFamily) ++ [], m.name ≠ "inferna_ttft_seconds" := by simp

/-- Fast answers of a single vLLM engine, and slow ones of an SGLang engine. -/
def slowSglang : NamedRegistry where
  children := [⟨"m", "vllm", "single", [1 / 50]⟩, ⟨"m", "sglang", "single", [4, 4]⟩]
  before := []
  after := []
  distinct := distinct_of_none
  named := by simp

/-- The fast path leaves out the slow engine. -/
theorem slowSglang_unseen : ¬ ∀ (r : NamedRegistry) (modelName : String),
    ttftP95Ms r.toRegistry modelName = scanTtft r.toRegistry modelName := by
  intro h
  have := h slowSglang "m"
  revert this
  decide +kernel

end Inferna
