import Mathlib.Data.List.Sort
import Mathlib.Data.Rat.Floor
import Mathlib.Tactic

/-!
# Order statistics and cumulative counts

The `k`-th smallest of some observations against the number of observations up to a bound, and
the bucket of a histogram that an observation falls into.

## Main definitions

* `Quantile.orderStat` — the `k`-th smallest observation, from `1` on.
* `Quantile.cumulative` — the number of observations up to a bound.
* `Quantile.bucketFrom` — the first bucket that reaches up to an observation.

## Main results

* `Quantile.orderStat_le_iff` — **the `k`-th smallest is within a bound exactly when `k`
  observations are.**
* `Quantile.bucketFrom_eq_iff` — two observations are in one bucket exactly when no bound
  separates them.
-/

namespace Quantile

variable {α : Type*} [LinearOrder α]

/-! ### Order statistics -/

/-- The `k`-th smallest observation. -/
def orderStat (l : List α) (k : ℕ) : Option α :=
  if k = 0 then none else (l.insertionSort (· ≤ ·))[k - 1]?

/-- The number of observations up to a bound. -/
def cumulative (l : List α) (b : α) : ℕ := l.countP (· ≤ b)

theorem orderStat_isSome_iff (l : List α) (k : ℕ) :
    (∃ x, orderStat l k = some x) ↔ 1 ≤ k ∧ k ≤ l.length := by
  unfold orderStat
  split
  · rename_i h
    subst h
    simp
  · rename_i h
    rw [← Option.isSome_iff_exists, isSome_getElem?, List.length_insertionSort, iff_iff_eq]
    simp only [eq_iff_iff]
    omega

/-- In a sorted list the entries up to a bound come first. -/
theorem getElem_le_iff {l : List α} (hl : l.Pairwise (· ≤ ·)) (b : α) :
    ∀ (k : ℕ) (x : α), l[k]? = some x → (x ≤ b ↔ k < cumulative l b) := by
  induction l with
  | nil => intro k x h; simp at h
  | cons a l ih =>
    rw [List.pairwise_cons] at hl
    intro k x hx
    unfold cumulative at ih ⊢
    by_cases ha : a ≤ b
    · rw [List.countP_cons_of_pos (by simpa using ha)]
      cases k with
      | zero =>
        rw [List.getElem?_cons_zero, Option.some.injEq] at hx
        subst hx
        exact iff_of_true ha (Nat.succ_pos _)
      | succ k =>
        rw [List.getElem?_cons_succ] at hx
        rw [ih hl.2 k x hx, Nat.succ_lt_succ_iff]
    · -- the first entry is beyond the bound, and so are all others
      have hnone : l.countP (· ≤ b) = 0 := by
        rw [List.countP_eq_zero]
        intro y hy
        rw [decide_eq_true_eq]
        exact fun hyb => ha ((hl.1 y hy).trans hyb)
      rw [List.countP_cons_of_neg (by simpa using ha), hnone]
      have hmem : x ∈ a :: l := List.mem_of_getElem? hx
      refine iff_of_false (fun hxb => ?_) (Nat.not_lt_zero k)
      rcases List.mem_cons.mp hmem with rfl | hmem
      · exact ha hxb
      · exact ha ((hl.1 x hmem).trans hxb)

/-- **The `k`-th smallest is within a bound exactly when `k` observations are.** -/
theorem orderStat_le_iff {l : List α} {k : ℕ} {x : α} (h : orderStat l k = some x) (b : α) :
    x ≤ b ↔ k ≤ cumulative l b := by
  unfold orderStat at h
  split at h
  · cases h
  · rename_i hk
    have hsorted := List.pairwise_insertionSort (· ≤ ·) l
    have hperm := List.perm_insertionSort (· ≤ ·) l
    have hcount : cumulative (l.insertionSort (· ≤ ·)) b = cumulative l b := hperm.countP_eq _
    rw [getElem_le_iff hsorted b _ x h, hcount]
    omega

/-- A greater rank has a greater observation. -/
theorem orderStat_mono {l : List α} {j k : ℕ} {x y : α} (hx : orderStat l j = some x)
    (hy : orderStat l k = some y) (hjk : j ≤ k) : x ≤ y :=
  (orderStat_le_iff hx y).mpr (hjk.trans ((orderStat_le_iff hy y).mp le_rfl))

theorem cumulative_le_length (l : List α) (b : α) : cumulative l b ≤ l.length :=
  List.countP_le_length

/-! ### Buckets -/

/-- The first bucket, from the lower bound `lo` on, that reaches up to an observation. -/
def bucketFrom (lo : α) : List α → α → Option (α × α)
  | [], _ => none
  | b :: bs, x => if x ≤ b then some (lo, b) else bucketFrom b bs x

/-- An observation up to one of the bounds has a bucket. -/
theorem bucketFrom_isSome {bounds : List α} {b x : α} (hb : b ∈ bounds) (hx : x ≤ b) :
    ∀ lo, ∃ p, bucketFrom lo bounds x = some p := by
  induction bounds with
  | nil => exact absurd hb List.not_mem_nil
  | cons c cs ih =>
    intro lo
    rw [bucketFrom]
    split
    · exact ⟨_, rfl⟩
    · rename_i hc
      rcases List.mem_cons.mp hb with rfl | hb
      · exact absurd hx hc
      · exact ih hb c

/-- The upper bound of a bucket is a bound, and the lower one comes before it. -/
theorem bucketFrom_bounds {bounds : List α} {x : α} : ∀ {lo : α}, (lo :: bounds).Pairwise (· < ·) →
    ∀ {p : α × α}, bucketFrom lo bounds x = some p → p.2 ∈ bounds ∧ x ≤ p.2 ∧ lo ≤ p.1 ∧ p.1 < p.2 := by
  induction bounds with
  | nil => intro lo _ p h; cases h
  | cons b bs ih =>
    intro lo hlt p h
    rw [List.pairwise_cons] at hlt
    rw [bucketFrom] at h
    split at h
    · rename_i hx
      injection h with h
      subst h
      exact ⟨List.mem_cons_self, hx, le_rfl, hlt.1 b List.mem_cons_self⟩
    · obtain ⟨hmem, hx, hlo, hp⟩ := ih hlt.2 h
      exact ⟨List.mem_cons_of_mem _ hmem, hx, (hlt.1 b List.mem_cons_self).le.trans hlo, hp⟩

/-- A bucket ends at the first bound from the observation on. -/
theorem bucketFrom_upper_le {bounds : List α} {b x : α} (hb : b ∈ bounds) (hx : x ≤ b) :
    ∀ {lo : α}, (lo :: bounds).Pairwise (· < ·) → ∀ {p : α × α},
      bucketFrom lo bounds x = some p → p.2 ≤ b := by
  induction bounds with
  | nil => exact absurd hb List.not_mem_nil
  | cons c cs ih =>
    intro lo hlt p h
    rw [List.pairwise_cons] at hlt
    rw [bucketFrom] at h
    split at h
    · -- the first bound that reaches the value is below every later one
      injection h with h
      subst h
      rcases List.mem_cons.mp hb with rfl | hb
      · exact le_rfl
      · exact ((List.pairwise_cons.mp hlt.2).1 b hb).le
    · rename_i hc
      rcases List.mem_cons.mp hb with rfl | hb
      · exact absurd hx hc
      · exact ih hb hlt.2 h

/-- A bucket begins at the last bound before the observation. -/
theorem le_bucketFrom_lower {bounds : List α} {b x : α} (hb : b ∈ bounds) (hx : b < x) :
    ∀ {lo : α}, (lo :: bounds).Pairwise (· < ·) → ∀ {p : α × α},
      bucketFrom lo bounds x = some p → b ≤ p.1 := by
  induction bounds with
  | nil => exact absurd hb List.not_mem_nil
  | cons c cs ih =>
    intro lo hlt p h
    rw [List.pairwise_cons] at hlt
    rw [bucketFrom] at h
    split at h
    · rename_i hc
      rcases List.mem_cons.mp hb with rfl | hb
      · exact absurd hc (not_le.mpr hx)
      · exact absurd (hc.trans ((List.pairwise_cons.mp hlt.2).1 b hb).le) (not_le.mpr hx)
    · rcases List.mem_cons.mp hb with rfl | hb
      · exact (bucketFrom_bounds hlt.2 h).2.2.1
      · exact ih hb hlt.2 h

/-- **Two observations are in one bucket exactly when no bound separates them.** -/
theorem bucketFrom_eq_iff {bounds : List α} {x y : α} (hyx : y ≤ x) : ∀ {lo : α},
    (lo :: bounds).Pairwise (· < ·) →
      (bucketFrom lo bounds y = bucketFrom lo bounds x ↔ ∀ b ∈ bounds, ¬ (y ≤ b ∧ b < x)) := by
  induction bounds with
  | nil => exact fun _ => iff_of_true rfl fun _ h => absurd h List.not_mem_nil
  | cons b bs ih =>
    intro lo hlt
    rw [List.pairwise_cons] at hlt
    rw [bucketFrom, bucketFrom, List.forall_mem_cons]
    by_cases hx : x ≤ b
    · -- both are in the first bucket
      rw [if_pos hx, if_pos (hyx.trans hx)]
      refine iff_of_true rfl ⟨fun h => absurd hx (not_le.mpr h.2), fun c hc h => ?_⟩
      exact absurd (hx.trans ((List.pairwise_cons.mp hlt.2).1 c hc).le) (not_le.mpr h.2)
    · rw [if_neg hx]
      by_cases hy : y ≤ b
      · -- this bound parts them
        rw [if_pos hy]
        refine iff_of_false (fun h => ?_) fun h => h.1 ⟨hy, not_le.mp hx⟩
        have hp := bucketFrom_bounds hlt.2 h.symm
        exact absurd hp.2.2.1 (not_le.mpr (hlt.1 b List.mem_cons_self))
      · rw [if_neg hy, ih hlt.2]
        exact ⟨fun h => ⟨fun hb => hy hb.1, h⟩, fun h => h.2⟩

/-- A point within a bucket has that bucket. -/
theorem bucketFrom_of_mem {bounds : List α} {lo x y : α} (hlt : (lo :: bounds).Pairwise (· < ·))
    {p : α × α} (hp : bucketFrom lo bounds y = some p) (hlo : p.1 < x) (hup : x ≤ p.2) :
    bucketFrom lo bounds x = some p := by
  rcases le_total x y with hxy | hyx
  · rw [← hp, bucketFrom_eq_iff hxy hlt]
    rintro b hb ⟨hxb, hby⟩
    exact absurd (le_bucketFrom_lower hb hby hlt hp) (not_le.mpr (hlo.trans_le hxb))
  · rw [← hp, eq_comm, bucketFrom_eq_iff hyx hlt]
    rintro b hb ⟨hyb, hbx⟩
    exact absurd (bucketFrom_upper_le hb hyb hlt hp) (not_le.mpr (hbx.trans_le hup))

end Quantile
