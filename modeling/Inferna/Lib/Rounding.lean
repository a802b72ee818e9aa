import Inferna.Lib.JsonValue
import Mathlib.Data.List.Sort
import Mathlib.Tactic.Linarith

/-!
# Tables of rounded means

What a report does with rows: it sorts them, rounds quotients to the nearest integer, and rounds
the quotient of the totals.

## Main results

* `List.filter_insertionSort` — a stable sort commutes with a selection of rows.
* `Json.roundHalfEven_mono` — rounding is monotone.
* `Rounding.exists_mean_le`, `Rounding.exists_le_mean` — **the rounded mean of the totals lies
  between rounded means of the rows.**
-/

namespace List

variable {α : Type*} {r : α → α → Prop} [DecidableRel r] [IsTrans α r] {p : α → Bool}

omit [IsTrans α r] in
/-- An element that is left out leaves no trace. -/
theorem filter_orderedInsert_neg {a : α} (ha : p a = false) (l : List α) :
    (l.orderedInsert r a).filter p = l.filter p := by
  induction l with
  | nil => simp [ha]
  | cons b l ih =>
    rw [orderedInsert_cons]
    split
    · rw [filter_cons_of_neg (by simp [ha])]
    · simp only [filter_cons, ih]

/-- An element that is kept goes to its place among the kept. -/
theorem filter_orderedInsert_pos {a : α} (ha : p a = true) {l : List α} (hl : l.Pairwise r) :
    (l.orderedInsert r a).filter p = (l.filter p).orderedInsert r a := by
  induction l with
  | nil => simp [ha]
  | cons b l ih =>
    rw [pairwise_cons] at hl
    rw [orderedInsert_cons]
    split
    · rename_i hab
      rw [filter_cons_of_pos ha]
      -- all that follows is above `a`, so the first kept element is
      have habove : ∀ c ∈ (b :: l).filter p, r a c := by
        intro c hc
        rcases mem_cons.mp (mem_of_mem_filter hc) with rfl | hc
        · exact hab
        · exact IsTrans.trans a b c hab (hl.1 c hc)
      cases hkept : (b :: l).filter p with
      | nil => rfl
      | cons c kept =>
        rw [orderedInsert_cons_of_le]
        exact habove c (hkept ▸ mem_cons_self)
    · rename_i hab
      by_cases hb : p b = true
      · rw [filter_cons_of_pos hb, filter_cons_of_pos hb, ih hl.2, orderedInsert_cons, if_neg hab]
      · rw [filter_cons_of_neg hb, filter_cons_of_neg hb, ih hl.2]

/-- **A stable sort commutes with a selection.** -/
theorem filter_insertionSort [Std.Total r] (l : List α) :
    (l.insertionSort r).filter p = (l.filter p).insertionSort r := by
  induction l with
  | nil => rfl
  | cons a l ih =>
    rw [insertionSort_cons]
    by_cases ha : p a = true
    · rw [filter_orderedInsert_pos ha (pairwise_insertionSort r l), ih, filter_cons_of_pos ha,
        insertionSort_cons]
    · rw [filter_orderedInsert_neg (by simpa using ha), ih, filter_cons_of_neg ha]

end List

namespace Json

/-- Rounding is monotone. -/
theorem roundHalfEven_mono {x y : ℚ} (h : x ≤ y) : roundHalfEven x ≤ roundHalfEven y := by
  have hfloor : ⌊x⌋ ≤ ⌊y⌋ := Int.floor_le_floor h
  have hlow : ⌊y⌋ ≤ roundHalfEven y := by
    unfold roundHalfEven
    split <;> omega
  rcases hfloor.lt_or_eq with hlt | heq
  · -- the next integer above `x` is not above `y`
    have hhigh : roundHalfEven x ≤ ⌊x⌋ + 1 := by
      unfold roundHalfEven
      split <;> omega
    omega
  · unfold roundHalfEven
    rw [heq]
    split_ifs with hx hy
    · exact le_rfl
    · omega
    · -- `x` was rounded up from the same integer, so `y` is
      exfalso
      rename_i hy
      rw [not_or, not_and_or, not_lt] at hx
      rcases hy with hy | ⟨hy, heven⟩
      · linarith [hx.1]
      · rcases hx.2 with hne | hodd
        · exact hne (le_antisymm (by linarith) hx.1)
        · exact hodd heven
    · exact le_rfl

end Json

namespace Rounding

open Json

variable {α : Type*} (count amount : α → ℕ)

/-- The totals of a list, each below its multiple of the other. -/
theorem sum_lt_mul_sum {l : List α} (hne : l ≠ []) {m : ℚ}
    (h : ∀ a ∈ l, (amount a : ℚ) < m * count a) :
    ((l.map amount).sum : ℚ) < m * ((l.map count).sum : ℕ) := by
  have hlt := List.sum_lt_sum_of_ne_nil hne (fun a => (amount a : ℚ)) (fun a => m * count a) h
  rw [List.sum_map_mul_left] at hlt
  simpa [Nat.cast_list_sum, List.map_map, Function.comp_def] using hlt

theorem mul_sum_lt_sum {l : List α} (hne : l ≠ []) {m : ℚ}
    (h : ∀ a ∈ l, m * count a < (amount a : ℚ)) :
    m * ((l.map count).sum : ℕ) < ((l.map amount).sum : ℚ) := by
  have hlt := List.sum_lt_sum_of_ne_nil hne (fun a => m * count a) (fun a => (amount a : ℚ)) h
  rw [List.sum_map_mul_left] at hlt
  simpa [Nat.cast_list_sum, List.map_map, Function.comp_def] using hlt

theorem sum_count_pos {l : List α} (hne : l ≠ []) (hpos : ∀ a ∈ l, 0 < count a) :
    (0 : ℚ) < ((l.map count).sum : ℕ) := by
  have hlt := List.sum_lt_sum_of_ne_nil hne (fun _ => 0) count hpos
  rw [List.sum_map_zero] at hlt
  exact_mod_cast hlt

/-- A rounded mean of a row is not above that of the totals. -/
theorem exists_mean_le {l : List α} (hne : l ≠ []) (hpos : ∀ a ∈ l, 0 < count a) :
    ∃ a ∈ l, roundHalfEven ((amount a : ℚ) / count a) ≤
      roundHalfEven (((l.map amount).sum : ℕ) / ((l.map count).sum : ℕ)) := by
  by_contra hnone
  push Not at hnone
  have hC := sum_count_pos count hne hpos
  have hlt := mul_sum_lt_sum count amount hne
    (m := ((l.map amount).sum : ℕ) / ((l.map count).sum : ℕ)) fun a ha => by
      have hc : (0 : ℚ) < count a := by exact_mod_cast hpos a ha
      rw [← lt_div_iff₀ hc]
      exact lt_of_not_ge fun hle => (hnone a ha).not_ge (roundHalfEven_mono hle)
  rw [div_mul_cancel₀ _ hC.ne'] at hlt
  exact lt_irrefl _ hlt

/-- **And one is not below it.** -/
theorem exists_le_mean {l : List α} (hne : l ≠ []) (hpos : ∀ a ∈ l, 0 < count a) :
    ∃ a ∈ l, roundHalfEven (((l.map amount).sum : ℕ) / ((l.map count).sum : ℕ)) ≤
      roundHalfEven ((amount a : ℚ) / count a) := by
  by_contra hnone
  push Not at hnone
  have hC := sum_count_pos count hne hpos
  have hlt := sum_lt_mul_sum count amount hne
    (m := ((l.map amount).sum : ℕ) / ((l.map count).sum : ℕ)) fun a ha => by
      have hc : (0 : ℚ) < count a := by exact_mod_cast hpos a ha
      rw [← div_lt_iff₀ hc]
      exact lt_of_not_ge fun hle => (hnone a ha).not_ge (roundHalfEven_mono hle)
  rw [div_mul_cancel₀ _ hC.ne'] at hlt
  exact lt_irrefl _ hlt

end Rounding
