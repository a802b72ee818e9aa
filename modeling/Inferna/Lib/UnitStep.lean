import Mathlib.Order.Monotone.Basic
import Mathlib.Data.Finset.Card
import Mathlib.Order.Interval.Finset.Nat
import Mathlib.Tactic.Ring

/-!
# Controllers that move by one

A controller reads a number and proposes the next one, at most one away.  It is driven by a
schedule that follows some of its proposals and leaves out the others.  Such a controller flaps
at `n` when it goes up there and straight down again from `n + 1`.

## Main definitions

* `ByOne f` — `f` moves by at most one.
* `Flaps f n` — `f` goes up at `n` and down at `n + 1`.
* `Driven f x` — every move of the sequence `x` is a proposal of `f`.
* `changes x N` — the moves among the first `N` ticks.

## Main results

* `Driven.monotone_or_antitone` — a driven sequence of a controller that does not flap never
  turns around.
* `settles_iff` — **a controller settles under every schedule exactly if it flaps nowhere.**
-/

namespace UnitStep

/-- `f` moves by at most one. -/
def ByOne (f : ℕ → ℕ) : Prop := ∀ n, f n ≤ n + 1 ∧ n ≤ f n + 1

/-- `f` goes up at `n`, and straight down again. -/
def Flaps (f : ℕ → ℕ) (n : ℕ) : Prop := f n = n + 1 ∧ f (n + 1) = n

/-- Every tick stays or follows the proposal. -/
def Driven (f : ℕ → ℕ) (x : ℕ → ℕ) : Prop := ∀ k, x (k + 1) = x k ∨ x (k + 1) = f (x k)

/-- The ticks among the first `N` that move. -/
def changes (x : ℕ → ℕ) (N : ℕ) : Finset ℕ := (Finset.range N).filter fun k => x (k + 1) ≠ x k

section

variable {f x : ℕ → ℕ} {lo hi : ℕ}

/-- `f` keeps the numbers between `lo` and `hi` there. -/
def Keeps (f : ℕ → ℕ) (lo hi : ℕ) : Prop := ∀ n, lo ≤ n → n ≤ hi → lo ≤ f n ∧ f n ≤ hi

theorem Driven.mem_window (hx : Driven f x) (hkeep : Keeps f lo hi) (h₀ : lo ≤ x 0 ∧ x 0 ≤ hi) :
    ∀ k, lo ≤ x k ∧ x k ≤ hi := by
  intro k
  induction k with
  | zero => exact h₀
  | succ k ih =>
    rcases hx k with hstay | hmove
    · rw [hstay]; exact ih
    · rw [hmove]; exact hkeep (x k) ih.1 ih.2

/-- Once the controller does not go down, it never does. -/
theorem Driven.le_of_le (hx : Driven f x) (hf : ByOne f) (hkeep : Keeps f lo hi)
    (hflap : ∀ n, lo ≤ n → n < hi → ¬ Flaps f n) (h₀ : lo ≤ x 0 ∧ x 0 ≤ hi)
    (hup : x 0 ≤ f (x 0)) : ∀ k, x k ≤ f (x k) := by
  intro k
  induction k with
  | zero => exact hup
  | succ k ih =>
    obtain ⟨hlo, hhi⟩ := hx.mem_window hkeep h₀ k
    rcases hx k with hstay | hmove
    · rw [hstay]; exact ih
    · rw [hmove]
      by_cases hfix : f (x k) = x k
      · rw [hfix, hfix]
      · -- the controller went up to `x k + 1`, and down from there would be a flap
        have hone : f (x k) = x k + 1 := by have := hf (x k); omega
        have hbound := hkeep (x k) hlo hhi
        have hno : f (x k + 1) ≠ x k := fun hdown => hflap (x k) hlo (by omega) ⟨hone, hdown⟩
        have hnext := hf (x k + 1)
        rw [hone]
        omega

/-- Once the controller does not go up, it never does. -/
theorem Driven.ge_of_ge (hx : Driven f x) (hf : ByOne f) (hkeep : Keeps f lo hi)
    (hflap : ∀ n, lo ≤ n → n < hi → ¬ Flaps f n) (h₀ : lo ≤ x 0 ∧ x 0 ≤ hi)
    (hdown : f (x 0) ≤ x 0) : ∀ k, f (x k) ≤ x k := by
  intro k
  induction k with
  | zero => exact hdown
  | succ k ih =>
    obtain ⟨hlo, hhi⟩ := hx.mem_window hkeep h₀ k
    rcases hx k with hstay | hmove
    · rw [hstay]; exact ih
    · rw [hmove]
      by_cases hfix : f (x k) = x k
      · rw [hfix, hfix]
      · -- it went down from `f (x k) + 1`, and up again would be a flap
        have hone : x k = f (x k) + 1 := by have := hf (x k); omega
        have hbound := hkeep (x k) hlo hhi
        have hno : f (f (x k)) ≠ f (x k) + 1 := fun hup =>
          hflap (f (x k)) hbound.1 (by omega) ⟨hup, by rw [← hone]⟩
        have hnext := hf (f (x k))
        omega

/-- **A driven sequence of a controller that does not flap never turns around.** -/
theorem Driven.monotone_or_antitone (hx : Driven f x) (hf : ByOne f) (hkeep : Keeps f lo hi)
    (hflap : ∀ n, lo ≤ n → n < hi → ¬ Flaps f n) (h₀ : lo ≤ x 0 ∧ x 0 ≤ hi) :
    Monotone x ∨ Antitone x := by
  rcases le_total (x 0) (f (x 0)) with hup | hdown
  · left
    refine monotone_nat_of_le_succ fun k => ?_
    have hk := hx.le_of_le hf hkeep hflap h₀ hup k
    rcases hx k with h | h
    · exact h.ge
    · exact h ▸ hk
  · right
    refine antitone_nat_of_succ_le fun k => ?_
    have hk := hx.ge_of_ge hf hkeep hflap h₀ hdown k
    rcases hx k with h | h
    · exact h.le
    · exact h ▸ hk

theorem card_changes_succ (x : ℕ → ℕ) (N : ℕ) :
    (changes x (N + 1)).card = (changes x N).card + if x (N + 1) ≠ x N then 1 else 0 := by
  unfold changes
  rw [Finset.range_add_one, Finset.filter_insert]
  split_ifs with h
  · exact Finset.card_insert_of_notMem (by simp)
  · rfl

/-- A monotone sequence has gone up by at least the number of its moves. -/
theorem card_changes_add_le (hx : Monotone x) (N : ℕ) : (changes x N).card + x 0 ≤ x N := by
  induction N with
  | zero => simp [changes]
  | succ N ih =>
    have hle : x N ≤ x (N + 1) := hx (Nat.le_succ N)
    rw [card_changes_succ]
    split_ifs <;> omega

/-- An antitone sequence has gone down by at least the number of its moves. -/
theorem card_changes_add_ge (hx : Antitone x) (N : ℕ) : (changes x N).card + x N ≤ x 0 := by
  induction N with
  | zero => simp [changes]
  | succ N ih =>
    have hle : x (N + 1) ≤ x N := hx (Nat.le_succ N)
    rw [card_changes_succ]
    split_ifs <;> omega

/-- A sequence in the window that never turns around moves at most across the window. -/
theorem card_changes_le (hturn : Monotone x ∨ Antitone x) (hwin : ∀ k, lo ≤ x k ∧ x k ≤ hi)
    (N : ℕ) : (changes x N).card ≤ hi - lo := by
  have h₀ := hwin 0
  have hN := hwin N
  rcases hturn with hmono | hanti
  · have := card_changes_add_le hmono N
    omega
  · have := card_changes_add_ge hanti N
    omega

/-- The sequence that follows every proposal. -/
def follow (f : ℕ → ℕ) (n : ℕ) : ℕ → ℕ
  | 0 => n
  | k + 1 => f (follow f n k)

theorem driven_follow (f : ℕ → ℕ) (n : ℕ) : Driven f (follow f n) := fun _ => Or.inr rfl

/-- From a flap, a sequence that follows every proposal moves at every tick. -/
theorem follow_of_flaps {n : ℕ} (h : Flaps f n) (k : ℕ) :
    (follow f n k = n ∧ follow f n (k + 1) = n + 1) ∨
      (follow f n k = n + 1 ∧ follow f n (k + 1) = n) := by
  induction k with
  | zero => exact Or.inl ⟨rfl, h.1⟩
  | succ k ih =>
    rcases ih with ⟨-, h₁⟩ | ⟨-, h₀⟩
    · exact Or.inr ⟨h₁, by rw [follow, h₁]; exact h.2⟩
    · exact Or.inl ⟨h₀, by rw [follow, h₀]; exact h.1⟩

theorem card_changes_follow {n : ℕ} (h : Flaps f n) (N : ℕ) :
    (changes (follow f n) N).card = N := by
  unfold changes
  rw [Finset.filter_true_of_mem, Finset.card_range]
  intro k _
  have := follow_of_flaps h k
  omega

/-- **A controller settles under every schedule exactly if it flaps nowhere in the window.** -/
theorem settles_iff (hf : ByOne f) (hkeep : Keeps f lo hi) :
    (∀ x, Driven f x → lo ≤ x 0 ∧ x 0 ≤ hi → ∀ N, (changes x N).card ≤ hi - lo) ↔
      ∀ n, lo ≤ n → n < hi → ¬ Flaps f n := by
  constructor
  · intro hsettle n hlo hhi hflap
    have hcard := hsettle (follow f n) (driven_follow f n) ⟨hlo, hhi.le⟩ (hi - lo + 1)
    rw [card_changes_follow hflap] at hcard
    omega
  · intro hflap x hx h₀
    exact card_changes_le (hx.monotone_or_antitone hf hkeep hflap h₀) (hx.mem_window hkeep h₀)

end

end UnitStep
