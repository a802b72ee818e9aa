import Mathlib.Data.List.DropRight
import Mathlib.Tactic

/-!
# A bounded ring with lazy expiry

Entries with a time come in at the end of a ring of a given size, which drops its oldest entry when
it is full.  Entries before a cutoff are removed from the front, now and then.  Against the log of
all entries the ring never loses one of the last that is not before the cutoff, and never brings
one back.

## Main definitions

* `TimedRing.push`, `TimedRing.expire` — the operations.
* `TimedRing.Holds` — of the last entries of the log, the ring lacks only some before the cutoff.

## Main results

* `TimedRing.Holds.push`, `TimedRing.Holds.expire` — the operations keep it.
* `TimedRing.Holds.expire_eq` — **after expiry the ring is what the last entries of the log have
  from the cutoff on.**
-/

namespace TimedRing

variable {τ ε : Type*} [LinearOrder τ] {m : ℕ} {log ring : List (τ × ε)} {cutoff cutoff' : τ}

/-- An entry comes in; a full ring drops its oldest. -/
def push (m : ℕ) (ring : List (τ × ε)) (e : τ × ε) : List (τ × ε) := (ring ++ [e]).rtake m

/-- The entries before the cutoff are removed from the front. -/
def expire (cutoff : τ) (ring : List (τ × ε)) : List (τ × ε) := ring.dropWhile fun e => e.1 < cutoff

theorem rtake_append {α : Type*} (l l' : List α) (n : ℕ) :
    (l ++ l').rtake n = l.rtake (n - l'.length) ++ l'.rtake n := by
  unfold List.rtake
  rw [List.drop_append, List.length_append]
  congr 1
  · rcases Nat.le_total n l'.length with h | h
    · rw [List.drop_of_length_le (by omega), List.drop_of_length_le (by omega)]
    · congr 1
      omega
  · congr 1
    omega

theorem rtake_rtake_append {α : Type*} (l l' : List α) (n : ℕ) :
    (l.rtake n ++ l').rtake n = (l ++ l').rtake n := by
  rw [rtake_append, rtake_append]
  congr 1
  unfold List.rtake
  rw [List.drop_drop, List.length_drop]
  congr 1
  omega

theorem rtake_subset {α : Type*} (l : List α) (n : ℕ) : l.rtake n ⊆ l := List.drop_subset _ _

/-- Of the last entries of the log, the ring lacks only some before the cutoff. -/
def Holds (m : ℕ) (log ring : List (τ × ε)) (cutoff : τ) : Prop :=
  ∃ old, log.rtake m = old ++ ring ∧ ∀ e ∈ old, e.1 < cutoff

theorem holds_nil (m : ℕ) (cutoff : τ) : Holds m ([] : List (τ × ε)) [] cutoff :=
  ⟨[], by simp, by simp⟩

theorem Holds.mono (h : Holds m log ring cutoff) (hle : cutoff ≤ cutoff') :
    Holds m log ring cutoff' := by
  obtain ⟨old, heq, hold⟩ := h
  exact ⟨old, heq, fun e he => (hold e he).trans_le hle⟩

theorem Holds.push (h : Holds m log ring cutoff) (e : τ × ε) :
    Holds m (log ++ [e]) (push m ring e) cutoff := by
  obtain ⟨old, heq, hold⟩ := h
  refine ⟨old.rtake (m - (ring ++ [e]).length), ?_, fun e' he' => hold e' (rtake_subset _ _ he')⟩
  rw [← rtake_rtake_append, heq, List.append_assoc, rtake_append, TimedRing.push]

theorem Holds.expire (h : Holds m log ring cutoff) (hle : cutoff ≤ cutoff') :
    Holds m log (expire cutoff' ring) cutoff' := by
  obtain ⟨old, heq, hold⟩ := h
  refine ⟨old ++ ring.takeWhile fun e => e.1 < cutoff', ?_, fun e he => ?_⟩
  · rw [heq, List.append_assoc, TimedRing.expire, List.takeWhile_append_dropWhile]
  · rcases List.mem_append.mp he with he | he
    · exact (hold e he).trans_le hle
    · have hlt := List.mem_takeWhile_imp he
      rwa [decide_eq_true_eq] at hlt

/-- Among entries in the order of their times, expiry keeps those from the cutoff on. -/
theorem expire_eq_filter (hsorted : ring.Pairwise fun a b => a.1 ≤ b.1) :
    TimedRing.expire cutoff ring = ring.filter fun e => cutoff ≤ e.1 := by
  unfold TimedRing.expire
  induction ring with
  | nil => rfl
  | cons e ring ih =>
    rw [List.pairwise_cons] at hsorted
    by_cases he : e.1 < cutoff
    · rw [List.dropWhile_cons_of_pos (by simpa using he),
        List.filter_cons_of_neg (by simpa using he), ih hsorted.2]
    · rw [List.dropWhile_cons_of_neg (by simpa using he), eq_comm, List.filter_eq_self]
      intro e' he'
      rw [decide_eq_true_eq]
      rcases List.mem_cons.mp he' with rfl | he'
      · exact not_lt.mp he
      · exact (not_lt.mp he).trans (hsorted.1 e' he')

/-- **After expiry the ring is what the last entries of the log have from the cutoff on.** -/
theorem Holds.expire_eq (h : Holds m log ring cutoff) (hle : cutoff ≤ cutoff')
    (hsorted : log.Pairwise fun a b => a.1 ≤ b.1) :
    TimedRing.expire cutoff' ring = (log.rtake m).filter fun e => cutoff' ≤ e.1 := by
  obtain ⟨old, heq, hold⟩ := h
  have hring : ring.Sublist log := by
    have hsub : (old ++ ring).Sublist log := heq ▸ List.drop_sublist _ _
    exact (List.sublist_append_right old ring).trans hsub
  have hnone : old.filter (fun e => cutoff' ≤ e.1) = [] := by
    rw [List.filter_eq_nil_iff]
    intro e he hle'
    exact absurd (of_decide_eq_true hle') (not_le.mpr ((hold e he).trans_le hle))
  rw [heq, List.filter_append, hnone, List.nil_append, expire_eq_filter (hsorted.sublist hring)]

end TimedRing
