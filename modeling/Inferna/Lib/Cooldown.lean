import Inferna.Lib.Dict
import Mathlib.Algebra.Order.Floor.Ring
import Mathlib.Data.Rat.Floor
import Mathlib.Tactic.Linarith
import Mathlib.Tactic.Positivity

/-!
# Actions under a cooldown

A map holds for each key the time of its last action, and an action is let through only if that
time lies far enough back.  Against the log of all actions the map says no less than the log: an
action is let through exactly if no action on its key is too recent.  The actions on a key are
then spaced, and a window of time holds a bounded number of them.

## Main definitions

* `Cooldown.Gate` — the map, with the log.
* `Cooldown.Spaced c` — times that are at least `c` apart, oldest first.
* `Cooldown.Gate.Sound` — the map says of each key its last time in the log, and the times of
  each key are spaced.

## Main results

* `Cooldown.Gate.Sound.closed_eq_false_iff` — **the map decides as the whole log would.**
* `Cooldown.Gate.Sound.take` — an action that is let through keeps the gate sound.
* `Cooldown.Spaced.length_le` — **spaced times in a window are bounded in number.**
-/

namespace Cooldown

variable {κ : Type*} [DecidableEq κ] {c now now' : ℚ} {k : κ}

/-- The time of the last action on each key, and the log of all actions. -/
structure Gate (κ : Type*) where
  last : Dict κ ℚ := Dict.empty
  log : List (ℚ × κ) := []

/-- The last action on a key is too recent. -/
def Gate.closed (c now : ℚ) (g : Gate κ) (k : κ) : Bool :=
  (g.last.get? k).any fun t => now - t < c

/-- An action is let through. -/
def Gate.take (g : Gate κ) (now : ℚ) (k : κ) : Gate κ := ⟨g.last.set k now, g.log ++ [(now, k)]⟩

/-- The times of the actions on a key. -/
def Gate.timesOf (g : Gate κ) (k : κ) : List ℚ := (g.log.filter (·.2 = k)).map (·.1)

/-- Times that are at least `c` apart, oldest first. -/
def Spaced (c : ℚ) (times : List ℚ) : Prop := times.Pairwise fun a b => a + c ≤ b

/-! ### The bound -/

/-- Spaced times stretch over their number of gaps. -/
theorem Spaced.exists_ge : ∀ {t : ℚ} {times : List ℚ}, Spaced c (t :: times) →
    ∃ u ∈ t :: times, t + times.length * c ≤ u := by
  intro t times
  induction times generalizing t with
  | nil => exact fun _ => ⟨t, List.mem_cons_self, by simp⟩
  | cons t' times ih =>
    intro h
    obtain ⟨hhead, htail⟩ := List.pairwise_cons.mp h
    obtain ⟨u, hu, hle⟩ := ih htail
    have hgap := hhead t' List.mem_cons_self
    refine ⟨u, List.mem_cons_of_mem t hu, ?_⟩
    rw [List.length_cons]
    push_cast
    linarith

/-- **Spaced times in a window are bounded in number.** -/
theorem Spaced.length_le {times : List ℚ} (h : Spaced c times) (hc : 0 < c) {lo width : ℚ}
    (hwin : ∀ t ∈ times, lo ≤ t ∧ t < lo + width) : times.length ≤ ⌈width / c⌉₊ := by
  cases times with
  | nil => exact Nat.zero_le _
  | cons t times =>
    obtain ⟨u, hu, hle⟩ := h.exists_ge
    have hlt : (times.length : ℚ) < width / c := by
      rw [lt_div_iff₀ hc]
      have := (hwin u hu).2
      have := (hwin t List.mem_cons_self).1
      linarith
    rw [List.length_cons, Nat.succ_le_iff]
    exact Nat.lt_ceil.mpr hlt

/-- A window of spaced times. -/
theorem Spaced.filter {times : List ℚ} (h : Spaced c times) (p : ℚ → Bool) :
    Spaced c (times.filter p) := List.Pairwise.filter p h

/-! ### The gate -/

@[simp] theorem Gate.timesOf_empty (k : κ) : ({} : Gate κ).timesOf k = [] := rfl

theorem Gate.timesOf_take (g : Gate κ) (now : ℚ) (k k' : κ) :
    (g.take now k).timesOf k' = if k = k' then g.timesOf k' ++ [now] else g.timesOf k' := by
  unfold timesOf take
  rw [List.filter_append, List.map_append]
  split
  · rename_i h
    simp [h]
  · rename_i h
    simp [h]

/-- The map says of each key its last time in the log; the times of each key are spaced, and none
is after `now`. -/
structure Gate.Sound (c now : ℚ) (g : Gate κ) : Prop where
  last : ∀ k, g.last.get? k = (g.timesOf k).getLast?
  spaced : ∀ k, Spaced c (g.timesOf k)
  past : ∀ k, ∀ t ∈ g.timesOf k, t ≤ now

variable {g : Gate κ}

theorem Gate.sound_empty (c now : ℚ) : Gate.Sound c now ({} : Gate κ) :=
  ⟨fun _ => rfl, fun _ => List.Pairwise.nil, fun _ _ h => by cases h⟩

theorem Gate.Sound.mono (h : g.Sound c now) (hle : now ≤ now') : g.Sound c now' :=
  ⟨h.last, h.spaced, fun k t ht => (h.past k t ht).trans hle⟩

/-- **The map decides as the whole log would**: the gate is open for a key exactly if no action on
it is too recent. -/
theorem Gate.Sound.closed_eq_false_iff (h : g.Sound c now) (k : κ) :
    g.closed c now k = false ↔ ∀ t ∈ g.timesOf k, t + c ≤ now := by
  unfold closed
  rw [h.last k]
  rcases List.eq_nil_or_concat' (g.timesOf k) with hnil | ⟨times, last, heq⟩
  · simp [hnil]
  · have hspaced := h.spaced k
    have hpast := h.past k
    rw [heq] at hspaced hpast ⊢
    rw [List.getLast?_concat, Option.any_some, decide_eq_false_iff_not, not_lt]
    constructor
    · intro hlast t ht
      rcases List.mem_append.mp ht with ht | ht
      · -- the gap to the last time is enough
        have hgap := (List.pairwise_append.mp hspaced).2.2 t ht last List.mem_cons_self
        exact hgap.trans (hpast last (by simp))
      · rw [List.mem_singleton.mp ht]
        linarith
    · intro hall
      have := hall last (by simp)
      linarith

/-- An action that is let through keeps the gate sound. -/
theorem Gate.Sound.take (h : g.Sound c now) (hopen : g.closed c now k = false) :
    (g.take now k).Sound c now := by
  have hall := (h.closed_eq_false_iff k).mp hopen
  refine ⟨fun k' => ?_, fun k' => ?_, fun k' => ?_⟩
  · rw [Gate.timesOf_take]
    show (g.last.set k now).get? k' = _
    rw [Dict.get?_set]
    split
    · rw [List.getLast?_concat]
    · exact h.last k'
  · rw [Gate.timesOf_take]
    split
    · rename_i heq
      subst heq
      refine List.pairwise_append.mpr ⟨h.spaced k, List.pairwise_singleton _ _, ?_⟩
      intro t ht u hu
      rw [List.mem_singleton.mp hu]
      exact hall t ht
    · exact h.spaced k'
  · rw [Gate.timesOf_take]
    intro t ht
    split at ht
    · rcases List.mem_append.mp ht with ht | ht
      · exact h.past k' t ht
      · exact (List.mem_singleton.mp ht).le
    · exact h.past k' t ht

end Cooldown
