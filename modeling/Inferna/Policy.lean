import Inferna.Autoscaling

/-!
# The scaling policy

`desired_replicas` moves a deployment by at most one replica per tick.  With targets that are not
negative and a scale-down ratio of at most one, the idle thresholds are not above the busy ones,
so that a loaded deployment is never idle and more load never asks for fewer replicas.

## Main definitions

* `PolicySettings` — what the configuration should satisfy.
* `windowGap` — how far a count is from the window.

## Main results

* `desiredReplicas_cases` — what one tick can do to the count.
* `desiredReplicas_step` — **the policy is a bounded, monotone step.**
-/

namespace Inferna

/-- The settings with targets that are not negative and a ratio of at most one. -/
structure PolicySettings (s : Settings) : Prop where
  ttft : 0 ≤ s.autoscaleTargetTtftMs
  queue : 0 ≤ s.autoscaleTargetQueue
  ratio : s.autoscaleScaleDownRatio ≤ 1

/-- How far a count is from the window. -/
def windowGap (minimum maximum n : ℕ) : ℕ := (minimum - n) + (n - maximum)

/-- A measurement exceeds its target. -/
def Exceeds (s : Settings) (sig : Signal) : Prop :=
  (∃ v, sig.ttftP95Ms = some v ∧ s.autoscaleTargetTtftMs < v) ∨
    ∃ v, sig.queuePerReplica = some v ∧ s.autoscaleTargetQueue < v

theorem isBusy_iff (s : Settings) (sig : Signal) : isBusy s sig ↔ Exceeds s sig := by
  simp [isBusy, Exceeds, Option.any_eq_true_iff_get, Option.eq_some_iff_get_eq]

/-- What one tick can do: stay, add one while a measurement exceeds its target, or take one away
from an idle deployment above its minimum. -/
theorem desiredReplicas_cases (s : Settings) (current minimum maximum : ℕ) (sig : Signal) :
    desiredReplicas s current minimum maximum sig = current ∨
      (isBusy s sig ∧ current < maximum ∧
        desiredReplicas s current minimum maximum sig = current + 1) ∨
      (isIdle s minimum sig ∧ minimum < current ∧
        desiredReplicas s current minimum maximum sig = current - 1) := by
  unfold desiredReplicas
  split
  · exact Or.inl rfl
  · split
    · rename_i h
      exact Or.inr (Or.inl ⟨h.1, h.2, by omega⟩)
    · split
      · rename_i h
        exact Or.inr (Or.inr ⟨h.1, h.2, by omega⟩)
      · exact Or.inl rfl

/-- A deployment with a measurement above its target is not idle. -/
theorem not_isIdle_of_exceeds {s : Settings} (hs : PolicySettings s) {sig : Signal}
    (h : Exceeds s sig) (minimum : ℕ) : ¬ isIdle s minimum sig := by
  intro hidle
  simp only [isIdle, Bool.and_eq_true] at hidle
  obtain ⟨⟨httft, hqueue⟩, -⟩ := hidle
  rcases h with ⟨v, hv, hlt⟩ | ⟨v, hv, hlt⟩
  · have hle := mul_le_of_le_one_right hs.ttft hs.ratio
    rw [hv, Option.all_some, decide_eq_true_eq] at httft
    linarith
  · have hle := mul_le_of_le_one_right hs.queue hs.ratio
    rw [hv, Option.all_some, decide_eq_true_eq] at hqueue
    linarith

/-- While a measurement exceeds its target, the count does not decrease. -/
theorem le_desiredReplicas {s : Settings} (hs : PolicySettings s) {sig : Signal}
    (h : Exceeds s sig) (current minimum maximum : ℕ) :
    current ≤ desiredReplicas s current minimum maximum sig := by
  rcases desiredReplicas_cases s current minimum maximum sig with heq | ⟨-, -, heq⟩ | ⟨hidle, -, -⟩
  · exact heq.ge
  · omega
  · exact absurd hidle (not_isIdle_of_exceeds hs h minimum)

/-! ### More load -/

section Load

variable {s : Settings} {t t' q q' : ℚ} {serving : ℕ}

/-- More load keeps a deployment busy. -/
theorem isBusy_mono (ht : t ≤ t') (hq : q ≤ q') (h : isBusy s ⟨some t, some q, serving⟩) :
    isBusy s ⟨some t', some q', serving⟩ := by
  simp only [isBusy, Option.any_some, Bool.or_eq_true, decide_eq_true_eq] at h ⊢
  exact h.imp (·.trans_le ht) (·.trans_le hq)

/-- Less load keeps a deployment idle. -/
theorem isIdle_anti {minimum : ℕ} (ht : t ≤ t') (hq : q ≤ q')
    (h : isIdle s minimum ⟨some t', some q', serving⟩) :
    isIdle s minimum ⟨some t, some q, serving⟩ := by
  simp only [isIdle, Option.all_some, Bool.and_eq_true, decide_eq_true_eq] at h ⊢
  exact ⟨⟨ht.trans_lt h.1.1, hq.trans_lt h.1.2⟩, h.2⟩

/-- With both measurements present, the count is decided by busy, then by idle. -/
theorem desiredReplicas_some (current minimum maximum : ℕ) :
    desiredReplicas s current minimum maximum ⟨some t, some q, serving⟩ =
      if isBusy s ⟨some t, some q, serving⟩ ∧ current < maximum then current + 1
      else if isIdle s minimum ⟨some t, some q, serving⟩ ∧ minimum < current then current - 1
      else current := by
  unfold desiredReplicas
  rw [if_neg (by simp)]
  split
  · omega
  · split
    · omega
    · rfl

/-- **More load never lowers the count.** -/
theorem desiredReplicas_mono (hs : PolicySettings s) (ht : t ≤ t') (hq : q ≤ q')
    (current minimum maximum : ℕ) :
    desiredReplicas s current minimum maximum ⟨some t, some q, serving⟩ ≤
      desiredReplicas s current minimum maximum ⟨some t', some q', serving⟩ := by
  by_cases hup : isBusy s ⟨some t, some q, serving⟩ ∧ current < maximum
  · -- both runs add one
    rw [desiredReplicas_some, desiredReplicas_some, if_pos hup,
      if_pos ⟨isBusy_mono ht hq hup.1, hup.2⟩]
  · by_cases hdown : isIdle s minimum ⟨some t', some q', serving⟩ ∧ minimum < current
    · -- both runs take one away, as the loaded one is not busy
      have hbusy : ¬ isBusy s ⟨some t', some q', serving⟩ := fun h =>
        not_isIdle_of_exceeds hs ((isBusy_iff _ _).mp h) minimum hdown.1
      rw [desiredReplicas_some, desiredReplicas_some, if_neg hup,
        if_pos ⟨isIdle_anti ht hq hdown.1, hdown.2⟩, if_neg fun h => hbusy h.1, if_pos hdown]
    · have hlow : desiredReplicas s current minimum maximum ⟨some t, some q, serving⟩ ≤ current := by
        rw [desiredReplicas_some, if_neg hup]
        split <;> omega
      have hhigh : current ≤
          desiredReplicas s current minimum maximum ⟨some t', some q', serving⟩ := by
        rw [desiredReplicas_some, if_neg hdown]
        split <;> omega
      exact hlow.trans hhigh

end Load

/-! ### The step -/

/-- **The policy is a bounded, monotone step.** -/
theorem desiredReplicas_step {s : Settings} (hs : PolicySettings s) {minimum maximum : ℕ}
    (hw : minimum ≤ maximum) (current : ℕ) :
    (∀ sig,
      (desiredReplicas s current minimum maximum sig ≤ current + 1 ∧
        current ≤ desiredReplicas s current minimum maximum sig + 1) ∧
      (sig.ttftP95Ms = none → sig.queuePerReplica = none →
        desiredReplicas s current minimum maximum sig = current) ∧
      (minimum ≤ current ∧ current ≤ maximum →
        minimum ≤ desiredReplicas s current minimum maximum sig ∧
          desiredReplicas s current minimum maximum sig ≤ maximum) ∧
      windowGap minimum maximum (desiredReplicas s current minimum maximum sig) ≤
        windowGap minimum maximum current ∧
      (Exceeds s sig → current ≤ desiredReplicas s current minimum maximum sig)) ∧
    ∀ t t' q q' serving, t ≤ t' → q ≤ q' →
      desiredReplicas s current minimum maximum ⟨some t, some q, serving⟩ ≤
        desiredReplicas s current minimum maximum ⟨some t', some q', serving⟩ := by
  refine ⟨fun sig => ?_, fun t t' q q' serving ht hq =>
    desiredReplicas_mono hs ht hq current minimum maximum⟩
  have hcases := desiredReplicas_cases s current minimum maximum sig
  refine ⟨by omega, fun httft hqueue => if_pos ⟨httft, hqueue⟩, fun hin => by omega, ?_,
    fun h => le_desiredReplicas hs h current minimum maximum⟩
  unfold windowGap
  omega

/-- Two replicas in a window from one to four, under the default settings, with a slow first
token: the count stays in the window, is not lowered, and is no lower than with a fast one. -/
theorem desiredReplicas_step_default :
    (1 ≤ desiredReplicas {} 2 1 4 ⟨some 5000, some 1, 2⟩ ∧
      desiredReplicas {} 2 1 4 ⟨some 5000, some 1, 2⟩ ≤ 4) ∧
    2 ≤ desiredReplicas {} 2 1 4 ⟨some 5000, some 1, 2⟩ ∧
    desiredReplicas {} 2 1 4 ⟨some 100, some 1, 2⟩ ≤
      desiredReplicas {} 2 1 4 ⟨some 5000, some 1, 2⟩ := by
  have hstep := desiredReplicas_step (s := {}) ⟨by norm_num, by norm_num, by norm_num⟩
    (show 1 ≤ 4 by norm_num) 2
  obtain ⟨-, -, hwindow, -, hexceeds⟩ := hstep.1 ⟨some 5000, some 1, 2⟩
  refine ⟨hwindow ⟨by norm_num, by norm_num⟩, hexceeds ?_, ?_⟩
  · exact Or.inl ⟨5000, rfl, by norm_num⟩
  · exact hstep.2 100 5000 1 1 2 (by norm_num) le_rfl

end Inferna
