import Mathlib.Data.List.Nodup
import Mathlib.Data.Finset.Card
import Mathlib.Data.List.Basic
import Mathlib.Tactic

/-!
# Greedy choices

Two facts about a loop that chooses one thing after the other.  If every choice uses up one unit of
what is left, and there is one as long as something is left, then the loop goes on for exactly as
long as there is something: nothing is wasted, whatever the order of the choices.  And if a choice
is a new one whenever there is a new one, then as many different things are chosen as possible.

## Main definitions

* `Greedy.Spends` — a step that lowers a measure by one, and fails when it is zero.
* `Greedy.Spreads` — picks that are fresh whenever something is.

## Main results

* `Greedy.foldlM_of_spends` — **the loop succeeds exactly up to the measure**, and where it fails.
* `Greedy.sum_map_add_one` — taking one from a list of capacities.
* `Greedy.card_of_spreads` — **the picks reach as many fresh things as there can be.**
-/

namespace Greedy

/-! ### Spending a measure -/

section Spend

variable {σ ε : Type*}

/-- Round `i` of a loop lowers the measure by one if there is something left, and fails otherwise.
The rounds go up to `limit`. -/
def Spends (step : σ → ℕ → Except ε σ) (measure : σ → ℕ) (failure : ℕ → ε) (limit : ℕ)
    (inv : ℕ → σ → Prop) : Prop :=
  ∀ i s, i ≤ limit → inv i s →
    (0 < measure s → ∃ s', step s i = .ok s' ∧ measure s' + 1 = measure s ∧ inv (i + 1) s') ∧
      (measure s = 0 → step s i = .error (failure i))

/-- **The loop succeeds exactly up to the measure**, and fails in the round after that. -/
theorem foldlM_of_spends {step : σ → ℕ → Except ε σ} {measure : σ → ℕ} {failure : ℕ → ε} {limit : ℕ}
    {inv : ℕ → σ → Prop} (h : Spends step measure failure limit inv) :
    ∀ (n i : ℕ) (s : σ), i + n ≤ limit + 1 → inv i s →
      (n ≤ measure s → ∃ s', (List.range' i n).foldlM step s = .ok s' ∧ inv (i + n) s') ∧
        (measure s < n →
          (List.range' i n).foldlM step s = .error (failure (i + measure s))) := by
  intro n
  induction n with
  | zero => exact fun i s _ hs => ⟨fun _ => ⟨s, rfl, hs⟩, fun hlt => absurd hlt (Nat.not_lt_zero _)⟩
  | succ n ih =>
    intro i s hi hs
    obtain ⟨hgo, hstop⟩ := h i s (by omega) hs
    rw [List.range'_succ, List.foldlM_cons]
    -- with nothing left this round fails, otherwise the rest of the rounds has one less
    rcases Nat.eq_zero_or_pos (measure s) with hzero | hpos
    · refine ⟨fun hle => by omega, fun _ => ?_⟩
      rw [hstop hzero, hzero]
      rfl
    · obtain ⟨s', hok, hspent, hs'⟩ := hgo hpos
      obtain ⟨hthrough, hfails⟩ := ih (i + 1) s' (by omega) hs'
      rw [hok]
      constructor
      · intro hle
        obtain ⟨s'', hs'', hinv⟩ := hthrough (by omega)
        exact ⟨s'', hs'', by rw [← Nat.add_assoc, Nat.add_right_comm]; exact hinv⟩
      · intro hlt
        rw [show i + measure s = i + 1 + measure s' by omega]
        exact hfails (by omega)

end Spend

/-! ### Capacities -/

/-- One of the capacities is lowered by one, and with it the sum. -/
theorem sum_map_add_one {α κ : Type*} {l : List α} {key : α → κ} (hnd : (l.map key).Nodup)
    {f f' : α → ℕ} {x : α} (hx : x ∈ l) (hone : f' x + 1 = f x)
    (hrest : ∀ y ∈ l, key y ≠ key x → f' y = f y) : (l.map f').sum + 1 = (l.map f).sum := by
  induction l with
  | nil => exact absurd hx List.not_mem_nil
  | cons y ys ih =>
    rw [List.map_cons, List.nodup_cons] at hnd
    rw [List.map_cons, List.map_cons, List.sum_cons, List.sum_cons]
    rcases List.mem_cons.mp hx with rfl | hx
    · -- the others keep theirs
      have hsame : ys.map f' = ys.map f := List.map_congr_left fun z hz =>
        hrest z (List.mem_cons_of_mem _ hz) fun heq => hnd.1 (heq ▸ List.mem_map_of_mem hz)
      rw [hsame]
      omega
    · have hne : key y ≠ key x := fun heq => hnd.1 (heq ▸ List.mem_map_of_mem hx)
      have hsum := ih hnd.2 hx fun z hz => hrest z (List.mem_cons_of_mem _ hz)
      rw [hrest y List.mem_cons_self hne]
      omega

/-- Taking one item of size `v` out of a room lowers what fits by one. -/
theorem div_sub_add_one {v : ℕ} (hv : 1 ≤ v) {room : ℤ} (hfit : (v : ℤ) ≤ room) :
    (room - v).toNat / v + 1 = room.toNat / v := by
  have hroom : room.toNat = (room - v).toNat + v := by omega
  rw [hroom, Nat.add_div_right _ hv]

/-- Nothing fits exactly when the room is too small. -/
theorem div_eq_zero_iff {v : ℕ} (hv : 1 ≤ v) {room : ℤ} :
    room.toNat / v = 0 ↔ ¬ (v : ℤ) ≤ room := by
  rw [Nat.div_eq_zero_iff]
  omega

/-! ### Fresh choices -/

section Spread

variable {κ : Type*} [DecidableEq κ]

/-- Each pick is an available thing that was not picked before, whenever there is one. -/
def Spreads (available : Finset κ) (picks : List κ) : Prop :=
  ∀ before k after, picks = before ++ k :: after →
    (available \ before.toFinset).Nonempty → k ∈ available \ before.toFinset

theorem spreads_nil {available : Finset κ} : Spreads available [] :=
  fun before k after h => absurd h.symm (List.append_ne_nil_of_right_ne_nil before (by simp))

/-- One more pick. -/
theorem Spreads.concat {available : Finset κ} {picks : List κ} {k : κ}
    (h : Spreads available picks)
    (hk : (available \ picks.toFinset).Nonempty → k ∈ available \ picks.toFinset) :
    Spreads available (picks ++ [k]) := by
  intro before k' after heq hsome
  rcases List.eq_nil_or_concat after with rfl | ⟨after, l, rfl⟩
  · obtain ⟨rfl, hlast⟩ := List.append_inj' heq rfl
    rw [← List.head_eq_of_cons_eq hlast]
    exact hk hsome
  · rw [List.concat_eq_append, ← List.cons_append, ← List.append_assoc] at heq
    exact h before k' after (List.append_inj' heq rfl).1 hsome

/-- **The picks reach as many available things as there can be.** -/
theorem card_of_spreads {available : Finset κ} : ∀ {picks : List κ}, Spreads available picks →
    (available ∩ picks.toFinset).card = min picks.length available.card := by
  intro picks
  induction picks using List.reverseRecOn with
  | nil => simp
  | append_singleton picks k ih =>
    intro h
    have hprev : (available ∩ picks.toFinset).card = min picks.length available.card := by
      refine ih fun before k' after heq => h before k' (after ++ [k]) ?_
      rw [heq, List.append_assoc, List.cons_append]
    have hsplit := Finset.card_sdiff_add_card_inter available picks.toFinset
    rw [List.length_append, List.length_singleton, List.toFinset_append]
    have hsingle : [k].toFinset = {k} := rfl
    rw [hsingle, Finset.inter_union_distrib_left]
    rcases Finset.eq_empty_or_nonempty (available \ picks.toFinset) with hnone | hsome
    · -- everything has been picked
      have hall : available ∩ picks.toFinset = available :=
        Finset.inter_eq_left.mpr (Finset.sdiff_eq_empty_iff_subset.mp hnone)
      rw [hall, Finset.union_eq_left.mpr Finset.inter_subset_left]
      rw [hall] at hprev
      omega
    · obtain ⟨havail, hfresh⟩ := Finset.mem_sdiff.mp (h picks k [] rfl hsome)
      have hpos := Finset.card_pos.mpr hsome
      have hdisj : Disjoint (available ∩ picks.toFinset) (available ∩ {k}) := by
        rw [Finset.inter_singleton_of_mem havail, Finset.disjoint_singleton_right]
        exact fun hk => hfresh (Finset.mem_inter.mp hk).2
      rw [Finset.card_union_of_disjoint hdisj, Finset.inter_singleton_of_mem havail,
        Finset.card_singleton]
      omega

end Spread

end Greedy
