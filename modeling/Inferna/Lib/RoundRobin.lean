import Mathlib.Data.List.MinMax
import Mathlib.Data.Prod.Lex
import Mathlib.Algebra.Order.Floor.Div
import Mathlib.Tactic

/-!
# The least loaded, then the least recently chosen

A dispatcher gives each request to the party that holds the fewest, among those to the one whose
last turn is the oldest, and among those to the first.  As long as nothing is given back, or as
long as everything is given back at once, this is a rotation: the counts of the parties at the
start of a lap are equal, within a lap the parties before the next one have had one more turn, and
in either case no party is behind the next one.

Histories are lists with the newest entry first.

## Main definitions

* `RoundRobin.lastIndex` — the number of the last turn of a party.
* `RoundRobin.leastLoaded` — the choice.
* `RoundRobin.rotation` — the history of a rotation.

## Main results

* `RoundRobin.leastLoaded_spec` — what the choice is.
* `RoundRobin.leastLoaded_rotation` — **after a rotation the choice goes on with it.**
* `RoundRobin.count_rotation_eq` — the parties of a rotation have had as many turns, but for one.
-/

namespace RoundRobin

variable {α : Type*} [DecidableEq α] {l : List α}

/-- The number of the last turn of a party, from `1` on; `0` if it had none. -/
def lastIndex (a : α) : List α → ℕ
  | [] => 0
  | b :: picks => if b = a then picks.length + 1 else lastIndex a picks

@[simp] theorem lastIndex_nil (a : α) : lastIndex a [] = 0 := rfl

@[simp] theorem lastIndex_cons (a b : α) (picks : List α) :
    lastIndex a (b :: picks) = if b = a then picks.length + 1 else lastIndex a picks := rfl

omit [DecidableEq α] in
/-- The least of some images. -/
theorem argmin_map {β γ : Type*} [LinearOrder γ] (g : β → α) (f : α → γ) (l : List β) :
    (l.map g).argmin f = (l.argmin (f ∘ g)).map g := by
  induction l using List.reverseRecOn with
  | nil => rfl
  | append_singleton l b ih =>
    rw [List.map_append, List.map_singleton, List.argmin_concat, List.argmin_concat, ih]
    cases l.argmin (f ∘ g) with
    | none => rfl
    | some c => simp only [Option.map_some, Function.comp_apply]; split <;> rfl

/-- The party that holds the fewest, then the one whose last turn is the oldest, then the first. -/
def leastLoaded (held picks l : List α) : Option α :=
  l.argmin fun a => toLex (held.count a, lastIndex a picks)

/-- The choice holds the fewest, and among those it has waited the longest. -/
theorem leastLoaded_spec {held picks : List α} {a : α} (h : leastLoaded held picks l = some a) :
    a ∈ l ∧ ∀ b ∈ l, held.count a ≤ held.count b ∧
      (held.count b = held.count a → lastIndex a picks ≤ lastIndex b picks) := by
  obtain ⟨hmem, hmin, -⟩ := List.mem_argmin_iff.mp h
  refine ⟨hmem, fun b hb => ?_⟩
  have hle := Prod.Lex.toLex_le_toLex.mp (hmin b hb)
  simp only at hle
  omega

theorem leastLoaded_isSome (held picks : List α) (hne : l ≠ []) :
    ∃ a, leastLoaded held picks l = some a := by
  rw [← Option.ne_none_iff_exists']
  intro h
  exact hne (List.argmin_eq_none.mp h)

/-! ### A rotation -/

/-- A number of turns is some laps and a part of one. -/
theorem exists_lap {k : ℕ} (hk : 0 < k) (n : ℕ) : ∃ q p, p < k ∧ n = q * k + p :=
  ⟨n / k, n % k, Nat.mod_lt n hk, by rw [Nat.mul_comm]; exact (Nat.div_add_mod n k).symm⟩

/-- The history of the first `n` turns of a rotation. -/
def rotation (l : List α) : ℕ → List α
  | 0 => []
  | n + 1 => l[n % l.length]?.toList ++ rotation l n

omit [DecidableEq α] in
/-- The next turn of a rotation, `p` turns into a lap. -/
theorem rotation_succ (q : ℕ) {p : ℕ} (hp : p < l.length) :
    rotation l (q * l.length + p + 1) = l[p] :: rotation l (q * l.length + p) := by
  rw [rotation, Nat.mul_add_mod_of_lt hp, List.getElem?_eq_getElem hp]
  rfl

omit [DecidableEq α] in
theorem length_rotation (hne : l ≠ []) (n : ℕ) : (rotation l n).length = n := by
  induction n with
  | zero => rfl
  | succ n ih =>
    have hlt := Nat.mod_lt n (List.length_pos_iff.mpr hne)
    rw [rotation, List.getElem?_eq_getElem hlt, List.length_append, ih]
    simp [Nat.add_comm]

/-- The turns of a party within a lap. -/
theorem count_rotation_add (hl : l.Nodup) (q : ℕ) {i : ℕ} (hi : i < l.length) {p : ℕ}
    (hp : p ≤ l.length) : (rotation l (q * l.length + p)).count l[i] =
      (rotation l (q * l.length)).count l[i] + if i < p then 1 else 0 := by
  induction p with
  | zero => simp
  | succ p ih =>
    rw [← Nat.add_assoc, rotation_succ q hp, List.count_cons, ih (by omega)]
    by_cases hpi : p = i
    · subst hpi
      simp
    · have hne : l[p] ≠ l[i] := fun h => hpi ((hl.getElem_inj_iff).mp h)
      simp only [beq_iff_eq, hne, if_false]
      split <;> split <;> omega

/-- The turns of a party after whole laps. -/
theorem count_rotation_mul (hl : l.Nodup) {i : ℕ} (hi : i < l.length) (q : ℕ) :
    (rotation l (q * l.length)).count l[i] = q := by
  induction q with
  | zero => simp [rotation]
  | succ q ih =>
    rw [Nat.succ_mul, count_rotation_add hl q hi le_rfl, ih, if_pos hi]

/-- The last turn of a party within a lap. -/
theorem lastIndex_rotation_add (hl : l.Nodup) (q : ℕ) {i : ℕ} (hi : i < l.length) {p : ℕ}
    (hp : p ≤ l.length) : lastIndex l[i] (rotation l (q * l.length + p)) =
      if i < p then q * l.length + i + 1 else lastIndex l[i] (rotation l (q * l.length)) := by
  have hne : l ≠ [] := List.ne_nil_of_length_pos (by omega)
  induction p with
  | zero => simp
  | succ p ih =>
    rw [← Nat.add_assoc, rotation_succ q hp, lastIndex_cons, length_rotation hne, ih (by omega)]
    by_cases hpi : p = i
    · subst hpi
      simp
    · have hne : l[p] ≠ l[i] := fun h => hpi ((hl.getElem_inj_iff).mp h)
      rw [if_neg hne]
      split <;> split <;> first | rfl | omega

/-- The last turn of a party after whole laps: in the lap before, in the order of the list. -/
theorem lastIndex_rotation_mul (hl : l.Nodup) {i : ℕ} (hi : i < l.length) (q : ℕ) :
    lastIndex l[i] (rotation l (q * l.length)) =
      if q = 0 then 0 else (q - 1) * l.length + i + 1 := by
  cases q with
  | zero => simp [rotation]
  | succ q =>
    rw [Nat.succ_mul, lastIndex_rotation_add hl q hi le_rfl, if_pos hi]
    simp

/-- In the lap that has come to `p`, no party is behind the one at `p`, and those before it are
ahead. -/
theorem ahead_of_lap (hl : l.Nodup) (q : ℕ) {p i : ℕ} (hp : p < l.length) (hi : i < l.length)
    {held : List α} (hheld : held = rotation l (q * l.length + p) ∨ held = []) :
    held.count l[p] ≤ held.count l[i] ∧
      (i < p → lastIndex l[p] (rotation l (q * l.length + p)) <
        lastIndex l[i] (rotation l (q * l.length + p))) ∧
      (p ≤ i → held.count l[i] = held.count l[p] ∧
        lastIndex l[p] (rotation l (q * l.length + p)) ≤
          lastIndex l[i] (rotation l (q * l.length + p))) := by
  rw [lastIndex_rotation_add hl q hp hp.le, lastIndex_rotation_add hl q hi hp.le,
    lastIndex_rotation_mul hl hp, lastIndex_rotation_mul hl hi]
  have hlap : q ≠ 0 → (q - 1) * l.length + l.length = q * l.length := by
    intro hq
    rw [← Nat.succ_mul, Nat.succ_eq_add_one, Nat.sub_add_cancel (Nat.pos_of_ne_zero hq)]
  have hcount : held.count l[p] ≤ held.count l[i] ∧
      (p ≤ i → held.count l[i] = held.count l[p]) := by
    rcases hheld with rfl | rfl
    · rw [count_rotation_add hl q hp hp.le, count_rotation_add hl q hi hp.le,
        count_rotation_mul hl hp, count_rotation_mul hl hi]
      split <;> split <;> omega
    · simp
  refine ⟨hcount.1, fun hip => ?_, fun hpi => ⟨hcount.2 hpi, ?_⟩⟩
  · rw [if_neg (lt_irrefl p), if_pos hip]
    split
    · omega
    · have := hlap ‹_›
      omega
  · rw [if_neg (lt_irrefl p), if_neg (show ¬ i < p by omega)]
    split <;> omega

/-- **After a rotation of which nothing, or everything, was given back, the choice goes on with
it.** -/
theorem leastLoaded_rotation (hl : l.Nodup) (n : ℕ) {held : List α}
    (hheld : held = rotation l n ∨ held = []) :
    leastLoaded held (rotation l n) l = l[n % l.length]? := by
  rcases Nat.eq_zero_or_pos l.length with hzero | hpos
  · rw [List.length_eq_zero_iff] at hzero
    subst hzero
    rfl
  obtain ⟨q, p, hp, rfl⟩ := exists_lap hpos n
  rw [Nat.mul_add_mod_of_lt hp, List.getElem?_eq_getElem hp, leastLoaded]
  refine List.mem_argmin_iff.mpr ⟨List.getElem_mem hp, fun b hb => ?_, fun b hb hle => ?_⟩
  · obtain ⟨i, hi, rfl⟩ := List.getElem_of_mem hb
    obtain ⟨hcount, hbefore, hafter⟩ := ahead_of_lap hl q hp hi hheld
    refine Prod.Lex.toLex_le_toLex.mpr ?_
    simp only
    omega
  · obtain ⟨i, hi, rfl⟩ := List.getElem_of_mem hb
    obtain ⟨hcount, hbefore, -⟩ := ahead_of_lap hl q hp hi hheld
    rw [hl.idxOf_getElem p hp, hl.idxOf_getElem i hi]
    have := Prod.Lex.toLex_le_toLex.mp hle
    simp only at this
    omega

/-- **The parties of a rotation have had as many turns, but for one.** -/
theorem count_rotation_eq (hl : l.Nodup) {a : α} (ha : a ∈ l) (n : ℕ) :
    (rotation l n).count a = n / l.length ∨ (rotation l n).count a = n ⌈/⌉ l.length := by
  obtain ⟨i, hi, rfl⟩ := List.getElem_of_mem ha
  have hpos : 0 < l.length := by omega
  obtain ⟨q, p, hp, rfl⟩ := exists_lap hpos n
  rw [count_rotation_add hl q hi hp.le, count_rotation_mul hl hi, Nat.ceilDiv_eq_add_pred_div]
  by_cases hip : i < p
  · right
    rw [if_pos hip, eq_comm]
    refine Nat.div_eq_of_lt_le ?_ ?_
    · rw [Nat.succ_mul]
      omega
    · rw [Nat.succ_mul, Nat.succ_mul]
      omega
  · left
    rw [if_neg hip, Nat.add_zero, eq_comm]
    refine Nat.div_eq_of_lt_le (by omega) ?_
    rw [Nat.succ_mul]
    omega

omit [DecidableEq α] in
/-- The turns of a rotation, in order. -/
theorem getElem?_reverse_rotation (hne : l ≠ []) {j n : ℕ} (hj : j < n) :
    (rotation l n).reverse[j]? = l[j % l.length]? := by
  induction n with
  | zero => exact absurd hj (Nat.not_lt_zero j)
  | succ n ih =>
    have hlt := Nat.mod_lt n (List.length_pos_iff.mpr hne)
    have hlen : (rotation l n).reverse.length = n := by
      rw [List.length_reverse, length_rotation hne]
    rw [rotation, List.getElem?_eq_getElem hlt, Option.toList_some, List.singleton_append,
      List.reverse_cons]
    rcases Nat.lt_succ_iff_lt_or_eq.mp hj with h | rfl
    · rw [List.getElem?_append_left (by omega), ih h]
    · rw [List.getElem?_append_right (by omega), hlen, Nat.sub_self, List.getElem?_eq_getElem hlt]
      rfl

end RoundRobin
