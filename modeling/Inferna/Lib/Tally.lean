import Inferna.Lib.Dict
import Mathlib.Algebra.BigOperators.Group.List.Basic

/-!
# Dictionaries of amounts

Dictionaries whose values can be added, such as counters by key.  Amounts are
compared through the total over a set of keys, which a single key is a case of.

## Main definitions

* `Dict.sumEntries`, `Dict.total` — the amounts of a set of keys, added up.
* `Dict.add`, `Dict.addAll` — add one amount, or the amounts of a list.

## Main results

* `total_add`, `total_addAll` — what adding does to a total.
* `total_single` — the total of one key.
* `get?_add`, `get?_addAll_of_notMem` — what every key reads after adding.
* `size_addAll` — how many keys there are then.
* `entries_addAll`, `empty_addAll` — adding new keys appends them.
-/

namespace Dict

variable {κ ν : Type*} [AddCommMonoid ν]

/-- The amounts of the entries whose key satisfies `p`, added up. -/
def sumEntries (p : κ → Bool) (es : List (κ × ν)) : ν :=
  ((es.filter fun e => p e.1).map Prod.snd).sum

/-- The amounts of the keys that satisfy `p`, added up. -/
def total (p : κ → Bool) (d : Dict κ ν) : ν := sumEntries p d.entries

@[simp] theorem sumEntries_nil (p : κ → Bool) : sumEntries p ([] : List (κ × ν)) = 0 := rfl

@[simp] theorem sumEntries_cons (p : κ → Bool) (e : κ × ν) (es : List (κ × ν)) :
    sumEntries p (e :: es) = (if p e.1 then e.2 else 0) + sumEntries p es := by
  unfold sumEntries
  by_cases h : p e.1
  · rw [List.filter_cons_of_pos (by simpa using h), List.map_cons, List.sum_cons, if_pos h]
  · rw [List.filter_cons_of_neg (by simpa using h), if_neg h, zero_add]

theorem sumEntries_append (p : κ → Bool) (es fs : List (κ × ν)) :
    sumEntries p (es ++ fs) = sumEntries p es + sumEntries p fs := by
  unfold sumEntries
  rw [List.filter_append, List.map_append, List.sum_append]

@[simp] theorem total_empty (p : κ → Bool) : (empty : Dict κ ν).total p = 0 := rfl

theorem sumEntries_of_notMem {p : κ → Bool} {es : List (κ × ν)} (h : ∀ e ∈ es, p e.1 = false) :
    sumEntries p es = 0 := by
  unfold sumEntries
  rw [List.filter_eq_nil_iff.mpr fun e he => by rw [h e he]; exact Bool.false_ne_true]
  rfl

/-! ### Adding -/

variable [DecidableEq κ]

/-- Add an amount to a key; a new key starts with it. -/
def add (d : Dict κ ν) (k : κ) (v : ν) : Dict κ ν :=
  match d.get? k with
  | none => d.set k v
  | some w => d.set k (w + v)

/-- Add the amounts of a list, in order. -/
def addAll (d : Dict κ ν) (es : List (κ × ν)) : Dict κ ν := es.foldl (fun d e => d.add e.1 e.2) d

theorem sumEntries_assocSet_new (p : κ → Bool) {es : List (κ × ν)} {k : κ} (v : ν)
    (h : assocGet es k = none) :
    sumEntries p (assocSet es k v) = sumEntries p es + if p k then v else 0 := by
  induction es with
  | nil => simp [assocSet]
  | cons e es ih =>
    by_cases he : e.1 = k
    · rw [assocGet, if_pos he] at h
      cases h
    · rw [assocGet, if_neg he] at h
      rw [assocSet, if_neg he, sumEntries_cons, sumEntries_cons, ih h, add_assoc]

theorem sumEntries_assocSet_add (p : κ → Bool) (es : List (κ × ν)) {k : κ} {w : ν} (v : ν)
    (h : assocGet es k = some w) :
    sumEntries p (assocSet es k (w + v)) = sumEntries p es + if p k then v else 0 := by
  induction es with
  | nil => cases h
  | cons e es ih =>
    by_cases he : e.1 = k
    · rw [assocGet, if_pos he, Option.some.injEq] at h
      rw [assocSet, if_pos he, sumEntries_cons, sumEntries_cons, ← he, h]
      split
      · exact add_right_comm _ _ _
      · rw [add_zero]
    · rw [assocGet, if_neg he] at h
      rw [assocSet, if_neg he, sumEntries_cons, sumEntries_cons, ih h, add_assoc]

/-- Adding an amount to a key adds it to the totals the key belongs to. -/
theorem total_add (p : κ → Bool) (d : Dict κ ν) (k : κ) (v : ν) :
    (d.add k v).total p = d.total p + if p k then v else 0 := by
  unfold add
  split
  · rename_i h
    exact sumEntries_assocSet_new p v h
  · rename_i w h
    exact sumEntries_assocSet_add p d.entries v h

theorem total_addAll (p : κ → Bool) (es : List (κ × ν)) (d : Dict κ ν) :
    (d.addAll es).total p = d.total p + sumEntries p es := by
  induction es generalizing d with
  | nil => rw [sumEntries_nil, add_zero]; rfl
  | cons e es ih =>
    show ((d.add e.1 e.2).addAll es).total p = _
    rw [ih, total_add, sumEntries_cons, add_assoc]

/-! ### Single keys -/

/-- The total of one key is its amount. -/
theorem total_single (d : Dict κ ν) (k : κ) : d.total (fun k' => k' = k) = d.getD k 0 := by
  unfold total sumEntries getD
  rw [filter_entries]
  cases d.get? k with
  | none => rfl
  | some v => simp

theorem get?_add (d : Dict κ ν) (k : κ) (v : ν) (k' : κ) :
    (d.add k v).get? k' = if k = k' then some (d.getD k 0 + v) else d.get? k' := by
  unfold add getD
  split
  · rename_i h
    rw [get?_set, h, Option.getD_none, zero_add]
  · rename_i w h
    rw [get?_set, h, Option.getD_some]

theorem get?_addAll_of_notMem {k : κ} :
    ∀ (es : List (κ × ν)) (d : Dict κ ν), k ∉ es.map Prod.fst → (d.addAll es).get? k = d.get? k := by
  intro es
  induction es with
  | nil => intro d _; rfl
  | cons e es ih =>
    intro d h
    rw [List.map_cons, List.mem_cons, not_or] at h
    show ((d.add e.1 e.2).addAll es).get? k = _
    rw [ih _ h.2, get?_add, if_neg (fun he => h.1 he.symm)]

/-! ### New keys -/

omit [AddCommMonoid ν] in
theorem assocSet_of_notMem {k : κ} (v : ν) :
    ∀ es : List (κ × ν), k ∉ es.map Prod.fst → assocSet es k v = es ++ [(k, v)] := by
  intro es
  induction es with
  | nil => intro _; rfl
  | cons e es ih =>
    intro h
    rw [List.map_cons, List.mem_cons, not_or] at h
    rw [assocSet, if_neg (fun he => h.1 he.symm), ih h.2]
    rfl

/-- Adding new keys appends them. -/
theorem entries_addAll : ∀ (es : List (κ × ν)) (d : Dict κ ν), (es.map Prod.fst).Nodup →
    (∀ e ∈ es, e.1 ∉ d.keys) → (d.addAll es).entries = d.entries ++ es := by
  intro es
  induction es with
  | nil => intro d _ _; rw [List.append_nil]; rfl
  | cons e es ih =>
    intro d hnd hnew
    rw [List.map_cons, List.nodup_cons] at hnd
    have he := hnew e List.mem_cons_self
    have hadd : (d.add e.1 e.2).entries = d.entries ++ [e] := by
      unfold add
      rw [(d.get?_eq_none_iff e.1).mpr he]
      exact assocSet_of_notMem _ _ he
    show ((d.add e.1 e.2).addAll es).entries = _
    rw [ih _ hnd.2, hadd, List.append_assoc]
    · rfl
    · intro e' he' hmem
      unfold keys at hmem
      rw [hadd, List.map_append, List.mem_append] at hmem
      rcases hmem with hmem | hmem
      · exact hnew e' (List.mem_cons_of_mem _ he') hmem
      · rw [List.map_singleton, List.mem_singleton] at hmem
        exact hnd.1 (hmem ▸ List.mem_map_of_mem he')

theorem mem_keys_add (d : Dict κ ν) (k : κ) (v : ν) (k' : κ) :
    k' ∈ (d.add k v).keys ↔ k' ∈ d.keys ∨ k' = k := by
  unfold add
  split <;> exact mem_keys_set _ _ _ _

/-- Adding amounts for different keys makes the dictionary larger by the keys it lacks. -/
theorem size_addAll : ∀ (es : List (κ × ν)) (d : Dict κ ν), (es.map Prod.fst).Nodup →
    (d.addAll es).size = d.size + ((es.map Prod.fst).filter fun k => k ∉ d.keys).length := by
  intro es
  induction es with
  | nil => intro d _; rfl
  | cons e es ih =>
    intro d hnd
    rw [List.map_cons, List.nodup_cons] at hnd
    -- the first key is none of the others, so they are new to both dictionaries alike
    have hrest : ((es.map Prod.fst).filter fun k => k ∉ (d.add e.1 e.2).keys) =
        (es.map Prod.fst).filter fun k => k ∉ d.keys := by
      apply List.filter_congr
      intro k hk
      have hne : k ≠ e.1 := fun h => hnd.1 (h ▸ hk)
      simp [mem_keys_add, hne]
    show ((d.add e.1 e.2).addAll es).size = _
    rw [ih _ hnd.2, hrest, List.map_cons]
    by_cases he : e.1 ∈ d.keys
    · rw [List.filter_cons_of_neg (by simpa using he)]
      congr 1
      unfold add
      split <;> exact size_set_of_mem d _ he
    · rw [List.filter_cons_of_pos (by simpa using he), List.length_cons, Nat.add_comm _ 1,
        ← Nat.add_assoc]
      congr 1
      unfold add
      split <;> exact size_set_of_notMem d _ he

theorem empty_addAll (d : Dict κ ν) : (empty : Dict κ ν).addAll d.entries = d := by
  have hentries := entries_addAll d.entries empty d.nodup_keys fun _ _ hmem => (nomatch hmem)
  obtain ⟨entries, hnd⟩ := d
  cases h : (empty : Dict κ ν).addAll entries with
  | mk entries' hnd' =>
    rw [h] at hentries
    subst hentries
    rfl

end Dict
