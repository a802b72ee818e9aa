import Mathlib.Data.List.Nodup
import Mathlib.Data.List.Basic
import Mathlib.Data.Finset.Card
import Mathlib.Data.Finset.Dedup

/-!
# Insertion-ordered dictionaries

A dictionary as the interpreted languages have it: an association list with
unique keys, kept in insertion order; assigning to a key that is present changes
its value in place, and a new key goes to the back.  The uniqueness of the keys
is a field of the type.

## Main definitions

* `Dict.get?`, `Dict.getD` — reading.
* `Dict.set`, `Dict.erase`, `Dict.modify` — writing.
* `Dict.setDefaults`, `Dict.update` — merging, the old or the new value winning.
* `Dict.groupBy` — the items of a list by key, in order of first appearance.

## Main results

* `get?_set`, `get?_erase`, `get?_modify` — what every key reads after a write.
* `get?_setDefaults`, `get?_update` — and after a merge.
* `mem_entries_iff` — the entries are exactly the key–value pairs that `get?`
  reads.
* `values_groupBy` — a group is the sublist of the items with its key.
* `find?_eq_some_of_mem` — a row of a table is found under its key.
-/

/-- An insertion-ordered dictionary. -/
structure Dict (κ ν : Type*) where
  /-- The entries, oldest key first. -/
  entries : List (κ × ν)
  nodup_keys : (entries.map Prod.fst).Nodup

namespace Dict

variable {κ ν : Type*}

/-- The empty dictionary. -/
def empty : Dict κ ν := ⟨[], List.nodup_nil⟩

instance : Inhabited (Dict κ ν) := ⟨empty⟩

instance [DecidableEq κ] [DecidableEq ν] : DecidableEq (Dict κ ν) := fun d e =>
  decidable_of_iff (d.entries = e.entries) (by cases d; cases e; simp)

/-- The keys, oldest first. -/
def keys (d : Dict κ ν) : List κ := d.entries.map Prod.fst

/-- The values, oldest key first. -/
def values (d : Dict κ ν) : List ν := d.entries.map Prod.snd

/-- The number of keys. -/
def size (d : Dict κ ν) : ℕ := d.entries.length

/-- The dictionary with every value rewritten. -/
def mapVals (f : κ → ν → ν) (d : Dict κ ν) : Dict κ ν where
  entries := d.entries.map fun e => (e.1, f e.1 e.2)
  nodup_keys := by simpa [List.map_map, Function.comp_def] using d.nodup_keys

/-- The empty dictionary has no entry, as a boolean. -/
def isEmpty (d : Dict κ ν) : Bool := d.entries.isEmpty

variable [DecidableEq κ]

/-- Association-list lookup. -/
def assocGet : List (κ × ν) → κ → Option ν
  | [], _ => none
  | e :: es, k => if e.1 = k then some e.2 else assocGet es k

/-- Association-list assignment: in place when the key is there, else at the back. -/
def assocSet : List (κ × ν) → κ → ν → List (κ × ν)
  | [], k, v => [(k, v)]
  | e :: es, k, v => if e.1 = k then (k, v) :: es else e :: assocSet es k v

theorem mem_keys_assocSet (es : List (κ × ν)) (k : κ) (v : ν) (k' : κ) :
    k' ∈ (assocSet es k v).map Prod.fst ↔ k' ∈ es.map Prod.fst ∨ k' = k := by
  induction es with
  | nil => simp [assocSet]
  | cons e es ih =>
    by_cases h : e.1 = k
    · rw [assocSet, if_pos h]
      simp only [List.map_cons, List.mem_cons, h]
      tauto
    · rw [assocSet, if_neg h]
      simp only [List.map_cons, List.mem_cons, ih]
      tauto

theorem nodup_assocSet (es : List (κ × ν)) (k : κ) (v : ν)
    (hes : (es.map Prod.fst).Nodup) : ((assocSet es k v).map Prod.fst).Nodup := by
  induction es with
  | nil => simp [assocSet]
  | cons e es ih =>
    rw [List.map_cons, List.nodup_cons] at hes
    by_cases h : e.1 = k
    · rw [assocSet, if_pos h, List.map_cons, List.nodup_cons, ← h]
      exact hes
    · rw [assocSet, if_neg h, List.map_cons, List.nodup_cons]
      refine ⟨?_, ih hes.2⟩
      rw [mem_keys_assocSet]
      rintro (hmem | heq)
      · exact hes.1 hmem
      · exact h heq

/-- `d[k]`, when the key is there. -/
def get? (d : Dict κ ν) (k : κ) : Option ν := assocGet d.entries k

/-- `d.get(k, default)`. -/
def getD (d : Dict κ ν) (k : κ) (default : ν) : ν := (d.get? k).getD default

/-- `d[k] = v`. -/
def set (d : Dict κ ν) (k : κ) (v : ν) : Dict κ ν :=
  ⟨assocSet d.entries k v, nodup_assocSet d.entries k v d.nodup_keys⟩

/-- `d.pop(k, None)`. -/
def erase (d : Dict κ ν) (k : κ) : Dict κ ν :=
  ⟨d.entries.filter fun e => e.1 ≠ k,
    (List.Sublist.map Prod.fst List.filter_sublist).nodup d.nodup_keys⟩

/-- Change the value of a key that is there; a dictionary without it is kept. -/
def modify (d : Dict κ ν) (k : κ) (f : ν → ν) : Dict κ ν :=
  match d.get? k with
  | none => d
  | some v => d.set k (f v)

theorem eq_empty_of_isEmpty {κ ν : Type*} {d : Dict κ ν} (h : d.isEmpty = true) : d = empty := by
  obtain ⟨entries, hnd⟩ := d
  cases entries with
  | nil => rfl
  | cons e es => cases h

/-! ### Reading after a write -/

@[simp] theorem get?_empty (k : κ) : (empty : Dict κ ν).get? k = none := rfl

theorem assocGet_assocSet (es : List (κ × ν)) (k : κ) (v : ν) (k' : κ) :
    assocGet (assocSet es k v) k' = if k = k' then some v else assocGet es k' := by
  induction es with
  | nil => simp [assocSet, assocGet]
  | cons e es ih =>
    by_cases h : e.1 = k
    · rw [assocSet, if_pos h]
      simp only [assocGet, h]
      by_cases hk : k = k' <;> simp [hk]
    · rw [assocSet, if_neg h]
      simp only [assocGet, ih]
      by_cases he : e.1 = k'
      · have hne : k ≠ k' := fun hkk => h (he.trans hkk.symm)
        simp [he, hne]
      · simp [he]

/-- Reading after an assignment. -/
theorem get?_set (d : Dict κ ν) (k : κ) (v : ν) (k' : κ) :
    (d.set k v).get? k' = if k = k' then some v else d.get? k' :=
  assocGet_assocSet d.entries k v k'

@[simp] theorem get?_set_self (d : Dict κ ν) (k : κ) (v : ν) : (d.set k v).get? k = some v := by
  rw [get?_set, if_pos rfl]

theorem get?_set_of_ne (d : Dict κ ν) {k k' : κ} (v : ν) (h : k ≠ k') :
    (d.set k v).get? k' = d.get? k' := by
  rw [get?_set, if_neg h]

theorem assocGet_filter_ne (es : List (κ × ν)) (k k' : κ) :
    assocGet (es.filter fun e => e.1 ≠ k) k' = if k = k' then none else assocGet es k' := by
  induction es with
  | nil => simp [assocGet]
  | cons e es ih =>
    by_cases h : e.1 = k
    · rw [List.filter_cons_of_neg (by simp [h]), ih]
      by_cases hk : k = k'
      · simp [hk]
      · have hne : e.1 ≠ k' := fun he => hk (h.symm.trans he)
        simp [assocGet, hk, hne]
    · rw [List.filter_cons_of_pos (by simp [h])]
      simp only [assocGet, ih]
      by_cases he : e.1 = k'
      · have hne : k ≠ k' := fun hkk => h (he.trans hkk.symm)
        simp [he, hne]
      · simp [he]

/-- Reading after a removal. -/
theorem get?_erase (d : Dict κ ν) (k k' : κ) :
    (d.erase k).get? k' = if k = k' then none else d.get? k' :=
  assocGet_filter_ne d.entries k k'

@[simp] theorem get?_erase_self (d : Dict κ ν) (k : κ) : (d.erase k).get? k = none := by
  rw [get?_erase, if_pos rfl]

theorem get?_erase_of_ne (d : Dict κ ν) {k k' : κ} (h : k ≠ k') :
    (d.erase k).get? k' = d.get? k' := by
  rw [get?_erase, if_neg h]

/-- Reading after a change in place. -/
theorem get?_modify (d : Dict κ ν) (k : κ) (f : ν → ν) (k' : κ) :
    (d.modify k f).get? k' = if k = k' then (d.get? k').map f else d.get? k' := by
  unfold modify
  cases h : d.get? k with
  | none =>
    by_cases hk : k = k'
    · subst hk; simp [h]
    · simp [hk]
  | some v =>
    show (d.set k (f v)).get? k' = _
    rw [get?_set]
    by_cases hk : k = k'
    · subst hk; simp [h]
    · simp [hk]

theorem get?_modify_of_ne (d : Dict κ ν) {k k' : κ} (f : ν → ν) (h : k ≠ k') :
    (d.modify k f).get? k' = d.get? k' := by
  rw [get?_modify, if_neg h]

/-! ### Entries -/

theorem mem_of_assocGet {es : List (κ × ν)} {k : κ} {v : ν} (h : assocGet es k = some v) :
    (k, v) ∈ es := by
  induction es with
  | nil => simp [assocGet] at h
  | cons e es ih =>
    by_cases he : e.1 = k
    · rw [assocGet, if_pos he, Option.some.injEq] at h
      rw [← he, ← h]
      exact List.mem_cons_self
    · rw [assocGet, if_neg he] at h
      exact List.mem_cons_of_mem _ (ih h)

theorem assocGet_of_mem {es : List (κ × ν)} (hes : (es.map Prod.fst).Nodup) {k : κ} {v : ν}
    (h : (k, v) ∈ es) : assocGet es k = some v := by
  induction es with
  | nil => simp at h
  | cons e es ih =>
    rw [List.map_cons, List.nodup_cons] at hes
    rw [List.mem_cons] at h
    rcases h with rfl | hmem
    · simp [assocGet]
    · have hne : e.1 ≠ k := by
        rintro rfl
        exact hes.1 (List.mem_map.mpr ⟨(e.1, v), hmem, rfl⟩)
      rw [assocGet, if_neg hne]
      exact ih hes.2 hmem

/-- The entries are exactly the pairs that `get?` reads. -/
theorem mem_entries_iff (d : Dict κ ν) (k : κ) (v : ν) :
    (k, v) ∈ d.entries ↔ d.get? k = some v :=
  ⟨assocGet_of_mem d.nodup_keys, mem_of_assocGet⟩

theorem assocGet_eq_none_of_notMem {es : List (κ × ν)} {k : κ} (h : k ∉ es.map Prod.fst) :
    assocGet es k = none := by
  induction es with
  | nil => rfl
  | cons e es ih =>
    rw [List.map_cons, List.mem_cons, not_or] at h
    rw [assocGet, if_neg (fun he => h.1 he.symm), ih h.2]

/-- The entries of a key: the one `get?` reads, or none. -/
theorem filter_entries (d : Dict κ ν) (k : κ) :
    d.entries.filter (fun e => e.1 = k) = (d.get? k).toList.map fun v => (k, v) := by
  have hgen : ∀ es : List (κ × ν), (es.map Prod.fst).Nodup →
      es.filter (fun e => e.1 = k) = (assocGet es k).toList.map fun v => (k, v) := by
    intro es
    induction es with
    | nil => intro _; rfl
    | cons e es ih =>
      intro hnd
      rw [List.map_cons, List.nodup_cons] at hnd
      by_cases he : e.1 = k
      · have hrest : es.filter (fun e => e.1 = k) = [] := by
          rw [ih hnd.2, assocGet_eq_none_of_notMem (he ▸ hnd.1)]
          rfl
        rw [List.filter_cons_of_pos (by simpa using he), hrest, assocGet, if_pos he, ← he]
        rfl
      · rw [List.filter_cons_of_neg (by simpa using he), assocGet, if_neg he]
        exact ih hnd.2
  exact hgen d.entries d.nodup_keys

/-- A rewritten dictionary reads the rewritten values. -/
theorem get?_mapVals (f : κ → ν → ν) (d : Dict κ ν) (k : κ) :
    (d.mapVals f).get? k = (d.get? k).map (f k) := by
  obtain ⟨entries, hnd⟩ := d
  show assocGet (entries.map fun e => (e.1, f e.1 e.2)) k = (assocGet entries k).map (f k)
  clear hnd
  induction entries with
  | nil => rfl
  | cons e es ih =>
    rw [List.map_cons, assocGet, assocGet]
    by_cases hk : e.1 = k
    · rw [if_pos hk, if_pos hk, Option.map_some, hk]
    · rw [if_neg hk, if_neg hk]
      exact ih

theorem get?_eq_none_iff (d : Dict κ ν) (k : κ) : d.get? k = none ↔ k ∉ d.keys := by
  constructor
  · intro h hk
    obtain ⟨⟨k', v⟩, hmem, rfl⟩ := List.mem_map.mp hk
    rw [(d.mem_entries_iff k' v).mp hmem] at h
    cases h
  · intro hk
    cases h : d.get? k with
    | none => rfl
    | some v => exact absurd (List.mem_map_of_mem (f := Prod.fst) (mem_of_assocGet h)) hk

theorem mem_keys_set (d : Dict κ ν) (k : κ) (v : ν) (k' : κ) :
    k' ∈ (d.set k v).keys ↔ k' ∈ d.keys ∨ k' = k :=
  mem_keys_assocSet d.entries k v k'

/-- Assigning a key that is there keeps the size. -/
theorem size_set_of_mem (d : Dict κ ν) {k : κ} (v : ν) (h : k ∈ d.keys) :
    (d.set k v).size = d.size := by
  have hlen : ∀ es : List (κ × ν), k ∈ es.map Prod.fst → (assocSet es k v).length = es.length := by
    intro es
    induction es with
    | nil => intro hk; cases hk
    | cons e es ih =>
      intro hk
      by_cases he : e.1 = k
      · rw [assocSet, if_pos he]
        rfl
      · rw [assocSet, if_neg he, List.length_cons, List.length_cons,
          ih ((List.mem_cons.mp hk).resolve_left fun heq => he heq.symm)]
  exact hlen d.entries h

/-- Assigning a new key adds one to the size. -/
theorem size_set_of_notMem (d : Dict κ ν) {k : κ} (v : ν) (h : k ∉ d.keys) :
    (d.set k v).size = d.size + 1 := by
  have hlen : ∀ es : List (κ × ν), k ∉ es.map Prod.fst →
      (assocSet es k v).length = es.length + 1 := by
    intro es
    induction es with
    | nil => intro _; rfl
    | cons e es ih =>
      intro hk
      rw [List.map_cons, List.mem_cons, not_or] at hk
      rw [assocSet, if_neg fun he => hk.1 he.symm, List.length_cons, ih hk.2, List.length_cons]
  exact hlen d.entries h

/-! ### Merging -/

/-- `d.setdefault(k, v)`. -/
def setDefault (d : Dict κ ν) (k : κ) (v : ν) : Dict κ ν :=
  match d.get? k with
  | some _ => d
  | none => d.set k v

/-- `setdefault` for each entry of a list. -/
def setDefaults (d : Dict κ ν) (es : List (κ × ν)) : Dict κ ν :=
  es.foldl (fun d e => d.setDefault e.1 e.2) d

/-- `d.update(d')`. -/
def update (d d' : Dict κ ν) : Dict κ ν := d'.entries.foldl (fun d e => d.set e.1 e.2) d

theorem get?_setDefault (d : Dict κ ν) (k : κ) (v : ν) (k' : κ) :
    (d.setDefault k v).get? k' = (d.get? k').or (if k = k' then some v else none) := by
  unfold setDefault
  split
  · rename_i w h
    by_cases hk : k = k'
    · subst hk
      rw [h, Option.some_or]
    · rw [if_neg hk, Option.or_none]
  · rename_i h
    rw [get?_set]
    by_cases hk : k = k'
    · subst hk
      rw [if_pos rfl, if_pos rfl, h, Option.none_or]
    · rw [if_neg hk, if_neg hk, Option.or_none]

/-- What is there already wins over the list. -/
theorem get?_setDefaults (k : κ) : ∀ (es : List (κ × ν)) (d : Dict κ ν),
    (d.setDefaults es).get? k = (d.get? k).or (assocGet es k) := by
  intro es
  induction es with
  | nil => intro d; exact (Option.or_none).symm
  | cons e es ih =>
    intro d
    show ((d.setDefault e.1 e.2).setDefaults es).get? k = _
    rw [ih, get?_setDefault, Option.or_assoc, assocGet]
    by_cases he : e.1 = k
    · rw [if_pos he, if_pos he, Option.some_or]
    · rw [if_neg he, if_neg he, Option.none_or]

/-- What the second dictionary has wins over the first. -/
theorem get?_update (d d' : Dict κ ν) (k : κ) :
    (d.update d').get? k = (d'.get? k).or (d.get? k) := by
  have hfold : ∀ (es : List (κ × ν)) (d : Dict κ ν), (es.map Prod.fst).Nodup →
      (es.foldl (fun d e => d.set e.1 e.2) d).get? k = (assocGet es k).or (d.get? k) := by
    intro es
    induction es with
    | nil => intro d _; rfl
    | cons e es ih =>
      intro d hnd
      rw [List.map_cons, List.nodup_cons] at hnd
      rw [List.foldl_cons, ih _ hnd.2, get?_set, assocGet]
      by_cases he : e.1 = k
      · rw [if_pos he, if_pos he, assocGet_eq_none_of_notMem (he ▸ hnd.1), Option.none_or,
          Option.some_or]
      · rw [if_neg he, if_neg he]
  exact hfold d'.entries d d'.nodup_keys

/-! ### Grouping -/

variable {α : Type*}

/-- Add an item to the group of its key: `d.setdefault(key, []).append(x)`. -/
def addToGroup (key : α → κ) (d : Dict κ (List α)) (x : α) : Dict κ (List α) :=
  d.set (key x) (d.getD (key x) [] ++ [x])

/-- The items of a list by key, in order of first appearance. -/
def groupBy (key : α → κ) (xs : List α) : Dict κ (List α) := xs.foldl (addToGroup key) empty

theorem get?_foldl_addToGroup (key : α → κ) (k : κ) : ∀ (xs : List α) (d : Dict κ (List α)),
    (xs.foldl (addToGroup key) d).get? k =
      if xs.filter (key · = k) = [] then d.get? k
      else some (d.getD k [] ++ xs.filter (key · = k)) := by
  intro xs
  induction xs with
  | nil => intro d; simp
  | cons x xs ih =>
    intro d
    rw [List.foldl_cons, ih]
    by_cases hx : key x = k
    · subst hx
      have hcons : (x :: xs).filter (fun y => key y = key x) =
          x :: xs.filter (fun y => key y = key x) := List.filter_cons_of_pos (by simp)
      rw [hcons]
      by_cases hnil : xs.filter (fun y => key y = key x) = []
      · simp [addToGroup, hnil]
      · simp [addToGroup, getD, hnil]
    · have hcons : (x :: xs).filter (fun y => key y = k) = xs.filter (fun y => key y = k) :=
        List.filter_cons_of_neg (by simp [hx])
      rw [hcons]
      simp [addToGroup, getD, get?_set_of_ne _ _ hx]

/-- The group of a key is the sublist of the items with that key. -/
theorem get?_groupBy (key : α → κ) (xs : List α) (k : κ) :
    (groupBy key xs).get? k =
      if xs.filter (key · = k) = [] then none else some (xs.filter (key · = k)) := by
  rw [groupBy, get?_foldl_addToGroup]
  simp [getD]

theorem mem_keys_groupBy (key : α → κ) (xs : List α) (k : κ) :
    k ∈ (groupBy key xs).keys ↔ ∃ x ∈ xs, key x = k := by
  have h := get?_eq_none_iff (groupBy key xs) k
  rw [get?_groupBy] at h
  constructor
  · intro hk
    by_contra hne
    refine (h.mp ?_) hk
    have hnil : xs.filter (fun x => key x = k) = [] := by
      rw [List.filter_eq_nil_iff]
      intro x hx hkey
      exact hne ⟨x, hx, by simpa using hkey⟩
    simp [hnil]
  · rintro ⟨x, hx, hkey⟩
    by_contra hk
    have hnone := h.mpr hk
    have hmem : x ∈ xs.filter (fun x => key x = k) := List.mem_filter.mpr ⟨hx, by simp [hkey]⟩
    have hne : xs.filter (fun x => key x = k) ≠ [] := List.ne_nil_of_mem hmem
    rw [if_neg hne] at hnone
    cases hnone

/-- The values of a grouping, read off its keys. -/
theorem values_groupBy (key : α → κ) (xs : List α) :
    (groupBy key xs).values =
      (groupBy key xs).keys.map fun k => xs.filter (key · = k) := by
  unfold values keys
  rw [List.map_map]
  refine List.map_congr_left fun e he => ?_
  have hget := ((groupBy key xs).mem_entries_iff e.1 e.2).mp he
  rw [get?_groupBy] at hget
  split at hget
  · cases hget
  · exact (Option.some.inj hget).symm

/-- A group is not empty. -/
theorem ne_nil_of_mem_groupBy {key : α → κ} {xs g : List α} (hg : g ∈ (groupBy key xs).values) :
    g ≠ [] := by
  rw [values_groupBy] at hg
  obtain ⟨k, hk, rfl⟩ := List.mem_map.mp hg
  obtain ⟨x, hx, hkey⟩ := (mem_keys_groupBy key xs k).mp hk
  exact List.ne_nil_of_mem (List.mem_filter.mpr ⟨hx, decide_eq_true hkey⟩)

/-- The sublists of the items under distinct keys, if these are all keys, are all items. -/
theorem flatten_filter_perm (key : α → κ) (ks : List κ) : ∀ xs : List α, ks.Nodup →
    (∀ x ∈ xs, key x ∈ ks) → (ks.map fun k => xs.filter (key · = k)).flatten.Perm xs := by
  induction ks with
  | nil =>
    intro xs _ hxs
    rw [List.eq_nil_iff_forall_not_mem.mpr fun x hx => List.not_mem_nil (hxs x hx)]
    exact List.Perm.refl []
  | cons k ks ih =>
    intro xs hks hxs
    rw [List.nodup_cons] at hks
    -- the other keys see the items that are left
    have hrest : (ks.map fun k' => xs.filter (key · = k')) =
        ks.map fun k' => (xs.filter fun x => !decide (key x = k)).filter (key · = k') := by
      refine List.map_congr_left fun k' hk' => ?_
      rw [List.filter_filter]
      refine List.filter_congr fun x _ => ?_
      by_cases hx : key x = k'
      · have hne : key x ≠ k := fun h => hks.1 (h ▸ hx ▸ hk')
        simp [hx, hx ▸ hne]
      · simp [hx]
    rw [List.map_cons, List.flatten_cons, hrest]
    refine ((ih _ hks.2 ?_).append_left _).trans (List.filter_append_perm _ xs)
    intro x hx
    rw [List.mem_filter, Bool.not_eq_true', decide_eq_false_iff_not] at hx
    exact (List.mem_cons.mp (hxs x hx.1)).resolve_left hx.2

/-- The groups have the items, each once. -/
theorem flatten_groupBy_perm (key : α → κ) (xs : List α) :
    (groupBy key xs).values.flatten.Perm xs := by
  rw [values_groupBy]
  refine flatten_filter_perm key _ xs (groupBy key xs).nodup_keys fun x hx => ?_
  exact (mem_keys_groupBy key xs (key x)).mpr ⟨x, hx, rfl⟩

/-! ### Rows under a unique key -/

/-- A row is found under its key. -/
theorem find?_eq_some_of_mem {key : α → κ} {xs : List α} (hkeys : (xs.map key).Nodup) {x : α}
    (hx : x ∈ xs) : xs.find? (key · = key x) = some x := by
  cases hfind : xs.find? (key · = key x) with
  | none =>
    have hno := List.find?_eq_none.mp hfind x hx
    simp at hno
  | some y =>
    have hkey : key y = key x := by simpa using List.find?_some hfind
    rw [List.inj_on_of_nodup_map hkeys (List.mem_of_find?_eq_some hfind) hx hkey]

end Dict
