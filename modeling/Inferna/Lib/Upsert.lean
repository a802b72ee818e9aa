import Mathlib.Data.List.Nodup

/-!
# Writing to a table by a key

An upsert rewrites the rows with a key, or appends a new row where there is none.

## Main definitions

* `upsert key k update fresh rows` — the rows after the write.

## Main results

* `mem_upsert_iff` — what is in the table afterwards.
* `exists_upsert` — some row has the key.
* `nodup_upsert`, `nodup_upsert_other` — the key stays unique, and so does another column that
  the update leaves alone.
-/

namespace Upsert

variable {α κ β : Type*} [DecidableEq κ]

/-- The rows after a write to the key `k`. -/
def upsert (key : α → κ) (k : κ) (update : α → α) (fresh : α) (rows : List α) : List α :=
  if k ∈ rows.map key then rows.map fun x => if key x = k then update x else x
  else rows ++ [fresh]

variable {key : α → κ} {k : κ} {update : α → α} {fresh : α} {rows : List α}

/-- **What is in the table afterwards**: the rows with other keys, those of the key rewritten,
and the new row if there were none. -/
theorem mem_upsert_iff {y : α} : y ∈ upsert key k update fresh rows ↔
    (y ∈ rows ∧ key y ≠ k) ∨ (∃ x ∈ rows, key x = k ∧ update x = y) ∨
      (k ∉ rows.map key ∧ y = fresh) := by
  unfold upsert
  split
  · rename_i hk
    rw [List.mem_map]
    constructor
    · rintro ⟨x, hx, rfl⟩
      by_cases hkey : key x = k
      · rw [if_pos hkey]
        exact Or.inr (Or.inl ⟨x, hx, hkey, rfl⟩)
      · rw [if_neg hkey]
        exact Or.inl ⟨hx, hkey⟩
    · rintro (⟨hy, hkey⟩ | ⟨x, hx, hkey, rfl⟩ | ⟨hno, -⟩)
      · exact ⟨y, hy, if_neg hkey⟩
      · exact ⟨x, hx, if_pos hkey⟩
      · exact absurd hk hno
  · rename_i hk
    rw [List.mem_append, List.mem_singleton]
    constructor
    · rintro (hy | rfl)
      · exact Or.inl ⟨hy, fun hkey => hk (List.mem_map.mpr ⟨y, hy, hkey⟩)⟩
      · exact Or.inr (Or.inr ⟨hk, rfl⟩)
    · rintro (⟨hy, -⟩ | ⟨x, hx, hkey, -⟩ | ⟨-, rfl⟩)
      · exact Or.inl hy
      · exact absurd (List.mem_map.mpr ⟨x, hx, hkey⟩) hk
      · exact Or.inr rfl

/-- **Some row has the key**: a rewritten one, or the new one. -/
theorem exists_upsert {P : α → Prop} (hupdate : ∀ x, key x = k → P (update x)) (hfresh : P fresh) :
    ∃ y ∈ upsert key k update fresh rows, P y := by
  by_cases hk : k ∈ rows.map key
  · obtain ⟨x, hx, hkey⟩ := List.mem_map.mp hk
    exact ⟨update x, mem_upsert_iff.mpr (Or.inr (Or.inl ⟨x, hx, hkey, rfl⟩)), hupdate x hkey⟩
  · exact ⟨fresh, mem_upsert_iff.mpr (Or.inr (Or.inr ⟨hk, rfl⟩)), hfresh⟩

/-- A column that the update leaves alone stays unique, if the new row has a value of its own. -/
theorem nodup_upsert_other {col : α → β} (hupdate : ∀ x, key x = k → col (update x) = col x)
    (hfresh : k ∉ rows.map key → col fresh ∉ rows.map col) (h : (rows.map col).Nodup) :
    ((upsert key k update fresh rows).map col).Nodup := by
  unfold upsert
  split
  · have hsame : (rows.map fun x => if key x = k then update x else x).map col = rows.map col := by
      rw [List.map_map]
      refine List.map_congr_left fun x _ => ?_
      show col (if key x = k then update x else x) = col x
      split
      · rename_i hkey
        exact hupdate x hkey
      · rfl
    rw [hsame]
    exact h
  · rename_i hk
    rw [List.map_append, List.map_singleton, (List.perm_append_singleton _ _).nodup_iff]
    exact List.nodup_cons.mpr ⟨hfresh hk, h⟩

/-- The key stays unique. -/
theorem nodup_upsert (hupdate : ∀ x, key x = k → key (update x) = k) (hfresh : key fresh = k)
    (h : (rows.map key).Nodup) : ((upsert key k update fresh rows).map key).Nodup :=
  nodup_upsert_other (fun x hx => (hupdate x hx).trans hx.symm) (fun hk => hfresh ▸ hk) h

end Upsert
