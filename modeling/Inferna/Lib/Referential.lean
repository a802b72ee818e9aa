import Mathlib.Data.List.Basic
import Mathlib.Tactic.Common

/-!
# Deleting rows that other rows refer to

What becomes of the rows that refer to a deleted row is decided twice.  An object mapper
first goes through the relationships of the parent's class: it deletes the children, or
clears their foreign key, or leaves them to the database.  The database then deletes the
rows whose foreign key says `ON DELETE CASCADE`, those that refer to these, and so on.

## Main definitions

* `Relationship`, `ChildAction` — a one-to-many relationship of a mapper, and what it does.
* `released` — the children's table after the mapper's part; `none` if a column that has to
  be cleared cannot be null.
* `Schema`, `Schema.Integral` — the keys of the rows, and referential integrity.
* `Doomed`, `Schema.Deletes` — the rows that a `DELETE` takes with it, and what it leaves.

## Main results

* `released_setNull_notNull` — with a column that cannot be null, one child is enough to fail.
* `doomed_iff_of_justified` — a set closed under the cascade, each of whose members has a
  reason of smaller rank, is the set of doomed rows.
* `Schema.Integral.deletes` — **a deletion keeps referential integrity.**
-/

namespace Referential

/-! ### The mapper -/

/-- A one-to-many relationship of a mapped class, none of whose children are loaded. -/
structure Relationship where
  /-- The cascade has `delete`. -/
  deleteCascade : Bool := false
  /-- `passive_deletes`. -/
  passiveDeletes : Bool := false
  deriving DecidableEq, Repr

/-- What happens to the children when the parent is deleted. -/
inductive ChildAction
  | delete
  | leave
  | setNull
  deriving DecidableEq, Repr

/-- What the relationship asks for. -/
def Relationship.childAction (r : Relationship) : ChildAction :=
  if r.passiveDeletes then .leave else if r.deleteCascade then .delete else .setNull

variable {α : Type*}

/-- The rows of the children's table after the mapper's part.  `clear` writes a null into
the foreign key, and is `none` where the column does not take one. -/
def released (clear : α → Option α) (isChild : α → Bool) (rows : List α) :
    ChildAction → Option (List α)
  | .delete => some (rows.filter fun r => !isChild r)
  | .leave => some rows
  | .setNull => rows.mapM fun r => if isChild r then clear r else some r

/-- A table without children stays as it is. -/
theorem released_of_forall_not {clear : α → Option α} {isChild : α → Bool} {rows : List α}
    (h : ∀ r ∈ rows, isChild r = false) (a : ChildAction) :
    released clear isChild rows a = some rows := by
  cases a with
  | leave => rfl
  | delete =>
    have hall : ∀ r ∈ rows, (!isChild r) = true := by
      intro r hr
      simp [h r hr]
    simp [released, List.filter_eq_self.mpr hall]
  | setNull =>
    simp only [released]
    induction rows with
    | nil => rfl
    | cons r rows ih =>
      have hr : isChild r = false := h r List.mem_cons_self
      have hrows := ih fun x hx => h x (List.mem_cons_of_mem r hx)
      simp [List.mapM_cons, hr, hrows]

/-- If the column takes no null, one child makes the mapper's part fail. -/
theorem released_setNull_notNull {isChild : α → Bool} {rows : List α} {r : α} (hr : r ∈ rows)
    (hchild : isChild r = true) :
    released (fun _ => none) isChild rows .setNull = none := by
  simp only [released]
  induction rows with
  | nil => simp at hr
  | cons x rows ih =>
    by_cases hx : isChild x = true
    · simp [List.mapM_cons, hx]
    · -- the head is no child, so the child is in the tail
      have htail : r ∈ rows := by
        rcases List.mem_cons.mp hr with rfl | h
        · exact absurd hchild hx
        · exact h
      simp [List.mapM_cons, hx, ih htail]

/-! ### The database -/

/-- What a foreign key says about the deletion of the row it refers to. -/
inductive OnDelete
  | cascade
  | setNull
  | restrict
  deriving DecidableEq, Repr

/-- The keys of a row: its own, and the foreign ones that are not null. -/
structure Schema (ρ κ : Type*) where
  key : ρ → κ
  foreign : ρ → List (OnDelete × κ)

variable {ρ κ : Type*}

/-- The child goes when the parent does. -/
def Schema.Cascades (s : Schema ρ κ) (child parent : ρ) : Prop :=
  (.cascade, s.key parent) ∈ s.foreign child

/-- Every foreign key is the key of a row. -/
def Schema.Integral (s : Schema ρ κ) (table : ρ → Prop) : Prop :=
  ∀ r, table r → ∀ k ∈ s.foreign r, ∃ p, table p ∧ s.key p = k.2

/-- The rows of the table that go when those of `root` are deleted. -/
inductive Doomed (s : Schema ρ κ) (table root : ρ → Prop) : ρ → Prop
  | root {r : ρ} (hs : table r) (h : root r) : Doomed s table root r
  | cascade {child parent : ρ} (h : Doomed s table root parent) (hs : table child)
      (href : s.Cascades child parent) : Doomed s table root child

section Doomed

variable {s : Schema ρ κ} {table table' root : ρ → Prop}

/-- **How to recognise the doomed rows.**  The set takes in the roots and is closed under
the cascade; and a member that is no root has a parent in the set, of smaller rank. -/
theorem doomed_iff_of_justified {S : ρ → Prop} (rank : ρ → ℕ)
    (hroot : ∀ r, table r → root r → S r)
    (hclosed : ∀ c p, S p → table c → s.Cascades c p → S c)
    (hjust : ∀ c, S c → table c ∧ (root c ∨ ∃ p, S p ∧ s.Cascades c p ∧ rank p < rank c))
    (r : ρ) : S r ↔ Doomed s table root r := by
  constructor
  · intro hr
    induction hn : rank r using Nat.strongRecOn generalizing r with
    | ind n ih =>
      obtain ⟨hs, h | ⟨p, hp, href, hlt⟩⟩ := hjust r hr
      · exact .root hs h
      · exact .cascade (ih (rank p) (by omega) p hp rfl) hs href
  · intro h
    induction h with
    | root hs h => exact hroot _ hs h
    | cascade _ hs href ih => exact hclosed _ _ ih hs href

/-- `table'` is `table` after a `DELETE` of the rows of `root`: the survivors, each of
which has lost the keys of doomed rows that it may do without. -/
structure Schema.Deletes (s : Schema ρ κ) (table root table' : ρ → Prop) (sever : ρ → ρ) :
    Prop where
  mem : ∀ r', table' r' ↔ ∃ r, table r ∧ ¬ Doomed s table root r ∧ sever r = r'
  key : ∀ r, s.key (sever r) = s.key r
  foreign : ∀ r, table r → ∀ k ∈ s.foreign (sever r),
    k ∈ s.foreign r ∧ (k.1 ≠ .cascade → ∀ p, Doomed s table root p → s.key p ≠ k.2)

/-- **A deletion keeps referential integrity.** -/
theorem Schema.Integral.deletes {sever : ρ → ρ} (h : s.Integral table)
    (hdel : s.Deletes table root table' sever) : s.Integral table' := by
  intro r' hr' k hk
  obtain ⟨r, hr, hsurvives, rfl⟩ := (hdel.mem r').mp hr'
  obtain ⟨hkey, hkept⟩ := hdel.foreign r hr k hk
  obtain ⟨p, hp, hpk⟩ := h r hr k hkey
  -- the parent survives: a cascade would have taken the child, and no other key was kept
  have hparent : ¬ Doomed s table root p := by
    intro hp'
    by_cases hc : k.1 = .cascade
    · refine hsurvives (.cascade hp' hr ?_)
      have hmem : (OnDelete.cascade, s.key p) = k := Prod.ext hc.symm hpk
      simpa only [Schema.Cascades, hmem] using hkey
    · exact hkept hc p hp' hpk
  exact ⟨sever p, (hdel.mem _).mpr ⟨p, hp, hparent, rfl⟩, by rw [hdel.key, hpk]⟩

end Doomed

end Referential
