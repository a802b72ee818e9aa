import Mathlib.Data.List.Infix
import Mathlib.Tactic

/-!
# Leftmost matches and longest suffixes

What a search from the left finds in a list, and what is left of a list whose front is dropped
until the rest has a property.

## Main definitions

* `Search.Leftmost`, `Search.Nowhere` — what begins at the leftmost place where anything begins,
  and that nothing does.
* `Search.LongestSuffix` — the longest suffix with a property.

## Main results

* `Search.leftmost_cons_iff` — **one step of a search.**
* `Search.leftmost_marker_iff` — a search for what begins with one character.
* `Search.LongestSuffix.cons` — one step of dropping the front.
-/

namespace Search

variable {α β : Type*}

/-! ### Leftmost matches -/

/-- What begins at the leftmost place of a list where anything begins. -/
def Leftmost (begins : List α → β → Prop) (l : List α) (b : β) : Prop :=
  ∃ pre rest, l = pre ++ rest ∧ begins rest b ∧
    ∀ pre' rest', l = pre' ++ rest' → pre'.length < pre.length → ∀ b', ¬ begins rest' b'

/-- Nothing begins anywhere. -/
def Nowhere (begins : List α → β → Prop) (l : List α) : Prop :=
  ∀ rest, rest <:+ l → ∀ b, ¬ begins rest b

variable {begins : List α → β → Prop}

theorem leftmost_nil_iff (b : β) : Leftmost begins [] b ↔ begins [] b := by
  constructor
  · rintro ⟨pre, rest, h, hb, -⟩
    obtain ⟨-, rfl⟩ := List.append_eq_nil_iff.mp h.symm
    exact hb
  · intro hb
    exact ⟨[], [], rfl, hb, fun _ _ _ hlt => absurd hlt (Nat.not_lt_zero _)⟩

/-- **One step of a search**: something begins here, or nothing does and the search goes on. -/
theorem leftmost_cons_iff (a : α) (l : List α) (b : β) :
    Leftmost begins (a :: l) b ↔
      begins (a :: l) b ∨ (∀ b', ¬ begins (a :: l) b') ∧ Leftmost begins l b := by
  constructor
  · rintro ⟨pre, rest, h, hb, hfirst⟩
    cases pre with
    | nil =>
      rw [List.nil_append] at h
      exact .inl (h ▸ hb)
    | cons x pre =>
      rw [List.cons_append] at h
      obtain ⟨rfl, rfl⟩ := List.cons.inj h
      refine .inr ⟨hfirst [] _ rfl (Nat.succ_pos _), pre, rest, rfl, hb, ?_⟩
      intro pre' rest' h' hlt
      exact hfirst (a :: pre') rest' (by rw [h', List.cons_append]) (Nat.succ_lt_succ hlt)
  · rintro (hb | ⟨hnone, pre, rest, rfl, hb, hfirst⟩)
    · exact ⟨[], a :: l, rfl, hb, fun _ _ _ hlt => absurd hlt (Nat.not_lt_zero _)⟩
    · refine ⟨a :: pre, rest, rfl, hb, fun pre' rest' h' hlt => ?_⟩
      cases pre' with
      | nil =>
        rw [List.nil_append] at h'
        exact h' ▸ hnone
      | cons x pre' =>
        rw [List.cons_append] at h'
        exact hfirst pre' rest' (List.cons.inj h').2 (Nat.lt_of_succ_lt_succ hlt)

/-- Where everything begins with one character, a search stops at the first such character from
which anything begins. -/
theorem leftmost_marker_iff {m : α} (hmark : ∀ l b, begins l b → l.head? = some m)
    {a rest : List α} (ha : m ∉ a) (hb : ∃ b, begins (m :: rest) b) (b : β) :
    Leftmost begins (a ++ m :: rest) b ↔ begins (m :: rest) b := by
  induction a with
  | nil =>
    rw [List.nil_append, leftmost_cons_iff]
    obtain ⟨b', hb'⟩ := hb
    exact ⟨fun h => h.elim id fun hnone => absurd hb' (hnone.1 b'), .inl⟩
  | cons x a ih =>
    rw [List.mem_cons, not_or] at ha
    have hx : ∀ b', ¬ begins (x :: (a ++ m :: rest)) b' := by
      intro b' hb'
      have hhead := hmark _ _ hb'
      rw [List.head?_cons, Option.some.injEq] at hhead
      exact ha.1 hhead.symm
    rw [List.cons_append, leftmost_cons_iff, ih ha.2]
    exact ⟨fun h => h.elim (fun h => absurd h (hx b)) And.right, fun h => .inr ⟨hx, h⟩⟩

/-- What is found begins somewhere. -/
theorem Leftmost.exists_suffix {l : List α} {b : β} (h : Leftmost begins l b) :
    ∃ rest, rest <:+ l ∧ begins rest b := by
  obtain ⟨pre, rest, rfl, hb, -⟩ := h
  exact ⟨rest, List.suffix_append pre rest, hb⟩

theorem nowhere_nil_iff : Nowhere begins ([] : List α) ↔ ∀ b, ¬ begins [] b := by
  simp [Nowhere]

theorem nowhere_cons_iff (a : α) (l : List α) :
    Nowhere begins (a :: l) ↔ (∀ b, ¬ begins (a :: l) b) ∧ Nowhere begins l := by
  simp only [Nowhere, List.suffix_cons_iff, forall_eq_or_imp]

/-! ### Longest suffixes -/

/-- The longest suffix with a property. -/
structure LongestSuffix (p : List α → Prop) (l w : List α) : Prop where
  suffix : w <:+ l
  holds : p w
  longest : ∀ w', w' <:+ l → p w' → w'.length ≤ w.length

namespace LongestSuffix

variable {p : List α → Prop} {l w w' : List α}

theorem self (h : p l) : LongestSuffix p l l := ⟨List.suffix_rfl, h, fun _ hw _ => hw.length_le⟩

/-- The front is dropped from a list without the property. -/
theorem cons {a : α} (h : ¬ p (a :: l)) (hw : LongestSuffix p l w) :
    LongestSuffix p (a :: l) w := by
  refine ⟨hw.suffix.trans (List.suffix_cons a l), hw.holds, fun w' hw' hp => ?_⟩
  rcases List.suffix_cons_iff.mp hw' with rfl | hw'
  · exact absurd hp h
  · exact hw.longest w' hw' hp

theorem unique (hw : LongestSuffix p l w) (hw' : LongestSuffix p l w') : w = w' := by
  have h1 := hw.longest w' hw'.suffix hw'.holds
  have h2 := hw'.longest w hw.suffix hw.holds
  exact (List.suffix_of_suffix_length_le hw.suffix hw'.suffix h2).eq_of_length (by omega)

end LongestSuffix

end Search
