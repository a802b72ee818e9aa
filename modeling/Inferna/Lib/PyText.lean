import Inferna.Lib.JsonValue
import Inferna.Lib.JsonWrite

/-!
# The text of a value

What an interpreter's `str` makes of a value that was read from JSON.  A string is its own text.
Every other value has the text that shows it, in which a string stands between quotes and what
cannot be printed is escaped; so the text of a string can hold a lone surrogate, and the text of
another value cannot.

## Main definitions

* `PyText` — what the interpreter knows of floats, of characters, and of its stack.
* `PyText.repr`, `PyText.str` — the texts.
* `Json.Within` — the nesting of a value.

## Main results

* `PyText.repr_isSome_iff` — a value is shown exactly when it is not nested too deep.
* `PyText.exists_str_iff` — **which values have a text of characters.**
-/

/-- What the texts of values depend on. -/
structure PyText where
  /-- The text of the float nearest to `± m * 10 ^ e`. -/
  float : Bool → ℕ → ℤ → List Char
  /-- `str.isprintable` of a character.  A surrogate is never printable. -/
  printable : Char → Bool
  /-- How many calls of `repr` can be under way before the stack is used up. -/
  levels : ℕ

namespace Json

/-- At most `levels` values are nested in each other, the value itself included. -/
def Within : ℕ → Json → Prop
  | 0, _ => False
  | levels + 1, .arr items => ∀ v ∈ items, Within levels v
  | levels + 1, .obj members => ∀ m ∈ dictItems members, Within levels m.2
  | _ + 1, _ => True

end Json

namespace PyText

open Json

variable (py : PyText)

/-- A character between the quotes `quote`. -/
def charRepr (quote : Char) (c : ℕ) : List Char :=
  if c = quote.toNat then ['\\', quote]
  else if c = 0x5C then ['\\', '\\']
  else if c = 0x09 then ['\\', 't']
  else if c = 0x0A then ['\\', 'n']
  else if c = 0x0D then ['\\', 'r']
  else if c < 0x20 ∨ c = 0x7F then '\\' :: 'x' :: hexDigits 2 c
  else if c < 0x7F then [Char.ofNat c]
  else if c.isValidChar ∧ py.printable (Char.ofNat c) = true then [Char.ofNat c]
  else if c ≤ 0xFF then '\\' :: 'x' :: hexDigits 2 c
  else if c ≤ 0xFFFF then '\\' :: 'u' :: hexDigits 4 c
  else '\\' :: 'U' :: hexDigits 8 c

/-- The quotes of a string: double ones if it has only single ones in it. -/
def quoteOf (s : List ℕ) : Char :=
  if s.contains '\''.toNat && !s.contains '"'.toNat then '"' else '\''

/-- A string between its quotes. -/
def strRepr (s : List ℕ) : List Char :=
  quoteOf s :: (s.flatMap (py.charRepr (quoteOf s)) ++ [quoteOf s])

/-- A value that holds no other one. -/
def leafRepr : Json → List Char
  | .null => "None".toList
  | .bool b => if b then "True".toList else "False".toList
  | .int n => intText n
  | .float neg m e => py.float neg m e
  | .nan => "nan".toList
  | .infinity neg => if neg then "-inf".toList else "inf".toList
  | .str s => py.strRepr s
  | .arr _ => []
  | .obj _ => []

/-- `repr(value)`, with so many calls to go; `none` is a `RecursionError`. -/
def repr : ℕ → Json → Option (List Char)
  | 0, _ => none
  | levels + 1, .arr items =>
    (items.mapM (repr levels)).map fun ts => '[' :: (", ".toList.intercalate ts ++ [']'])
  | levels + 1, .obj members =>
    ((dictItems members).mapM fun m =>
      (repr levels m.2).map fun t => py.strRepr m.1 ++ ':' :: ' ' :: t).map
        fun ts => '{' :: (", ".toList.intercalate ts ++ ['}'])
  | _ + 1, v => some (py.leafRepr v)

/-- `str(value)`, in code points; `none` is a `RecursionError`. -/
def str : Json → Option (List ℕ)
  | .str s => some s
  | v => (py.repr py.levels v).map fun t => t.map Char.toNat

/-- A string of characters, or another value that is not nested too deep. -/
def Shown : Json → Prop
  | .str s => ∀ c ∈ s, c.isValidChar
  | v => Within py.levels v

/-- **A value is shown exactly when it is not nested too deep.** -/
theorem repr_isSome_iff (levels : ℕ) : ∀ v, (py.repr levels v).isSome ↔ Within levels v := by
  induction levels with
  | zero =>
    intro v
    simp [repr, Within]
  | succ levels ih =>
    intro v
    cases v with
    | arr items =>
      rw [repr, Option.isSome_map, Text.mapM_isSome_iff, Within]
      exact forall₂_congr fun v _ => ih v
    | obj members =>
      rw [repr, Option.isSome_map, Text.mapM_isSome_iff, Within]
      refine forall₂_congr fun m _ => ?_
      rw [Option.isSome_map]
      exact ih m.2
    | _ => simp [repr, Within]

theorem isValidChar_toNat (c : Char) : c.toNat.isValidChar := c.valid

/-- **The values with a text of characters** are the strings of characters, and the other values
that are not nested too deep. -/
theorem exists_str_iff (v : Json) :
    (∃ t, py.str v = some t ∧ ∀ c ∈ t, c.isValidChar) ↔ py.Shown v := by
  -- what `repr` gives is characters
  have hshown : ∀ v : Json, (∃ t, (py.repr py.levels v).map (fun t => t.map Char.toNat) = some t ∧
      ∀ c ∈ t, c.isValidChar) ↔ Within py.levels v := by
    intro v
    rw [← py.repr_isSome_iff, Option.isSome_iff_exists]
    constructor
    · rintro ⟨t, ht, -⟩
      obtain ⟨t', ht', -⟩ := Option.map_eq_some_iff.mp ht
      exact ⟨t', ht'⟩
    · rintro ⟨t, ht⟩
      refine ⟨t.map Char.toNat, by rw [ht, Option.map_some], fun c hc => ?_⟩
      obtain ⟨a, -, rfl⟩ := List.mem_map.mp hc
      exact isValidChar_toNat a
  cases v with
  | str s => simp [str, Shown]
  | _ => exact hshown _

end PyText
