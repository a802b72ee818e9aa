import Inferna.Lib.PyText

/-!
# Comparing values

What an interpreter's `==` says of two values that were read from JSON.  Numbers are compared
by what they stand for, so that `True`, `1` and `1.0` are equal; arrays item by item, until one
differs; objects by their keys, in whatever order.  A `NaN` is not equal to a `NaN`; but inside
a container the two are the same object, and a container looks at that first.

## Main definitions

* `Json.Number`, `Json.number` — what a value counts as among numbers.
* `Json.pyEq` — the comparison; `none` if the stack is used up.

## Main results

* `Json.pyEq_isSome` — the comparison with a value that is not nested too deep comes to an end.
-/

namespace Json

/-- What a number stands for. -/
inductive Number
  | rational (x : ℚ)
  | infinity (neg : Bool)
  | nan
  deriving DecidableEq, Repr

/-- The number that a value counts as. -/
def number : Json → Option Number
  | .bool b => some (.rational (if b then 1 else 0))
  | .int n => some (.rational n)
  | v => v.floatValue.map fun
    | .finite neg x => .rational (if neg then -x else x)
    | .infinity neg => .infinity neg
    | .nan => .nan

/-- Numbers are equal. -/
def Number.eq : Number → Number → Bool
  | .rational x, .rational y => x = y
  | .infinity a, .infinity b => a = b
  | _, _ => false

/-- Values of which one holds no other are equal. -/
def leafEq (v w : Json) : Bool :=
  match v.number, w.number with
  | some x, some y => x.eq y
  | none, none =>
    match v, w with
    | .null, .null => true
    | .str s, .str t => s = t
    | _, _ => false
  | _, _ => false

/-- The value is the `NaN` of the scanner. -/
def isNan : Json → Bool
  | .nan => true
  | _ => false

/-- `v == w`, with so many comparisons to go; `none` is a `RecursionError`. -/
def pyEq : ℕ → Json → Json → Option Bool
  | 0, _, _ => none
  | levels + 1, .arr vs, .arr ws =>
    if vs.length ≠ ws.length then some false
    else (vs.zip ws).allM fun p =>
      if p.1.isNan && p.2.isNan then some true else pyEq levels p.1 p.2
  | levels + 1, .obj ms, .obj ns =>
    if (dictItems ms).length ≠ (dictItems ns).length then some false
    else (dictItems ms).allM fun m =>
      match (dictOf ns).get? m.1 with
      | none => some false
      | some w => if m.2.isNan && w.isNan then some true else pyEq levels m.2 w
  | _ + 1, v, w => some (leafEq v w)

theorem allM_isSome {α : Type} {f : α → Option Bool} {l : List α}
    (h : ∀ a ∈ l, (f a).isSome) : (l.allM f).isSome := by
  induction l with
  | nil => rfl
  | cons a l ih =>
    rw [List.forall_mem_cons] at h
    obtain ⟨b, hb⟩ := Option.isSome_iff_exists.mp h.1
    rw [List.allM_cons, hb]
    cases b with
    | true => exact ih h.2
    | false => rfl

/-- **A comparison comes to an end** if one of the values is not nested too deep. -/
theorem pyEq_isSome {levels : ℕ} : ∀ {w : Json}, Within levels w → ∀ v,
    (pyEq levels v w).isSome := by
  induction levels with
  | zero => exact fun h => h.elim
  | succ levels ih =>
    intro w h v
    cases v with
    | arr vs =>
      cases w with
      | arr ws =>
        rw [pyEq]
        split
        · rfl
        · refine allM_isSome fun p hp => ?_
          split
          · rfl
          · exact ih (h p.2 (List.of_mem_zip hp).2) p.1
      | _ => rfl
    | obj ms =>
      cases w with
      | obj ns =>
        rw [pyEq]
        split
        · rfl
        · refine allM_isSome fun m _ => ?_
          split
          · rfl
          · rename_i w hw
            split
            · rfl
            · exact ih (h (m.1, w) (Dict.mem_of_assocGet hw)) m.2
      | _ => rfl
    | _ => rfl

end Json
