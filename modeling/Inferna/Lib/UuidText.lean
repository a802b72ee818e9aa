import Inferna.Lib.JsonWrite

/-!
# Texts of a UUID

A UUID is a number of 128 bits.  It is written as 32 hexadecimal digits, or as the same digits
with dashes between five groups of them, and a reader that drops dashes reads both.

## Main definitions

* `UuidText.hex`, `UuidText.dashed` — the two texts.
* `UuidText.parse` — the reader.

## Main results

* `UuidText.parse_dashed` — the text with dashes is read back.
* `UuidText.dashed_ne_hex` — no UUID has a text of the one kind that is one of the other.
-/

/-- The value of a UUID. -/
abbrev Uuid128 := Fin (2 ^ 128)

namespace UuidText

/-- `uuid.hex`. -/
def hex (u : Uuid128) : List Char := Json.hexDigits 32 u

/-- `str(uuid)`. -/
def dashed (u : Uuid128) : List Char :=
  let h := hex u
  h.take 8 ++ '-' :: ((h.drop 8).take 4 ++ '-' :: ((h.drop 12).take 4 ++
    '-' :: ((h.drop 16).take 4 ++ '-' :: h.drop 20)))

/-- The number that hexadecimal digits write. -/
def digitsValue (s : List Char) : Option ℕ :=
  (s.mapM Json.hexValue).map fun ds => ds.foldl (fun n d => 16 * n + d) 0

/-- `UUID(text)` of a text without braces and prefix. -/
def parse (s : List Char) : Option Uuid128 :=
  let h := s.filter (· ≠ '-')
  if h.length = 32 then
    (digitsValue h).bind fun n => if hn : n < 2 ^ 128 then some ⟨n, hn⟩ else none
  else none

/-! ### Digits -/

theorem dash_notMem_hexDigits (k n : ℕ) : '-' ∉ Json.hexDigits k n := by
  intro h
  obtain ⟨d, hd, heq⟩ := Json.exists_of_mem_hexDigits h
  interval_cases d <;> revert heq <;> decide

theorem digitsValue_append {s : List Char} {n : ℕ} (h : digitsValue s = some n) {c : Char} {d : ℕ}
    (hc : Json.hexValue c = some d) : digitsValue (s ++ [c]) = some (16 * n + d) := by
  unfold digitsValue at h ⊢
  obtain ⟨ds, hds, hn⟩ := Option.map_eq_some_iff.mp h
  rw [List.mapM_append, hds]
  simp [hc, hn, List.foldl_append]

/-- The digits of a number write it. -/
theorem digitsValue_hexDigits (k : ℕ) : ∀ n, n < 16 ^ k → digitsValue (Json.hexDigits k n) = some n := by
  induction k with
  | zero =>
    intro n hn
    rw [Nat.lt_one_iff.mp hn]
    rfl
  | succ k ih =>
    intro n hn
    have hdiv : n / 16 < 16 ^ k := Nat.div_lt_of_lt_mul (by rwa [pow_succ, mul_comm] at hn)
    rw [Json.hexDigits, digitsValue_append (ih _ hdiv) (Json.hexValue_hexChar (Nat.mod_lt n (by decide))),
      Nat.div_add_mod]

/-! ### The two texts -/

/-- A text is read by its digits. -/
theorem parse_of_filter {s : List Char} {u : Uuid128} (h : s.filter (· ≠ '-') = hex u) :
    parse s = some u := by
  have hu : (u : ℕ) < 16 ^ 32 := u.isLt.trans_eq (by norm_num)
  unfold parse
  simp only [h]
  rw [hex, Json.length_hexDigits, if_pos rfl, digitsValue_hexDigits 32 u hu, Option.bind_some,
    dif_pos u.isLt]

theorem filter_hex (u : Uuid128) : (hex u).filter (· ≠ '-') = hex u := by
  refine List.filter_eq_self.mpr fun c hc => decide_eq_true ?_
  rintro rfl
  exact dash_notMem_hexDigits 32 u hc

/-- **The text with dashes is read back.** -/
theorem parse_dashed (u : Uuid128) : parse (dashed u) = some u := by
  refine parse_of_filter ?_
  -- without its dashes the text is five pieces of the digits, one behind the other
  have hpieces : (dashed u).filter (· ≠ '-') =
      ((hex u).take 8 ++ ((hex u).drop 8).take 4 ++ ((hex u).drop 12).take 4 ++
        ((hex u).drop 16).take 4 ++ (hex u).drop 20).filter (· ≠ '-') := by
    simp [dashed, List.filter_append]
  have hjoin : (hex u).take 8 ++ ((hex u).drop 8).take 4 ++ ((hex u).drop 12).take 4 ++
      ((hex u).drop 16).take 4 ++ (hex u).drop 20 = hex u := by
    rw [← List.take_add, ← List.take_add, ← List.take_add, List.take_append_drop]
  rw [hpieces, hjoin, filter_hex]

theorem length_hex (u : Uuid128) : (hex u).length = 32 := Json.length_hexDigits 32 u

theorem length_dashed (u : Uuid128) : (dashed u).length = 36 := by
  simp [dashed, length_hex]

/-- The two kinds of text have no text in common. -/
theorem dashed_ne_hex (u v : Uuid128) : dashed u ≠ hex v := by
  intro h
  have := congrArg List.length h
  rw [length_dashed, length_hex] at this
  omega

end UuidText
