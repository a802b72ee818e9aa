import Mathlib.Data.List.Basic
import Mathlib.Data.List.DropRight

/-!
# Text as lists of characters

The string methods of an interpreted language that take a text apart, on lists
of characters: splitting at the first or the last occurrence of a separator,
stripping, prefixes, and decimal digits.

## Main definitions

* `Text.partition`, `Text.rpartition` — split at the first, the last separator.
* `Text.strip` — drop the characters of a class at both ends.
* `Text.isSpace` — the Unicode white space that `str.strip` drops.
* `Text.asciiLower` — lower case on the ASCII letters.
* `Text.isDigits`, `Text.digitsValue` — decimal numerals.
* `Text.decodeReplace` — UTF-8, with U+FFFD for what is not.
* `Text.splitlines` — the lines of a text.
-/

namespace Text

/-- `s.partition(sep)`: what stands before and after the first `sep`, or `none`
when there is none. -/
def partition (sep : Char) : List Char → Option (List Char × List Char)
  | [] => none
  | c :: cs =>
    if c = sep then some ([], cs) else (partition sep cs).map fun p => (c :: p.1, p.2)

/-- `s.rpartition(sep)`: what stands before and after the last `sep`, or `none`
when there is none. -/
def rpartition (sep : Char) (s : List Char) : Option (List Char × List Char) :=
  (partition sep s.reverse).map fun p => (p.2.reverse, p.1.reverse)

/-- `s.split(sep, 1)[0]`: what stands before the first `sep`, or all of `s`. -/
def before (sep : Char) (s : List Char) : List Char := ((partition sep s).map (·.1)).getD s

/-- The characters `str.strip` drops: Unicode white space. -/
def isSpace (c : Char) : Bool :=
  let n := c.toNat
  (9 ≤ n && n ≤ 13) || (28 ≤ n && n ≤ 32) || n == 0x85 || n == 0xa0 || n == 0x1680 ||
    (0x2000 ≤ n && n ≤ 0x200a) || n == 0x2028 || n == 0x2029 || n == 0x202f || n == 0x205f ||
    n == 0x3000

/-- `s.strip()`, for a class of characters. -/
def stripBy (p : Char → Bool) (s : List Char) : List Char :=
  ((s.dropWhile p).reverse.dropWhile p).reverse

/-- `s.strip()`. -/
def strip (s : List Char) : List Char := stripBy isSpace s

/-- Lower case on the ASCII letters; other characters are kept. -/
def asciiLower (s : List Char) : List Char := s.map Char.toLower

/-- Drop a prefix, compared without regard to ASCII case, when it is there. -/
def dropPrefixCI (pre s : List Char) : List Char :=
  if pre.isPrefixOf (asciiLower s) then s.drop pre.length else s

/-- A non-empty numeral of ASCII digits. -/
def isDigits (s : List Char) : Bool := !s.isEmpty && s.all Char.isDigit

/-- The value of a numeral. -/
def digitsValue (s : List Char) : ℕ := s.foldl (fun n c => 10 * n + (c.toNat - '0'.toNat)) 0

/-- The default of `sys.set_int_max_str_digits`: `int(s)` takes no longer numeral. -/
def maxStrDigits : ℕ := 4300

/-! ### UTF-8 -/

/-- U+FFFD, the replacement character. -/
def replacement : Char := '\uFFFD'

/-- A character of which some bytes are still to come: its bits so far, how many bytes, and
the range of the next one. -/
structure Partial where
  bits : ℕ
  owed : ℕ
  low : ℕ := 0x80
  high : ℕ := 0xBF

/-- The first byte of a character. -/
def leadByte (b : ℕ) : List Char × Option Partial :=
  if b < 0x80 then ([Char.ofNat b], none)
  else if b < 0xC2 then ([replacement], none)
  else if b < 0xE0 then ([], some { bits := b - 0xC0, owed := 1 })
  else if b = 0xE0 then ([], some { bits := 0, owed := 2, low := 0xA0 })
  else if b = 0xED then ([], some { bits := 0xD, owed := 2, high := 0x9F })
  else if b < 0xF0 then ([], some { bits := b - 0xE0, owed := 2 })
  else if b = 0xF0 then ([], some { bits := 0, owed := 3, low := 0x90 })
  else if b < 0xF4 then ([], some { bits := b - 0xF0, owed := 3 })
  else if b = 0xF4 then ([], some { bits := 4, owed := 3, high := 0x8F })
  else ([replacement], none)

/-- A byte after the first; one out of range ends the character and is looked at again. -/
def nextByte (p : Partial) (b : ℕ) : List Char × Option Partial :=
  if p.low ≤ b ∧ b ≤ p.high then
    let bits := 64 * p.bits + (b - 0x80)
    if p.owed = 1 then ([Char.ofNat bits], none) else ([], some { bits, owed := p.owed - 1 })
  else (replacement :: (leadByte b).1, (leadByte b).2)

/-- The rest of a text, from within a character or between two. -/
def decodeFrom (p : Option Partial) : List UInt8 → List Char
  | [] => if p.isSome then [replacement] else []
  | b :: bs =>
    let r := p.elim (leadByte b.toNat) (nextByte · b.toNat)
    r.1 ++ decodeFrom r.2 bs

/-- `bytes.decode("utf-8", "replace")`. -/
def decodeReplace (bytes : List UInt8) : List Char := decodeFrom none bytes

/-! ### Lines -/

/-- The characters that end a line. -/
def isLineBreak (c : Char) : Bool :=
  let n := c.toNat
  (10 ≤ n && n ≤ 13) || (28 ≤ n && n ≤ 30) || n == 0x85 || n == 0x2028 || n == 0x2029

/-- The lines of a text, after the characters of the first one, latest first. -/
def splitlinesFrom (line : List Char) : List Char → List (List Char)
  | [] => if line.isEmpty then [] else [line.reverse]
  | '\r' :: '\n' :: cs => line.reverse :: splitlinesFrom [] cs
  | c :: cs =>
    if isLineBreak c then line.reverse :: splitlinesFrom [] cs else splitlinesFrom (c :: line) cs

/-- `s.splitlines()`. -/
def splitlines (s : List Char) : List (List Char) := splitlinesFrom [] s

/-! ### Splitting at a separator -/

theorem partition_eq_none_iff (sep : Char) (s : List Char) :
    partition sep s = none ↔ sep ∉ s := by
  induction s with
  | nil => simp [partition]
  | cons c s ih =>
    by_cases h : c = sep
    · simp [partition, h]
    · rw [partition, if_neg h, Option.map_eq_none_iff, ih, List.mem_cons, not_or]
      exact ⟨fun hs => ⟨Ne.symm h, hs⟩, fun hs => hs.2⟩

/-- What a split at the first separator puts together. -/
theorem partition_eq_some {sep : Char} : ∀ {s a b : List Char}, partition sep s = some (a, b) →
    s = a ++ sep :: b ∧ sep ∉ a := by
  intro s
  induction s with
  | nil => intro a b h; cases h
  | cons c s ih =>
    intro a b h
    rw [partition] at h
    split at h
    · rename_i hc
      simp only [Option.some.injEq, Prod.mk.injEq] at h
      obtain ⟨rfl, rfl⟩ := h
      exact ⟨by rw [hc]; rfl, List.not_mem_nil⟩
    · rename_i hc
      obtain ⟨⟨x, y⟩, hp, hq⟩ := Option.map_eq_some_iff.mp h
      simp only [Prod.mk.injEq] at hq
      obtain ⟨rfl, rfl⟩ := hq
      obtain ⟨hs, hx⟩ := ih hp
      refine ⟨by rw [hs]; rfl, ?_⟩
      rw [List.mem_cons, not_or]
      exact ⟨fun h' => hc h'.symm, hx⟩

/-- A separator that is not in the first part is the one that is found. -/
theorem partition_append {sep : Char} {a : List Char} (b : List Char) (h : sep ∉ a) :
    partition sep (a ++ sep :: b) = some (a, b) := by
  induction a with
  | nil => simp [partition]
  | cons c a ih =>
    rw [List.mem_cons, not_or] at h
    rw [List.cons_append, partition, if_neg (Ne.symm h.1), ih h.2]
    rfl

theorem rpartition_eq_none_iff (sep : Char) (s : List Char) :
    rpartition sep s = none ↔ sep ∉ s := by
  rw [rpartition, Option.map_eq_none_iff, partition_eq_none_iff, List.mem_reverse]

/-- What a split at the last separator puts together. -/
theorem rpartition_eq_some {sep : Char} {s a b : List Char}
    (h : rpartition sep s = some (a, b)) : s = a ++ sep :: b ∧ sep ∉ b := by
  obtain ⟨⟨x, y⟩, hp, hq⟩ := Option.map_eq_some_iff.mp h
  simp only [Prod.mk.injEq] at hq
  obtain ⟨rfl, rfl⟩ := hq
  obtain ⟨hs, hx⟩ := partition_eq_some hp
  refine ⟨?_, by rwa [List.mem_reverse]⟩
  rw [← List.reverse_reverse s, hs, List.reverse_append, List.reverse_cons, List.append_assoc]
  rfl

/-- A separator that is not in the last part is the one that is found. -/
theorem rpartition_append {sep : Char} (a : List Char) {b : List Char} (h : sep ∉ b) :
    rpartition sep (a ++ sep :: b) = some (a, b) := by
  have hrev : (a ++ sep :: b).reverse = b.reverse ++ sep :: a.reverse := by simp
  rw [rpartition, hrev, partition_append _ (by rwa [List.mem_reverse])]
  simp

theorem before_of_notMem {sep : Char} {s : List Char} (h : sep ∉ s) : before sep s = s := by
  rw [before, (partition_eq_none_iff sep s).mpr h]
  rfl

theorem notMem_before (sep : Char) (s : List Char) : sep ∉ before sep s := by
  rw [before]
  cases hp : partition sep s with
  | none => exact (partition_eq_none_iff sep s).mp hp
  | some p => exact (partition_eq_some hp).2

theorem before_subset (sep : Char) (s : List Char) : before sep s ⊆ s := by
  rw [before]
  cases hp : partition sep s with
  | none => exact List.Subset.refl _
  | some p =>
    intro c hc
    rw [(partition_eq_some hp).1]
    exact List.mem_append_left _ hc

/-! ### Numerals -/

theorem isDigit_of_mem_toString {n : ℕ} {c : Char} (h : c ∈ (toString n).toList) :
    c.isDigit = true := by
  rw [Nat.toString_eq_ofList_toDigits, String.toList_ofList] at h
  exact Nat.isDigit_of_mem_toDigits (by decide) (by decide) h

theorem isDigits_toString (n : ℕ) : isDigits (toString n).toList = true := by
  unfold isDigits
  rw [Bool.and_eq_true]
  refine ⟨?_, List.all_eq_true.mpr fun c hc => isDigit_of_mem_toString hc⟩
  rw [Nat.toString_eq_ofList_toDigits, String.toList_ofList]
  simp [Nat.toDigits_ne_nil]

/-- A numeral has the value it was written for. -/
theorem digitsValue_toString (n : ℕ) : digitsValue (toString n).toList = n := by
  rw [Nat.toString_eq_ofList_toDigits, String.toList_ofList]
  exact Nat.ofDigitChars_ten_toDigits

/-! ### Stripping -/

/-- Nothing is stripped on the left of a text, and nothing inside it. -/
theorem stripBy_append {p : Char → Bool} {x y : Char} (a s : List Char) (hx : p x = false)
    (hy : p y = false) :
    stripBy p (x :: a ++ y :: s) = x :: a ++ y :: s.rdropWhile p := by
  have hleft : (x :: a ++ y :: s).dropWhile p = x :: a ++ y :: s := by
    rw [List.cons_append, List.dropWhile_cons, if_neg (by simp [hx])]
  have hright : (y :: (x :: a).reverse).dropWhile p = y :: (x :: a).reverse := by
    rw [List.dropWhile_cons, if_neg (by simp [hy])]
  have hrev : (x :: a ++ y :: s).reverse = s.reverse ++ y :: (x :: a).reverse := by
    simp
  rw [stripBy, hleft, hrev, List.dropWhile_append, List.rdropWhile, hright]
  split
  · rename_i hnil
    rw [List.isEmpty_iff.mp hnil]
    simp
  · simp

/-! ### Item by item -/

theorem mapM_eq_some {α β : Type} {f : α → Option β} {g : β → α}
    (hf : ∀ a b, f a = some b → g b = a) : ∀ {l : List α} {l' : List β},
      l.mapM f = some l' → l'.map g = l
  | [], _ => by
    intro h
    obtain rfl := Option.some.inj h
    rfl
  | a :: l, _ => by
    intro h
    rw [List.mapM_cons] at h
    obtain ⟨b, hb, h⟩ := Option.bind_eq_some_iff.mp h
    obtain ⟨bs, hbs, h⟩ := Option.bind_eq_some_iff.mp h
    obtain rfl := Option.some.inj h
    rw [List.map_cons, hf a b hb, mapM_eq_some hf hbs]

theorem mapM_isSome_iff {α β : Type} (f : α → Option β) (l : List α) :
    (l.mapM f).isSome ↔ ∀ a ∈ l, (f a).isSome := by
  induction l with
  | nil => simp
  | cons a l ih =>
    rw [List.mapM_cons, List.forall_mem_cons, ← ih]
    cases f a <;> cases l.mapM f <;> simp

/-- What is checked of each character. -/
theorem forall_mem_of_all {p : Char → Prop} [DecidablePred p] {s : List Char}
    (h : (s.all fun c => decide (p c)) = true) : ∀ c ∈ s, p c := fun c hc =>
  of_decide_eq_true (List.all_eq_true.mp h c hc)

theorem forall_mem_intercalate {α : Type} {p : α → Prop} {sep : List α} (hsep : ∀ c ∈ sep, p c) :
    ∀ texts : List (List α), (∀ c ∈ sep.intercalate texts, p c) ↔ ∀ t ∈ texts, ∀ c ∈ t, p c
  | [] => by simp
  | [t] => by simp
  | t :: t' :: texts => by
    rw [List.intercalate_cons_cons, List.forall_mem_append, List.forall_mem_append,
      forall_mem_intercalate hsep (t' :: texts), and_iff_left hsep]
    simp only [List.forall_mem_cons]

end Text
