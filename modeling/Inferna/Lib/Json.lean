import Inferna.Lib.Text
import Mathlib.Tactic

/-!
# Reading JSON

A scanner that reads a JSON text from left to right, in the way an interpreter's standard
library does it: `NaN` and the infinities are read, a key may come twice and the last value
counts, a string may hold a lone surrogate.  Besides a syntax error there are two ways to
fail: an integer with more digits than the interpreter converts, and arrays and objects
nested deeper than its stack allows.  The first error from the left is the one reported.

## Main definitions

* `Json` — the values.
* `Json.truthy`, `Json.get` — the truth value of a value, a member of an object.
* `Json.scanOnce` — one value and what stands behind it.
* `Json.loads` — a whole text.

## Main results

* `Json.scanOnce_length_lt` — a value takes up some of the text.
* `Json.sepBy_scanOnce`, `Json.sepBy_scanMember` — the loops over items and members never
  run out of steps.
-/

/-- A JSON value.  A text is a list of code points, as an escape may give a surrogate; a
number with a fraction or an exponent is `± m * 10 ^ e`. -/
inductive Json
  | null
  | bool (b : Bool)
  | int (n : ℤ)
  | float (neg : Bool) (m : ℕ) (e : ℤ)
  | nan
  | infinity (neg : Bool)
  | str (s : List ℕ)
  | arr (items : List Json)
  | obj (members : List (List ℕ × Json))
  deriving Repr, Inhabited

namespace Json

/-- The decimal `m * 10 ^ e` is nearest to zero among the 64-bit floating point numbers:
it is at most half of the least positive one. -/
def roundsToZero (m : ℕ) (e : ℤ) : Bool := m * 10 ^ e.toNat * 2 ^ 1075 ≤ 10 ^ (-e).toNat

/-- `bool(value)`. -/
def truthy : Json → Bool
  | null => false
  | bool b => b
  | int n => n ≠ 0
  | float _ m e => !roundsToZero m e
  | nan => true
  | infinity _ => true
  | str s => !s.isEmpty
  | arr items => !items.isEmpty
  | obj members => !members.isEmpty

/-- The code points of a text. -/
def codePoints (s : String) : List ℕ := s.toList.map Char.toNat

/-- `obj.get(key)`; the last member of a name counts, and a missing one is `None`. -/
def get (members : List (List ℕ × Json)) (key : String) : Json :=
  match members.reverse.find? fun m => m.1 = codePoints key with
  | some m => m.2
  | none => null

/-! ### Scanning -/

/-- What `loads` raises. -/
inductive LoadsError
  /-- `JSONDecodeError`. -/
  | decode
  /-- `ValueError`: the integer has too many digits. -/
  | intTooLong
  /-- `RecursionError`. -/
  | recursion
  deriving DecidableEq, Repr

/-- What a scanner gives: a value and the rest of the text. -/
abbrev Scan (α : Type) := Except LoadsError (α × List Char)

/-- The white space between tokens. -/
def isWs (c : Char) : Bool := c = ' ' || c = '\t' || c = '\n' || c = '\r'

/-- The text behind leading white space. -/
def skipWs (s : List Char) : List Char := s.dropWhile isWs

/-- The value of a hexadecimal digit. -/
def hexValue (c : Char) : Option ℕ :=
  if c.isDigit then some (c.toNat - '0'.toNat)
  else if 'a' ≤ c ∧ c ≤ 'f' then some (c.toNat - 'a'.toNat + 10)
  else if 'A' ≤ c ∧ c ≤ 'F' then some (c.toNat - 'A'.toNat + 10)
  else none

/-- The code unit of four hexadecimal digits. -/
def hex4 (a b c d : Char) : Option ℕ := do
  let ds ← [a, b, c, d].mapM hexValue
  return ds.foldl (fun n x => 16 * n + x) 0

/-- The escapes of one character. -/
def escape : Char → Option ℕ
  | '"' => some 0x22
  | '\\' => some 0x5C
  | '/' => some 0x2F
  | 'b' => some 0x08
  | 'f' => some 0x0C
  | 'n' => some 0x0A
  | 'r' => some 0x0D
  | 't' => some 0x09
  | _ => none

/-- A character that stands for itself: no control character, and no backslash. -/
def plain (c : Char) : Option ℕ := if c.toNat ≤ 0x1F || c = '\\' then none else some c.toNat

/-- A code unit in front of those that follow. -/
def consUnit (x : Option ℕ) (r : Option (List ℕ × List Char)) : Option (List ℕ × List Char) :=
  x.bind fun x => r.map fun p => (x :: p.1, p.2)

/-- The code units of a string and the text behind its closing quote. -/
def scanUnits : List Char → Option (List ℕ × List Char)
  | [] => none
  | '"' :: cs => some ([], cs)
  | '\\' :: 'u' :: a :: b :: c :: d :: cs => consUnit (hex4 a b c d) (scanUnits cs)
  | '\\' :: e :: cs => consUnit (escape e) (scanUnits cs)
  | c :: cs => consUnit (plain c) (scanUnits cs)

/-- A high surrogate and the low one behind it make one code point. -/
def joinSurrogates : List ℕ → List ℕ
  | x :: y :: xs =>
    if 0xD800 ≤ x ∧ x ≤ 0xDBFF ∧ 0xDC00 ≤ y ∧ y ≤ 0xDFFF then
      (0x10000 + (x - 0xD800) * 0x400 + (y - 0xDC00)) :: joinSurrogates xs
    else x :: joinSurrogates (y :: xs)
  | xs => xs

/-- A string, behind its opening quote. -/
def scanString (s : List Char) : Scan (List ℕ) :=
  match scanUnits s with
  | some (xs, rest) => .ok (joinSurrogates xs, rest)
  | none => .error .decode

/-- The digits of a fraction. -/
def scanFrac : List Char → Option (List Char × List Char)
  | '.' :: c :: cs =>
    if c.isDigit then some (c :: cs.takeWhile Char.isDigit, cs.dropWhile Char.isDigit) else none
  | _ => none

/-- The sign of an exponent. -/
def scanSign : List Char → Bool × List Char
  | '-' :: cs => (true, cs)
  | '+' :: cs => (false, cs)
  | cs => (false, cs)

/-- An exponent; without a digit there is none. -/
def scanExp : List Char → Option (ℤ × List Char)
  | c :: cs =>
    let ds := (scanSign cs).2.takeWhile Char.isDigit
    if (c = 'e' || c = 'E') && !ds.isEmpty then
      let n : ℤ := Text.digitsValue ds
      some (if (scanSign cs).1 then -n else n, (scanSign cs).2.dropWhile Char.isDigit)
    else none
  | [] => none

/-- A number, behind the digits of its integral part. -/
def numberTail (neg : Bool) (digits s : List Char) : Scan Json :=
  match scanFrac s, scanExp ((scanFrac s).elim s Prod.snd) with
  | none, none =>
    if Text.maxStrDigits < digits.length then .error .intTooLong
    else
      let n : ℤ := Text.digitsValue digits
      .ok (.int (if neg then -n else n), s)
  | some (ds, rest), none => .ok (.float neg (Text.digitsValue (digits ++ ds)) (-ds.length), rest)
  | none, some (e, rest) => .ok (.float neg (Text.digitsValue digits) e, rest)
  | some (ds, _), some (e, rest) =>
    .ok (.float neg (Text.digitsValue (digits ++ ds)) (e - ds.length), rest)

/-- A number, behind its sign. -/
def scanDigits (neg : Bool) : List Char → Scan Json
  | [] => .error .decode
  | c :: cs =>
    if c = '0' then numberTail neg [c] cs
    else if c.isDigit then
      numberTail neg (c :: cs.takeWhile Char.isDigit) (cs.dropWhile Char.isDigit)
    else .error .decode

/-- A value that holds no other one. -/
def scanLeaf : List Char → Scan Json
  | '"' :: cs => (scanString cs).map fun r => (.str r.1, r.2)
  | 'n' :: 'u' :: 'l' :: 'l' :: cs => .ok (.null, cs)
  | 't' :: 'r' :: 'u' :: 'e' :: cs => .ok (.bool true, cs)
  | 'f' :: 'a' :: 'l' :: 's' :: 'e' :: cs => .ok (.bool false, cs)
  | 'N' :: 'a' :: 'N' :: cs => .ok (.nan, cs)
  | 'I' :: 'n' :: 'f' :: 'i' :: 'n' :: 'i' :: 't' :: 'y' :: cs => .ok (.infinity false, cs)
  | '-' :: 'I' :: 'n' :: 'f' :: 'i' :: 'n' :: 'i' :: 't' :: 'y' :: cs => .ok (.infinity true, cs)
  | '-' :: cs => scanDigits true cs
  | cs => scanDigits false cs

/-- Items with commas between them, up to the bracket `close`, in at most `fuel` steps. -/
def sepBy {α : Type} (close : Char) (item : List Char → Scan α) : ℕ → List Char → Scan (List α)
  | 0, _ => .error .decode
  | fuel + 1, s =>
    match item s with
    | .error e => .error e
    | .ok (v, r) =>
      match skipWs r with
      | [] => .error .decode
      | c :: cs =>
        if c = close then .ok ([v], cs)
        else if c = ',' then (sepBy close item fuel (skipWs cs)).map fun p => (v :: p.1, p.2)
        else .error .decode

/-- The inside of an array or an object. -/
def scanItems {α : Type} (close : Char) (item : List Char → Scan α) (s : List Char) :
    Scan (List α) :=
  match skipWs s with
  | [] => .error .decode
  | c :: cs => if c = close then .ok ([], cs) else sepBy close item (c :: cs).length (c :: cs)

/-- A key, a colon and a value. -/
def scanMember (value : List Char → Scan Json) : List Char → Scan (List ℕ × Json)
  | '"' :: cs =>
    match scanString cs with
    | .error e => .error e
    | .ok (key, r) =>
      match skipWs r with
      | ':' :: r => (value (skipWs r)).map fun p => ((key, p.1), p.2)
      | _ => .error .decode
  | _ => .error .decode

/-- `scan_once`, with `depth` nested arrays and objects to go. -/
def scanOnce : ℕ → List Char → Scan Json
  | 0, s =>
    match s with
    | '[' :: _ => .error .recursion
    | '{' :: _ => .error .recursion
    | s => scanLeaf s
  | depth + 1, s =>
    match s with
    | '[' :: cs => (scanItems ']' (scanOnce depth) cs).map fun r => (.arr r.1, r.2)
    | '{' :: cs =>
      (scanItems '}' (scanMember (scanOnce depth)) cs).map fun r => (.obj r.1, r.2)
    | s => scanLeaf s

/-- `json.loads` of a text. -/
def loads (depth : ℕ) (s : List Char) : Except LoadsError Json :=
  -- a byte order mark is an error of its own
  if s.head? = some '\uFEFF' then .error .decode
  else
    match scanOnce depth (skipWs s) with
    | .error e => .error e
    | .ok (v, rest) => if (skipWs rest).isEmpty then .ok v else .error .decode

/-! ### What has been read -/

/-- The value and the rest behind a scanner whose value is wrapped. -/
theorem eq_ok_of_map {α β : Type} {x : Scan α} {f : α → β} {v : β} {rest : List Char}
    (h : x.map (fun r => (f r.1, r.2)) = .ok (v, rest)) : ∃ a, x = .ok (a, rest) ∧ f a = v := by
  cases x with
  | error e => cases h
  | ok r =>
    cases h
    exact ⟨r.1, rfl, rfl⟩

theorem scanString_cases {s rest : List Char} {xs : List ℕ} (h : scanString s = .ok (xs, rest)) :
    ∃ ys, scanUnits s = some (ys, rest) ∧ joinSurrogates ys = xs := by
  rw [scanString] at h
  split at h
  · rename_i ys r hu
    cases h
    exact ⟨ys, hu, rfl⟩
  · cases h

/-- A member is a key, a colon and a value. -/
theorem scanMember_cases {value : List Char → Scan Json} {s rest : List Char} {m : List ℕ × Json}
    (h : scanMember value s = .ok (m, rest)) :
    ∃ cs r r', s = '"' :: cs ∧ scanString cs = .ok (m.1, r) ∧ skipWs r = ':' :: r' ∧
      value (skipWs r') = .ok (m.2, rest) := by
  rw [scanMember.eq_def] at h
  split at h
  · rename_i cs
    split at h
    · cases h
    · rename_i key r hs
      split at h
      · rename_i r' hr
        obtain ⟨v, hv, rfl⟩ := eq_ok_of_map h
        exact ⟨cs, r, r', rfl, hs, hr, hv⟩
      · cases h
  · cases h

/-- Behind an item stands the bracket, or a comma and the items that follow. -/
theorem sepBy_cases {α : Type} {close : Char} {item : List Char → Scan α} {fuel : ℕ}
    {s rest : List Char} {vs : List α} (h : sepBy close item fuel s = .ok (vs, rest)) :
    ∃ n v r, fuel = n + 1 ∧ item s = .ok (v, r) ∧ (skipWs r = close :: rest ∧ vs = [v] ∨
      ∃ cs ws, skipWs r = ',' :: cs ∧ sepBy close item n (skipWs cs) = .ok (ws, rest) ∧
        vs = v :: ws) := by
  cases fuel with
  | zero => cases h
  | succ n =>
    rw [sepBy] at h
    split at h
    · cases h
    · rename_i v r hr
      refine ⟨n, v, r, rfl, hr, ?_⟩
      split at h
      · cases h
      · rename_i c cs hc
        split at h
        · rename_i hclose
          cases h
          exact .inl ⟨by rw [hc, hclose], rfl⟩
        · split at h
          · rename_i hcomma
            obtain ⟨ws, hw, rfl⟩ := eq_ok_of_map h
            exact .inr ⟨cs, ws, by rw [hc, hcomma], hw, rfl⟩
          · cases h

/-- The bracket comes at once, or there are items. -/
theorem scanItems_cases {α : Type} {close : Char} {item : List Char → Scan α} {s rest : List Char}
    {vs : List α} (h : scanItems close item s = .ok (vs, rest)) :
    skipWs s = close :: rest ∧ vs = [] ∨ ∃ c cs, skipWs s = c :: cs ∧ c ≠ close ∧
      sepBy close item (c :: cs).length (c :: cs) = .ok (vs, rest) := by
  rw [scanItems] at h
  split at h
  · cases h
  · rename_i c cs hs
    split at h
    · rename_i hclose
      cases h
      exact .inl ⟨by rw [hs, hclose], rfl⟩
    · rename_i hclose
      exact .inr ⟨c, cs, hs, hclose, h⟩

/-- **What a value is**: a leaf, an array, or an object. -/
theorem scanOnce_cases {depth : ℕ} {s rest : List Char} {v : Json}
    (h : scanOnce depth s = .ok (v, rest)) :
    scanLeaf s = .ok (v, rest) ∨
      (∃ n cs vs, depth = n + 1 ∧ s = '[' :: cs ∧ v = .arr vs ∧
        scanItems ']' (scanOnce n) cs = .ok (vs, rest)) ∨
      ∃ n cs ms, depth = n + 1 ∧ s = '{' :: cs ∧ v = .obj ms ∧
        scanItems '}' (scanMember (scanOnce n)) cs = .ok (ms, rest) := by
  cases depth with
  | zero =>
    rw [scanOnce.eq_def] at h
    dsimp only at h
    split at h
    · cases h
    · cases h
    · exact .inl h
  | succ n =>
    rw [scanOnce.eq_def] at h
    dsimp only at h
    split at h
    · rename_i cs
      obtain ⟨vs, hs, rfl⟩ := eq_ok_of_map h
      exact .inr (.inl ⟨n, cs, vs, rfl, rfl, rfl, hs⟩)
    · rename_i cs
      obtain ⟨ms, hs, rfl⟩ := eq_ok_of_map h
      exact .inr (.inr ⟨n, cs, ms, rfl, rfl, rfl, hs⟩)
    · exact .inl h

/-! ### Every value takes up some of the text -/

theorem length_skipWs_le (s : List Char) : (skipWs s).length ≤ s.length :=
  (List.dropWhile_sublist isWs).length_le

theorem consUnit_eq_some {x : Option ℕ} {r : Option (List ℕ × List Char)} {xs : List ℕ}
    {rest : List Char} (h : consUnit x r = some (xs, rest)) : ∃ ys, r = some (ys, rest) := by
  obtain ⟨x, -, hr⟩ := Option.bind_eq_some_iff.mp h
  obtain ⟨⟨ys, rest'⟩, hr, hp⟩ := Option.map_eq_some_iff.mp hr
  simp only [Prod.mk.injEq] at hp
  exact ⟨ys, by rw [hr, hp.2]⟩

theorem scanUnits_length_lt {s : List Char} : ∀ {xs : List ℕ} {rest : List Char},
    scanUnits s = some (xs, rest) → rest.length < s.length := by
  -- each case but the closing quote puts one unit in front of a shorter string
  fun_induction scanUnits s with
  | case1 => intro xs rest h; cases h
  | case2 cs =>
    intro xs rest h
    cases h
    exact Nat.lt_succ_self _
  | case3 a b c d cs ih =>
    intro xs rest h
    obtain ⟨ys, hr⟩ := consUnit_eq_some h
    have := ih hr
    simp only [List.length_cons]
    omega
  | case4 e cs _ ih =>
    intro xs rest h
    obtain ⟨ys, hr⟩ := consUnit_eq_some h
    have := ih hr
    simp only [List.length_cons]
    omega
  | case5 c cs _ _ _ ih =>
    intro xs rest h
    obtain ⟨ys, hr⟩ := consUnit_eq_some h
    have := ih hr
    simp only [List.length_cons]
    omega

theorem scanString_length_lt {s rest : List Char} {xs : List ℕ}
    (h : scanString s = .ok (xs, rest)) : rest.length < s.length := by
  obtain ⟨ys, hu, -⟩ := scanString_cases h
  exact scanUnits_length_lt hu

theorem length_dropWhile_le (p : Char → Bool) (s : List Char) :
    (s.dropWhile p).length ≤ s.length :=
  (List.dropWhile_sublist p).length_le

theorem scanFrac_length_lt {s ds rest : List Char} (h : scanFrac s = some (ds, rest)) :
    rest.length < s.length := by
  rw [scanFrac.eq_def] at h
  split at h
  · rename_i c cs
    split at h
    · cases h
      have := length_dropWhile_le Char.isDigit cs
      simp only [List.length_cons]
      omega
    · cases h
  · cases h

theorem length_scanSign_le (s : List Char) : (scanSign s).2.length ≤ s.length := by
  rw [scanSign.eq_def]
  split
  · exact Nat.le_succ _
  · exact Nat.le_succ _
  · exact le_rfl

theorem scanExp_length_lt {s rest : List Char} {e : ℤ} (h : scanExp s = some (e, rest)) :
    rest.length < s.length := by
  cases s with
  | nil => cases h
  | cons c cs =>
    rw [scanExp] at h
    split at h
    · cases h
      have h1 := length_dropWhile_le Char.isDigit (scanSign cs).2
      have h2 := length_scanSign_le cs
      simp only [List.length_cons]
      omega
    · cases h

theorem numberTail_length_le {neg : Bool} {digits s rest : List Char} {v : Json}
    (h : numberTail neg digits s = .ok (v, rest)) : rest.length ≤ s.length := by
  rw [numberTail] at h
  split at h
  · split at h
    · cases h
    · cases h
      exact le_rfl
  · rename_i ds r hf he
    cases h
    exact (scanFrac_length_lt hf).le
  · rename_i e r hf he
    cases h
    rw [hf] at he
    exact (scanExp_length_lt he).le
  · rename_i ds r e r' hf he
    cases h
    rw [hf] at he
    exact (scanExp_length_lt he).le.trans (scanFrac_length_lt hf).le

theorem scanDigits_length_lt {neg : Bool} {s rest : List Char} {v : Json}
    (h : scanDigits neg s = .ok (v, rest)) : rest.length < s.length := by
  cases s with
  | nil => cases h
  | cons c cs =>
    rw [scanDigits] at h
    split at h
    · exact Nat.lt_succ_of_le (numberTail_length_le h)
    · split at h
      · have h1 := numberTail_length_le h
        have h2 := length_dropWhile_le Char.isDigit cs
        simp only [List.length_cons]
        omega
      · cases h

theorem scanLeaf_length_lt {s rest : List Char} {v : Json} (h : scanLeaf s = .ok (v, rest)) :
    rest.length < s.length := by
  rw [scanLeaf.eq_def] at h
  split at h
  case h_1 cs =>
    obtain ⟨xs, hs, -⟩ := eq_ok_of_map h
    exact (scanString_length_lt hs).trans (Nat.lt_succ_self _)
  case h_8 cs _ => exact (scanDigits_length_lt h).trans (Nat.lt_succ_self _)
  case h_9 => exact scanDigits_length_lt h
  all_goals
    cases h
    simp only [List.length_cons]
    omega

theorem scanMember_length_lt {value : List Char → Scan Json}
    (hv : ∀ s v rest, value s = .ok (v, rest) → rest.length < s.length) {s rest : List Char}
    {m : List ℕ × Json} (h : scanMember value s = .ok (m, rest)) : rest.length < s.length := by
  obtain ⟨cs, r, r', rfl, hs, hr, hvalue⟩ := scanMember_cases h
  have h1 := hv _ _ _ hvalue
  have h2 := length_skipWs_le r'
  have h3 := length_skipWs_le r
  rw [hr] at h3
  have h4 := scanString_length_lt hs
  simp only [List.length_cons] at h3 ⊢
  omega

theorem sepBy_length_lt {α : Type} {close : Char} {item : List Char → Scan α}
    (hi : ∀ s v rest, item s = .ok (v, rest) → rest.length < s.length) :
    ∀ {fuel : ℕ} {s rest : List Char} {vs : List α},
      sepBy close item fuel s = .ok (vs, rest) → rest.length < s.length := by
  intro fuel
  induction fuel with
  | zero => intro s rest vs h; cases h
  | succ fuel ih =>
    intro s rest vs h
    obtain ⟨n, v, r, hn, hr, htail⟩ := sepBy_cases h
    obtain rfl := Nat.succ.inj hn
    have h1 := hi _ _ _ hr
    have h2 := length_skipWs_le r
    rcases htail with ⟨hc, -⟩ | ⟨cs, ws, hc, hw, -⟩
    · rw [hc, List.length_cons] at h2
      omega
    · rw [hc, List.length_cons] at h2
      have h3 := ih hw
      have h4 := length_skipWs_le cs
      omega

theorem scanItems_length_lt {α : Type} {close : Char} {item : List Char → Scan α}
    (hi : ∀ s v rest, item s = .ok (v, rest) → rest.length < s.length) {s rest : List Char}
    {vs : List α} (h : scanItems close item s = .ok (vs, rest)) : rest.length < s.length := by
  have h1 := length_skipWs_le s
  rcases scanItems_cases h with ⟨hs, -⟩ | ⟨c, cs, hs, -, hitems⟩
  · rw [hs] at h1
    simpa using h1
  · rw [hs] at h1
    exact (sepBy_length_lt hi hitems).trans_le h1

/-- A value takes up some of the text. -/
theorem scanOnce_length_lt : ∀ (depth : ℕ) (s : List Char) (v : Json) (rest : List Char),
    scanOnce depth s = .ok (v, rest) → rest.length < s.length := by
  intro depth
  induction depth with
  | zero =>
    intro s v rest h
    rcases scanOnce_cases h with hleaf | ⟨n, -, -, hn, -⟩ | ⟨n, -, -, hn, -⟩
    · exact scanLeaf_length_lt hleaf
    · cases hn
    · cases hn
  | succ depth ih =>
    intro s v rest h
    rcases scanOnce_cases h with hleaf | ⟨n, cs, vs, hn, rfl, -, hs⟩ | ⟨n, cs, ms, hn, rfl, -, hs⟩
    · exact scanLeaf_length_lt hleaf
    · obtain rfl := Nat.succ.inj hn
      exact (scanItems_length_lt ih hs).trans (Nat.lt_succ_self _)
    · obtain rfl := Nat.succ.inj hn
      exact (scanItems_length_lt (fun _ _ _ => scanMember_length_lt ih) hs).trans
        (Nat.lt_succ_self _)

/-- With as many steps as there are characters the loop ends before they are used up. -/
theorem sepBy_fuel {α : Type} {close : Char} {item : List Char → Scan α}
    (hi : ∀ s v rest, item s = .ok (v, rest) → rest.length < s.length)
    (hnil : item [] = .error .decode) : ∀ (n m : ℕ) (s : List Char), s.length ≤ n →
      s.length ≤ m → sepBy close item n s = sepBy close item m s := by
  have hzero : ∀ (k : ℕ), sepBy close item k [] = .error .decode := by
    intro k
    cases k with
    | zero => rfl
    | succ k => rw [sepBy, hnil]
  intro n
  induction n with
  | zero =>
    intro m s hn hm
    rw [List.length_eq_zero_iff.mp (Nat.le_zero.mp hn), hzero, hzero]
  | succ n ih =>
    intro m s hn hm
    cases m with
    | zero => rw [List.length_eq_zero_iff.mp (Nat.le_zero.mp hm), hzero, hzero]
    | succ m =>
      rw [sepBy, sepBy]
      cases hr : item s with
      | error e => rfl
      | ok p =>
        obtain ⟨v, r⟩ := p
        have h1 := hi _ _ _ hr
        have h2 := length_skipWs_le r
        dsimp only
        cases hc : skipWs r with
        | nil => rfl
        | cons c cs =>
          -- an item and a comma are gone, so both loops have steps enough for the rest
          rw [hc, List.length_cons] at h2
          have h3 := length_skipWs_le cs
          dsimp only
          rw [ih m (skipWs cs) (by omega) (by omega)]

/-- The items of an array are read to the end, whatever the bound on the steps. -/
theorem sepBy_scanOnce (depth : ℕ) {n : ℕ} {s : List Char} (hn : s.length ≤ n) :
    sepBy ']' (scanOnce depth) s.length s = sepBy ']' (scanOnce depth) n s := by
  refine sepBy_fuel (scanOnce_length_lt depth) ?_ _ _ s le_rfl hn
  cases depth <;> rfl

/-- The members of an object, likewise. -/
theorem sepBy_scanMember (depth : ℕ) {n : ℕ} {s : List Char} (hn : s.length ≤ n) :
    sepBy '}' (scanMember (scanOnce depth)) s.length s =
      sepBy '}' (scanMember (scanOnce depth)) n s :=
  sepBy_fuel (fun _ _ _ => scanMember_length_lt (scanOnce_length_lt depth)) rfl _ _ s le_rfl hn

end Json
