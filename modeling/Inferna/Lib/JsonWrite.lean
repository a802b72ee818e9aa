import Inferna.Lib.Json

/-!
# Writing JSON

The texts that an interpreter's standard library writes for a flat object, with its standard
escapes: every character outside printable ASCII is written as one or two code units.  A float
is written as a literal, which stands for the value.  The reader reads each text back.

## Main definitions

* `Json.Scalar` — the values that hold no other one.
* `Json.stringText`, `Json.Scalar.text`, `Json.objectText` — their texts.
* `Json.dumps` — the text of an object, unless an integer has too many digits.

## Main results

* `Json.scanString_stringText`, `Json.scanLeaf_text` — a string and a scalar are read back from
  in front of any text.
* `Json.loads_dumps` — **the text of an object is read back.**
-/

namespace Json

/-! ### Texts -/

/-- A hexadecimal digit. -/
def hexChar (d : ℕ) : Char := if d < 10 then Char.ofNat (48 + d) else Char.ofNat (87 + d)

/-- The lowest `k` hexadecimal digits, the highest of them first. -/
def hexDigits : ℕ → ℕ → List Char
  | 0, _ => []
  | k + 1, n => hexDigits k (n / 16) ++ [hexChar (n % 16)]

/-- The escape of a code unit. -/
def unitText (n : ℕ) : List Char := '\\' :: 'u' :: hexDigits 4 n

/-- The characters with an escape of one letter. -/
def shortEscape : Char → Option Char
  | '"' => some '"'
  | '\\' => some '\\'
  | '\n' => some 'n'
  | '\r' => some 'r'
  | '\t' => some 't'
  | '\x0C' => some 'f'
  | '\x08' => some 'b'
  | _ => none

/-- The code units of a character. -/
def charUnits (c : Char) : List ℕ :=
  if c.toNat < 0x10000 then [c.toNat]
  else [0xD800 + (c.toNat - 0x10000) / 0x400, 0xDC00 + (c.toNat - 0x10000) % 0x400]

/-- A character of a string. -/
def charText (c : Char) : List Char :=
  match shortEscape c with
  | some e => ['\\', e]
  | none => if 0x20 ≤ c.toNat ∧ c.toNat ≤ 0x7E then [c] else (charUnits c).flatMap unitText

/-- A string between its quotes. -/
def stringText (s : String) : List Char := '"' :: (s.toList.flatMap charText ++ ['"'])

/-- An integer. -/
def intText (n : ℤ) : List Char :=
  if n < 0 then '-' :: (toString n.natAbs).toList else (toString n.natAbs).toList

/-- A value that holds no other one. -/
inductive Scalar
  | null
  | int (n : ℤ)
  | float (neg : Bool) (m : ℕ) (e : ℤ)
  | str (s : String)
  deriving DecidableEq, Repr

/-- The value that a reader makes of it. -/
def Scalar.json : Scalar → Json
  | null => .null
  | int n => .int n
  | float neg m e => .float neg m e
  | str s => .str (codePoints s)

/-- The text of a scalar. -/
def Scalar.text : Scalar → List Char
  | null => "null".toList
  | int n => intText n
  | float neg m e => (if neg then ['-'] else []) ++ (toString m).toList ++ 'e' :: intText e
  | str s => stringText s

/-- An integer with too many digits is not written. -/
def Scalar.writable : Scalar → Bool
  | int n => (toString n.natAbs).toList.length ≤ Text.maxStrDigits
  | _ => true

/-- A key, a colon and a value. -/
def memberText (m : String × Scalar) : List Char := stringText m.1 ++ ':' :: m.2.text

/-- Members with commas between them, and the closing bracket. -/
def membersText : List (String × Scalar) → List Char
  | [] => ['}']
  | [m] => memberText m ++ ['}']
  | m :: m' :: ms => memberText m ++ ',' :: membersText (m' :: ms)

/-- An object without white space. -/
def objectText (members : List (String × Scalar)) : List Char := '{' :: membersText members

/-- `json.dumps(obj, separators=(",", ":"))` of a flat object. -/
def dumps (members : List (String × Scalar)) : Option (List Char) :=
  if members.all (·.2.writable) then some (objectText members) else none

/-! ### Hexadecimal digits -/

theorem hexValue_hexChar {d : ℕ} (hd : d < 16) : hexValue (hexChar d) = some d := by
  interval_cases d <;> rfl

theorem length_hexDigits (k : ℕ) : ∀ n, (hexDigits k n).length = k := by
  induction k with
  | zero => exact fun _ => rfl
  | succ k ih =>
    intro n
    rw [hexDigits, List.length_append, ih]
    rfl

/-- Every one of the digits is one of sixteen. -/
theorem exists_of_mem_hexDigits {k : ℕ} {c : Char} : ∀ {n : ℕ}, c ∈ hexDigits k n →
    ∃ d < 16, c = hexChar d := by
  induction k with
  | zero => exact fun h => absurd h List.not_mem_nil
  | succ k ih =>
    intro n h
    rw [hexDigits, List.mem_append, List.mem_singleton] at h
    rcases h with h | h
    · exact ih h
    · exact ⟨n % 16, Nat.mod_lt n (by decide), h⟩

/-- The four digits of a code unit are read back. -/
theorem hex4_hexDigits {n : ℕ} (hn : n < 0x10000) : ∃ a b c d, hexDigits 4 n = [a, b, c, d] ∧
    hex4 a b c d = some n := by
  refine ⟨_, _, _, _, rfl, ?_⟩
  have h0 : n % 16 < 16 := Nat.mod_lt _ (by decide)
  have h1 : n / 16 % 16 < 16 := Nat.mod_lt _ (by decide)
  have h2 : n / 16 / 16 % 16 < 16 := Nat.mod_lt _ (by decide)
  have h3 : n / 16 / 16 / 16 % 16 < 16 := Nat.mod_lt _ (by decide)
  simp only [hex4, List.mapM_cons, List.mapM_nil, hexValue_hexChar h0, hexValue_hexChar h1,
    hexValue_hexChar h2, hexValue_hexChar h3, Option.bind_eq_bind, Option.bind_some,
    Option.pure_def, List.foldl_cons, List.foldl_nil, Option.some.injEq]
  omega

/-! ### Strings -/

theorem scanUnits_escape {e : Char} (he : e ≠ 'u') (cs : List Char) :
    scanUnits ('\\' :: e :: cs) = consUnit (escape e) (scanUnits cs) := by
  rw [scanUnits.eq_def]
  split
  case h_5 c' cs' _ hother heq =>
    injection heq with hc hcs
    exact absurd hcs.symm (hother e cs hc.symm)
  all_goals simp_all

theorem scanUnits_plain {c : Char} (hq : c ≠ '"') (hb : c ≠ '\\') (cs : List Char) :
    scanUnits (c :: cs) = consUnit (plain c) (scanUnits cs) := by
  rw [scanUnits.eq_def]
  split <;> simp_all

theorem scanUnits_unitText {n : ℕ} (hn : n < 0x10000) (cs : List Char) :
    scanUnits (unitText n ++ cs) = consUnit (some n) (scanUnits cs) := by
  obtain ⟨a, b, c, d, htext, hvalue⟩ := hex4_hexDigits hn
  rw [unitText, htext, ← hvalue]
  rfl

theorem escape_of_shortEscape {c e : Char} (h : shortEscape c = some e) :
    e ≠ 'u' ∧ escape e = some c.toNat ∧ charUnits c = [c.toNat] := by
  unfold shortEscape at h
  split at h
  case h_8 => cases h
  all_goals
    injection h with h
    subst h
    exact ⟨by decide, rfl, rfl⟩

/-- A character is a code point, and no surrogate. -/
theorem toNat_valid (c : Char) : c.toNat < 0xD800 ∨ (0xDFFF < c.toNat ∧ c.toNat < 0x110000) :=
  c.valid

theorem charUnits_lt (c : Char) : ∀ n ∈ charUnits c, n < 0x10000 := by
  have hvalid := toNat_valid c
  intro n hn
  unfold charUnits at hn
  split at hn
  · rename_i h
    rw [List.mem_singleton.mp hn]
    exact h
  · rw [List.mem_cons, List.mem_singleton] at hn
    rcases hn with hn | hn <;> omega

/-- The text of a character is read as its code units. -/
theorem scanUnits_charText (c : Char) {cs rest : List Char} {xs : List ℕ}
    (h : scanUnits cs = some (xs, rest)) :
    scanUnits (charText c ++ cs) = some (charUnits c ++ xs, rest) := by
  have hunits : ∀ ns : List ℕ, (∀ n ∈ ns, n < 0x10000) →
      scanUnits (ns.flatMap unitText ++ cs) = some (ns ++ xs, rest) := by
    intro ns
    induction ns with
    | nil => exact fun _ => h
    | cons n ns ih =>
      intro hns
      rw [List.flatMap_cons, List.append_assoc, scanUnits_unitText (hns n List.mem_cons_self),
        ih fun n hn => hns n (List.mem_cons_of_mem _ hn)]
      rfl
  unfold charText
  cases he : shortEscape c with
  | some e =>
    obtain ⟨hu, hescape, hone⟩ := escape_of_shortEscape he
    change scanUnits ('\\' :: e :: cs) = _
    rw [scanUnits_escape hu, hescape, h, hone]
    rfl
  | none =>
    simp only
    split
    · rename_i hrange
      -- a printable character other than the quote and the backslash
      have hq : c ≠ '"' := by rintro rfl; cases he
      have hb : c ≠ '\\' := by rintro rfl; cases he
      have hplain : plain c = some c.toNat := by
        unfold plain
        rw [if_neg]
        simp only [Bool.or_eq_true, decide_eq_true_eq, not_or]
        exact ⟨by omega, hb⟩
      change scanUnits (c :: cs) = _
      rw [scanUnits_plain hq hb, hplain, h, charUnits, if_pos (by omega)]
      rfl
    · exact hunits _ (charUnits_lt c)

theorem joinSurrogates_cons {x : ℕ} (hx : ¬ (0xD800 ≤ x ∧ x ≤ 0xDBFF)) (xs : List ℕ) :
    joinSurrogates (x :: xs) = x :: joinSurrogates xs := by
  cases xs with
  | nil => rfl
  | cons y ys =>
    rw [joinSurrogates, if_neg]
    exact fun h => hx ⟨h.1, h.2.1⟩

/-- The code units of a character are joined to it. -/
theorem joinSurrogates_charUnits (c : Char) (xs : List ℕ) :
    joinSurrogates (charUnits c ++ xs) = c.toNat :: joinSurrogates xs := by
  have hvalid := toNat_valid c
  unfold charUnits
  split
  · exact joinSurrogates_cons (by omega) xs
  · rename_i hge
    rw [List.cons_append, List.cons_append, List.nil_append, joinSurrogates,
      if_pos ⟨by omega, by omega, by omega, by omega⟩]
    refine congrArg (· :: joinSurrogates xs) ?_
    omega

/-- The units of a text and what stands behind its closing quote. -/
theorem scanUnits_chars (cs : List Char) (rest : List Char) :
    scanUnits (cs.flatMap charText ++ '"' :: rest) = some (cs.flatMap charUnits, rest) := by
  induction cs with
  | nil => rfl
  | cons c cs ih =>
    rw [List.flatMap_cons, List.append_assoc, List.flatMap_cons, scanUnits_charText c ih]

/-- **A string is read back.** -/
theorem scanString_stringText (s : String) (rest : List Char) :
    scanString (s.toList.flatMap charText ++ '"' :: rest) = .ok (codePoints s, rest) := by
  have hjoin : ∀ cs : List Char, joinSurrogates (cs.flatMap charUnits) = cs.map Char.toNat := by
    intro cs
    induction cs with
    | nil => rfl
    | cons c cs ih => rw [List.flatMap_cons, joinSurrogates_charUnits, ih, List.map_cons]
  rw [scanString, scanUnits_chars]
  simp only [hjoin]
  rfl

/-! ### Numbers -/

/-- A numeral other than zero does not begin with a zero. -/
theorem toString_of_pos {n : ℕ} (hn : 0 < n) :
    ∃ c cs, (toString n).toList = c :: cs ∧ c ≠ '0' := by
  rw [Nat.toString_eq_ofList_toDigits, String.toList_ofList]
  induction n using Nat.strong_induction_on with
  | _ n ih =>
    rw [Nat.toDigits_eq_if (by decide)]
    split
    · rename_i hlt
      refine ⟨n.digitChar, [], rfl, ?_⟩
      interval_cases n <;> decide
    · rename_i hge
      obtain ⟨c, cs, heq, hc⟩ := ih (n / 10) (by omega) (by omega)
      exact ⟨c, cs ++ [(n % 10).digitChar], by rw [heq]; rfl, hc⟩

/-- The text goes on with something that is no digit. -/
theorem span_digits {ds : List Char} (hds : ∀ c ∈ ds, c.isDigit = true) {c : Char}
    (hc : c.isDigit = false) (cs : List Char) :
    (ds ++ c :: cs).takeWhile Char.isDigit = ds ∧ (ds ++ c :: cs).dropWhile Char.isDigit = c :: cs := by
  induction ds with
  | nil => simp [hc]
  | cons d ds ih =>
    obtain ⟨htake, hdrop⟩ := ih fun c hc => hds c (List.mem_cons_of_mem _ hc)
    have hd := hds d List.mem_cons_self
    rw [List.cons_append, List.takeWhile_cons_of_pos hd, List.dropWhile_cons_of_pos hd, htake, hdrop]
    exact ⟨rfl, rfl⟩

/-- The digits of a number are read up to the first character that is none. -/
theorem scanDigits_toString (neg : Bool) (n : ℕ) {c : Char} (hc : c.isDigit = false)
    (cs : List Char) :
    scanDigits neg ((toString n).toList ++ c :: cs) =
      numberTail neg (toString n).toList (c :: cs) := by
  rcases Nat.eq_zero_or_pos n with rfl | hn
  · rfl
  · obtain ⟨d, ds, heq, hd⟩ := toString_of_pos hn
    have hdigit : ∀ x ∈ d :: ds, x.isDigit = true := fun x hx => Text.isDigit_of_mem_toString (heq ▸ hx)
    obtain ⟨htake, hdrop⟩ :=
      span_digits (fun x hx => hdigit x (List.mem_cons_of_mem _ hx)) hc cs
    rw [heq, List.cons_append, scanDigits, if_neg hd, if_pos (hdigit d List.mem_cons_self), htake,
      hdrop]

/-- What stands behind a value in an object. -/
def Closes (c : Char) : Prop := c = ',' ∨ c = '}'

theorem scanLeaf_of_isDigit {c : Char} (hc : c.isDigit = true) (cs : List Char) :
    scanLeaf (c :: cs) = scanDigits false (c :: cs) := by
  rw [scanLeaf.eq_def]
  split
  all_goals first | rfl | simp_all

theorem scanLeaf_minus {c : Char} (hc : c.isDigit = true) (cs : List Char) :
    scanLeaf ('-' :: c :: cs) = scanDigits true (c :: cs) := by
  rw [scanLeaf.eq_def]
  split
  all_goals first | rfl | simp_all

/-- The text of a number is read by its digits. -/
theorem scanLeaf_number (neg : Bool) (n : ℕ) {c : Char} (hc : c.isDigit = false) (cs : List Char) :
    scanLeaf ((if neg then ['-'] else []) ++ (toString n).toList ++ c :: cs) =
      numberTail neg (toString n).toList (c :: cs) := by
  rw [← scanDigits_toString neg n hc]
  obtain ⟨d, ds, heq⟩ := List.exists_cons_of_ne_nil (l := (toString n).toList) (by
    intro h
    have := Text.isDigits_toString n
    rw [h] at this
    cases this)
  have hd : d.isDigit = true := Text.isDigit_of_mem_toString (heq ▸ List.mem_cons_self)
  rw [heq]
  cases neg with
  | false => exact scanLeaf_of_isDigit hd _
  | true => exact scanLeaf_minus hd _

theorem scanFrac_of_ne {c : Char} (hc : c ≠ '.') (cs : List Char) : scanFrac (c :: cs) = none := by
  rw [scanFrac.eq_def]
  split
  · rename_i heq
    injection heq with heq
    exact absurd heq hc
  · rfl

/-- A character that ends a number. -/
theorem numberTail_stop {c : Char} (hdot : c ≠ '.') (he : c ≠ 'e') (hE : c ≠ 'E')
    (neg : Bool) (digits cs : List Char) :
    numberTail neg digits (c :: cs) =
      if Text.maxStrDigits < digits.length then .error .intTooLong
      else .ok (.int (if neg then -(Text.digitsValue digits : ℤ) else Text.digitsValue digits),
        c :: cs) := by
  have hexp : scanExp (c :: cs) = none := by
    rw [scanExp]
    simp [he, hE]
  rw [numberTail, scanFrac_of_ne hdot]
  simp only [Option.elim_none, hexp]

/-- The exponent of a float literal. -/
theorem scanExp_intText (e : ℤ) {c : Char} (hc : c.isDigit = false) (cs : List Char) :
    scanExp ('e' :: (intText e ++ c :: cs)) = some (e, c :: cs) := by
  have hdigits : ∀ x ∈ (toString e.natAbs).toList, x.isDigit = true := fun x hx =>
    Text.isDigit_of_mem_toString hx
  obtain ⟨htake, hdrop⟩ := span_digits hdigits hc cs
  have hne : (toString e.natAbs).toList.isEmpty = false := by
    have := Text.isDigits_toString e.natAbs
    unfold Text.isDigits at this
    rw [Bool.and_eq_true] at this
    exact (Bool.not_eq_eq_eq_not ..).mp this.1
  -- a digit in front is no sign, so only a minus is read as one
  have hsign : scanSign (intText e ++ c :: cs) =
      (decide (e < 0), (toString e.natAbs).toList ++ c :: cs) := by
    unfold intText
    split
    · rename_i hneg
      rw [decide_eq_true hneg]
      rfl
    · rename_i hpos
      rw [decide_eq_false hpos, scanSign.eq_def]
      obtain ⟨d, ds, heq⟩ := List.exists_cons_of_ne_nil (List.isEmpty_eq_false_iff.mp hne)
      have hd := hdigits d (heq ▸ List.mem_cons_self)
      rw [heq]
      split
      all_goals first | rfl | simp_all
  rw [scanExp, hsign]
  simp only [htake, hdrop, hne, decide_true, Bool.true_or, Bool.not_false, Bool.and_self, if_true,
    Text.digitsValue_toString]
  split
  · rename_i hneg
    rw [decide_eq_true_eq] at hneg
    rw [show -(e.natAbs : ℤ) = e by omega]
  · rename_i hpos
    rw [decide_eq_true_eq] at hpos
    rw [show (e.natAbs : ℤ) = e by omega]

theorem intText_eq (n : ℤ) :
    intText n = (if decide (n < 0) then ['-'] else []) ++ (toString n.natAbs).toList := by
  unfold intText
  by_cases hn : n < 0 <;> simp [hn]

/-- An integer is read back from in front of a character that ends a number. -/
theorem scanLeaf_intText {n : ℤ} (hlen : (toString n.natAbs).toList.length ≤ Text.maxStrDigits)
    {c : Char} (hdigit : c.isDigit = false) (hstop : c ≠ '.' ∧ c ≠ 'e' ∧ c ≠ 'E')
    (cs : List Char) : scanLeaf (intText n ++ c :: cs) = .ok (.int n, c :: cs) := by
  have hvalue : (if n < 0 then -(n.natAbs : ℤ) else n.natAbs) = n := by split <;> omega
  rw [intText_eq, scanLeaf_number _ _ hdigit, numberTail_stop hstop.1 hstop.2.1 hstop.2.2,
    if_neg (Nat.not_lt.mpr hlen), Text.digitsValue_toString]
  simp only [decide_eq_true_eq]
  rw [hvalue]

/-- **A scalar is read back** from in front of a comma or a closing bracket. -/
theorem scanLeaf_text {v : Scalar} (hv : v.writable = true) {c : Char} (hc : Closes c)
    (cs : List Char) : scanLeaf (v.text ++ c :: cs) = .ok (v.json, c :: cs) := by
  have hdigit : c.isDigit = false := by rcases hc with rfl | rfl <;> rfl
  have hstop : c ≠ '.' ∧ c ≠ 'e' ∧ c ≠ 'E' := by rcases hc with rfl | rfl <;> decide
  cases v with
  | null => rfl
  | int n =>
    unfold Scalar.writable at hv
    rw [decide_eq_true_eq] at hv
    exact scanLeaf_intText hv hdigit hstop cs
  | float neg m e =>
    -- a float is written as digits and an exponent, without a fraction
    have htext : (Scalar.float neg m e).text ++ c :: cs =
        (if neg then ['-'] else []) ++ (toString m).toList ++ 'e' :: (intText e ++ c :: cs) := by
      simp [Scalar.text]
    rw [htext, scanLeaf_number neg m (by decide), numberTail, scanFrac_of_ne (by decide)]
    simp only [Option.elim_none, scanExp_intText e hdigit cs, Text.digitsValue_toString]
    rfl
  | str s =>
    change scanLeaf ('"' :: (s.toList.flatMap charText ++ ['"'] ++ c :: cs)) = _
    rw [List.append_assoc]
    change (scanString (s.toList.flatMap charText ++ '"' :: c :: cs)).map _ = _
    rw [scanString_stringText]
    rfl

/-! ### Objects -/

/-- A character that opens no array or object, and closes none. -/
def BeginsLeaf (c : Char) : Prop := isWs c = false ∧ c ≠ '[' ∧ c ≠ '{' ∧ c ≠ ']' ∧ c ≠ '}'

instance (c : Char) : Decidable (BeginsLeaf c) :=
  inferInstanceAs (Decidable (isWs c = false ∧ c ≠ '[' ∧ c ≠ '{' ∧ c ≠ ']' ∧ c ≠ '}'))

/-- A number begins with its sign or with a digit. -/
theorem number_head (neg : Bool) (n : ℕ) (cs : List Char) : ∃ d ds,
    (if neg then ['-'] else []) ++ (toString n).toList ++ cs = d :: ds ∧ BeginsLeaf d := by
  cases neg with
  | true => exact ⟨'-', _, rfl, by decide⟩
  | false =>
    cases hs : (toString n).toList with
    | nil =>
      have := Text.isDigits_toString n
      rw [hs] at this
      cases this
    | cons d ds =>
      have hd : d.isDigit = true := Text.isDigit_of_mem_toString (hs ▸ List.mem_cons_self)
      have hne : ∀ {c : Char}, c.isDigit = false → d ≠ c := by
        rintro c hc rfl
        rw [hc] at hd
        cases hd
      refine ⟨d, ds ++ cs, rfl, ?_, hne rfl, hne rfl, hne rfl, hne rfl⟩
      simp [isWs, hne (c := ' ') rfl, hne (c := '\t') rfl, hne (c := '\n') rfl,
        hne (c := '\r') rfl]

theorem intText_head (n : ℤ) : ∃ d ds, intText n = d :: ds ∧ BeginsLeaf d := by
  have h := number_head (decide (n < 0)) n.natAbs []
  rwa [List.append_nil, ← intText_eq] at h

theorem text_head (v : Scalar) : ∃ d ds, v.text = d :: ds ∧ BeginsLeaf d := by
  cases v with
  | null => exact ⟨'n', _, rfl, by decide⟩
  | int n => exact intText_head n
  | float neg m e => exact number_head neg m ('e' :: intText e)
  | str s => exact ⟨'"', _, rfl, by decide⟩

theorem BeginsLeaf.skipWs {c : Char} (h : BeginsLeaf c) (cs : List Char) :
    skipWs (c :: cs) = c :: cs :=
  List.dropWhile_cons_of_neg (by rw [h.1]; decide)

/-- What begins like a scalar is read as one, at any depth. -/
theorem BeginsLeaf.scanOnce {c : Char} (h : BeginsLeaf c) (depth : ℕ) (cs : List Char) :
    scanOnce depth (c :: cs) = scanLeaf (c :: cs) := by
  obtain ⟨-, hb, hbrace, -, -⟩ := h
  cases depth with
  | zero =>
    rw [scanOnce.eq_def]
    split
    all_goals simp_all
  | succ depth =>
    rw [scanOnce.eq_def]
    split
    all_goals simp_all

/-- A scalar is read at any depth. -/
theorem scanOnce_text (depth : ℕ) {v : Scalar} (hv : v.writable = true) {c : Char}
    (hc : Closes c) (cs : List Char) :
    scanOnce depth (skipWs (v.text ++ c :: cs)) = .ok (v.json, c :: cs) := by
  obtain ⟨d, ds, heq, hd⟩ := text_head v
  have hleaf := scanLeaf_text hv hc cs
  rw [heq, List.cons_append] at hleaf ⊢
  rw [hd.skipWs, hd.scanOnce, hleaf]

/-- A member is read back. -/
theorem scanMember_memberText (depth : ℕ) {m : String × Scalar} (hm : m.2.writable = true)
    {c : Char} (hc : Closes c) (cs : List Char) :
    scanMember (scanOnce depth) (memberText m ++ c :: cs) =
      .ok ((codePoints m.1, m.2.json), c :: cs) := by
  have htext : memberText m ++ c :: cs =
      '"' :: (m.1.toList.flatMap charText ++ '"' :: ':' :: (m.2.text ++ c :: cs)) := by
    simp [memberText, stringText]
  rw [htext, scanMember, scanString_stringText]
  change (scanOnce depth (skipWs (m.2.text ++ c :: cs))).map _ = _
  rw [scanOnce_text depth hm hc]
  rfl

/-- The last item, in front of the closing bracket. -/
theorem sepBy_close {α : Type} {close : Char} {item : List Char → Scan α} {s cs : List Char} {v : α}
    (h : item s = .ok (v, close :: cs)) (hclose : isWs close = false) (fuel : ℕ) :
    sepBy close item (fuel + 1) s = .ok ([v], cs) := by
  have hskip : skipWs (close :: cs) = close :: cs :=
    List.dropWhile_cons_of_neg (by rw [hclose]; decide)
  rw [sepBy, h]
  simp only [hskip, if_true]

/-- An item in front of a comma. -/
theorem sepBy_comma {α : Type} {close : Char} {item : List Char → Scan α} {s cs : List Char} {v : α}
    (h : item s = .ok (v, ',' :: cs)) (hclose : ',' ≠ close) (fuel : ℕ) :
    sepBy close item (fuel + 1) s =
      (sepBy close item fuel (skipWs cs)).map fun p => (v :: p.1, p.2) := by
  have hskip : skipWs (',' :: cs) = ',' :: cs := rfl
  rw [sepBy, h]
  simp only [hskip, if_neg hclose, if_true]

/-- The members are read back, in as many steps as there are members. -/
theorem sepBy_membersText (depth : ℕ) (rest : List Char) (ms : List (String × Scalar)) :
    ∀ (m : String × Scalar) (fuel : ℕ), ms.length < fuel →
      (∀ x ∈ m :: ms, x.2.writable = true) →
      sepBy '}' (scanMember (scanOnce depth)) fuel (membersText (m :: ms) ++ rest) =
        .ok ((m :: ms).map fun x => (codePoints x.1, x.2.json), rest) := by
  induction ms with
  | nil =>
    intro m fuel hfuel hw
    obtain ⟨fuel, rfl⟩ := Nat.exists_eq_succ_of_ne_zero (Nat.ne_of_gt hfuel)
    have htext : membersText [m] ++ rest = memberText m ++ '}' :: rest := by
      simp [membersText]
    rw [htext]
    exact sepBy_close (scanMember_memberText depth (hw m List.mem_cons_self) (Or.inr rfl) rest)
      (by decide) fuel
  | cons m' ms ih =>
    intro m fuel hfuel hw
    obtain ⟨fuel, rfl⟩ := Nat.exists_eq_succ_of_ne_zero (Nat.ne_of_gt ((Nat.zero_le _).trans_lt hfuel))
    rw [List.length_cons] at hfuel
    have htext : membersText (m :: m' :: ms) ++ rest =
        memberText m ++ ',' :: (membersText (m' :: ms) ++ rest) := by
      simp [membersText]
    have hskip : skipWs (membersText (m' :: ms) ++ rest) = membersText (m' :: ms) ++ rest := by
      cases ms <;> rfl
    rw [htext, sepBy_comma
      (scanMember_memberText depth (hw m List.mem_cons_self) (Or.inl rfl) _) (by decide), hskip,
      ih m' fuel (by omega) fun x hx => hw x (List.mem_cons_of_mem _ hx)]
    rfl

theorem length_lt_membersText (ms : List (String × Scalar)) : ms.length < (membersText ms).length := by
  induction ms with
  | nil => exact Nat.zero_lt_one
  | cons m ms ih =>
    cases ms with
    | nil => simp [membersText, memberText, stringText]
    | cons m' ms =>
      simp only [membersText, List.length_append, List.length_cons] at ih ⊢
      omega

/-- **The text of an object is read back.**  One level of nesting is enough. -/
theorem loads_dumps {members : List (String × Scalar)} {text : List Char}
    (h : dumps members = some text) (depth : ℕ) :
    loads (depth + 1) text = .ok (.obj (members.map fun m => (codePoints m.1, m.2.json))) := by
  unfold dumps at h
  split at h
  · rename_i hall
    injection h with h
    subst h
    rw [List.all_eq_true] at hall
    have hscan : scanOnce (depth + 1) (objectText members) =
        .ok (.obj (members.map fun m => (codePoints m.1, m.2.json)), []) := by
      change (scanItems '}' (scanMember (scanOnce depth)) (membersText members)).map _ = _
      cases members with
      | nil => rfl
      | cons m ms =>
        have hskip : skipWs (membersText (m :: ms)) = membersText (m :: ms) := by
          cases ms <;> rfl
        have hhead : ∃ cs, membersText (m :: ms) = '"' :: cs := by
          cases ms <;> exact ⟨_, rfl⟩
        obtain ⟨cs, hcs⟩ := hhead
        have hlen := length_lt_membersText (m :: ms)
        rw [List.length_cons] at hlen
        have hsep := sepBy_membersText depth [] ms m (membersText (m :: ms)).length (by omega) hall
        rw [List.append_nil, hcs] at hsep
        rw [scanItems, hskip, hcs]
        simp only [if_neg (show ¬ '"' = '}' by decide), hsep]
        rfl
    have hskip : skipWs (objectText members) = objectText members := rfl
    -- the text begins with a brace, not with a byte order mark
    have hmark : (objectText members).head? ≠ some '\uFEFF' := by
      change some '{' ≠ _
      decide
    rw [loads, if_neg hmark, hskip, hscan]
    rfl
  · cases h

/-! ### The characters of a text -/

/-- A printable character of ASCII. -/
def Printable (c : Char) : Prop := 0x20 ≤ c.toNat ∧ c.toNat ≤ 0x7E

instance (c : Char) : Decidable (Printable c) :=
  inferInstanceAs (Decidable (0x20 ≤ c.toNat ∧ c.toNat ≤ 0x7E))

theorem printable_hexChar {d : ℕ} (hd : d < 16) : Printable (hexChar d) := by
  unfold Printable
  interval_cases d <;> decide

theorem printable_of_isDigit {c : Char} (hc : c.isDigit = true) : Printable c := by
  simp only [Char.isDigit, Bool.and_eq_true, decide_eq_true_eq] at hc
  have h1 : 48 ≤ c.toNat := hc.1
  have h2 : c.toNat ≤ 57 := hc.2
  exact ⟨by omega, by omega⟩

theorem printable_unitText (n : ℕ) : ∀ c ∈ unitText n, Printable c := by
  intro c hc
  rw [unitText, List.mem_cons, List.mem_cons] at hc
  rcases hc with rfl | rfl | hc
  · exact ⟨by decide, by decide⟩
  · exact ⟨by decide, by decide⟩
  · obtain ⟨d, hd, rfl⟩ := exists_of_mem_hexDigits hc
    exact printable_hexChar hd

theorem printable_charText (x : Char) : ∀ c ∈ charText x, Printable c := by
  intro c hc
  unfold charText at hc
  cases he : shortEscape x with
  | some e =>
    rw [he, List.mem_cons, List.mem_singleton] at hc
    rcases hc with rfl | rfl
    · exact ⟨by decide, by decide⟩
    · unfold shortEscape at he
      split at he
      case h_8 => cases he
      all_goals
        injection he with he
        subst he
        exact ⟨by decide, by decide⟩
  | none =>
    rw [he] at hc
    simp only at hc
    split at hc
    · rename_i hrange
      rw [List.mem_singleton.mp hc]
      exact hrange
    · obtain ⟨n, -, hc⟩ := List.mem_flatMap.mp hc
      exact printable_unitText n c hc

theorem printable_stringText (s : String) : ∀ c ∈ stringText s, Printable c := by
  intro c hc
  rw [stringText, List.mem_cons, List.mem_append, List.mem_singleton] at hc
  rcases hc with rfl | hc | rfl
  · exact ⟨by decide, by decide⟩
  · obtain ⟨x, -, hc⟩ := List.mem_flatMap.mp hc
    exact printable_charText x c hc
  · exact ⟨by decide, by decide⟩

theorem printable_intText (n : ℤ) : ∀ c ∈ intText n, Printable c := by
  intro c hc
  unfold intText at hc
  split at hc
  · rcases List.mem_cons.mp hc with rfl | hc
    · exact ⟨by decide, by decide⟩
    · exact printable_of_isDigit (Text.isDigit_of_mem_toString hc)
  · exact printable_of_isDigit (Text.isDigit_of_mem_toString hc)

theorem printable_text (v : Scalar) : ∀ c ∈ v.text, Printable c := by
  intro c hc
  cases v with
  | null =>
    simp only [Scalar.text, String.reduceToList, List.mem_cons, List.not_mem_nil, or_false] at hc
    rcases hc with rfl | rfl | rfl | rfl <;> exact ⟨by decide, by decide⟩
  | int n => exact printable_intText n c hc
  | float neg m e =>
    rw [Scalar.text, List.mem_append, List.mem_append, List.mem_cons] at hc
    rcases hc with (hc | hc) | rfl | hc
    · cases neg with
      | true =>
        rw [List.mem_singleton.mp hc]
        exact ⟨by decide, by decide⟩
      | false => exact absurd hc List.not_mem_nil
    · exact printable_of_isDigit (Text.isDigit_of_mem_toString hc)
    · exact ⟨by decide, by decide⟩
    · exact printable_intText e c hc
  | str s => exact printable_stringText s c hc

theorem printable_membersText (ms : List (String × Scalar)) : ∀ c ∈ membersText ms, Printable c := by
  have hmember : ∀ m : String × Scalar, ∀ c ∈ memberText m, Printable c := by
    intro m c hc
    rw [memberText, List.mem_append, List.mem_cons] at hc
    rcases hc with hc | rfl | hc
    · exact printable_stringText m.1 c hc
    · exact ⟨by decide, by decide⟩
    · exact printable_text m.2 c hc
  induction ms with
  | nil =>
    intro c hc
    rw [List.mem_singleton.mp hc]
    exact ⟨by decide, by decide⟩
  | cons m ms ih =>
    intro c hc
    cases ms with
    | nil =>
      rw [membersText, List.mem_append, List.mem_singleton] at hc
      rcases hc with hc | rfl
      · exact hmember m c hc
      · exact ⟨by decide, by decide⟩
    | cons m' ms =>
      rw [membersText, List.mem_append, List.mem_cons] at hc
      rcases hc with hc | rfl | hc
      · exact hmember m c hc
      · exact ⟨by decide, by decide⟩
      · exact ih c hc

/-- A text that is written has printable characters only: it is one line. -/
theorem printable_dumps {members : List (String × Scalar)} {text : List Char}
    (h : dumps members = some text) : ∀ c ∈ text, Printable c := by
  unfold dumps at h
  split at h
  · injection h with h
    subst h
    intro c hc
    rcases List.mem_cons.mp hc with rfl | hc
    · exact ⟨by decide, by decide⟩
    · exact printable_membersText members c hc
  · cases h

end Json
