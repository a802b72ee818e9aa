import Inferna.Lib.JsonValue
import Inferna.Lib.JsonWrite

/-!
# Writing nested JSON

The texts that an interpreter's standard library writes for a value, arrays and objects included,
with its standard separators and escapes.  Each float is written as a literal that stands for it;
`NaN` and the infinities are written as they are read.  The reader reads each text back: the
dictionaries as they were, the floats as the same ones.

## Main definitions

* `Json.FloatLiteral`, `Json.FloatText` — the literals that floats are written as.
* `Json.pointsText`, `Json.dumpsNested` — the texts of strings and of values.
* `Json.reread` — the value that is read back.

## Main results

* `Json.scanString_pointsText` — a string is read back, if its surrogates are joined.
* `Json.reads_dumpsNested` — **a value is read back** from its text.
* `Json.same_reread`, `Json.strict_reread_iff` — it is the same one, and its text has no `NaN` and
  no infinity exactly when the value has none.
-/

namespace Json

/-! ### Texts -/

/-- A float literal: digits, and behind them a fraction or an exponent or both. -/
structure FloatLiteral where
  whole : ℕ
  frac : List Char
  exp : Option ℤ
  digits : ∀ c ∈ frac, c.isDigit = true
  isFloat : frac ≠ [] ∨ exp ≠ none

/-- An exponent: its sign, and at least two digits. -/
def expText (e : ℤ) : List Char :=
  'e' :: (if e < 0 then '-' else '+') ::
    ((if e.natAbs < 10 then ['0'] else []) ++ (toString e.natAbs).toList)

namespace FloatLiteral

/-- What stands behind the first digits. -/
def tail (l : FloatLiteral) : List Char :=
  (if l.frac.isEmpty then [] else '.' :: l.frac) ++ l.exp.elim [] expText

/-- The literal. -/
def text (l : FloatLiteral) : List Char := (toString l.whole).toList ++ l.tail

/-- Its digits, as one number. -/
def mantissa (l : FloatLiteral) : ℕ := Text.digitsValue ((toString l.whole).toList ++ l.frac)

/-- The power of ten for them. -/
def exponent (l : FloatLiteral) : ℤ := l.exp.getD 0 - l.frac.length

end FloatLiteral

/-- How finite floats are written, without their signs. -/
structure FloatText where
  /-- The literal of the float nearest to `m * 10 ^ e`. -/
  literal : ℕ → ℤ → FloatLiteral
  /-- The literal stands for the same float. -/
  nearest_literal : ∀ m e, overflows m e = false →
    nearest (literal m e).mantissa (literal m e).exponent = nearest m e

/-- A code point of a string; a surrogate is escaped alone. -/
def pointText (c : ℕ) : List Char :=
  if c.isValidChar then charText (Char.ofNat c) else unitText c

/-- A string between its quotes. -/
def pointsText (s : List ℕ) : List Char := '"' :: (s.flatMap pointText ++ ['"'])

section

variable (floats : FloatText)

/-- An infinity. -/
def infinityText (neg : Bool) : List Char :=
  if neg then "-Infinity".toList else "Infinity".toList

/-- A number with a fraction or an exponent. -/
def floatText (neg : Bool) (m : ℕ) (e : ℤ) : List Char :=
  if overflows m e then infinityText neg
  else (if neg then ['-'] else []) ++ (floats.literal m e).text

/-- A value that holds no other one; an integer with too many digits has no text. -/
def leafText : Json → Option (List Char)
  | .null => some "null".toList
  | .bool b => some (if b then "true".toList else "false".toList)
  | .int n => if (toString n.natAbs).toList.length ≤ Text.maxStrDigits then some (intText n) else none
  | .float neg m e => some (floatText floats neg m e)
  | .nan => some "NaN".toList
  | .infinity neg => some (infinityText neg)
  | .str s => some (pointsText s)
  | .arr _ => none
  | .obj _ => none

/-- `json.dumps(value)`, with so many nested arrays and objects to go. -/
def dumpsNested : ℕ → Json → Option (List Char)
  | depth + 1, .arr items =>
    (items.mapM (dumpsNested depth)).map fun ts => '[' :: (", ".toList.intercalate ts ++ [']'])
  | depth + 1, .obj members =>
    ((dictItems members).mapM fun m =>
      (dumpsNested depth m.2).map fun t => pointsText m.1 ++ ':' :: ' ' :: t).map
        fun ts => '{' :: (", ".toList.intercalate ts ++ ['}'])
  | _, v => leafText floats v

/-- What is read from the text of a value that holds no other one. -/
def rereadLeaf : Json → Json
  | .float neg m e =>
    if overflows m e then .infinity neg
    else .float neg (floats.literal m e).mantissa (floats.literal m e).exponent
  | v => v

/-- What is read from the text of a value. -/
def reread : ℕ → Json → Json
  | depth + 1, .arr items => .arr (items.map (reread depth))
  | depth + 1, .obj members => .obj ((dictItems members).map fun m => (m.1, reread depth m.2))
  | _, v => rereadLeaf floats v

end

/-- The value holds no other one. -/
def IsLeaf : Json → Prop
  | .arr _ => False
  | .obj _ => False
  | _ => True

theorem dumpsNested_leaf (floats : FloatText) (levels : ℕ) {v : Json} (hv : IsLeaf v) :
    dumpsNested floats levels v = leafText floats v := by
  cases v with
  | arr items => exact hv.elim
  | obj members => exact hv.elim
  | _ => cases levels <;> rfl

theorem reread_leaf (floats : FloatText) (depth : ℕ) {v : Json} (hv : IsLeaf v) :
    reread floats depth v = rereadLeaf floats v := by
  cases v with
  | arr items => exact hv.elim
  | obj members => exact hv.elim
  | _ => cases depth <;> rfl

/-! ### Strings -/

/-- The code units of a code point. -/
def pointUnits (c : ℕ) : List ℕ :=
  if c < 0x10000 then [c] else [0xD800 + (c - 0x10000) / 0x400, 0xDC00 + (c - 0x10000) % 0x400]

theorem scanUnits_pointText {c : ℕ} (hc : c < 0x110000) {cs rest : List Char} {xs : List ℕ}
    (h : scanUnits cs = some (xs, rest)) :
    scanUnits (pointText c ++ cs) = some (pointUnits c ++ xs, rest) := by
  rw [pointText]
  split
  · rename_i hvalid
    have htoNat : (Char.ofNat c).toNat = c := by
      rw [Char.ofNat, dif_pos hvalid]
      rfl
    have hunits : charUnits (Char.ofNat c) = pointUnits c := by
      rw [charUnits, htoNat, pointUnits]
    rw [scanUnits_charText _ h, hunits]
  · -- a surrogate
    rename_i hvalid
    have hlt : c < 0x10000 := by
      unfold Nat.isValidChar at hvalid
      omega
    rw [scanUnits_unitText hlt, h, pointUnits, if_pos hlt]
    rfl

theorem scanUnits_points {s : List ℕ} (hs : ∀ c ∈ s, c < 0x110000) (rest : List Char) :
    scanUnits (s.flatMap pointText ++ '"' :: rest) = some (s.flatMap pointUnits, rest) := by
  induction s with
  | nil => rfl
  | cons c s ih =>
    rw [List.forall_mem_cons] at hs
    rw [List.flatMap_cons, List.append_assoc, List.flatMap_cons,
      scanUnits_pointText hs.1 (ih hs.2)]

/-- A code unit that is not joined with the next one. -/
theorem joinSurrogates_of_head {x : ℕ} {xs : List ℕ}
    (h : ∀ y ∈ xs.head?, ¬ (0xD800 ≤ x ∧ x ≤ 0xDBFF ∧ 0xDC00 ≤ y ∧ y ≤ 0xDFFF)) :
    joinSurrogates (x :: xs) = x :: joinSurrogates xs := by
  cases xs with
  | nil => rfl
  | cons y ys => rw [joinSurrogates, if_neg (h y rfl)]

/-- The code units of a string are joined to it, if it has no surrogates to join. -/
theorem joinSurrogates_flatMap {s : List ℕ} (hs : Joined s) :
    joinSurrogates (s.flatMap pointUnits) = s := by
  induction s with
  | nil => rfl
  | cons c s ih =>
    obtain ⟨hlt, hchain⟩ := hs
    rw [List.forall_mem_cons] at hlt
    rw [List.isChain_cons] at hchain
    have htail := ih ⟨hlt.2, hchain.2⟩
    rw [List.flatMap_cons, pointUnits]
    split
    · -- the first unit of the next code point is that code point, or a high surrogate
      rw [List.singleton_append, joinSurrogates_of_head, htail]
      intro y hy
      cases s with
      | nil => cases hy
      | cons d s =>
        have hpair := hchain.1 d rfl
        have hd := hlt.2 d List.mem_cons_self
        rw [List.flatMap_cons, pointUnits] at hy
        split at hy
        · cases hy
          exact hpair
        · cases hy
          omega
    · rw [List.cons_append, List.cons_append, List.nil_append, joinSurrogates,
        if_pos ⟨by omega, by omega, by omega, by omega⟩, htail]
      refine congrArg (· :: s) ?_
      omega

/-- **A string is read back.** -/
theorem scanString_pointsText {s : List ℕ} (hs : Joined s) (rest : List Char) :
    scanString (s.flatMap pointText ++ '"' :: rest) = .ok (s, rest) := by
  rw [scanString, scanUnits_points hs.1]
  simp only [joinSurrogates_flatMap hs]

/-! ### Floats -/

theorem scanFrac_digits {ds : List Char} (hne : ds ≠ []) (hds : ∀ c ∈ ds, c.isDigit = true)
    {c : Char} (hc : c.isDigit = false) (cs : List Char) :
    scanFrac ('.' :: (ds ++ c :: cs)) = some (ds, c :: cs) := by
  cases ds with
  | nil => exact absurd rfl hne
  | cons d ds =>
    rw [List.forall_mem_cons] at hds
    obtain ⟨htake, hdrop⟩ := span_digits hds.2 hc cs
    rw [List.cons_append, scanFrac, if_pos hds.1, htake, hdrop]

/-- The exponent of a literal. -/
theorem scanExp_expText (e : ℤ) {c : Char} (hc : c.isDigit = false) (cs : List Char) :
    scanExp (expText e ++ c :: cs) = some (e, c :: cs) := by
  obtain ⟨ds, hds⟩ : ∃ ds, ds = (if e.natAbs < 10 then ['0'] else []) ++ (toString e.natAbs).toList :=
    ⟨_, rfl⟩
  have hdigits : ∀ x ∈ ds, x.isDigit = true := by
    rw [hds, List.forall_mem_append]
    refine ⟨?_, fun x hx => Text.isDigit_of_mem_toString hx⟩
    split
    · exact List.forall_mem_singleton.mpr rfl
    · exact fun x hx => absurd hx List.not_mem_nil
  have hvalue : Text.digitsValue ds = e.natAbs := by
    rw [hds]
    split
    · exact (by rfl : Text.digitsValue (['0'] ++ (toString e.natAbs).toList) =
        Text.digitsValue (toString e.natAbs).toList).trans (Text.digitsValue_toString _)
    · exact Text.digitsValue_toString _
  have hne : ds.isEmpty = false := by
    rw [List.isEmpty_eq_false_iff, hds]
    intro hnil
    have hd := Text.isDigits_toString e.natAbs
    rw [(List.append_eq_nil_iff.mp hnil).2] at hd
    cases hd
  obtain ⟨htake, hdrop⟩ := span_digits hdigits hc cs
  have hsign : scanSign ((if e < 0 then '-' else '+') :: (ds ++ c :: cs)) =
      (decide (e < 0), ds ++ c :: cs) := by
    split <;> simp_all [scanSign]
  have htext : expText e ++ c :: cs =
      'e' :: ((if e < 0 then '-' else '+') :: (ds ++ c :: cs)) := by
    rw [hds]
    simp [expText]
  rw [htext, scanExp, hsign]
  simp only [htake, hdrop, hne, decide_true, Bool.true_or, Bool.not_false, Bool.and_self, if_true,
    hvalue, decide_eq_true_eq]
  congr 2
  split <;> omega

/-- **A float literal is read back.** -/
theorem scanLeaf_literal (neg : Bool) (l : FloatLiteral) {c : Char} (hdigit : c.isDigit = false)
    (hstop : c ≠ '.' ∧ c ≠ 'e' ∧ c ≠ 'E') (cs : List Char) :
    scanLeaf ((if neg then ['-'] else []) ++ l.text ++ c :: cs) =
      .ok (.float neg l.mantissa l.exponent, c :: cs) := by
  -- the first digits end where the fraction or the exponent begins
  have hnumber : ∀ {d : Char} {ds : List Char}, l.tail ++ c :: cs = d :: ds → d.isDigit = false →
      scanLeaf ((if neg then ['-'] else []) ++ l.text ++ c :: cs) =
        numberTail neg (toString l.whole).toList (d :: ds) := by
    intro d ds heq hd
    rw [← scanLeaf_number neg l.whole hd ds, ← heq, FloatLiteral.text]
    simp only [List.append_assoc]
  have hexp : ∀ e, ∃ ds, expText e ++ c :: cs = 'e' :: ds := fun e => ⟨_, rfl⟩
  rw [FloatLiteral.mantissa, FloatLiteral.exponent]
  cases hfrac : l.frac with
  | nil =>
    cases he : l.exp with
    | none =>
      have := l.isFloat
      simp [hfrac, he] at this
    | some e =>
      have htail : l.tail ++ c :: cs = expText e ++ c :: cs := by
        simp [FloatLiteral.tail, hfrac, he]
      obtain ⟨ds, hds⟩ := hexp e
      have hscan := scanExp_expText e hdigit cs
      rw [hds] at hscan
      rw [hnumber (htail.trans hds) rfl, numberTail, scanFrac_of_ne (by decide)]
      simp only [Option.elim_none, hscan, List.append_nil]
      simp
  | cons d ds =>
    have hds : ∀ x ∈ d :: ds, x.isDigit = true := hfrac ▸ l.digits
    cases he : l.exp with
    | none =>
      have htail : l.tail ++ c :: cs = '.' :: (d :: ds ++ c :: cs) := by
        simp [FloatLiteral.tail, hfrac, he]
      have hnone : scanExp (c :: cs) = none := by
        rw [scanExp]
        simp [hstop]
      rw [hnumber htail rfl, numberTail, scanFrac_digits (List.cons_ne_nil d ds) hds hdigit]
      simp only [Option.elim_some, hnone]
      simp
    | some e =>
      have htail : l.tail ++ c :: cs = '.' :: (d :: ds ++ (expText e ++ c :: cs)) := by
        simp [FloatLiteral.tail, hfrac, he]
      obtain ⟨es, hes⟩ := hexp e
      have hscan := scanExp_expText e hdigit cs
      rw [hes] at htail hscan
      rw [hnumber htail rfl, numberTail, scanFrac_digits (List.cons_ne_nil d ds) hds rfl]
      simp only [Option.elim_some, hscan]
      simp

/-! ### Items -/

/-- What stands behind a value in an array or an object. -/
def Stops (c : Char) : Prop := c = ',' ∨ c = ']' ∨ c = '}'

/-- An item is read back from its text, wherever it stands. -/
structure Reads {α : Type} (item : List Char → Scan α) (t : List Char) (v : α) : Prop where
  head : ∃ d ds, t = d :: ds ∧ isWs d = false ∧ d ≠ ']' ∧ d ≠ '}'
  scan : ∀ {c : Char}, Stops c → ∀ cs, item (t ++ c :: cs) = .ok (v, c :: cs)

variable {α : Type} {item : List Char → Scan α}

theorem intercalate_head {t : List Char} {d : Char} {ds : List Char} (h : t = d :: ds)
    (sep : List Char) (ts : List (List Char)) : ∃ ds', sep.intercalate (t :: ts) = d :: ds' := by
  subst h
  cases ts with
  | nil => exact ⟨ds, by simp⟩
  | cons t' ts => exact ⟨_, by rw [List.intercalate_cons_cons]; rfl⟩

/-- **Items with commas between them are read back**, up to the closing bracket. -/
theorem sepBy_intercalate {close : Char} (hclose : close = ']' ∨ close = '}') (rest : List Char)
    {t : List Char} {v : α} {ts : List (List Char)} {vs : List α} (ht : Reads item t v)
    (h : List.Forall₂ (Reads item) ts vs) : ∀ fuel, ts.length < fuel →
      sepBy close item fuel (", ".toList.intercalate (t :: ts) ++ close :: rest) =
        .ok (v :: vs, rest) := by
  have hws : isWs close = false := by rcases hclose with rfl | rfl <;> rfl
  have hcomma : ',' ≠ close := by rcases hclose with rfl | rfl <;> decide
  induction h generalizing t v with
  | nil =>
    intro fuel hfuel
    obtain ⟨fuel, rfl⟩ := Nat.exists_eq_succ_of_ne_zero (Nat.ne_of_gt hfuel)
    rw [List.intercalate_singleton]
    exact sepBy_close (ht.scan (.inr hclose) rest) hws fuel
  | @cons t' v' ts vs ht' _ ih =>
    intro fuel hfuel
    obtain ⟨fuel, rfl⟩ := Nat.exists_eq_succ_of_ne_zero (Nat.ne_of_gt ((Nat.zero_le _).trans_lt hfuel))
    rw [List.length_cons] at hfuel
    have htext : ", ".toList.intercalate (t :: t' :: ts) ++ close :: rest =
        t ++ ',' :: (' ' :: (", ".toList.intercalate (t' :: ts) ++ close :: rest)) := by
      rw [List.intercalate_cons_cons, List.append_assoc, List.append_assoc]
      rfl
    -- the next item does not begin with white space
    have hskip : skipWs (' ' :: (", ".toList.intercalate (t' :: ts) ++ close :: rest)) =
        ", ".toList.intercalate (t' :: ts) ++ close :: rest := by
      obtain ⟨d, ds, heq, hd, -, -⟩ := ht'.head
      obtain ⟨ds', heq'⟩ := intercalate_head heq ", ".toList ts
      rw [heq', skipWs, List.dropWhile_cons_of_pos rfl, List.cons_append,
        List.dropWhile_cons_of_neg (by rw [hd]; decide)]
    rw [htext, sepBy_comma (ht.scan (.inl rfl) _) hcomma, hskip, ih ht' fuel (by omega)]
    rfl

theorem length_le_length_intercalate (sep : List Char) : ∀ {ts : List (List Char)},
    (∀ t ∈ ts, t ≠ []) → ts.length ≤ (sep.intercalate ts).length
  | [], _ => Nat.zero_le _
  | [t], h => by
    rw [List.intercalate_singleton]
    exact List.length_pos_iff.mpr (h t List.mem_cons_self)
  | t :: t' :: ts, h => by
    have ht := List.length_pos_iff.mpr (h t List.mem_cons_self)
    have hrest := length_le_length_intercalate sep fun x hx => h x (List.mem_cons_of_mem _ hx)
    rw [List.intercalate_cons_cons, List.length_append, List.length_append]
    simp only [List.length_cons] at hrest ⊢
    omega

theorem ne_nil_of_reads {ts : List (List Char)} {vs : List α}
    (h : List.Forall₂ (Reads item) ts vs) : ∀ t ∈ ts, t ≠ [] := by
  induction h with
  | nil => exact fun t ht => absurd ht List.not_mem_nil
  | cons ht _ ih =>
    obtain ⟨d, ds, rfl, -⟩ := ht.head
    exact List.forall_mem_cons.mpr ⟨List.cons_ne_nil d ds, ih⟩

/-- **The inside of an array or an object is read back.** -/
theorem scanItems_intercalate {close : Char} (hclose : close = ']' ∨ close = '}')
    (rest : List Char) {ts : List (List Char)} {vs : List α} (h : List.Forall₂ (Reads item) ts vs) :
    scanItems close item (", ".toList.intercalate ts ++ close :: rest) = .ok (vs, rest) := by
  cases h with
  | nil =>
    have hskip : skipWs (close :: rest) = close :: rest := by rcases hclose with rfl | rfl <;> rfl
    rw [scanItems]
    simp [hskip]
  | @cons t v ts vs ht h =>
    obtain ⟨d, ds, heq, hd, hb, hbrace⟩ := ht.head
    obtain ⟨ds', heq'⟩ := intercalate_head heq ", ".toList ts
    have hne := ne_nil_of_reads (.cons ht h)
    have hlen := length_le_length_intercalate ", ".toList hne
    have hsep := sepBy_intercalate hclose rest ht h
      (", ".toList.intercalate (t :: ts) ++ close :: rest).length (by
        rw [List.length_append, List.length_cons]
        rw [List.length_cons] at hlen
        omega)
    have hskip : skipWs (", ".toList.intercalate (t :: ts) ++ close :: rest) =
        ", ".toList.intercalate (t :: ts) ++ close :: rest := by
      rw [heq', skipWs, List.cons_append, List.dropWhile_cons_of_neg (by rw [hd]; decide)]
    have hfirst : d ≠ close := by rcases hclose with rfl | rfl <;> assumption
    rw [scanItems, hskip]
    rw [heq', List.cons_append] at hsep ⊢
    simp only [if_neg hfirst]
    exact hsep

/-! ### Values -/

theorem forall₂_of_mapM {β γ δ : Type} {f : β → Option γ} {g : β → δ} {r : γ → δ → Prop} :
    ∀ {l : List β} {ts : List γ}, l.mapM f = some ts → (∀ b ∈ l, ∀ t, f b = some t → r t (g b)) →
      List.Forall₂ r ts (l.map g)
  | [], _ => by
    rintro ⟨⟩ -
    exact .nil
  | b :: l, _ => by
    intro h hr
    rw [List.mapM_cons] at h
    obtain ⟨t, ht, h⟩ := Option.bind_eq_some_iff.mp h
    obtain ⟨ts, hts, h⟩ := Option.bind_eq_some_iff.mp h
    cases h
    exact .cons (hr b List.mem_cons_self t ht)
      (forall₂_of_mapM hts fun b' hb' => hr b' (List.mem_cons_of_mem _ hb'))

variable (floats : FloatText)

theorem leafText_head {v : Json} {t : List Char} (h : leafText floats v = some t) :
    ∃ d ds, t = d :: ds ∧ BeginsLeaf d := by
  have hinfinity : ∀ neg, ∃ d ds, infinityText neg = d :: ds ∧ BeginsLeaf d := by
    intro neg
    cases neg with
    | false => exact ⟨'I', _, rfl, by decide⟩
    | true => exact ⟨'-', _, rfl, by decide⟩
  cases v with
  | null =>
    cases h
    exact ⟨'n', _, rfl, by decide⟩
  | bool b =>
    cases h
    cases b with
    | false => exact ⟨'f', _, rfl, by decide⟩
    | true => exact ⟨'t', _, rfl, by decide⟩
  | int n =>
    rw [leafText] at h
    split at h
    · cases h
      exact intText_head n
    · cases h
  | float neg m e =>
    cases h
    rw [floatText]
    split
    · exact hinfinity neg
    · have hhead := number_head neg (floats.literal m e).whole (floats.literal m e).tail
      rwa [List.append_assoc] at hhead
  | nan =>
    cases h
    exact ⟨'N', _, rfl, by decide⟩
  | infinity neg =>
    cases h
    exact hinfinity neg
  | str s =>
    cases h
    exact ⟨'"', _, rfl, by decide⟩
  | arr items => cases h
  | obj members => cases h

/-- A value that holds no other one is read back. -/
theorem scanLeaf_leafText {depth : ℕ} {v : Json} {t : List Char} (hv : Scanned depth v)
    (h : leafText floats v = some t) {c : Char} (hc : Stops c) (cs : List Char) :
    scanLeaf (t ++ c :: cs) = .ok (rereadLeaf floats v, c :: cs) := by
  have hdigit : c.isDigit = false := by rcases hc with rfl | rfl | rfl <;> rfl
  have hstop : c ≠ '.' ∧ c ≠ 'e' ∧ c ≠ 'E' := by rcases hc with rfl | rfl | rfl <;> decide
  have hinfinity : ∀ neg, scanLeaf (infinityText neg ++ c :: cs) = .ok (.infinity neg, c :: cs) := by
    intro neg
    cases neg <;> rfl
  cases v with
  | null => cases h; rfl
  | bool b => cases h; cases b <;> rfl
  | int n =>
    rw [leafText] at h
    split at h
    · rename_i hlen
      cases h
      exact scanLeaf_intText hlen hdigit hstop cs
    · cases h
  | float neg m e =>
    cases h
    rw [floatText, rereadLeaf]
    split
    · exact hinfinity neg
    · exact scanLeaf_literal neg _ hdigit hstop cs
  | nan => cases h; rfl
  | infinity neg =>
    cases h
    exact hinfinity neg
  | str s =>
    cases h
    have hs : Joined s := by cases depth <;> exact hv
    change scanLeaf ('"' :: (s.flatMap pointText ++ ['"'] ++ c :: cs)) = _
    rw [List.append_assoc]
    change (scanString (s.flatMap pointText ++ '"' :: c :: cs)).map _ = _
    rw [scanString_pointsText hs]
    rfl
  | arr items => cases h
  | obj members => cases h

theorem reads_leaf {depth levels : ℕ} {v : Json} {t : List Char} (hleaf : IsLeaf v)
    (hv : Scanned depth v) (h : dumpsNested floats levels v = some t) :
    Reads (scanOnce depth) t (reread floats depth v) := by
  rw [dumpsNested_leaf floats levels hleaf] at h
  rw [reread_leaf floats depth hleaf]
  obtain ⟨d, ds, rfl, hd⟩ := leafText_head floats h
  refine ⟨⟨d, ds, rfl, hd.1, hd.2.2.2.1, hd.2.2.2.2⟩, fun hc cs => ?_⟩
  rw [List.cons_append, hd.scanOnce]
  exact scanLeaf_leafText floats hv h hc cs

/-- A key, a colon and a value are read back. -/
theorem reads_member {value : List Char → Scan Json} {key : List ℕ} (hkey : Joined key)
    {t : List Char} {v : Json} (ht : Reads value t v) :
    Reads (scanMember value) (pointsText key ++ ':' :: ' ' :: t) (key, v) := by
  refine ⟨⟨'"', _, rfl, by decide, by decide, by decide⟩, fun {c} hc cs => ?_⟩
  have htext : pointsText key ++ ':' :: ' ' :: t ++ c :: cs =
      '"' :: (key.flatMap pointText ++ '"' :: ':' :: ' ' :: (t ++ c :: cs)) := by
    simp [pointsText]
  obtain ⟨d, ds, heq, hd, -⟩ := ht.head
  have hskip : skipWs (' ' :: (t ++ c :: cs)) = t ++ c :: cs := by
    rw [heq, skipWs, List.dropWhile_cons_of_pos rfl, List.cons_append,
      List.dropWhile_cons_of_neg (by rw [hd]; decide)]
  rw [htext, scanMember, scanString_pointsText hkey]
  change (value (skipWs (' ' :: (t ++ c :: cs)))).map _ = _
  rw [hskip, ht.scan hc]
  rfl

/-- The text of an array or an object, item by item. -/
theorem reads_enclosed {α : Type} {opening close : Char} {scan : List Char → Scan Json}
    {item : List Char → Scan α} {f : List α → Json}
    (hopen : isWs opening = false ∧ opening ≠ ']' ∧ opening ≠ '}')
    (hclose : close = ']' ∨ close = '}')
    (hscan : ∀ cs, scan (opening :: cs) = (scanItems close item cs).map fun r => (f r.1, r.2))
    {ts : List (List Char)} {vs : List α} (h : List.Forall₂ (Reads item) ts vs) :
    Reads scan (opening :: (", ".toList.intercalate ts ++ [close])) (f vs) := by
  refine ⟨⟨opening, _, rfl, hopen⟩, fun {c} _ cs => ?_⟩
  rw [List.cons_append, List.append_assoc, hscan]
  change (scanItems close item (", ".toList.intercalate ts ++ close :: c :: cs)).map _ = _
  rw [scanItems_intercalate hclose _ h]
  rfl

/-- The members of an object are read back, if their values are. -/
theorem reads_members {depth levels : ℕ}
    (ih : ∀ {levels : ℕ} {v : Json} {t : List Char}, Scanned depth v →
      dumpsNested floats levels v = some t → Reads (scanOnce depth) t (reread floats depth v))
    {members : List (List ℕ × Json)} (hv : Scanned (depth + 1) (.obj members))
    {ts : List (List Char)}
    (h : ((dictItems members).mapM fun m =>
      (dumpsNested floats levels m.2).map fun t => pointsText m.1 ++ ':' :: ' ' :: t) = some ts) :
    List.Forall₂ (Reads (scanMember (scanOnce depth))) ts
      ((dictItems members).map fun m => (m.1, reread floats depth m.2)) := by
  refine forall₂_of_mapM h fun m hmem t ht => ?_
  obtain ⟨hkey, hvalue⟩ := hv m (mem_of_mem_dictItems hmem)
  obtain ⟨t', ht', rfl⟩ := Option.map_eq_some_iff.mp ht
  exact reads_member hkey (ih hvalue ht')

/-- **A value is read back from its text.** -/
theorem reads_dumpsNested {depth : ℕ} : ∀ {levels : ℕ} {v : Json} {t : List Char},
    Scanned depth v → dumpsNested floats levels v = some t →
      Reads (scanOnce depth) t (reread floats depth v) := by
  induction depth with
  | zero =>
    intro levels v t hv h
    cases v with
    | arr items => exact hv.elim
    | obj members => exact hv.elim
    | _ => exact reads_leaf floats trivial hv h
  | succ depth ih =>
    intro levels v t hv h
    cases v with
    | arr items =>
      cases levels with
      | zero => cases h
      | succ levels =>
        obtain ⟨ts, hts, rfl⟩ := Option.map_eq_some_iff.mp h
        exact reads_enclosed (by decide) (.inl rfl) (fun _ => rfl)
          (forall₂_of_mapM hts fun v hmem t ht => ih (hv v hmem) ht)
    | obj members =>
      cases levels with
      | zero => cases h
      | succ levels =>
        obtain ⟨ts, hts, rfl⟩ := Option.map_eq_some_iff.mp h
        exact reads_enclosed (by decide) (.inr rfl) (fun _ => rfl) (reads_members floats ih hv hts)
    | _ => exact reads_leaf floats trivial hv h

/-- The text of an object is read back as a whole text. -/
theorem loads_dumpsNested {depth levels : ℕ} {members : List (List ℕ × Json)} {t : List Char}
    (hv : Scanned depth (.obj members)) (h : dumpsNested floats levels (.obj members) = some t) :
    loads depth t = .ok (reread floats depth (.obj members)) := by
  cases depth with
  | zero => exact hv.elim
  | succ depth =>
    cases levels with
    | zero => cases h
    | succ levels =>
      obtain ⟨ts, hts, rfl⟩ := Option.map_eq_some_iff.mp h
      have hscan : scanOnce (depth + 1) ('{' :: (", ".toList.intercalate ts ++ ['}'])) =
          .ok (reread floats (depth + 1) (.obj members), []) := by
        change (scanItems '}' (scanMember (scanOnce depth)) _).map _ = _
        rw [scanItems_intercalate (.inr rfl) []
          (reads_members floats (reads_dumpsNested floats) hv hts)]
        rfl
      have hskip : skipWs ('{' :: (", ".toList.intercalate ts ++ ['}'])) =
          '{' :: (", ".toList.intercalate ts ++ ['}']) := rfl
      -- the text begins with a brace, not with a byte order mark
      rw [loads, if_neg (by simp), hskip, hscan]
      rfl

/-! ### The value that is read back -/

theorem same_leaf {depth : ℕ} {v : Json} (hv : IsLeaf v) : Same v (reread floats depth v) := by
  rw [reread_leaf floats depth hv]
  cases v with
  | null => exact .null
  | bool b => exact .bool b
  | int n => exact .int n
  | float neg m e =>
    rw [rereadLeaf]
    split
    · rename_i ho
      exact .float (x := .infinity neg) (by rw [floatValue, if_pos ho]) rfl
    · rename_i ho
      have hsame := floats.nearest_literal m e ((Bool.not_eq_true _).mp ho)
      have ho' : ¬ overflows (floats.literal m e).mantissa (floats.literal m e).exponent = true := by
        rwa [overflows, hsame]
      exact .float (x := .finite neg (nearest m e)) (by rw [floatValue, if_neg ho])
        (by rw [floatValue, if_neg ho', hsame])
  | nan => exact .float rfl rfl
  | infinity neg => exact .float rfl rfl
  | str s => exact .str s
  | arr items => exact hv.elim
  | obj members => exact hv.elim

/-- **The value read back is the same.** -/
theorem same_reread {depth : ℕ} : ∀ {v : Json}, Nests depth v → Same v (reread floats depth v) := by
  induction depth with
  | zero =>
    intro v hv
    cases v with
    | arr items => exact hv.elim
    | obj members => exact hv.elim
    | _ => exact same_leaf floats trivial
  | succ depth ih =>
    intro v hv
    cases v with
    | arr items => exact .arr_map fun v hmem => ih (hv v hmem)
    | obj members =>
      refine .obj_map (dictItems_of_nodup ?_) fun m hmem => ih (hv m hmem)
      rw [List.map_map]
      exact nodup_dictItems members
    | _ => exact same_leaf floats trivial

theorem strict_leaf_iff {depth : ℕ} {v : Json} (hv : IsLeaf v) :
    Strict (reread floats depth v) ↔ Finite v := by
  rw [reread_leaf floats depth hv]
  cases v with
  | null => exact iff_of_true .null .null
  | bool b => exact iff_of_true (.bool b) (.bool b)
  | int n => exact iff_of_true (.int n) (.int n)
  | float neg m e =>
    rw [rereadLeaf]
    split
    · rename_i ho
      refine iff_of_false (fun h => nomatch h) ?_
      rintro ⟨⟩
      simp_all
    · rename_i ho
      exact iff_of_true (.float ..) (.float neg ((Bool.not_eq_true _).mp ho))
  | nan => exact iff_of_false (fun h => nomatch h) fun h => nomatch h
  | infinity neg => exact iff_of_false (fun h => nomatch h) fun h => nomatch h
  | str s => exact iff_of_true (.str s) (.str s)
  | arr items => exact hv.elim
  | obj members => exact hv.elim

/-- **The text has no `NaN` and no infinity exactly when the value has none.** -/
theorem strict_reread_iff {depth : ℕ} : ∀ {v : Json}, Nests depth v →
    (Strict (reread floats depth v) ↔ Finite v) := by
  induction depth with
  | zero =>
    intro v hv
    cases v with
    | arr items => exact hv.elim
    | obj members => exact hv.elim
    | _ => exact strict_leaf_iff floats trivial
  | succ depth ih =>
    intro v hv
    cases v with
    | arr items =>
      constructor
      · rintro ⟨⟩
        rename_i h
        exact .arr fun v hmem => (ih (hv v hmem)).mp (h _ (List.mem_map_of_mem hmem))
      · rintro ⟨⟩
        rename_i h
        refine .arr fun w hw => ?_
        obtain ⟨v, hmem, rfl⟩ := List.mem_map.mp hw
        exact (ih (hv v hmem)).mpr (h v hmem)
    | obj members =>
      constructor
      · rintro ⟨⟩
        rename_i h
        exact .obj fun m hmem => (ih (hv m hmem)).mp (h _ (List.mem_map_of_mem hmem))
      · rintro ⟨⟩
        rename_i h
        refine .obj fun n hn => ?_
        obtain ⟨m, hmem, rfl⟩ := List.mem_map.mp hn
        exact (ih (hv m hmem)).mpr (h m hmem)
    | _ => exact strict_leaf_iff floats trivial

/-! ### Which values are written -/

theorem leafText_isSome {depth : ℕ} {v : Json} (hleaf : IsLeaf v) (hv : Scanned depth v) :
    (leafText floats v).isSome := by
  cases v with
  | int n =>
    have hlen : (toString n.natAbs).toList.length ≤ Text.maxStrDigits := by
      cases depth <;> exact hv
    rw [leafText, if_pos hlen]
    rfl
  | arr items => exact hleaf.elim
  | obj members => exact hleaf.elim
  | _ => rfl

/-- A value that was read is written exactly when it is not nested too deep. -/
theorem dumpsNested_isSome_iff {levels : ℕ} : ∀ {depth : ℕ} {v : Json}, Scanned depth v →
    ((dumpsNested floats levels v).isSome ↔ Nests levels v) := by
  induction levels with
  | zero =>
    intro depth v hv
    cases v with
    | arr items => exact iff_of_false Bool.false_ne_true id
    | obj members => exact iff_of_false Bool.false_ne_true id
    | _ => exact iff_of_true (leafText_isSome floats trivial hv) trivial
  | succ levels ih =>
    intro depth v hv
    cases v with
    | arr items =>
      cases depth with
      | zero => exact hv.elim
      | succ depth =>
        rw [dumpsNested, Option.isSome_map, Text.mapM_isSome_iff, Nests]
        exact forall₂_congr fun v hmem => ih (hv v hmem)
    | obj members =>
      cases depth with
      | zero => exact hv.elim
      | succ depth =>
        rw [dumpsNested, Option.isSome_map, Text.mapM_isSome_iff, Nests]
        refine forall₂_congr fun m hmem => ?_
        rw [Option.isSome_map]
        exact ih (hv m (mem_of_mem_dictItems hmem)).2
    | _ => exact iff_of_true (leafText_isSome floats trivial hv) trivial

/-! ### The characters of a text -/

theorem printable_expText (e : ℤ) : ∀ c ∈ expText e, Printable c := by
  intro c hc
  rw [expText, List.mem_cons, List.mem_cons, List.mem_append] at hc
  rcases hc with rfl | rfl | hc | hc
  · exact ⟨by decide, by decide⟩
  · split <;> exact ⟨by decide, by decide⟩
  · split at hc
    · rw [List.mem_singleton.mp hc]
      exact ⟨by decide, by decide⟩
    · exact absurd hc List.not_mem_nil
  · exact printable_of_isDigit (Text.isDigit_of_mem_toString hc)

theorem printable_literal (l : FloatLiteral) : ∀ c ∈ l.text, Printable c := by
  intro c hc
  rw [FloatLiteral.text, FloatLiteral.tail, List.mem_append, List.mem_append] at hc
  rcases hc with hc | hc | hc
  · exact printable_of_isDigit (Text.isDigit_of_mem_toString hc)
  · split at hc
    · exact absurd hc List.not_mem_nil
    · rcases List.mem_cons.mp hc with rfl | hc
      · exact ⟨by decide, by decide⟩
      · exact printable_of_isDigit (l.digits c hc)
  · cases he : l.exp with
    | none =>
      rw [he] at hc
      exact absurd hc List.not_mem_nil
    | some e =>
      rw [he] at hc
      exact printable_expText e c hc

theorem printable_infinityText (neg : Bool) : ∀ c ∈ infinityText neg, Printable c := by
  cases neg <;> exact Text.forall_mem_of_all rfl

theorem printable_pointsText (s : List ℕ) : ∀ c ∈ pointsText s, Printable c := by
  intro c hc
  rw [pointsText, List.mem_cons, List.mem_append, List.mem_singleton] at hc
  rcases hc with rfl | hc | rfl
  · exact ⟨by decide, by decide⟩
  · obtain ⟨x, -, hc⟩ := List.mem_flatMap.mp hc
    rw [pointText] at hc
    split at hc
    · exact printable_charText _ c hc
    · exact printable_unitText x c hc
  · exact ⟨by decide, by decide⟩

theorem printable_leafText {v : Json} {t : List Char} (h : leafText floats v = some t) :
    ∀ c ∈ t, Printable c := by
  cases v with
  | null => cases h; exact Text.forall_mem_of_all rfl
  | bool b => cases h; cases b <;> exact Text.forall_mem_of_all rfl
  | int n =>
    rw [leafText] at h
    split at h
    · cases h
      exact printable_intText n
    · cases h
  | float neg m e =>
    cases h
    rw [floatText]
    split
    · exact printable_infinityText neg
    · rw [List.forall_mem_append]
      refine ⟨?_, printable_literal _⟩
      cases neg <;> exact Text.forall_mem_of_all rfl
  | nan => cases h; exact Text.forall_mem_of_all rfl
  | infinity neg => cases h; exact printable_infinityText neg
  | str s => cases h; exact printable_pointsText s
  | arr items => cases h
  | obj members => cases h

/-- What holds of each text holds of all that are computed. -/
theorem forall_of_mapM {β γ : Type} {f : β → Option γ} {p : γ → Prop} {l : List β} {ts : List γ}
    (h : l.mapM f = some ts) (hp : ∀ b ∈ l, ∀ t, f b = some t → p t) : ∀ t ∈ ts, p t := by
  have hall := forall₂_of_mapM (g := id) (r := fun t _ => p t) h hp
  rw [List.map_id] at hall
  clear h hp
  induction hall with
  | nil => exact fun t ht => absurd ht List.not_mem_nil
  | cons ht _ ih => exact List.forall_mem_cons.mpr ⟨ht, ih⟩

theorem printable_enclosed {opening close : Char} (hopen : Printable opening)
    (hclose : Printable close) {ts : List (List Char)} (h : ∀ t ∈ ts, ∀ c ∈ t, Printable c) :
    ∀ c ∈ opening :: (", ".toList.intercalate ts ++ [close]), Printable c := by
  rw [List.forall_mem_cons, List.forall_mem_append, List.forall_mem_singleton]
  exact ⟨hopen, (Text.forall_mem_intercalate (Text.forall_mem_of_all rfl) ts).mpr h, hclose⟩

/-- **A text has printable characters of ASCII only.** -/
theorem printable_dumpsNested {levels : ℕ} : ∀ {v : Json} {t : List Char},
    dumpsNested floats levels v = some t → ∀ c ∈ t, Printable c := by
  induction levels with
  | zero =>
    intro v t h
    cases v with
    | arr items => cases h
    | obj members => cases h
    | _ => exact printable_leafText floats h
  | succ levels ih =>
    intro v t h
    cases v with
    | arr items =>
      obtain ⟨ts, hts, rfl⟩ := Option.map_eq_some_iff.mp h
      exact printable_enclosed ⟨by decide, by decide⟩ ⟨by decide, by decide⟩
        (forall_of_mapM hts fun v _ t ht => ih ht)
    | obj members =>
      obtain ⟨ts, hts, rfl⟩ := Option.map_eq_some_iff.mp h
      refine printable_enclosed ⟨by decide, by decide⟩ ⟨by decide, by decide⟩
        (forall_of_mapM hts fun m _ t ht => ?_)
      obtain ⟨t', ht', rfl⟩ := Option.map_eq_some_iff.mp ht
      rw [List.forall_mem_append, List.forall_mem_cons, List.forall_mem_cons]
      exact ⟨printable_pointsText m.1, ⟨by decide, by decide⟩, ⟨by decide, by decide⟩, ih ht'⟩
    | _ => exact printable_leafText floats h

end Json
