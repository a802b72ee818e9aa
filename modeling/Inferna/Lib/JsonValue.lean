import Inferna.Lib.Dict
import Inferna.Lib.Json
import Mathlib.Data.Int.Log
import Mathlib.Data.Nat.Digits.Defs

/-!
# The value of a JSON text

Two JSON texts have the same value if an interpreter reads the same from them.  A number with a
fraction or an exponent is read as the nearest 64-bit float, or as an infinity if it is beyond the
largest one.  An object is read as a dictionary, with the last value of each key.

## Main definitions

* `Json.nearest`, `Json.floatValue` — the float that a number is read as.
* `Json.dictOf`, `Json.dictItems` — the dictionary that an object is read as.
* `Json.Same` — the same value.
* `Json.Strict` — the texts without `NaN` and the infinities, which the standard does not have.
* `Json.Finite` — the values without them.
* `Json.Nests`, `Json.Scanned` — the nesting of a value, and what a scanner gives.

## Main results

* `Json.get?_dictOf` — a dictionary has the last value of each key.
* `Json.scanOnce_scanned` — **what a scanner gives** is nested no deeper than it can go, with
  integers of limited length and no surrogates that could be joined.
-/

namespace Json

/-! ### Floats -/

/-- The integer nearest to `x`; of two, the even one. -/
def roundHalfEven (x : ℚ) : ℤ :=
  if x - ⌊x⌋ < 1 / 2 ∨ x - ⌊x⌋ = 1 / 2 ∧ ⌊x⌋ % 2 = 0 then ⌊x⌋ else ⌊x⌋ + 1

/-- The float nearest to `m * 10 ^ e`: 53 binary digits, but none below `2 ^ (-1074)`.  The
exponent has no upper bound here. -/
def nearest (m : ℕ) (e : ℤ) : ℚ :=
  let x : ℚ := m * 10 ^ e
  let unit : ℚ := 2 ^ max (-1074) (Int.log 2 x - 52)
  roundHalfEven (x / unit) * unit

/-- The number is beyond the largest float. -/
def overflows (m : ℕ) (e : ℤ) : Bool := 2 ^ 1024 ≤ nearest m e

/-- A 64-bit float. -/
inductive FloatValue
  | finite (neg : Bool) (x : ℚ)
  | infinity (neg : Bool)
  | nan
  deriving DecidableEq, Repr

/-- The float that a number is read as. -/
def floatValue : Json → Option FloatValue
  | float neg m e => some (if overflows m e then .infinity neg else .finite neg (nearest m e))
  | infinity neg => some (.infinity neg)
  | nan => some .nan
  | _ => none

/-! ### Dictionaries -/

/-- The dictionary with these members. -/
def dictOf (members : List (List ℕ × Json)) : Dict (List ℕ) Json :=
  members.foldl (fun d m => d.set m.1 m.2) Dict.empty

/-- Its items: the last value of a key, at its first place. -/
def dictItems (members : List (List ℕ × Json)) : List (List ℕ × Json) := (dictOf members).entries

theorem dictOf_append (members : List (List ℕ × Json)) (m : List ℕ × Json) :
    dictOf (members ++ [m]) = (dictOf members).set m.1 m.2 := by
  rw [dictOf, List.foldl_append]
  rfl

/-- **A dictionary has the last value of each key.** -/
theorem get?_dictOf (members : List (List ℕ × Json)) (key : List ℕ) :
    (dictOf members).get? key = (members.reverse.find? fun m => m.1 = key).map Prod.snd := by
  induction members using List.reverseRecOn with
  | nil => rfl
  | append_singleton members m ih =>
    rw [dictOf_append, Dict.get?_set, List.reverse_append, List.reverse_singleton,
      List.singleton_append, List.find?_cons]
    by_cases h : m.1 = key
    · simp [h]
    · simp [h, ih]

theorem get_eq (members : List (List ℕ × Json)) (key : String) :
    get members key = ((dictOf members).get? (codePoints key)).getD null := by
  rw [get?_dictOf, get]
  cases members.reverse.find? fun m => m.1 = codePoints key <;> rfl

theorem mem_of_mem_assocSet {κ ν : Type} [DecidableEq κ] {k : κ} {v : ν} {e : κ × ν} :
    ∀ {es : List (κ × ν)}, e ∈ Dict.assocSet es k v → e ∈ es ∨ e = (k, v)
  | [], h => .inr (List.mem_singleton.mp h)
  | e' :: es, h => by
    rw [Dict.assocSet] at h
    split at h
    · rcases List.mem_cons.mp h with h | h
      · exact .inr h
      · exact .inl (List.mem_cons_of_mem _ h)
    · rcases List.mem_cons.mp h with h | h
      · exact .inl (h ▸ List.mem_cons_self)
      · exact (mem_of_mem_assocSet h).imp (List.mem_cons_of_mem _) id

theorem mem_of_mem_dictItems {members : List (List ℕ × Json)} {m : List ℕ × Json} :
    m ∈ dictItems members → m ∈ members := by
  induction members using List.reverseRecOn with
  | nil => exact id
  | append_singleton members m' ih =>
    intro h
    rw [dictItems, dictOf_append] at h
    rw [List.mem_append, List.mem_singleton]
    exact (mem_of_mem_assocSet h).imp ih id

theorem assocSet_of_notMem {κ ν : Type} [DecidableEq κ] {k : κ} (v : ν) :
    ∀ {es : List (κ × ν)}, k ∉ es.map Prod.fst → Dict.assocSet es k v = es ++ [(k, v)]
  | [], _ => rfl
  | e :: es, h => by
    rw [List.map_cons, List.mem_cons, not_or] at h
    rw [Dict.assocSet, if_neg (Ne.symm h.1), assocSet_of_notMem v h.2, List.cons_append]

/-- Members with different keys are the items of their dictionary. -/
theorem dictItems_of_nodup {members : List (List ℕ × Json)} :
    (members.map Prod.fst).Nodup → dictItems members = members := by
  induction members using List.reverseRecOn with
  | nil => exact fun _ => rfl
  | append_singleton members m ih =>
    intro h
    rw [List.map_append, List.nodup_append] at h
    obtain ⟨h1, -, h2⟩ := h
    rw [dictItems, dictOf_append]
    change Dict.assocSet (dictItems members) m.1 m.2 = _
    rw [ih h1, assocSet_of_notMem]
    exact fun hmem => h2 _ hmem m.1 List.mem_cons_self rfl

theorem nodup_dictItems (members : List (List ℕ × Json)) :
    ((dictItems members).map Prod.fst).Nodup := (dictOf members).nodup_keys

/-! ### The same value -/

/-- The two texts have the same value. -/
inductive Same : Json → Json → Prop
  | null : Same null null
  | bool (b : Bool) : Same (bool b) (bool b)
  | int (n : ℤ) : Same (int n) (int n)
  | float {v w : Json} {x : FloatValue} (hv : v.floatValue = some x)
      (hw : w.floatValue = some x) : Same v w
  | str (s : List ℕ) : Same (str s) (str s)
  | arr {vs ws : List Json} (hlen : vs.length = ws.length)
      (h : ∀ v w, (v, w) ∈ vs.zip ws → Same v w) : Same (arr vs) (arr ws)
  | obj {ms ns : List (List ℕ × Json)}
      (hkeys : (dictItems ms).map Prod.fst = (dictItems ns).map Prod.fst)
      (h : ∀ m n, (m, n) ∈ (dictItems ms).zip (dictItems ns) → Same m.2 n.2) :
      Same (obj ms) (obj ns)

/-- There is no `NaN` and no infinity in the text. -/
inductive Strict : Json → Prop
  | null : Strict null
  | bool (b : Bool) : Strict (bool b)
  | int (n : ℤ) : Strict (int n)
  | float (neg : Bool) (m : ℕ) (e : ℤ) : Strict (float neg m e)
  | str (s : List ℕ) : Strict (str s)
  | arr {vs : List Json} (h : ∀ v ∈ vs, Strict v) : Strict (arr vs)
  | obj {ms : List (List ℕ × Json)} (h : ∀ m ∈ ms, Strict m.2) : Strict (obj ms)

/-- No float in the value is `NaN` or infinite. -/
inductive Finite : Json → Prop
  | null : Finite null
  | bool (b : Bool) : Finite (bool b)
  | int (n : ℤ) : Finite (int n)
  | float (neg : Bool) {m : ℕ} {e : ℤ} (h : overflows m e = false) : Finite (float neg m e)
  | str (s : List ℕ) : Finite (str s)
  | arr {vs : List Json} (h : ∀ v ∈ vs, Finite v) : Finite (arr vs)
  | obj {ms : List (List ℕ × Json)} (h : ∀ m ∈ dictItems ms, Finite m.2) : Finite (obj ms)

/-! ### Nesting, and what is scanned -/

/-- At most `depth` arrays and objects are nested in each other. -/
def Nests : ℕ → Json → Prop
  | 0, arr _ => False
  | 0, obj _ => False
  | depth + 1, arr items => ∀ v ∈ items, Nests depth v
  | depth + 1, obj members => ∀ m ∈ dictItems members, Nests depth m.2
  | _, _ => True

/-- Surrogates, and no high one in front of a low one. -/
def Joined (s : List ℕ) : Prop :=
  (∀ c ∈ s, c < 0x110000) ∧
    s.IsChain fun x y => ¬ (0xD800 ≤ x ∧ x ≤ 0xDBFF ∧ 0xDC00 ≤ y ∧ y ≤ 0xDFFF)

/-- What a scanner can give with `depth` arrays and objects to go. -/
def Scanned : ℕ → Json → Prop
  | _, int n => (toString n.natAbs).toList.length ≤ Text.maxStrDigits
  | _, str s => Joined s
  | 0, arr _ => False
  | 0, obj _ => False
  | depth + 1, arr items => ∀ v ∈ items, Scanned depth v
  | depth + 1, obj members => ∀ m ∈ members, Joined m.1 ∧ Scanned depth m.2
  | _, _ => True

theorem Scanned.nests : ∀ {depth : ℕ} {v : Json}, Scanned depth v → Nests depth v
  | 0, .arr _, h => h
  | 0, .obj _, h => h
  | _ + 1, .arr _, h => fun v hv => (h v hv).nests
  | _ + 1, .obj _, h => fun m hm => (h m (mem_of_mem_dictItems hm)).2.nests
  | 0, .null, _ | _ + 1, .null, _ => trivial
  | 0, .bool _, _ | _ + 1, .bool _, _ => trivial
  | 0, .int _, _ | _ + 1, .int _, _ => trivial
  | 0, .float .., _ | _ + 1, .float .., _ => trivial
  | 0, .nan, _ | _ + 1, .nan, _ => trivial
  | 0, .infinity _, _ | _ + 1, .infinity _, _ => trivial
  | 0, .str _, _ | _ + 1, .str _, _ => trivial

theorem mem_zip_map {α β : Type} {f : α → β} {a : α} {b : β} : ∀ {l : List α},
    (a, b) ∈ l.zip (l.map f) → a ∈ l ∧ b = f a
  | [], h => absurd h List.not_mem_nil
  | x :: l, h => by
    rw [List.map_cons, List.zip_cons_cons] at h
    rcases List.mem_cons.mp h with h | h
    · cases h
      exact ⟨List.mem_cons_self, rfl⟩
    · exact ⟨List.mem_cons_of_mem _ (mem_zip_map h).1, (mem_zip_map h).2⟩

namespace Same

/-- Items are replaced by others of the same value. -/
theorem arr_map {vs : List Json} {f : Json → Json} (h : ∀ v ∈ vs, Same v (f v)) :
    Same (.arr vs) (.arr (vs.map f)) := by
  refine .arr (List.length_map f).symm fun v w hvw => ?_
  obtain ⟨hv, rfl⟩ := mem_zip_map hvw
  exact h v hv

/-- Values of members are replaced by others of the same value. -/
theorem obj_map {ms ns : List (List ℕ × Json)} {f : Json → Json}
    (hns : dictItems ns = (dictItems ms).map fun m => (m.1, f m.2))
    (h : ∀ m ∈ dictItems ms, Same m.2 (f m.2)) : Same (.obj ms) (.obj ns) := by
  refine .obj ?_ fun m n hmn => ?_
  · rw [hns, List.map_map]
    rfl
  · rw [hns] at hmn
    obtain ⟨hm, rfl⟩ := mem_zip_map hmn
    exact h m hm

/-- A value has its own value if its items and its members have. -/
theorem refl_of {v : Json} (harr : ∀ vs, v = .arr vs → ∀ w ∈ vs, Same w w)
    (hobj : ∀ ms, v = .obj ms → ∀ m ∈ dictItems ms, Same m.2 m.2) : Same v v := by
  cases v with
  | null => exact .null
  | bool b => exact .bool b
  | int n => exact .int n
  | float neg m e => exact .float rfl rfl
  | nan => exact .float rfl rfl
  | infinity neg => exact .float rfl rfl
  | str s => exact .str s
  | arr vs =>
    have hsame := arr_map (f := id) (harr vs rfl)
    rwa [List.map_id] at hsame
  | obj ms => exact obj_map (f := id) (List.map_id _).symm (hobj ms rfl)

theorem refl_of_nests {depth : ℕ} : ∀ {v : Json}, Nests depth v → Same v v := by
  induction depth with
  | zero =>
    intro v h
    refine refl_of ?_ ?_
    · rintro vs rfl
      exact h.elim
    · rintro ms rfl
      exact h.elim
  | succ depth ih =>
    intro v h
    refine refl_of ?_ ?_
    · rintro vs rfl w hw
      exact ih (h w hw)
    · rintro ms rfl m hm
      exact ih (h m hm)

theorem rel_assocGet {κ ν : Type} [DecidableEq κ] {r : ν → ν → Prop} (key : κ) :
    ∀ {es fs : List (κ × ν)}, es.map Prod.fst = fs.map Prod.fst →
      (∀ m n, (m, n) ∈ es.zip fs → r m.2 n.2) →
      Option.Rel r (Dict.assocGet es key) (Dict.assocGet fs key)
  | [], [], _, _ => .none
  | e :: es, f :: fs, hkeys, h => by
    rw [List.map_cons, List.map_cons, List.cons.injEq] at hkeys
    rw [Dict.assocGet, Dict.assocGet, hkeys.1]
    split
    · exact .some (h e f List.mem_cons_self)
    · exact rel_assocGet key hkeys.2 fun m n hmn => h m n (List.mem_cons_of_mem _ hmn)

/-- What is read under a key has the same value. -/
theorem get? {ms ns : List (List ℕ × Json)} (h : Same (.obj ms) (.obj ns)) (key : List ℕ) :
    Option.Rel Same ((dictOf ms).get? key) ((dictOf ns).get? key) := by
  cases h with
  | float hv => cases hv
  | obj hkeys h => exact rel_assocGet key hkeys h

end Same

/-! ### What is scanned -/

theorem eq_of_consUnit {x : Option ℕ} {r : Option (List ℕ × List Char)} {xs : List ℕ}
    {rest : List Char} (h : consUnit x r = some (xs, rest)) :
    ∃ a ys, x = some a ∧ r = some (ys, rest) ∧ xs = a :: ys := by
  obtain ⟨a, ha, h⟩ := Option.bind_eq_some_iff.mp h
  obtain ⟨⟨ys, rest'⟩, hr, h⟩ := Option.map_eq_some_iff.mp h
  cases h
  exact ⟨a, ys, ha, hr, rfl⟩

theorem hexValue_lt {c : Char} {n : ℕ} (h : hexValue c = some n) : n < 16 := by
  rw [hexValue] at h
  split at h
  · rename_i hd
    cases h
    have hle : c.toNat ≤ 57 := by
      simp only [Char.isDigit, Bool.and_eq_true, decide_eq_true_eq] at hd
      exact hd.2
    have hzero : '0'.toNat = 48 := rfl
    omega
  · split at h
    · rename_i hd
      cases h
      have hle : c.toNat ≤ 102 := hd.2
      have ha : 'a'.toNat = 97 := rfl
      omega
    · split at h
      · rename_i hd
        cases h
        have hle : c.toNat ≤ 70 := hd.2
        have ha : 'A'.toNat = 65 := rfl
        omega
      · cases h

theorem hex4_lt {a b c d : Char} {n : ℕ} (h : hex4 a b c d = some n) : n < 0x10000 := by
  rw [hex4] at h
  cases ha : hexValue a with
  | none => simp [ha] at h
  | some x =>
    cases hb : hexValue b with
    | none => simp [ha, hb] at h
    | some y =>
      cases hc : hexValue c with
      | none => simp [ha, hb, hc] at h
      | some z =>
        cases hd : hexValue d with
        | none => simp [ha, hb, hc, hd] at h
        | some w =>
          have hx := hexValue_lt ha
          have hy := hexValue_lt hb
          have hz := hexValue_lt hc
          have hw := hexValue_lt hd
          simp [ha, hb, hc, hd] at h
          omega

theorem escape_lt {e : Char} {n : ℕ} (h : escape e = some n) : n < 0x80 := by
  unfold escape at h
  split at h <;> cases h <;> decide

theorem plain_lt {c : Char} {n : ℕ} (h : plain c = some n) : n < 0x110000 := by
  rw [plain] at h
  split at h
  · cases h
  · cases h
    rcases c.valid with hv | hv
    · exact lt_trans hv (by decide)
    · exact hv.2

theorem scanUnits_lt {s : List Char} : ∀ {xs : List ℕ} {rest : List Char},
    scanUnits s = some (xs, rest) → ∀ x ∈ xs, x < 0x110000 := by
  fun_induction scanUnits s with
  | case1 => intro xs rest h; cases h
  | case2 cs =>
    intro xs rest h
    cases h
    exact fun x hx => absurd hx List.not_mem_nil
  | case3 a b c d cs ih =>
    intro xs rest h
    obtain ⟨n, ys, hn, hr, rfl⟩ := eq_of_consUnit h
    exact List.forall_mem_cons.mpr ⟨(hex4_lt hn).trans (by decide), ih hr⟩
  | case4 e cs _ ih =>
    intro xs rest h
    obtain ⟨n, ys, hn, hr, rfl⟩ := eq_of_consUnit h
    exact List.forall_mem_cons.mpr ⟨(escape_lt hn).trans (by decide), ih hr⟩
  | case5 c cs _ _ _ ih =>
    intro xs rest h
    obtain ⟨n, ys, hn, hr, rfl⟩ := eq_of_consUnit h
    exact List.forall_mem_cons.mpr ⟨plain_lt hn, ih hr⟩

/-- What begins the text of joined units: the first unit, or a code point beyond the surrogates. -/
theorem head_joinSurrogates (x : ℕ) (xs : List ℕ) :
    ∃ y ys, joinSurrogates (x :: xs) = y :: ys ∧ (y = x ∨ 0x10000 ≤ y) := by
  cases xs with
  | nil => exact ⟨x, [], rfl, .inl rfl⟩
  | cons x' xs =>
    rw [joinSurrogates]
    split
    · exact ⟨_, _, rfl, .inr (by omega)⟩
    · exact ⟨_, _, rfl, .inl rfl⟩

/-- Joined units hold no high surrogate in front of a low one. -/
theorem joined_joinSurrogates {xs : List ℕ} (h : ∀ x ∈ xs, x < 0x110000) :
    Joined (joinSurrogates xs) := by
  fun_induction joinSurrogates xs with
  | case1 x y xs hpair ih =>
    rw [List.forall_mem_cons, List.forall_mem_cons] at h
    obtain ⟨hlt, hchain⟩ := ih h.2.2
    refine ⟨List.forall_mem_cons.mpr ⟨by omega, hlt⟩, List.isChain_cons.mpr ⟨?_, hchain⟩⟩
    intro z _ hz
    omega
  | case2 x y xs hpair ih =>
    rw [List.forall_mem_cons] at h
    obtain ⟨hlt, hchain⟩ := ih h.2
    refine ⟨List.forall_mem_cons.mpr ⟨h.1, hlt⟩, List.isChain_cons.mpr ⟨?_, hchain⟩⟩
    obtain ⟨z, zs, heq, hz⟩ := head_joinSurrogates y xs
    rw [heq]
    rintro _ ⟨⟩ hbad
    rcases hz with rfl | hz
    · exact hpair hbad
    · omega
  | case3 xs hxs =>
    refine ⟨h, ?_⟩
    cases xs with
    | nil => exact .nil
    | cons x xs =>
      cases xs with
      | nil => exact .singleton x
      | cons y xs => exact absurd rfl (hxs x y xs)

theorem scanString_joined {s rest : List Char} {xs : List ℕ} (h : scanString s = .ok (xs, rest)) :
    Joined xs := by
  obtain ⟨ys, hu, rfl⟩ := scanString_cases h
  exact joined_joinSurrogates (scanUnits_lt hu)

theorem digitsValue_lt {ds : List Char} : (∀ c ∈ ds, c.isDigit = true) →
    Text.digitsValue ds < 10 ^ ds.length := by
  induction ds using List.reverseRecOn with
  | nil => exact fun _ => Nat.one_pos
  | append_singleton ds c ih =>
    intro h
    rw [List.forall_mem_append, List.forall_mem_singleton] at h
    have hlt := ih h.1
    have hc : c.toNat ≤ 57 := by
      have hd := h.2
      simp only [Char.isDigit, Bool.and_eq_true, decide_eq_true_eq] at hd
      exact hd.2
    have hzero : '0'.toNat = 48 := rfl
    have hvalue : Text.digitsValue (ds ++ [c]) =
        10 * Text.digitsValue ds + (c.toNat - '0'.toNat) := by
      simp [Text.digitsValue]
    rw [hvalue, List.length_append, List.length_singleton, pow_succ]
    omega

/-- A number is written with no more digits than it was read with. -/
theorem length_toString_digitsValue_le {ds : List Char} (hne : ds ≠ [])
    (hd : ∀ c ∈ ds, c.isDigit = true) :
    (toString (Text.digitsValue ds)).toList.length ≤ ds.length := by
  rw [Nat.toString_eq_ofList_toDigits, String.toList_ofList]
  exact Nat.toDigits_length 10 _ _ (List.length_pos_iff.mpr hne) (digitsValue_lt hd)

theorem numberTail_scanned {neg : Bool} {digits s rest : List Char} {v : Json} (hne : digits ≠ [])
    (hd : ∀ c ∈ digits, c.isDigit = true) (h : numberTail neg digits s = .ok (v, rest))
    (depth : ℕ) : Scanned depth v := by
  rw [numberTail] at h
  split at h
  · split at h
    · cases h
    · rename_i hlen
      have hle := length_toString_digitsValue_le hne hd
      cases h
      unfold Scanned
      cases neg with
      | true => simp only [if_true, Int.natAbs_neg, Int.natAbs_natCast]; omega
      | false => simp only [Bool.false_eq_true, if_false, Int.natAbs_natCast]; omega
  all_goals
    cases h
    cases depth <;> trivial

theorem scanDigits_scanned {neg : Bool} {s rest : List Char} {v : Json}
    (h : scanDigits neg s = .ok (v, rest)) (depth : ℕ) : Scanned depth v := by
  cases s with
  | nil => cases h
  | cons c cs =>
    rw [scanDigits] at h
    split at h
    · rename_i hc
      refine numberTail_scanned (List.cons_ne_nil _ _) ?_ h depth
      rw [hc]
      exact List.forall_mem_singleton.mpr rfl
    · split at h
      · rename_i hc
        refine numberTail_scanned (List.cons_ne_nil _ _) ?_ h depth
        exact List.forall_mem_cons.mpr ⟨hc, fun x hx => List.mem_takeWhile_imp hx⟩
      · cases h

theorem scanLeaf_scanned {s rest : List Char} {v : Json} (h : scanLeaf s = .ok (v, rest))
    (depth : ℕ) : Scanned depth v := by
  rw [scanLeaf.eq_def] at h
  split at h
  case h_1 cs =>
    obtain ⟨xs, hs, rfl⟩ := eq_ok_of_map h
    cases depth <;> exact scanString_joined hs
  case h_8 cs _ => exact scanDigits_scanned h depth
  case h_9 => exact scanDigits_scanned h depth
  all_goals
    cases h
    cases depth <;> trivial

/-- What holds of each item holds of all that are read. -/
theorem sepBy_forall {α : Type} {close : Char} {item : List Char → Scan α} {p : α → Prop}
    (hi : ∀ s v rest, item s = .ok (v, rest) → p v) : ∀ {fuel : ℕ} {s rest : List Char}
      {vs : List α}, sepBy close item fuel s = .ok (vs, rest) → ∀ v ∈ vs, p v := by
  intro fuel
  induction fuel with
  | zero => intro s rest vs h; cases h
  | succ fuel ih =>
    intro s rest vs h
    obtain ⟨n, v, r, hn, hr, ⟨-, rfl⟩ | ⟨cs, ws, -, hw, rfl⟩⟩ := sepBy_cases h
    · exact List.forall_mem_singleton.mpr (hi _ _ _ hr)
    · obtain rfl := Nat.succ.inj hn
      exact List.forall_mem_cons.mpr ⟨hi _ _ _ hr, ih hw⟩

theorem scanItems_forall {α : Type} {close : Char} {item : List Char → Scan α} {p : α → Prop}
    (hi : ∀ s v rest, item s = .ok (v, rest) → p v) {s rest : List Char} {vs : List α}
    (h : scanItems close item s = .ok (vs, rest)) : ∀ v ∈ vs, p v := by
  rcases scanItems_cases h with ⟨-, rfl⟩ | ⟨c, cs, -, -, hitems⟩
  · exact fun v hv => absurd hv List.not_mem_nil
  · exact sepBy_forall hi hitems

theorem scanMember_scanned {value : List Char → Scan Json} {p : Json → Prop}
    (hv : ∀ s v rest, value s = .ok (v, rest) → p v) {s rest : List Char} {m : List ℕ × Json}
    (h : scanMember value s = .ok (m, rest)) : Joined m.1 ∧ p m.2 := by
  obtain ⟨cs, r, r', -, hs, -, hvalue⟩ := scanMember_cases h
  exact ⟨scanString_joined hs, hv _ _ _ hvalue⟩

/-- **What a scanner gives.** -/
theorem scanOnce_scanned : ∀ (depth : ℕ) (s : List Char) (v : Json) (rest : List Char),
    scanOnce depth s = .ok (v, rest) → Scanned depth v := by
  intro depth
  induction depth with
  | zero =>
    intro s v rest h
    rcases scanOnce_cases h with hleaf | ⟨n, -, -, hn, -⟩ | ⟨n, -, -, hn, -⟩
    · exact scanLeaf_scanned hleaf 0
    · cases hn
    · cases hn
  | succ depth ih =>
    intro s v rest h
    rcases scanOnce_cases h with hleaf | ⟨n, cs, vs, hn, -, rfl, hs⟩ | ⟨n, cs, ms, hn, -, rfl, hs⟩
    · exact scanLeaf_scanned hleaf (depth + 1)
    · obtain rfl := Nat.succ.inj hn
      exact scanItems_forall ih hs
    · obtain rfl := Nat.succ.inj hn
      exact scanItems_forall (fun _ _ _ => scanMember_scanned ih) hs

theorem loads_scanned {depth : ℕ} {s : List Char} {v : Json} (h : loads depth s = .ok v) :
    Scanned depth v := by
  rw [loads] at h
  split at h
  · cases h
  · split at h
    · cases h
    · rename_i v' rest hs
      split at h
      · cases h
        exact scanOnce_scanned depth _ _ _ hs
      · cases h

end Json
