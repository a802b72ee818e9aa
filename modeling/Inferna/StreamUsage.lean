import Inferna.Digests
import Inferna.Lib.JsonDump

/-!
# Stream options

`_with_stream_usage` asks the upstream of a streamed request for a usage chunk: it sets the member
`stream_options` of the body, unless the client has given one that counts as true, and writes the
body anew.

The body is then another one than the client's in more than that member.  What counts as false but
is there (`null`, an empty object) is replaced; a number beyond the largest float is read as an
infinity and written as one, which is no JSON; and a body that is nested too deep, or has too long
an integer, is no body to leave alone but an exception.

## Main definitions

* `StreamEnv` — what `json.loads` and `json.dumps` depend on.
* `withStreamUsage` — `_with_stream_usage`.
* `PreservesRequest` — the body keeps what it says.
* `StreamFits` — the bodies of which this is true.

## Main results

* `recoded` — what is read from the new body.
* `preservesRequest_iff` — **the request is preserved exactly when its body fits.**
-/

namespace Inferna

open Json (dictOf dictItems Same Strict Finite Nests Scanned)

/-! ### The new body -/

/-- What `json.loads` and `json.dumps` depend on. -/
structure StreamEnv extends DoorEnv where
  /-- Printable ASCII is decoded as itself. -/
  decode_ascii : ∀ text : List Char, (∀ c ∈ text, Json.Printable c) →
    decode (text.map fun c => UInt8.ofNat c.toNat) = some text
  two_le_depth : 2 ≤ depth
  /-- How many arrays and objects `json.dumps` can enter before the stack is used up. -/
  levels : ℕ
  floats : Json.FloatText

/-- The name of the member. -/
def optionsKey : List ℕ := Json.codePoints "stream_options"

/-- `{"include_usage": True}`. -/
def includeUsage : Json := .obj [(Json.codePoints "include_usage", .bool true)]

/-- `payload["stream_options"] = {"include_usage": True}`. -/
def setOptions (payload : List (List ℕ × Json)) : List (List ℕ × Json) :=
  ((dictOf payload).set optionsKey includeUsage).entries

/-- `str.encode` of an ASCII text. -/
def encodeAscii (text : List Char) : List UInt8 := text.map fun c => UInt8.ofNat c.toNat

/-- `_with_stream_usage`. -/
def withStreamUsage (env : StreamEnv) (raw : List UInt8) : Except Exc (List UInt8) :=
  match loadsBody env.toDoorEnv raw with
  | .error .decode => .ok raw
  | .error .intTooLong => .error (.other "ValueError")
  | .error .recursion => .error (.other "RecursionError")
  | .ok (.obj payload) =>
    if (Json.get payload "stream_options").truthy then .ok raw
    else
      -- an integer that was read is not too long to be written
      match Json.dumpsNested env.floats env.levels (.obj (setOptions payload)) with
      | none => .error (.other "RecursionError")
      | some text => .ok (encodeAscii text)
  | .ok _ => .ok raw

/-! ### What is preserved -/

/-- The object `q` says what `p` says: the same under every other key, under `stream_options` what
`p` has there or else the default, and as JSON of the standard. -/
structure Preserved (p q : List (List ℕ × Json)) : Prop where
  others : ∀ key, key ≠ optionsKey →
    Option.Rel Same ((dictOf p).get? key) ((dictOf q).get? key)
  options : Option.Rel Same (((dictOf p).get? optionsKey).or (some includeUsage))
    ((dictOf q).get? optionsKey)
  strict : Strict (.obj q)

/-- A body that is an object is preserved, and every other one is returned unchanged. -/
def PreservesRequest (env : StreamEnv) (raw : List UInt8) : Prop :=
  match loadsBody env.toDoorEnv raw with
  | .ok (.obj p) => ∃ out q, withStreamUsage env raw = .ok out ∧
      loadsBody env.toDoorEnv out = .ok (.obj q) ∧ Preserved p q
  | _ => withStreamUsage env raw = .ok raw

/-- The bodies that fit.  An object has stream options that count as true and is JSON of the
standard, or it has none, its floats are finite, and with the default it is not nested too deep.
Any other text is read, or it is no JSON. -/
def StreamFits (env : StreamEnv) (raw : List UInt8) : Prop :=
  match loadsBody env.toDoorEnv raw with
  | .ok (.obj p) =>
    match (dictOf p).get? optionsKey with
    | none => Finite (.obj p) ∧ Nests env.levels (.obj (setOptions p))
    | some v => v.truthy = true ∧ Strict (.obj p)
  | .ok _ => True
  | .error e => e = .decode

/-! ### The object with the default -/

theorem dictItems_setOptions (p : List (List ℕ × Json)) : dictItems (setOptions p) = setOptions p :=
  Json.dictItems_of_nodup ((dictOf p).set optionsKey includeUsage).nodup_keys

theorem get?_setOptions (p : List (List ℕ × Json)) (key : List ℕ) :
    (dictOf (setOptions p)).get? key =
      if optionsKey = key then some includeUsage else (dictOf p).get? key := by
  rw [Dict.get?]
  change Dict.assocGet (dictItems (setOptions p)) key = _
  rw [dictItems_setOptions]
  exact Dict.get?_set (dictOf p) optionsKey includeUsage key

theorem mem_of_mem_setOptions {p : List (List ℕ × Json)} {m : List ℕ × Json}
    (h : m ∈ setOptions p) : m ∈ p ∨ m = (optionsKey, includeUsage) :=
  (Json.mem_of_mem_assocSet h).imp Json.mem_of_mem_dictItems id

theorem joined_optionsKey : Json.Joined optionsKey := by
  unfold Json.Joined
  decide

theorem scanned_includeUsage {depth : ℕ} : Scanned (depth + 1) includeUsage := by
  intro m hm
  obtain rfl := List.mem_singleton.mp hm
  refine ⟨by unfold Json.Joined; decide, ?_⟩
  cases depth <;> trivial

theorem scanned_setOptions {depth : ℕ} (hdepth : 2 ≤ depth) {p : List (List ℕ × Json)}
    (hp : Scanned depth (.obj p)) : Scanned depth (.obj (setOptions p)) := by
  obtain ⟨depth, rfl⟩ := Nat.exists_eq_add_of_le' hdepth
  intro m hm
  rcases mem_of_mem_setOptions hm with hm | rfl
  · exact hp m hm
  · exact ⟨joined_optionsKey, scanned_includeUsage⟩

/-- The default has no float in it. -/
theorem finite_setOptions_iff {p : List (List ℕ × Json)}
    (hnone : (dictOf p).get? optionsKey = none) :
    Finite (.obj (setOptions p)) ↔ Finite (.obj p) := by
  have hitems : dictItems (setOptions p) = dictItems p ++ [(optionsKey, includeUsage)] :=
    (dictItems_setOptions p).trans
      (Json.assocSet_of_notMem _ ((Dict.get?_eq_none_iff _ _).mp hnone))
  have hinclude : Finite includeUsage := by
    refine .obj fun m hm => ?_
    obtain rfl := List.mem_singleton.mp hm
    exact .bool true
  constructor
  · rintro ⟨⟩
    rename_i h
    exact .obj fun m hm => h m (by rw [hitems]; exact List.mem_append_left _ hm)
  · rintro ⟨⟩
    rename_i h
    refine .obj fun m hm => ?_
    rw [hitems, List.mem_append, List.mem_singleton] at hm
    rcases hm with hm | rfl
    · exact h m hm
    · exact hinclude

variable (env : StreamEnv)

/-- **What is read from the new body**: the object with the default, its floats written anew. -/
theorem recoded {p : List (List ℕ × Json)} (hp : Scanned env.depth (.obj p)) {text : List Char}
    (htext : Json.dumpsNested env.floats env.levels (.obj (setOptions p)) = some text) :
    ∃ q, loadsBody env.toDoorEnv (encodeAscii text) = .ok (.obj q) ∧
      (∀ key, key ≠ optionsKey → Option.Rel Same ((dictOf p).get? key) ((dictOf q).get? key)) ∧
      Option.Rel Same (some includeUsage) ((dictOf q).get? optionsKey) ∧
      (Strict (.obj q) ↔ Finite (.obj (setOptions p))) := by
  have hscanned := scanned_setOptions env.two_le_depth hp
  obtain ⟨depth, hdepth⟩ := Nat.exists_eq_add_of_le' env.two_le_depth
  have hobj : Json.reread env.floats env.depth (.obj (setOptions p)) =
      .obj ((dictItems (setOptions p)).map fun m =>
        (m.1, Json.reread env.floats (depth + 1) m.2)) := by
    rw [hdepth]
    rfl
  have hsame := Json.same_reread env.floats hscanned.nests
  have hstrict := Json.strict_reread_iff env.floats hscanned.nests
  rw [hobj] at hsame hstrict
  refine ⟨_, ?_, fun key hkey => ?_, ?_, hstrict⟩
  · rw [loadsBody, encodeAscii, env.decode_ascii text (Json.printable_dumpsNested env.floats htext)]
    exact (Json.loads_dumpsNested env.floats hscanned htext).trans (congrArg Except.ok hobj)
  · have hget := hsame.get? key
    rwa [get?_setOptions, if_neg (Ne.symm hkey)] at hget
  · have hget := hsame.get? optionsKey
    rwa [get?_setOptions, if_pos rfl] at hget

/-! ### Which requests are preserved -/

/-- A body that has the default's value is an object with a member. -/
theorem truthy_of_same {v w : Json} (hv : Same v w) (hw : Same includeUsage w) :
    v.truthy = true := by
  cases hw with
  | float h => cases h
  | obj hkeys _ =>
    cases hv with
    | float h1 h2 => cases h2
    | @obj ms _ hkeys' _ =>
      cases ms with
      | nil => exact absurd (hkeys.trans hkeys'.symm) (by decide)
      | cons m ms => rfl

theorem loadsBody_scanned {raw : List UInt8} {v : Json}
    (h : loadsBody env.toDoorEnv raw = .ok v) : Scanned env.depth v := by
  rw [loadsBody] at h
  split at h
  · cases h
  · exact Json.loads_scanned h

theorem get_options (p : List (List ℕ × Json)) :
    Json.get p "stream_options" = ((dictOf p).get? optionsKey).getD .null := Json.get_eq p _

theorem withStreamUsage_of_truthy {raw : List UInt8} {p : List (List ℕ × Json)}
    (hbody : loadsBody env.toDoorEnv raw = .ok (.obj p))
    (h : (Json.get p "stream_options").truthy = true) : withStreamUsage env raw = .ok raw := by
  rw [withStreamUsage, hbody]
  simp only [h, if_true]

theorem withStreamUsage_of_falsy {raw : List UInt8} {p : List (List ℕ × Json)}
    (hbody : loadsBody env.toDoorEnv raw = .ok (.obj p))
    (h : (Json.get p "stream_options").truthy = false) :
    withStreamUsage env raw =
      match Json.dumpsNested env.floats env.levels (.obj (setOptions p)) with
      | none => .error (.other "RecursionError")
      | some text => .ok (encodeAscii text) := by
  rw [withStreamUsage, hbody]
  simp only [h, Bool.false_eq_true, if_false]

theorem preservesRequest_obj {raw : List UInt8} {p : List (List ℕ × Json)}
    (hbody : loadsBody env.toDoorEnv raw = .ok (.obj p)) :
    PreservesRequest env raw ↔ ∃ out q, withStreamUsage env raw = .ok out ∧
      loadsBody env.toDoorEnv out = .ok (.obj q) ∧ Preserved p q := by
  rw [PreservesRequest, hbody]

/-- Stream options that count as true are kept, with the whole body. -/
theorem preservesRequest_of_truthy {raw : List UInt8} {p : List (List ℕ × Json)}
    (hbody : loadsBody env.toDoorEnv raw = .ok (.obj p)) {v : Json}
    (hv : (dictOf p).get? optionsKey = some v) (htruthy : v.truthy = true) :
    PreservesRequest env raw ↔ Strict (.obj p) := by
  rw [preservesRequest_obj env hbody,
    withStreamUsage_of_truthy env hbody (by rw [get_options, hv, Option.getD_some, htruthy])]
  constructor
  · rintro ⟨out, q, hout, hq, hpreserved⟩
    cases hout
    rw [hbody] at hq
    cases hq
    exact hpreserved.strict
  · intro hstrict
    have hsame : Same (.obj p) (.obj p) := Same.refl_of_nests (loadsBody_scanned env hbody).nests
    refine ⟨raw, p, rfl, hbody, fun key _ => hsame.get? key, ?_, hstrict⟩
    have hoptions := hsame.get? optionsKey
    rw [hv] at hoptions ⊢
    exact hoptions

/-- Stream options that count as false are lost. -/
theorem not_preservesRequest_of_falsy {raw : List UInt8} {p : List (List ℕ × Json)}
    (hbody : loadsBody env.toDoorEnv raw = .ok (.obj p)) {v : Json}
    (hv : (dictOf p).get? optionsKey = some v) (hfalsy : v.truthy = false) :
    ¬ PreservesRequest env raw := by
  rw [preservesRequest_obj env hbody,
    withStreamUsage_of_falsy env hbody (by rw [get_options, hv, Option.getD_some, hfalsy])]
  rintro ⟨out, q, hout, hq, hpreserved⟩
  split at hout
  · cases hout
  · rename_i text htext
    cases hout
    obtain ⟨q', hq', -, hoptions, -⟩ := recoded env (loadsBody_scanned env hbody) htext
    rw [hq'] at hq
    cases hq
    have hkept := hpreserved.options
    rw [hv] at hkept
    -- the value that was kept would be that of the default
    generalize (dictOf q).get? optionsKey = w at hoptions hkept
    cases hoptions with
    | some hw =>
      cases hkept with
      | some hvw =>
        rw [truthy_of_same hvw hw] at hfalsy
        cases hfalsy

/-- Without stream options the body is written anew. -/
theorem preservesRequest_of_missing {raw : List UInt8} {p : List (List ℕ × Json)}
    (hbody : loadsBody env.toDoorEnv raw = .ok (.obj p))
    (hnone : (dictOf p).get? optionsKey = none) :
    PreservesRequest env raw ↔ Finite (.obj p) ∧ Nests env.levels (.obj (setOptions p)) := by
  have hp := loadsBody_scanned env hbody
  rw [preservesRequest_obj env hbody,
    withStreamUsage_of_falsy env hbody (by rw [get_options, hnone]; rfl),
    ← finite_setOptions_iff hnone,
    ← Json.dumpsNested_isSome_iff env.floats (scanned_setOptions env.two_le_depth hp)]
  cases htext : Json.dumpsNested env.floats env.levels (.obj (setOptions p)) with
  | none => simp
  | some text =>
    obtain ⟨q, hq, hothers, hoptions, hstrict⟩ := recoded env hp htext
    rw [← hstrict]
    simp only [Option.isSome_some, and_true]
    constructor
    · rintro ⟨out, q', hout, hq', hpreserved⟩
      cases hout
      rw [hq] at hq'
      cases hq'
      exact hpreserved.strict
    · intro hfinite
      refine ⟨_, q, rfl, hq, hothers, ?_, hfinite⟩
      rw [hnone]
      exact hoptions

/-- **When the request is preserved.** -/
theorem preservesRequest_iff (raw : List UInt8) :
    PreservesRequest env raw ↔ StreamFits env raw := by
  rw [StreamFits]
  cases hbody : loadsBody env.toDoorEnv raw with
  | error e =>
    rw [PreservesRequest, withStreamUsage, hbody]
    cases e <;> simp
  | ok v =>
    cases v with
    | obj p =>
      simp only
      cases hv : (dictOf p).get? optionsKey with
      | none => exact preservesRequest_of_missing env hbody hv
      | some v =>
        cases htruthy : v.truthy with
        | false => simpa [htruthy] using not_preservesRequest_of_falsy env hbody hv htruthy
        | true => simpa [htruthy] using preservesRequest_of_truthy env hbody hv htruthy
    | _ => simp [PreservesRequest, withStreamUsage, hbody]

/-! ### A member that is lost -/

/-- Every decimal is its own literal. -/
def plainFloats : Json.FloatText where
  literal m e :=
    { whole := m
      frac := []
      exp := some e
      digits := by simp
      isFloat := by simp }
  nearest_literal m e _ := by
    change Json.nearest (Text.digitsValue ((toString m).toList ++ [])) (e - ((0 : ℕ) : ℤ)) = _
    rw [List.append_nil, Text.digitsValue_toString, Nat.cast_zero, sub_zero]

/-- A gateway whose bodies are ASCII. -/
def asciiStream : StreamEnv where
  toDoorEnv := asciiDoor
  decode_ascii text h := by
    have hchar : ∀ c ∈ text, Char.ofNat (UInt8.ofNat c.toNat).toNat = c := by
      intro c hc
      have hlt : c.toNat < 256 := lt_of_le_of_lt (h c hc).2 (by decide)
      rw [UInt8.toNat_ofNat_of_lt' hlt, Char.ofNat_toNat]
    change some ((text.map _).map _) = some text
    rw [List.map_map]
    exact congrArg some ((List.map_congr_left (g := id) hchar).trans (List.map_id text))
  two_le_depth := by decide
  levels := 900
  floats := plainFloats

/-- A body with stream options of `null`. -/
def nullOptions : List UInt8 :=
  asciiBytes "\x7b\"model\": \"m\", \"stream_options\": null\x7d"

/-- They are replaced. -/
theorem null_options_lost : ¬ ∀ (env : StreamEnv) (raw : List UInt8), PreservesRequest env raw :=
  fun h => not_preservesRequest_of_falsy asciiStream rfl rfl rfl (h asciiStream nullOptions)

end Inferna
