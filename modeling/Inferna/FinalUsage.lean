import Inferna.Relay
import Inferna.Lib.Search

/-!
# The final usage object

The upstream says at the end of its response how many tokens it has used: in the member `usage` of
a JSON document, or of the object of an event.  The relay keeps the last chunks as a tail and looks
for that member there, by a regular expression.

It finds the first one in the tail and not the last, it reads it up to the first closing brace, and
when the last chunk is too long the tail is empty.  So the tokens that are recorded are those of the
final usage object only if the first block that is found says the same.

## Main definitions

* `topUsages`, `FinalUsage` — the usage objects at the top of a body, and the last one, when it
  stands in the last chunk.
* `RecordsTokens` — the request is recorded with these numbers.
* `ReadChunks`, `Fits`, `WindowText` — the chunks that are read, and what is kept of them.
* `UsageBlock`, `Numeral`, `Says` — the first usage block of a text, and what it says.

## Main results

* `longestSuffix_trimTail` — the tail is the longest end of the chunks that fits.
* `search_matchUsage_iff`, `search_matchTokens_iff` — what the regular expressions find.
* `recordsTokens_iff` — the numbers that are recorded.
* `recordsFinal_iff` — **when they are those of the final usage object.**
-/

namespace Inferna

open Search

/-! ### The final usage object -/

/-- An item with the text that it begins. -/
def spanned {α : Type} (item : List Char → Json.Scan α) (s : List Char) :
    Json.Scan (List Char × α) :=
  (item s).map fun r => ((s, r.1), r.2)

/-- The members of a document that is an object, each with the text from it on.  A document of
this length is not nested deeper. -/
def topMembers (d : List Char) : List (List Char × List ℕ × Json) :=
  match Json.skipWs d with
  | '{' :: cs =>
    match Json.scanItems '}' (spanned (Json.scanMember (Json.scanOnce d.length))) cs with
    | .ok (members, rest) => if (Json.skipWs rest).isEmpty then members else []
    | .error _ => []
  | _ => []

/-- The token numbers of a usage object, if they are integers. -/
def usageNumbers : Json → Option (ℤ × ℤ)
  | .obj usage =>
    match Json.get usage "prompt_tokens", Json.get usage "completion_tokens" with
    | .int prompt, .int completion => some (prompt, completion)
    | _, _ => none
  | _ => none

/-- The usage objects at the top of a document, each with the text from its member on. -/
def docUsages (d : List Char) : List (List Char × ℤ × ℤ) :=
  (topMembers d).filterMap fun m =>
    if m.2.1 = Json.codePoints "usage" then (usageNumbers m.2.2).map fun n => (m.1, n) else none

/-- The end of a line. -/
def isBreak (c : Char) : Bool := c = '\n' || c = '\r'

/-- The texts behind the ends of lines. -/
def behindBreaks : List Char → List (List Char)
  | [] => []
  | c :: cs => if isBreak c then cs :: behindBreaks cs else behindBreaks cs

/-- The usage objects of the event that begins a text, each with the text from its member on. -/
def eventUsages (t : List Char) : List (List Char × ℤ × ℤ) :=
  match t.dropPrefix? "data:".toList with
  | none => []
  | some r =>
    (docUsages (r.takeWhile fun c => !isBreak c)).map fun u =>
      (u.1 ++ r.dropWhile fun c => !isBreak c, u.2)

/-- The usage objects at the top of a body, a document or a stream of events, in their order. -/
def topUsages (body : List Char) : List (List Char × ℤ × ℤ) :=
  docUsages body ++ (body :: behindBreaks body).flatMap eventUsages

/-- A text in UTF-8. -/
def encodeUtf8 (text : List Char) : List UInt8 := text.flatMap String.utf8EncodeChar

/-- The chunks are a body in UTF-8, and its last usage object, with these numbers, stands in the
last chunk. -/
def FinalUsage (chunks : List (List UInt8)) (prompt completion : ℤ) : Prop :=
  ∃ body member last, chunks.flatten = encodeUtf8 body ∧
    (topUsages body).getLast? = some (member, prompt, completion) ∧
    chunks.getLast? = some last ∧ (encodeUtf8 member).length ≤ last.length

/-- The request is recorded with these numbers. -/
def RecordsTokens (r : Relayed) (prompt completion : ℤ) : Prop :=
  ∃ recorded, r.recorded = some recorded ∧ recorded.tokensIn = prompt ∧
    recorded.tokensOut = completion

/-! ### What is kept -/

/-- The chunks that are read: all of them, or those up to the first that the telemetry cannot
take. -/
structure ReadChunks (env : RelayEnv) (chunks read : List (List UInt8)) : Prop where
  isPrefix : read <+: chunks
  fits : ∀ chunk ∈ read.dropLast, ChunkFits env chunk
  stops : (∀ chunk ∈ read, ChunkFits env chunk) → read = chunks

/-- At most 8 texts with at most 16384 characters. -/
def Fits (texts : List (List Char)) : Prop :=
  texts.length ≤ 8 ∧ (texts.map List.length).sum ≤ 16384

/-- The text that is searched: the longest end of what is read that fits. -/
def WindowText (env : RelayEnv) (path : String) (chunks : List (List UInt8)) (w : List Char) :
    Prop :=
  if watched path then
    ∃ read texts, ReadChunks env chunks read ∧
      LongestSuffix Fits (read.map Text.decodeReplace) texts ∧ w = texts.flatten
  else w = []

/-- `s` begins with a name in quotes and a colon, and `r` is what stands behind them. -/
def BehindKey (name : String) (s r : List Char) : Prop :=
  ∃ ws ws', s = '"' :: name.toList ++ '"' :: ws ++ ':' :: ws' ++ r ∧
    (∀ c ∈ ws, Text.isSpace c = true) ∧ (∀ c ∈ ws', Text.isSpace c = true) ∧
    ∀ c ∈ r.head?, Text.isSpace c = false

/-- `s` begins with this block: the key `usage` and an opening brace, up to the first closing
one. -/
def UsageBlock (s block : List Char) : Prop :=
  ∃ inner, '}' ∉ inner ∧ block <+: s ∧ BehindKey "usage" block ('{' :: inner ++ ['}'])

/-- `s` begins with the key and a numeral of these digits. -/
def Numeral (env : RelayEnv) (name : String) (s : List Char) (ds : List ℕ) : Prop :=
  ∃ digits rest, BehindKey name s (digits ++ rest) ∧ digits ≠ [] ∧
    digits.map env.decimal = ds.map some ∧ ∀ c ∈ rest.head?, env.decimal c = none

/-- The first number of this name in a text is `n`, as an integer that is converted and counted;
or there is none, and `n` is zero. -/
def FirstNumber (env : RelayEnv) (name : String) (text : List Char) (n : ℤ) : Prop :=
  (∃ ds, Leftmost (Numeral env name) text ds ∧ ds.length ≤ Text.maxStrDigits ∧
      env.takes (numeral ds) = true ∧ (numeral ds : ℤ) = n) ∨
    Nowhere (Numeral env name) text ∧ n = 0

/-- The first usage block of a text says these numbers; or there is none, and both are zero. -/
def Says (env : RelayEnv) (text : List Char) (prompt completion : ℤ) : Prop :=
  (∃ block, Leftmost UsageBlock text block ∧ FirstNumber env "prompt_tokens" block prompt ∧
      FirstNumber env "completion_tokens" block completion) ∨
    Nowhere UsageBlock text ∧ prompt = 0 ∧ completion = 0

/-! ### The regular expressions -/

theorem search_eq_some_iff {β : Type} {pattern : List Char → Option β}
    {begins : List Char → β → Prop} (h : ∀ s b, pattern s = some b ↔ begins s b) (b : β) :
    ∀ s, search pattern s = some b ↔ Leftmost begins s b := by
  intro s
  induction s with
  | nil => rw [search, leftmost_nil_iff, h]
  | cons c cs ih =>
    rw [search, leftmost_cons_iff, ← h]
    cases hp : pattern (c :: cs) with
    | none =>
      have hnone : ∀ b', ¬ begins (c :: cs) b' := fun b' hb' => by
        rw [← h, hp] at hb'
        cases hb'
      simp [hnone, ih]
    | some b' =>
      have hsome : begins (c :: cs) b' := (h _ _).mp hp
      simp only [Option.some.injEq]
      exact ⟨.inl, fun hor => hor.elim id fun hnot => absurd hsome (hnot.1 b')⟩

theorem search_eq_none_iff {β : Type} {pattern : List Char → Option β}
    {begins : List Char → β → Prop} (h : ∀ s b, pattern s = some b ↔ begins s b) :
    ∀ s, search pattern s = none ↔ Nowhere begins s := by
  have hnone : ∀ s, pattern s = none ↔ ∀ b, ¬ begins s b := by
    intro s
    simp only [← h]
    cases pattern s <;> simp
  intro s
  induction s with
  | nil => rw [search, nowhere_nil_iff, hnone]
  | cons c cs ih =>
    rw [search, nowhere_cons_iff, ← hnone, ← ih]
    cases pattern (c :: cs) <;> simp

/-- What is left behind the characters of a class. -/
theorem dropWhile_eq_iff {p : Char → Bool} {s r : List Char} :
    s.dropWhile p = r ↔ ∃ ws, s = ws ++ r ∧ (∀ c ∈ ws, p c = true) ∧ ∀ c ∈ r.head?, p c = false := by
  induction s with
  | nil =>
    rw [List.dropWhile_nil]
    constructor
    · rintro rfl
      exact ⟨[], rfl, by simp, by simp⟩
    · rintro ⟨ws, h, -, -⟩
      exact (List.append_eq_nil_iff.mp h.symm).2.symm
  | cons a s ih =>
    cases ha : p a with
    | false =>
      rw [List.dropWhile_cons_of_neg (by rw [ha]; decide)]
      constructor
      · rintro rfl
        exact ⟨[], rfl, by simp, by simpa using ha⟩
      · rintro ⟨ws, h, hws, -⟩
        cases ws with
        | nil => exact h
        | cons x ws =>
          rw [List.cons_append] at h
          obtain ⟨rfl, -⟩ := List.cons.inj h
          rw [hws a List.mem_cons_self] at ha
          cases ha
    | true =>
      rw [List.dropWhile_cons_of_pos ha, ih]
      constructor
      · rintro ⟨ws, rfl, hws, hr⟩
        exact ⟨a :: ws, rfl, List.forall_mem_cons.mpr ⟨ha, hws⟩, hr⟩
      · rintro ⟨ws, h, hws, hr⟩
        cases ws with
        | nil =>
          rw [List.nil_append] at h
          have hfalse := hr a (by rw [← h]; rfl)
          rw [ha] at hfalse
          cases hfalse
        | cons x ws =>
          rw [List.cons_append] at h
          obtain ⟨-, rfl⟩ := List.cons.inj h
          exact ⟨ws, rfl, (List.forall_mem_cons.mp hws).2, hr⟩

theorem dropPrefix?_eq_some {s pre r : List Char} : s.dropPrefix? pre = some r ↔ s = pre ++ r := by
  rw [List.dropPrefix?_eq_some_iff]
  constructor
  · rintro ⟨pre', rfl, h⟩
    rw [eq_of_beq h]
  · rintro rfl
    exact ⟨pre, rfl, beq_self_eq_true pre⟩

theorem matchKey_iff (name : String) (s r : List Char) :
    matchKey name s = some r ↔ BehindKey name s r := by
  rw [matchKey]
  constructor
  · intro h
    obtain ⟨r1, h1, hbehind⟩ := Option.bind_eq_some_iff.mp h
    obtain ⟨r2, h2, hrest⟩ := Option.bind_eq_some_iff.mp hbehind
    rw [dropPrefix?_eq_some] at h1 h2
    obtain ⟨ws, hr1, hws, -⟩ := dropWhile_eq_iff.mp h2
    obtain ⟨ws', hr2, hws', hr⟩ := dropWhile_eq_iff.mp (Option.some.inj hrest)
    exact ⟨ws, ws', by rw [h1, hr1, hr2]; simp, hws, hws', hr⟩
  · rintro ⟨ws, ws', rfl, hws, hws', hr⟩
    have h1 : ('"' :: name.toList ++ '"' :: ws ++ ':' :: ws' ++ r).dropPrefix?
        ('"' :: name.toList ++ ['"']) = some (ws ++ ':' :: (ws' ++ r)) := by
      rw [dropPrefix?_eq_some]
      simp
    have h2 : (ws ++ ':' :: (ws' ++ r)).dropWhile Text.isSpace = ':' :: (ws' ++ r) :=
      dropWhile_eq_iff.mpr ⟨ws, rfl, hws, by simp [Text.isSpace]⟩
    have h3 : (ws' ++ r).dropWhile Text.isSpace = r := dropWhile_eq_iff.mpr ⟨ws', rfl, hws', hr⟩
    rw [h1, Option.bind_eq_bind, Option.bind_some, h2,
      show (':' :: (ws' ++ r)).dropPrefix? [':'] = some (ws' ++ r) from dropPrefix?_eq_some.mpr rfl,
      Option.bind_some, h3]
    rfl

/-- What stands behind a key is its end. -/
theorem BehindKey.suffix {name : String} {s r : List Char} (h : BehindKey name s r) : r <:+ s := by
  obtain ⟨ws, ws', rfl, -⟩ := h
  exact List.suffix_append _ _

/-- Something may follow. -/
theorem BehindKey.append {name : String} {s r : List Char} (hr : r ≠ []) (t : List Char) :
    BehindKey name (s ++ t) (r ++ t) ↔ BehindKey name s r := by
  have hhead : (r ++ t).head? = r.head? := by
    cases r with
    | nil => exact absurd rfl hr
    | cons c r => rfl
  constructor
  · rintro ⟨ws, ws', h, hws, hws', hc⟩
    rw [← List.append_assoc] at h
    exact ⟨ws, ws', List.append_cancel_right h, hws, hws', hhead ▸ hc⟩
  · rintro ⟨ws, ws', rfl, hws, hws', hc⟩
    exact ⟨ws, ws', by simp, hws, hws', hhead ▸ hc⟩

theorem takeWhile_split {c : Char} {a : List Char} (ha : c ∉ a) (b : List Char) :
    (a ++ c :: b).takeWhile (· ≠ c) = a := by
  rw [List.takeWhile_append_of_pos, List.takeWhile_cons_of_neg (by simp), List.append_nil]
  intro x hx
  exact decide_eq_true fun h => ha (h ▸ hx)

/-- What the pattern of the usage block matches. -/
theorem matchUsage_iff (s block : List Char) :
    matchUsage s = some block ↔ UsageBlock s block := by
  rw [matchUsage]
  constructor
  · intro h
    obtain ⟨r1, h1, hblock⟩ := Option.bind_eq_some_iff.mp h
    obtain ⟨r2, h2, hif⟩ := Option.bind_eq_some_iff.mp hblock
    rw [matchKey_iff] at h1
    rw [dropPrefix?_eq_some] at h2
    subst h2
    split at hif
    · rename_i hclose
      -- the text is the key and the brace, the inside, the closing brace and a rest
      obtain ⟨inner, rest, rfl, hnot⟩ := List.eq_append_cons_of_mem hclose
      obtain ⟨pre, rfl⟩ := h1.suffix
      cases hif
      have htake : (pre ++ (['{'] ++ (inner ++ '}' :: rest))).take
          ((pre ++ (['{'] ++ (inner ++ '}' :: rest))).length - (inner ++ '}' :: rest).length) =
            pre ++ ['{'] := by
        rw [← List.append_assoc, List.length_append, Nat.add_sub_cancel, List.take_left]
      rw [htake, takeWhile_split hnot]
      have hs : pre ++ (['{'] ++ (inner ++ '}' :: rest)) =
          (pre ++ ['{'] ++ inner ++ ['}']) ++ rest := by simp
      have hr : ['{'] ++ (inner ++ '}' :: rest) = ('{' :: inner ++ ['}']) ++ rest := by simp
      rw [hs, hr, BehindKey.append (by simp)] at h1
      exact ⟨inner, hnot, ⟨rest, hs.symm⟩, h1⟩
    · cases hif
  · rintro ⟨inner, hnot, ⟨rest, rfl⟩, hkey⟩
    have h1 := (BehindKey.append (by simp) rest).mpr hkey
    obtain ⟨pre, rfl⟩ := hkey.suffix
    rw [← matchKey_iff] at h1
    have h2 : ('{' :: inner ++ ['}'] ++ rest).dropPrefix? ['{'] = some (inner ++ '}' :: rest) := by
      rw [dropPrefix?_eq_some]
      simp
    have htake : (pre ++ ('{' :: inner ++ ['}']) ++ rest).take
        ((pre ++ ('{' :: inner ++ ['}']) ++ rest).length - (inner ++ '}' :: rest).length) =
          pre ++ ['{'] := by
      have hs : pre ++ ('{' :: inner ++ ['}']) ++ rest =
          pre ++ ['{'] ++ (inner ++ '}' :: rest) := by simp
      rw [hs, List.length_append, Nat.add_sub_cancel, List.take_left]
    rw [h1, Option.bind_eq_bind, Option.bind_some, h2, Option.bind_some,
      if_pos (by simp), htake, takeWhile_split hnot]
    simp

/-- Characters with a value each, and their values. -/
theorem map_eq_map_some_iff {f : Char → Option ℕ} {l : List Char} {ds : List ℕ} :
    l.map f = ds.map some ↔ (∀ c ∈ l, (f c).isSome = true) ∧ l.filterMap f = ds := by
  induction l generalizing ds with
  | nil => cases ds <;> simp
  | cons c l ih =>
    cases hc : f c with
    | none => cases ds <;> simp [hc]
    | some d =>
      cases ds with
      | nil => simp [hc]
      | cons d' ds =>
        simp only [List.map_cons, hc, List.cons.injEq, ih, List.forall_mem_cons, Option.isSome_some,
          true_and, List.filterMap_cons, Option.some.injEq]
        exact and_left_comm

/-- What the patterns of the token numbers match. -/
theorem matchTokens_iff (env : RelayEnv) (name : String) (s : List Char) (ds : List ℕ) :
    matchTokens env name s = some ds ↔ Numeral env name s ds := by
  rw [matchTokens]
  constructor
  · intro h
    obtain ⟨r, hkey, hif⟩ := Option.bind_eq_some_iff.mp h
    rw [matchKey_iff] at hkey
    have hdigits : ∀ c ∈ r.takeWhile fun c => (env.decimal c).isSome,
        (env.decimal c).isSome = true := by
      intro c hc
      have hsome := List.mem_takeWhile_imp hc
      exact hsome
    have hsplit := List.takeWhile_append_dropWhile (p := fun c => (env.decimal c).isSome) (l := r)
    dsimp only at hif
    split at hif
    · cases hif
    · rename_i hne
      cases hif
      refine ⟨_, _, by rwa [hsplit], fun hnil => hne (by rw [hnil]; rfl),
        map_eq_map_some_iff.mpr ⟨hdigits, rfl⟩, fun c hc => ?_⟩
      obtain ⟨-, -, -, hhead⟩ := dropWhile_eq_iff.mp
        (rfl : r.dropWhile (fun c => (env.decimal c).isSome) = _)
      exact Option.isSome_eq_false_iff.mp (hhead c hc) |> Option.isNone_iff_eq_none.mp
  · rintro ⟨digits, rest, hkey, hne, hds, hrest⟩
    obtain ⟨hsome, hvalues⟩ := map_eq_map_some_iff.mp hds
    have htake : (digits ++ rest).takeWhile (fun c => (env.decimal c).isSome) = digits := by
      rw [List.takeWhile_append_of_pos hsome]
      cases rest with
      | nil => simp
      | cons c rest => rw [List.takeWhile_cons_of_neg (by simp [hrest c rfl]), List.append_nil]
    have hnil : ds.isEmpty = false := by
      cases ds with
      | nil => exact absurd (List.map_eq_nil_iff.mp hds) hne
      | cons d ds => rfl
    rw [(matchKey_iff name s _).mpr hkey, Option.bind_eq_bind, Option.bind_some, htake, hvalues]
    simp [hnil]

/-- What a search for the block finds. -/
theorem search_matchUsage_iff (text block : List Char) :
    search matchUsage text = some block ↔ Leftmost UsageBlock text block :=
  search_eq_some_iff matchUsage_iff block text

/-- What a search for a number finds. -/
theorem search_matchTokens_iff (env : RelayEnv) (name : String) (text : List Char) (ds : List ℕ) :
    search (matchTokens env name) text = some ds ↔ Leftmost (Numeral env name) text ds :=
  search_eq_some_iff (matchTokens_iff env name) ds text

/-- A number is found, converted and counted. -/
theorem firstNumber_iff (env : RelayEnv) (name : String) (text : List Char) (n : ℤ) :
    FirstNumber env name text n ↔
      ∃ k, groupInt (search (matchTokens env name) text) = .ok k ∧
        (∀ m, k = some m → env.takes m = true) ∧ (k.getD 0 : ℤ) = n := by
  rw [FirstNumber, ← search_eq_none_iff (matchTokens_iff env name)]
  simp only [← search_matchTokens_iff]
  cases search (matchTokens env name) text with
  | none =>
    constructor
    · rintro (⟨ds, h, -⟩ | ⟨-, rfl⟩)
      · cases h
      · exact ⟨none, rfl, nofun, rfl⟩
    · rintro ⟨k, hk, -, rfl⟩
      cases hk
      exact .inr ⟨rfl, rfl⟩
  | some ds =>
    by_cases h : Text.maxStrDigits < ds.length
    · simp [groupInt, h, Nat.not_le_of_lt h]
    · simp [groupInt, h, Nat.le_of_not_lt h]

/-! ### The tail -/

theorem trimTail_of_fits {texts : List (List Char)} (h : Fits texts) : trimTail texts = texts := by
  cases texts with
  | nil => rfl
  | cons text texts =>
    rw [trimTail, if_neg]
    rintro (hlen | hsum)
    · exact absurd h.1 (Nat.not_le_of_lt hlen)
    · exact absurd h.2 (Nat.not_le_of_lt hsum)

theorem trimTail_of_not_fits {text : List Char} {texts : List (List Char)}
    (h : ¬ Fits (text :: texts)) : trimTail (text :: texts) = trimTail texts := by
  rw [trimTail, if_pos]
  by_contra hnot
  rw [not_or, Nat.not_lt, Nat.not_lt] at hnot
  exact h hnot

/-- **The tail is the longest end of the texts that fits.** -/
theorem longestSuffix_trimTail (texts : List (List Char)) :
    LongestSuffix Fits texts (trimTail texts) := by
  induction texts with
  | nil => exact .self ⟨by decide, by decide⟩
  | cons text texts ih =>
    by_cases h : Fits (text :: texts)
    · rw [trimTail_of_fits h]
      exact .self h
    · rw [trimTail_of_not_fits h]
      exact .cons h ih

section

variable {env : RelayEnv} {chunk : List UInt8} {chunks read : List (List UInt8)}

theorem readChunks_nil_iff : ReadChunks env [] read ↔ read = [] := by
  constructor
  · exact fun h => List.prefix_nil.mp h.isPrefix
  · rintro rfl
    exact ⟨List.prefix_rfl, by simp, fun _ => rfl⟩

/-- The first chunk is read, and behind one that cannot be taken nothing is. -/
theorem readChunks_cons_iff : ReadChunks env (chunk :: chunks) read ↔
    ∃ read', read = chunk :: read' ∧
      ((ChunkFits env chunk ∧ ReadChunks env chunks read') ∨ ¬ ChunkFits env chunk ∧ read' = []) := by
  constructor
  · rintro ⟨hbegins, hfits, hstops⟩
    cases read with
    | nil => cases hstops (by simp)
    | cons chunk' read' =>
      obtain ⟨rfl, hbegins'⟩ := List.cons_prefix_cons.mp hbegins
      refine ⟨read', rfl, ?_⟩
      by_cases hchunk : ChunkFits env chunk'
      · refine .inl ⟨hchunk, hbegins', fun c hc => hfits c ?_, fun hall => ?_⟩
        · cases read' with
          | nil => cases hc
          | cons c' read' => exact List.mem_cons_of_mem _ hc
        · exact (List.cons.inj (hstops (List.forall_mem_cons.mpr ⟨hchunk, hall⟩))).2
      · refine .inr ⟨hchunk, ?_⟩
        cases read' with
        | nil => rfl
        | cons c' read' => exact absurd (hfits chunk' List.mem_cons_self) hchunk
  · rintro ⟨read', rfl, ⟨hchunk, hbegins, hfits, hstops⟩ | ⟨hchunk, rfl⟩⟩
    · refine ⟨List.cons_prefix_cons.mpr ⟨rfl, hbegins⟩, fun c hc => ?_, fun hall => ?_⟩
      · cases read' with
        | nil => cases hc
        | cons c' read' => exact (List.mem_cons.mp hc).elim (fun h => h ▸ hchunk) (hfits c)
      · rw [hstops fun c hc => hall c (List.mem_cons_of_mem _ hc)]
    · exact ⟨List.cons_prefix_cons.mpr ⟨rfl, List.nil_prefix⟩, by simp,
        fun hall => absurd (hall chunk List.mem_cons_self) hchunk⟩

theorem exists_readChunks (env : RelayEnv) : ∀ chunks, ∃ read, ReadChunks env chunks read
  | [] => ⟨[], readChunks_nil_iff.mpr rfl⟩
  | chunk :: chunks => by
    obtain ⟨read, h⟩ := exists_readChunks env chunks
    by_cases hchunk : ChunkFits env chunk
    · exact ⟨chunk :: read, readChunks_cons_iff.mpr ⟨read, rfl, .inl ⟨hchunk, h⟩⟩⟩
    · exact ⟨[chunk], readChunks_cons_iff.mpr ⟨[], rfl, .inr ⟨hchunk, rfl⟩⟩⟩

/-- The tail holds the end of the chunks that are read. -/
theorem relayChunks_tail_read {path : String} (hw : watched path = true) :
    ∀ {chunks read : List (List UInt8)}, ReadChunks env chunks read →
      ∀ (s : Serving) (texts : List (List Char)), s.tail = trimTail texts →
        (relayChunks env path s chunks).serving.tail =
          trimTail (texts ++ read.map Text.decodeReplace) := by
  intro chunks
  induction chunks with
  | nil =>
    intro read hread s texts hs
    rw [readChunks_nil_iff.mp hread, List.map_nil, List.append_nil]
    exact hs
  | cons chunk chunks ih =>
    intro read hread s texts hs
    obtain ⟨read', rfl, hcases⟩ := readChunks_cons_iff.mp hread
    have htail := takeChunk_tail env path s chunk
    have hraised := takeChunk_raised_iff env path s chunk
    rw [if_pos hw, hs, trimTail_append] at htail
    rw [List.map_cons, List.append_cons, relayChunks]
    split
    · rename_i s' e he
      rw [he] at htail hraised
      rcases hcases with ⟨hchunk, -⟩ | ⟨-, rfl⟩
      · exact absurd (hraised.mpr fun _ => hchunk) (by simp)
      · rw [List.map_nil, List.append_nil]
        exact htail
    · rename_i s' he
      rw [he] at htail hraised
      rcases hcases with ⟨-, hread'⟩ | ⟨hchunk, -⟩
      · exact ih hread' s' _ htail
      · exact absurd (hraised.mp rfl hw) hchunk

/-- The text that is searched is that of the tail. -/
theorem windowText_iff (path : String) (chunks : List (List UInt8)) (w : List Char) :
    WindowText env path chunks w ↔ w = (relayChunks env path {} chunks).serving.tail.flatten := by
  rw [WindowText]
  split
  · rename_i hw
    constructor
    · rintro ⟨read, texts, hread, htexts, rfl⟩
      rw [relayChunks_tail_read hw hread {} [] rfl, List.nil_append,
        htexts.unique (longestSuffix_trimTail _)]
    · rintro rfl
      obtain ⟨read, hread⟩ := exists_readChunks env chunks
      refine ⟨read, _, hread, longestSuffix_trimTail _, ?_⟩
      rw [relayChunks_tail_read hw hread {} [] rfl, List.nil_append]
  · rename_i hw
    rw [relayChunks_tail_of_not env path ((Bool.not_eq_true _).mp hw)]
    rfl

end

/-! ### What is recorded -/

section

variable (env : RelayEnv) (ctx : RelayContext)

/-- The numbers of a usage block, when they are counted. -/
theorem countUsage_numbers {prompt completion : Option ℕ} {tokens : Option (ℕ × ℕ)}
    (h : (countUsage env ctx prompt completion).2 = .ok tokens) :
    (tokens.map Prod.fst).getD 0 = prompt.getD 0 ∧
      (tokens.map Prod.snd).getD 0 = completion.getD 0 := by
  rw [countUsage] at h
  split at h
  · cases h
  · cases h
  · cases h
    cases prompt <;> cases completion <;> simp

/-- What `_record_usage` gives is what the text says. -/
theorem recordUsage_iff (tail : List (List Char)) (p c : ℤ) :
    (∃ tokens, (recordUsage env ctx tail).2 = .ok tokens ∧
      ((tokens.map Prod.fst).getD 0 : ℤ) = p ∧ ((tokens.map Prod.snd).getD 0 : ℤ) = c) ↔
      Says env tail.flatten p c := by
  rw [Says, recordUsage, ← search_eq_none_iff matchUsage_iff]
  simp only [← search_matchUsage_iff]
  cases search matchUsage tail.flatten with
  | none =>
    constructor
    · rintro ⟨tokens, h, rfl, rfl⟩
      cases h
      exact .inr ⟨rfl, rfl, rfl⟩
    · rintro (⟨block, h, -⟩ | ⟨-, rfl, rfl⟩)
      · cases h
      · exact ⟨none, rfl, rfl, rfl⟩
  | some block =>
    simp only [Option.some.injEq, reduceCtorEq, false_and, or_false, exists_eq_left',
      firstNumber_iff]
    cases groupInt (search (matchTokens env "prompt_tokens") block) with
    | error e => simp
    | ok prompt =>
      cases groupInt (search (matchTokens env "completion_tokens") block) with
      | error e => simp
      | ok completion =>
        simp only [Except.ok.injEq, exists_eq_left']
        constructor
        · rintro ⟨tokens, h, rfl, rfl⟩
          obtain ⟨hprompt, hcompletion⟩ := (countUsage_ok_iff env ctx _ _).mp ⟨tokens, h⟩
          obtain ⟨h1, h2⟩ := countUsage_numbers env ctx h
          exact ⟨⟨hprompt, by rw [h1]⟩, hcompletion, by rw [h2]⟩
        · rintro ⟨⟨hprompt, rfl⟩, hcompletion, rfl⟩
          obtain ⟨tokens, h⟩ := (countUsage_ok_iff env ctx _ _).mpr ⟨hprompt, hcompletion⟩
          obtain ⟨h1, h2⟩ := countUsage_numbers env ctx h
          exact ⟨tokens, h, by rw [h1], by rw [h2]⟩

theorem settle_records_iff (yielded : List (List UInt8)) (s : Serving) (completed : Bool)
    (outcome : RelayOutcome) (underWay : Option Raised) (p c : ℤ) :
    RecordsTokens (settle env ctx yielded s completed outcome underWay) p c ↔
      Says env s.tail.flatten p c := by
  rw [← recordUsage_iff env ctx, RecordsTokens]
  cases hr : recordUsage env ctx s.tail with
  | mk samples result =>
    cases result with
    | error e => simp [settle_of_error env ctx hr]
    | ok tokens =>
      obtain ⟨times, hsettle⟩ := settle_of_ok env ctx hr yielded completed outcome underWay
      simp [hsettle]

/-- **The numbers that are recorded** are those of the text that is searched, however the response
ends. -/
theorem recordsTokens_iff (path : String) (chunks : List (List UInt8)) (ending : StreamEnd)
    (p c : ℤ) :
    RecordsTokens (relay env ctx path chunks ending) p c ↔
      ∃ w, WindowText env path chunks w ∧ Says env w p c := by
  simp only [windowText_iff, exists_eq_left]
  rw [relay]
  split
  · rename_i yielded s e hr
    rw [settle_records_iff, hr]
  · rename_i yielded s hr
    rw [hr]
    cases ending <;> exact settle_records_iff ..

end

/-- An event with a usage object. -/
def usageEvent (completion : String) : String :=
  "data: \x7b\"usage\": \x7b\"prompt_tokens\": 5, \"completion_tokens\": " ++ completion ++ "\x7d\x7d\n\n"

end Inferna
