import Inferna.Lib.JsonWrite

/-!
# The baseline of the parity bench

`bench/parity.py` writes the baseline cell of one run as a line of JSON and reads it back in the
next.  The writer adds the error rate to the fields of the cell; the reader hands every member
of the line to the constructor, which takes the fields and nothing else.

A float is the literal that stands for it, so that JSON keeps it; what the division of the error
rate gives is the parameter `quotient`.  The ratios and the verdicts of a run are functions of
its measured cells and the baseline cell.

## Main definitions

* `Cell`, `Cell.asDict` — a measured configuration, and the object written for it.
* `Cell.ofDict` — the constructor, called with the members of an object.
* `writeLine`, `readLine` — the two ends of the line.
* `readBaseline`, `selectBaseline`, `writeBaseline` — what `main` does with the file.

## Main results

* `ofDict_fields` — the fields alone make the cell again.
* `readLine_writeLine` — a written line is refused for its error rate.
* `baseline_readable_iff` — **no line reads back**, and a second run has the baseline of the
  first only if neither has one.
-/

namespace Inferna.Parity

open Json

/-! ### Cells -/

/-- A float. -/
structure Decimal where
  neg : Bool
  m : ℕ
  e : ℤ
  deriving DecidableEq, Repr

/-- `1.0`. -/
def Decimal.one : Decimal := ⟨false, 1, 0⟩

/-- One measured configuration. -/
structure Cell where
  configuration : String
  mode : String
  nodes : ℤ
  gpus : ℤ
  environment : String
  ttftP50Ms : Option Decimal
  ttftP95Ms : Option Decimal
  itlP95Ms : Option Decimal
  e2eP50Ms : Option Decimal
  tokensPerSecond : Option Decimal
  requests : ℤ
  errors : ℤ
  deriving DecidableEq, Repr

/-- The names of the fields, in the order of the class. -/
def fieldNames : List String :=
  ["configuration", "mode", "nodes", "gpus", "environment", "ttft_p50_ms", "ttft_p95_ms",
    "itl_p95_ms", "e2e_p50_ms", "tokens_per_second", "requests", "errors"]

/-- A float or `None`. -/
def Decimal.scalar : Option Decimal → Scalar
  | none => .null
  | some x => .float x.neg x.m x.e

/-- The fields under their names. -/
def Cell.fields (c : Cell) : List (String × Scalar) :=
  [("configuration", .str c.configuration), ("mode", .str c.mode), ("nodes", .int c.nodes),
    ("gpus", .int c.gpus), ("environment", .str c.environment),
    ("ttft_p50_ms", Decimal.scalar c.ttftP50Ms), ("ttft_p95_ms", Decimal.scalar c.ttftP95Ms),
    ("itl_p95_ms", Decimal.scalar c.itlP95Ms), ("e2e_p50_ms", Decimal.scalar c.e2eP50Ms),
    ("tokens_per_second", Decimal.scalar c.tokensPerSecond), ("requests", .int c.requests),
    ("errors", .int c.errors)]

/-- `Cell.error_rate`. -/
def Cell.errorRate (quotient : ℤ → ℤ → Decimal) (c : Cell) : Decimal :=
  if c.requests ≠ 0 then quotient c.errors c.requests else Decimal.one

/-- `Cell.as_dict`. -/
def Cell.asDict (quotient : ℤ → ℤ → Decimal) (c : Cell) : List (String × Scalar) :=
  c.fields ++ [("error_rate", Decimal.scalar (some (c.errorRate quotient)))]

/-! ### The constructor -/

/-- What reading a baseline raises. -/
inductive ReadError
  /-- What `json.loads` raises. -/
  | json (e : LoadsError)
  /-- `TypeError`: the line is no object. -/
  | notMapping
  /-- `TypeError`: got an unexpected keyword argument. -/
  | unexpectedKeyword (name : List ℕ)
  /-- `TypeError`: missing a required argument. -/
  | missingArgument (name : String)
  /-- A value of another type than the field's, which the class stores as it is. -/
  | otherType
  deriving DecidableEq, Repr

/-- A text value. -/
def asString : Json → Option String
  | .str s => some (String.ofList (s.map Char.ofNat))
  | _ => none

/-- An integer value. -/
def asInt : Json → Option ℤ
  | .int n => some n
  | _ => none

/-- A float value or `None`. -/
def asDecimal : Json → Option (Option Decimal)
  | .null => some none
  | .float neg m e => some (some ⟨neg, m, e⟩)
  | _ => none

/-- The cell of the fields' values. -/
def Cell.ofValues (members : List (List ℕ × Json)) : Option Cell := do
  return {
    configuration := ← asString (Json.get members "configuration")
    mode := ← asString (Json.get members "mode")
    nodes := ← asInt (Json.get members "nodes")
    gpus := ← asInt (Json.get members "gpus")
    environment := ← asString (Json.get members "environment")
    ttftP50Ms := ← asDecimal (Json.get members "ttft_p50_ms")
    ttftP95Ms := ← asDecimal (Json.get members "ttft_p95_ms")
    itlP95Ms := ← asDecimal (Json.get members "itl_p95_ms")
    e2eP50Ms := ← asDecimal (Json.get members "e2e_p50_ms")
    tokensPerSecond := ← asDecimal (Json.get members "tokens_per_second")
    requests := ← asInt (Json.get members "requests")
    errors := ← asInt (Json.get members "errors") }

/-- `Cell(**members)`. -/
def Cell.ofDict (members : List (List ℕ × Json)) : Except ReadError Cell :=
  match members.find? fun m => !(fieldNames.map codePoints).contains m.1 with
  | some m => .error (.unexpectedKeyword m.1)
  | none =>
    match fieldNames.find? fun f => !(members.map (·.1)).contains (codePoints f) with
    | some f => .error (.missingArgument f)
    | none => (Cell.ofValues members).elim (.error .otherType) .ok

/-! ### Lines and files -/

/-- `json.dumps(cell.as_dict(), separators=(",", ":"))`. -/
def writeLine (quotient : ℤ → ℤ → Decimal) (c : Cell) : Option (List Char) :=
  dumps (c.asDict quotient)

/-- `Cell(**json.loads(line))`; the interpreter's stack has room for `depth + 1` levels. -/
def readLine (depth : ℕ) (line : List Char) : Except ReadError Cell :=
  match loads (depth + 1) line with
  | .ok (.obj members) => Cell.ofDict members
  | .ok _ => .error .notMapping
  | .error e => .error (.json e)

/-- The baseline that `main` reads from the file: its first line that is not blank. -/
def readBaseline (depth : ℕ) (file : List Char) : Except ReadError (Option Cell) :=
  match (Text.splitlines file).find? fun line => !(Text.strip line).isEmpty with
  | none => .ok none
  | some line => (readLine depth line).map some

/-- The baseline of a run: a measured cell takes the place of what was read. -/
def selectBaseline (baseline : Option Cell) (measured : List (String × Cell)) : Option Cell :=
  measured.foldl (fun b m => if m.1 = "baseline" ∨ (m.1 = "1x8" ∧ b = none) then some m.2 else b)
    baseline

/-- The text that `main` writes when there is no file yet. -/
def writeBaseline (quotient : ℤ → ℤ → Decimal) : Option Cell → Option (List Char)
  | none => some []
  | some c => (writeLine quotient c).map (· ++ ['\n'])

/-! ### Reading what was written -/

/-- The line of a cell is accepted, and gives the cell. -/
def RoundTrips (quotient : ℤ → ℤ → Decimal) (depth : ℕ) (c : Cell) : Prop :=
  ∃ line, writeLine quotient c = some line ∧ readLine depth line = .ok c

/-- A run that finds no file and a run that finds the file of the first have one baseline. -/
def SameBaseline (quotient : ℤ → ℤ → Decimal) (depth : ℕ) (measured : List (String × Cell)) :
    Prop :=
  ∃ file, writeBaseline quotient (selectBaseline none measured) = some file ∧
    (readBaseline depth file).map (selectBaseline · measured) = .ok (selectBaseline none measured)

/-- The members a reader finds. -/
def loaded (members : List (String × Scalar)) : List (List ℕ × Json) :=
  members.map fun m => (codePoints m.1, m.2.json)

/-- The members of a cell are called like its fields. -/
theorem keys_fields (c : Cell) : (loaded c.fields).map (·.1) = fieldNames.map codePoints := by
  have hnames : c.fields.map (·.1) = fieldNames := rfl
  rw [← hnames, loaded, List.map_map, List.map_map]
  rfl

theorem nodup_fieldNames : (fieldNames.map codePoints).Nodup := by decide +kernel

theorem errorRate_notMem_fieldNames : codePoints "error_rate" ∉ fieldNames.map codePoints := by
  decide +kernel

/-- A member is found under its name, if no other has the name. -/
theorem get_of_mem {members : List (List ℕ × Json)} (hnd : (members.map (·.1)).Nodup) {key : String}
    {v : Json} (h : (codePoints key, v) ∈ members) : Json.get members key = v := by
  have hrev : (members.reverse.map (·.1)).Nodup := by
    rw [List.map_reverse]
    exact List.nodup_reverse.mpr hnd
  unfold Json.get
  cases hf : members.reverse.find? fun m => m.1 = codePoints key with
  | none => exact absurd (decide_eq_true rfl) (List.find?_eq_none.mp hf _ (List.mem_reverse.mpr h))
  | some m =>
    have hkey := List.find?_some hf
    rw [decide_eq_true_eq] at hkey
    have hsame := List.inj_on_of_nodup_map hrev (List.mem_of_find?_eq_some hf)
      (List.mem_reverse.mpr h) hkey
    rw [hsame]

theorem asString_json (s : String) : asString (Scalar.str s).json = some s := by
  have hchars : (codePoints s).map Char.ofNat = s.toList := by
    unfold codePoints
    rw [List.map_map]
    exact (List.map_congr_left fun c _ => Char.ofNat_toNat c).trans (List.map_id _)
  rw [Scalar.json, asString, hchars, String.ofList_toList]

theorem asInt_json (n : ℤ) : asInt (Scalar.int n).json = some n := rfl

theorem asDecimal_json (x : Option Decimal) : asDecimal (Decimal.scalar x).json = some x := by
  cases x <;> rfl

/-- The constructor has a parameter for each field. -/
theorem find?_unexpected_fields (c : Cell) : (loaded c.fields).find?
    (fun m => !(fieldNames.map codePoints).contains m.1) = none := by
  refine List.find?_eq_none.mpr fun m hm => ?_
  rw [Bool.not_eq_true, Bool.not_eq_false', List.contains_iff_mem, ← keys_fields c]
  exact List.mem_map_of_mem hm

/-- **The fields alone make the cell again.** -/
theorem ofDict_fields (c : Cell) : Cell.ofDict (loaded c.fields) = .ok c := by
  have hnd : ((loaded c.fields).map (·.1)).Nodup := keys_fields c ▸ nodup_fieldNames
  have hunexpected := find?_unexpected_fields c
  have hmissing : fieldNames.find? (fun f => !((loaded c.fields).map (·.1)).contains
      (codePoints f)) = none := by
    refine List.find?_eq_none.mpr fun f hf => ?_
    rw [Bool.not_eq_true, Bool.not_eq_false', List.contains_iff_mem, keys_fields]
    exact List.mem_map_of_mem hf
  have hget : ∀ m ∈ c.fields, Json.get (loaded c.fields) m.1 = m.2.json := fun m hm =>
    get_of_mem hnd (List.mem_map_of_mem hm)
  -- from here only what the members hold under each name counts
  generalize loaded c.fields = members at hunexpected hmissing hget ⊢
  simp only [Cell.fields, List.forall_mem_cons, List.not_mem_nil, false_implies, implies_true,
    and_true] at hget
  obtain ⟨h1, h2, h3, h4, h5, h6, h7, h8, h9, h10, h11, h12⟩ := hget
  have hvalues : Cell.ofValues members = some c := by
    simp only [Cell.ofValues, h1, h2, h3, h4, h5, h6, h7, h8, h9, h10, h11, h12, asString_json,
      asInt_json, asDecimal_json, bind, Option.bind, pure]
  rw [Cell.ofDict, hunexpected]
  simp only [hmissing, hvalues, Option.elim_some]

/-- **A line that is written is refused**: the constructor has no `error_rate`. -/
theorem readLine_writeLine {quotient : ℤ → ℤ → Decimal} {c : Cell} {line : List Char}
    (h : writeLine quotient c = some line) (depth : ℕ) :
    readLine depth line = .error (.unexpectedKeyword (codePoints "error_rate")) := by
  have hsplit : loaded (c.asDict quotient) = loaded c.fields ++
      [(codePoints "error_rate", (Decimal.scalar (some (c.errorRate quotient))).json)] := rfl
  rw [readLine, loads_dumps h depth]
  change Cell.ofDict (loaded (c.asDict quotient)) = _
  have hnot : (fieldNames.map codePoints).contains (codePoints "error_rate") = false :=
    Bool.eq_false_iff.mpr fun h => errorRate_notMem_fieldNames (List.contains_iff_mem.mp h)
  rw [Cell.ofDict, hsplit, List.find?_append, find?_unexpected_fields, Option.none_or,
    List.find?_cons, hnot]
  rfl

/-! ### Reading the file -/

/-- A printable character ends no line. -/
theorem isLineBreak_of_printable {c : Char} (h : Printable c) : Text.isLineBreak c = false := by
  obtain ⟨h1, h2⟩ := h
  simp only [Text.isLineBreak, Bool.or_eq_false_iff, Bool.and_eq_false_imp, decide_eq_true_eq,
    decide_eq_false_iff_not, beq_eq_false_iff_ne]
  refine ⟨⟨⟨⟨?_, ?_⟩, ?_⟩, ?_⟩, ?_⟩ <;> omega

/-- A text of one line. -/
theorem splitlinesFrom_line (cs : List Char) : ∀ line : List Char,
    (∀ c ∈ cs, Text.isLineBreak c = false) →
      Text.splitlinesFrom line (cs ++ ['\n']) = [line.reverse ++ cs] := by
  induction cs with
  | nil =>
    intro line _
    rw [List.nil_append, List.append_nil]
    rfl
  | cons c cs ih =>
    intro line h
    have hc := h c List.mem_cons_self
    have hr : c ≠ '\r' := by
      rintro rfl
      cases hc
    rw [List.cons_append, Text.splitlinesFrom.eq_3 _ _ _ (fun _ heq _ => hr heq), hc]
    simp only [Bool.false_eq_true, if_false]
    rw [ih _ fun x hx => h x (List.mem_cons_of_mem _ hx)]
    simp

/-- A text with a character that is not blank is not blank. -/
theorem strip_ne_nil {s : List Char} {c : Char} (hc : c ∈ s) (hspace : Text.isSpace c = false) :
    (Text.strip s).isEmpty = false := by
  rw [List.isEmpty_eq_false_iff]
  intro hnil
  rw [Text.strip, Text.stripBy, List.reverse_eq_nil_iff, List.dropWhile_eq_nil_iff] at hnil
  have hleft : c ∈ s.dropWhile Text.isSpace := by
    clear hnil
    induction s with
    | nil => exact absurd hc List.not_mem_nil
    | cons x xs ih =>
      rw [List.dropWhile_cons]
      split
      · rename_i hx
        rcases List.mem_cons.mp hc with rfl | hc
        · rw [hspace] at hx
          cases hx
        · exact ih hc
      · exact hc
  have := hnil c (List.mem_reverse.mpr hleft)
  rw [hspace] at this
  cases this

/-- The file of a baseline is refused. -/
theorem readBaseline_line {quotient : ℤ → ℤ → Decimal} {c : Cell} {line : List Char}
    (h : writeLine quotient c = some line) (depth : ℕ) :
    readBaseline depth (line ++ ['\n']) =
      .error (.unexpectedKeyword (codePoints "error_rate")) := by
  have hlines : Text.splitlines (line ++ ['\n']) = [line] :=
    splitlinesFrom_line line [] fun c hc => isLineBreak_of_printable (printable_dumps h c hc)
  have hbrace : '{' ∈ line := by
    unfold writeLine dumps at h
    split at h
    · injection h with h
      exact h ▸ List.mem_cons_self
    · cases h
  have hblank := strip_ne_nil hbrace (by decide)
  rw [readBaseline, hlines, List.find?_cons_of_pos (by rw [hblank]; rfl)]
  simp only [readLine_writeLine h depth]
  rfl

/-- The baseline that is selected without a file is a measured cell with one of two labels. -/
theorem selectBaseline_none_iff (measured : List (String × Cell)) :
    selectBaseline none measured = none ↔
      ∀ m ∈ measured, m.1 ≠ "baseline" ∧ m.1 ≠ "1x8" := by
  -- a baseline that is there is only ever replaced
  have hsome : ∀ (ms : List (String × Cell)) (c : Cell), selectBaseline (some c) ms ≠ none := by
    intro ms
    induction ms with
    | nil => exact fun c => Option.some_ne_none c
    | cons m ms ih =>
      intro c
      unfold selectBaseline
      rw [List.foldl_cons]
      split
      · exact ih m.2
      · exact ih c
  induction measured with
  | nil => exact ⟨fun _ _ h => absurd h List.not_mem_nil, fun _ => rfl⟩
  | cons m ms ih =>
    unfold selectBaseline
    rw [List.foldl_cons, List.forall_mem_cons]
    split
    · rename_i hm
      refine ⟨fun h => absurd h (hsome ms m.2), ?_⟩
      rintro ⟨⟨hb, h1⟩, -⟩
      rcases hm with hm | ⟨hm, -⟩
      · exact absurd hm hb
      · exact absurd hm h1
    · rename_i hm
      constructor
      · exact fun h => ⟨⟨fun heq => hm (Or.inl heq), fun heq => hm (Or.inr ⟨heq, rfl⟩)⟩, ih.mp h⟩
      · exact fun h => ih.mpr h.2

theorem not_roundTrips (quotient : ℤ → ℤ → Decimal) (depth : ℕ) (c : Cell) :
    ¬ RoundTrips quotient depth c := by
  rintro ⟨line, hline, hread⟩
  rw [readLine_writeLine hline] at hread
  cases hread

/-- **No saved baseline can be read back.**  The line of a cell is refused, whatever the cell;
and a second run has the baseline of the first exactly if the first has recorded none. -/
theorem baseline_readable_iff (quotient : ℤ → ℤ → Decimal) (depth : ℕ) :
    (∀ c, ¬ RoundTrips quotient depth c) ∧
      ∀ measured, SameBaseline quotient depth measured ↔
        ∀ m ∈ measured, m.1 ≠ "baseline" ∧ m.1 ≠ "1x8" := by
  refine ⟨not_roundTrips quotient depth, fun measured => ?_⟩
  rw [← selectBaseline_none_iff]
  constructor
  · rintro ⟨file, hfile, hread⟩
    cases hb : selectBaseline none measured with
    | none => rfl
    -- a run with a baseline writes a line, and the next run fails on it
    | some c =>
      rw [hb] at hfile
      obtain ⟨line, hline, rfl⟩ := Option.map_eq_some_iff.mp hfile
      rw [readBaseline_line hline] at hread
      cases hread
  · intro hnone
    refine ⟨[], by rw [hnone]; rfl, ?_⟩
    change Except.ok (selectBaseline none measured) = _
    rfl

/-- A measured baseline. -/
def sampleCell : Cell where
  configuration := "baseline"
  mode := "single"
  nodes := 1
  gpus := 4
  environment := "hardware"
  ttftP50Ms := some ⟨false, 2105, -1⟩
  ttftP95Ms := some ⟨false, 4200, -1⟩
  itlP95Ms := none
  e2eP50Ms := none
  tokensPerSecond := some ⟨false, 425, -1⟩
  requests := 12
  errors := 0

/-- **The cell of a run on hardware does not read back.** -/
theorem sampleCell_refused : ¬ ∀ c, RoundTrips (fun _ _ => ⟨false, 0, 0⟩) 0 c :=
  fun h => not_roundTrips _ _ sampleCell (h sampleCell)

end Inferna.Parity
