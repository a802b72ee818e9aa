import Inferna.Lib.JsonText
import Inferna.Lib.PyEq
import Inferna.Lib.Search

/-!
# Scoring the coding tasks

`check_answer` of `bench/coding.py` scores the text that a model has answered with, and
`run_tasks` scores one answer after the other.  A `json_schema` check reads the answer as JSON;
an answer that is not JSON is searched for what lies from its first brace to its last, and that
is read with no second chance.  An exception in a check ends the run, and with it what was
scored before.

The texts are lists of characters.  A compiled regular expression is what its `search` finds,
and a pytest run what `_run_pytest` says; neither looks at anything but the answer.

## Main definitions

* `Check`, `JsonCheck` — the check definitions.
* `searchBraces`, `checkJson`, `checkAnswer` — `check_answer`.
* `Task`, `TaskOutcome`, `runTasks` — `run_tasks`.
* `FirstObject` — the first JSON object in a text.
* `Readable` — what a `json_schema` check can read, without an exception.

## Main results

* `searchBraces_iff` — the search finds the leftmost match, and the longest one there.
* `firstObject_iff` — **what is read from brace to brace is the first object.**
* `checkAnswer_ok_iff` — which answers are scored.
* `answers_scored_iff` — **when every answer is scored, by its first object.**
-/

namespace Inferna.Coding

open Json

/-! ### Checks -/

/-- The names of types in a schema. -/
inductive ExpectedType
  | int
  | str
  | float
  | bool
  deriving DecidableEq, Repr

/-- The name. -/
def ExpectedType.text : ExpectedType → String
  | .int => "int"
  | .str => "str"
  | .float => "float"
  | .bool => "bool"

/-- `isinstance`.  A `bool` is an `int`. -/
def ExpectedType.isInstance : ExpectedType → Json → Bool
  | .int, .int _ => true
  | .int, .bool _ => true
  | .str, .str _ => true
  | .float, v => v.floatValue.isSome
  | .bool, .bool _ => true
  | _, _ => false

/-- The `schema` and the `equals` of a check. -/
structure JsonCheck where
  schema : Dict String ExpectedType
  equals : Dict String Json := Dict.empty

/-- A check definition. -/
inductive Check
  | containsAll (needles forbid : List String)
  | oneOf (allowed : List String)
  | equalsNormalized (expected : String)
  /-- `search` is that of the compiled pattern. -/
  | regex (search : List Char → Bool) (forbid : List String) (maxLength : Option ℤ)
  | jsonSchema (c : JsonCheck)
  | pytest (testSource : String)
  | other (kind : String)

/-- What the checks run on. -/
structure Harness where
  py : PyText
  /-- How deep arrays and objects nest before the scanner gives up. -/
  depth : ℕ
  /-- How many comparisons can be under way. -/
  compares : ℕ
  /-- `_run_pytest`. -/
  runPytest : String → List Char → Bool × String

/-- `passed` and `reason`. -/
abbrev Verdict := Bool × String

/-- `needle in text`. -/
def occurs (text : List Char) (needle : String) : Bool := needle.toList <:+: text

/-- `', '.join(needles)`. -/
def joined (needles : List String) : String := ", ".intercalate needles

/-- `repr` of a text. -/
def quoted (h : Harness) (s : List Char) : String :=
  String.ofList (h.py.strRepr (s.map Char.toNat))

/-- `re.search(r"\{.*\}", text, re.DOTALL)`.  If nothing closes the first brace, nothing closes
a later one. -/
def searchBraces (text : List Char) : Option (List Char) := do
  let (_, s) ← Text.partition '{' text
  let (x, _) ← Text.rpartition '}' s
  return '{' :: (x ++ ['}'])

/-- The first key of the schema that is missing, or has a value of another type. -/
def schemaFault (members : List (List ℕ × Json)) (schema : List (String × ExpectedType)) :
    Option String :=
  schema.findSome? fun e =>
    match (dictOf members).get? (codePoints e.1) with
    | none => some ("missing key " ++ e.1)
    | some v => if e.2.isInstance v then none else some (e.1 ++ " is not " ++ e.2.text)

/-- What is not there is a `RecursionError`. -/
def orRecursion {α : Type} (x : Option α) : Except LoadsError α :=
  x.elim (.error .recursion) .ok

/-- The loop over `equals`. -/
def checkEquals (h : Harness) (members : List (List ℕ × Json)) :
    List (String × Json) → Except LoadsError Verdict
  | [] => .ok (true, "json schema satisfied")
  | (key, expected) :: rest => do
    if ← orRecursion (pyEq h.compares (get members key) expected) then
      checkEquals h members rest
    else
      let shown ← orRecursion (h.py.repr h.py.levels (get members key))
      let wanted ← orRecursion (h.py.repr h.py.levels expected)
      return (false, key ++ " == " ++ String.ofList shown ++ ", expected " ++
        String.ofList wanted)

/-- What is said of a payload. -/
def checkPayload (h : Harness) (c : JsonCheck) : Json → Except LoadsError Verdict
  | .obj members =>
    match schemaFault members c.schema.entries with
    | some reason => .ok (false, reason)
    | none => checkEquals h members c.equals.entries
  | _ => .ok (false, "answer is not a JSON object")

/-- A `json_schema` check. -/
def checkJson (h : Harness) (c : JsonCheck) (text : List Char) : Except LoadsError Verdict :=
  match loads h.depth text with
  | .ok payload => checkPayload h c payload
  | .error .decode =>
    match searchBraces text with
    | none => .ok (false, "no JSON object in the answer")
    | some m => loads h.depth m >>= checkPayload h c
  | .error e => .error e

/-- `check_answer`. -/
def checkAnswer (h : Harness) (allowCodeExecution : Bool) (check : Check) (answer : List Char) :
    Except LoadsError Verdict :=
  let text := Text.strip answer
  match check with
  | .containsAll needles forbid =>
    let missing := needles.filter fun n => !occurs text n
    let forbidden := forbid.filter (occurs text)
    if missing ≠ [] then .ok (false, "missing: " ++ joined missing)
    else if forbidden ≠ [] then .ok (false, "forbidden: " ++ joined forbidden)
    else .ok (true, "all required fragments present")
  | .oneOf allowed =>
    if allowed.any fun s => s.toList = text then .ok (true, "answered " ++ String.ofList text)
    else .ok (false, "expected one of [" ++ joined (allowed.map fun s => quoted h s.toList) ++
      "], got " ++ quoted h (text.take 40))
  | .equalsNormalized expected =>
    let expected := Text.strip expected.toList
    if text = expected then .ok (true, "exact match")
    else .ok (false, "expected " ++ quoted h expected)
  | .regex search forbid maxLength =>
    let forbidden := forbid.filter (occurs text)
    let limit := maxLength.getD 0
    if !search text then .ok (false, "pattern not matched")
    else if forbidden ≠ [] then .ok (false, "forbidden: " ++ joined forbidden)
    else if limit ≠ 0 ∧ limit < text.length then
      .ok (false, "answer longer than " ++ toString limit ++ " chars")
    else .ok (true, "pattern matched")
  | .jsonSchema c => checkJson h c text
  | .pytest testSource =>
    if allowCodeExecution then .ok (h.runPytest testSource text)
    else .ok (false, "skipped: code execution not allowed (--allow-code-execution)")
  | .other kind => .ok (false, "unknown check kind: " ++ kind)

/-! ### A run -/

/-- A task. -/
structure Task where
  id : String
  prompt : String
  maxTokens : ℤ
  check : Check

/-- What `chat` gives for a task. -/
structure RequestResult where
  status : ℤ
  content : List Char := []
  error : Option String := none
  deriving DecidableEq, Repr

/-- `RequestResult.ok`. -/
def RequestResult.ok (r : RequestResult) : Bool := r.status = 200 && r.error.isNone

/-- `result.error or result.status`. -/
def RequestResult.failure (r : RequestResult) : String :=
  match r.error.filter (· ≠ "") with
  | some e => e
  | none => toString r.status

/-- An outcome. -/
structure TaskOutcome where
  task : Task
  passed : Bool
  reason : String
  result : RequestResult
  detail : List Char

/-- One task, with what `chat` gives for it. -/
def scoreTask (h : Harness) (allowCodeExecution : Bool) (task : Task) (result : RequestResult) :
    Except LoadsError TaskOutcome :=
  if result.ok then do
    let (passed, reason) ← checkAnswer h allowCodeExecution task.check result.content
    return { task, passed, reason, result, detail := result.content.take 400 }
  else
    let reason := "request failed: " ++ result.failure
    return { task, passed := false, reason, result, detail := [] }

/-- `run_tasks`: the outcomes of the summary. -/
def runTasks (h : Harness) (allowCodeExecution : Bool) (answers : List (Task × RequestResult)) :
    Except LoadsError (List TaskOutcome) :=
  answers.foldlM (fun outcomes a => do
    let outcome ← scoreTask h allowCodeExecution a.1 a.2
    return outcomes ++ [outcome]) []

/-! ### What is claimed of a text -/

/-- A JSON object begins here. -/
def ObjectHere (rest : List Char) (members : List (List ℕ × Json)) : Prop :=
  ∃ depth rest', scanOnce depth rest = .ok (.obj members, rest')

/-- The first JSON object in the text. -/
def FirstObject (text : List Char) (members : List (List ℕ × Json)) : Prop :=
  Search.Leftmost ObjectHere text members

/-- The text is no JSON document itself. -/
def Prose (text : List Char) : Prop := ∀ depth v, loads depth text ≠ .ok v

/-- The verdict on an answer: the one of its first object, if it is prose with objects in it. -/
structure Scores (h : Harness) (check : Check) (answer : List Char) (v : Verdict) : Prop where
  answered : checkAnswer h false check answer = .ok v
  firstObject : ∀ c members, check = .jsonSchema c → Prose (Text.strip answer) →
    FirstObject (Text.strip answer) members → checkPayload h c (.obj members) = .ok v

/-- The expected values can be compared and shown. -/
def JsonCheck.WellFormed (h : Harness) (c : JsonCheck) : Prop :=
  ∀ e ∈ c.equals.entries, Within h.compares e.2 ∧ Within h.py.levels e.2

/-- The definition is well formed. -/
def Check.WellFormed (h : Harness) : Check → Prop
  | .jsonSchema c => c.WellFormed h
  | _ => True

/-- The value under the first key with another value than the expected one. -/
def firstMismatch (h : Harness) (members : List (List ℕ × Json))
    (equals : List (String × Json)) : Option Json :=
  (equals.find? fun e => pyEq h.compares (get members e.1) e.2 = some false).map fun e =>
    get members e.1

/-- The value that a reason would show can be shown. -/
def JsonCheck.Shows (h : Harness) (c : JsonCheck) : Json → Prop
  | .obj members => schemaFault members c.schema.entries = none →
    ∀ v ∈ firstMismatch h members c.equals.entries, Within h.py.levels v
  | _ => True

/-- A match of the expression begins here. -/
def BracedHere (s m : List Char) : Prop :=
  ∃ x rest, s = '{' :: (x ++ '}' :: rest) ∧ '}' ∉ rest ∧ m = '{' :: (x ++ ['}'])

/-- What lies from the first brace of the text to the last. -/
def Braced (text m : List Char) : Prop := Search.Leftmost BracedHere text m

/-- **What a `json_schema` check can read**: the text is JSON; or it is not, and what lies from
its first brace to its last is, if there is such a thing. -/
def JsonCheck.Readable (h : Harness) (c : JsonCheck) (text : List Char) : Prop :=
  (∃ v, loads h.depth text = .ok v ∧ c.Shows h v) ∨
    loads h.depth text = .error .decode ∧
      ∀ m, Braced text m → ∃ v, loads h.depth m = .ok v ∧ c.Shows h v

/-- The other checks do not read. -/
def Check.Readable (h : Harness) (answer : List Char) : Check → Prop
  | .jsonSchema c => c.Readable h (Text.strip answer)
  | _ => True

/-! ### From brace to brace -/

theorem head_of_bracedHere (s m : List Char) (h : BracedHere s m) : s.head? = some '{' := by
  obtain ⟨x, rest, rfl, -, -⟩ := h
  rfl

theorem head_of_objectHere (s : List Char) (members : List (List ℕ × Json))
    (h : ObjectHere s members) : s.head? = some '{' := by
  obtain ⟨depth, rest, hs⟩ := h
  obtain ⟨u, rfl, -⟩ := scanOnce_object hs
  rfl

/-- What the search gives, and where it stands. -/
theorem searchBraces_eq_some {text m : List Char} (h : searchBraces text = some m) :
    ∃ a x rest, text = a ++ '{' :: (x ++ '}' :: rest) ∧ '{' ∉ a ∧ '}' ∉ rest ∧
      m = '{' :: (x ++ ['}']) := by
  rw [searchBraces] at h
  obtain ⟨⟨a, s⟩, hopen, h⟩ := Option.bind_eq_some_iff.mp h
  obtain ⟨⟨x, rest⟩, hclose, h⟩ := Option.bind_eq_some_iff.mp h
  obtain rfl := Option.some.inj h
  obtain ⟨rfl, ha⟩ := Text.partition_eq_some hopen
  obtain ⟨hs, hrest⟩ := Text.rpartition_eq_some hclose
  exact ⟨a, x, rest, by rw [hs], ha, hrest, rfl⟩

theorem searchBraces_append {a x rest : List Char} (ha : '{' ∉ a) (hrest : '}' ∉ rest) :
    searchBraces (a ++ '{' :: (x ++ '}' :: rest)) = some ('{' :: (x ++ ['}'])) := by
  rw [searchBraces, Text.partition_append _ ha]
  change (Text.rpartition '}' _).bind _ = _
  rw [Text.rpartition_append x hrest]
  rfl

/-- The first brace that something closes is the first brace. -/
theorem exists_first_brace (pre x rest : List Char) :
    ∃ a y, pre ++ '{' :: (x ++ '}' :: rest) = a ++ '{' :: (y ++ '}' :: rest) ∧ '{' ∉ a := by
  induction pre with
  | nil => exact ⟨[], x, rfl, List.not_mem_nil⟩
  | cons c pre ih =>
    by_cases hc : c = '{'
    · exact ⟨[], pre ++ '{' :: x, by simp [hc], List.not_mem_nil⟩
    · obtain ⟨a, y, heq, ha⟩ := ih
      refine ⟨c :: a, y, by rw [List.cons_append, heq, List.cons_append], ?_⟩
      rw [List.mem_cons, not_or]
      exact ⟨Ne.symm hc, ha⟩

/-- **The search finds the leftmost match, and the longest one there.** -/
theorem searchBraces_iff (text m : List Char) : searchBraces text = some m ↔ Braced text m := by
  have hbraced : ∀ {a x rest : List Char}, '{' ∉ a → '}' ∉ rest → ∀ m,
      Braced (a ++ '{' :: (x ++ '}' :: rest)) m ↔ m = '{' :: (x ++ ['}']) := by
    intro a x rest ha hrest m
    have hhere : BracedHere ('{' :: (x ++ '}' :: rest)) ('{' :: (x ++ ['}'])) :=
      ⟨x, rest, rfl, hrest, rfl⟩
    rw [Braced, Search.leftmost_marker_iff head_of_bracedHere ha ⟨_, hhere⟩]
    constructor
    · rintro ⟨x', rest', heq, hrest', rfl⟩
      -- the last brace is the same in both
      have hlast := Text.rpartition_append x hrest
      rw [(List.cons.inj heq).2, Text.rpartition_append x' hrest'] at hlast
      obtain ⟨rfl, -⟩ := Prod.mk.inj (Option.some.inj hlast)
      rfl
    · rintro rfl
      exact hhere
  constructor
  · intro h
    obtain ⟨a, x, rest, rfl, ha, hrest, rfl⟩ := searchBraces_eq_some h
    exact (hbraced ha hrest _).mpr rfl
  · intro h
    obtain ⟨s, ⟨pre, rfl⟩, x, rest, rfl, hrest, -⟩ := h.exists_suffix
    obtain ⟨a, y, heq, ha⟩ := exists_first_brace pre x rest
    rw [heq] at h ⊢
    rw [(hbraced ha hrest m).mp h]
    exact searchBraces_append ha hrest

/-- What is read from the first brace of a text is its first object. -/
theorem firstObject_append_iff {a s : List Char} (ha : '{' ∉ a) {depth : ℕ} {rest : List Char}
    {members members' : List (List ℕ × Json)}
    (h : scanOnce depth ('{' :: s) = .ok (.obj members, rest)) :
    FirstObject (a ++ '{' :: s) members' ↔ members' = members := by
  have hhere : ObjectHere ('{' :: s) members := ⟨depth, rest, h⟩
  rw [FirstObject, Search.leftmost_marker_iff head_of_objectHere ha ⟨_, hhere⟩]
  constructor
  · rintro ⟨depth', rest', h'⟩
    exact scanOnce_object_unique h' h
  · rintro rfl
    exact hhere

/-- **What is read from the first brace to the last is the first object.** -/
theorem firstObject_iff {depth : ℕ} {text m : List Char} {v : Json} (hm : Braced text m)
    (h : loads depth m = .ok v) :
    ∃ members, v = .obj members ∧ ∀ members', FirstObject text members' ↔ members' = members := by
  obtain ⟨a, x, rest, rfl, ha, -, rfl⟩ := searchBraces_eq_some ((searchBraces_iff text m).mpr hm)
  obtain ⟨members, rfl, hread⟩ := loads_object h
  exact ⟨members, rfl, fun members' => firstObject_append_iff ha (hread rest)⟩

/-- A text in which nothing lies between braces has no object. -/
theorem not_firstObject {text : List Char} (h : searchBraces text = none)
    (members : List (List ℕ × Json)) : ¬ FirstObject text members := by
  intro hfirst
  obtain ⟨s, ⟨pre, rfl⟩, depth, rest, hs⟩ := Search.Leftmost.exists_suffix hfirst
  obtain ⟨u, rfl, -⟩ := scanOnce_object hs
  -- the last closing brace may stand behind the object's
  obtain ⟨y, rest', hclose, hrest'⟩ : ∃ y rest', u ++ '}' :: rest = y ++ '}' :: rest' ∧
      '}' ∉ rest' := by
    cases hr : Text.rpartition '}' (u ++ '}' :: rest) with
    | none => exact absurd (by simp) ((Text.rpartition_eq_none_iff _ _).mp hr)
    | some p => exact ⟨p.1, p.2, Text.rpartition_eq_some hr⟩
  obtain ⟨a, z, heq, ha⟩ := exists_first_brace pre y rest'
  rw [hclose, heq, searchBraces_append ha hrest'] at h
  cases h

/-! ### The verdicts -/

/-- **The loop over `equals`** ends with a verdict if the first mismatch can be shown. -/
theorem checkEquals_ok_iff (h : Harness) (members : List (List ℕ × Json)) :
    ∀ {equals : List (String × Json)},
      (∀ e ∈ equals, Within h.compares e.2 ∧ Within h.py.levels e.2) →
        ((∃ v, checkEquals h members equals = .ok v) ↔
          ∀ v ∈ firstMismatch h members equals, Within h.py.levels v)
  | [], _ => by
    simp [checkEquals, firstMismatch]
  | (key, expected) :: rest, hwf => by
    rw [List.forall_mem_cons] at hwf
    obtain ⟨⟨hcompare, hshow⟩, hwf⟩ := hwf
    have ih := checkEquals_ok_iff h members hwf
    obtain ⟨b, hb⟩ := Option.isSome_iff_exists.mp (pyEq_isSome hcompare (get members key))
    obtain ⟨wanted, hwanted⟩ :=
      Option.isSome_iff_exists.mp ((h.py.repr_isSome_iff h.py.levels expected).mpr hshow)
    cases b with
    | true =>
      have hmismatch : firstMismatch h members ((key, expected) :: rest) =
          firstMismatch h members rest := by
        simp [firstMismatch, hb]
      have hloop : checkEquals h members ((key, expected) :: rest) =
          checkEquals h members rest := by
        rw [checkEquals, hb]
        rfl
      rw [hmismatch, hloop, ih]
    | false =>
      have hmismatch : firstMismatch h members ((key, expected) :: rest) =
          some (get members key) := by
        simp [firstMismatch, hb]
      have hfirst : (∀ v ∈ some (get members key), Within h.py.levels v) ↔
          Within h.py.levels (get members key) := by
        simp
      rw [hmismatch, hfirst, ← h.py.repr_isSome_iff, checkEquals, hb, hwanted]
      cases h.py.repr h.py.levels (get members key) with
      | none => exact iff_of_false (fun ⟨v, hv⟩ => by cases hv) (by simp)
      | some shown => exact iff_of_true ⟨_, rfl⟩ rfl

/-- A payload gets a verdict if what a reason would show of it can be shown. -/
theorem checkPayload_ok_iff {h : Harness} {c : JsonCheck} (hwf : c.WellFormed h) (v : Json) :
    (∃ r, checkPayload h c v = .ok r) ↔ c.Shows h v := by
  cases v with
  | obj members =>
    rw [checkPayload, JsonCheck.Shows]
    cases hfault : schemaFault members c.schema.entries with
    | some reason => exact iff_of_true ⟨_, rfl⟩ fun hnone => by cases hnone
    | none =>
      simp only [forall_const]
      exact checkEquals_ok_iff h members hwf
  | _ => exact iff_of_true ⟨_, rfl⟩ trivial

/-- **A text gets a verdict if the check can read it.** -/
theorem checkJson_ok_iff {h : Harness} {c : JsonCheck} (hwf : c.WellFormed h) (text : List Char) :
    (∃ r, checkJson h c text = .ok r) ↔ c.Readable h text := by
  rw [checkJson, JsonCheck.Readable]
  cases hloads : loads h.depth text with
  | ok payload => simp [checkPayload_ok_iff hwf]
  | error e =>
    cases e with
    | decode =>
      simp only [← searchBraces_iff]
      cases searchBraces text with
      | none => simp
      | some m =>
        cases hm : loads h.depth m with
        | error e => simp [hm, bind, Except.bind]
        | ok payload =>
          simp [hm, bind, Except.bind, checkPayload_ok_iff hwf]
    | intTooLong => simp
    | recursion => simp

/-- **Which answers are scored.** -/
theorem checkAnswer_ok_iff {h : Harness} {check : Check} (hwf : check.WellFormed h)
    (answer : List Char) :
    (∃ v, checkAnswer h false check answer = .ok v) ↔ check.Readable h answer := by
  cases check with
  | jsonSchema c => exact checkJson_ok_iff hwf (Text.strip answer)
  | containsAll | oneOf | equalsNormalized | regex =>
    refine iff_of_true ?_ trivial
    simp only [checkAnswer]
    split_ifs <;> exact ⟨_, rfl⟩
  | pytest | other => exact iff_of_true ⟨_, rfl⟩ trivial

/-- **A verdict on prose is the one of its first object.** -/
theorem checkJson_firstObject {h : Harness} {c : JsonCheck} {text : List Char} {v : Verdict}
    (hv : checkJson h c text = .ok v) (hprose : Prose text) {members : List (List ℕ × Json)}
    (hfirst : FirstObject text members) : checkPayload h c (.obj members) = .ok v := by
  rw [checkJson] at hv
  split at hv
  · rename_i payload hloads
    exact absurd hloads (hprose h.depth payload)
  · split at hv
    · rename_i hnone
      exact absurd hfirst (not_firstObject hnone members)
    · rename_i m hm
      cases hread : loads h.depth m with
      | error e => rw [hread] at hv; cases hv
      | ok payload =>
        rw [hread] at hv
        obtain ⟨members', rfl, hunique⟩ :=
          firstObject_iff ((searchBraces_iff text m).mp hm) hread
        obtain rfl := (hunique members).mp hfirst
        exact hv
  · cases hv

theorem scores_iff {h : Harness} {check : Check} {answer : List Char} {v : Verdict} :
    Scores h check answer v ↔ checkAnswer h false check answer = .ok v := by
  constructor
  · exact fun hv => hv.answered
  · intro hv
    refine ⟨hv, ?_⟩
    rintro c members rfl hprose hfirst
    exact checkJson_firstObject hv hprose hfirst

/-! ### Runs -/

/-- The outcome of a task, with what `chat` gave for it. -/
structure IsOutcome (h : Harness) (a : Task × RequestResult) (o : TaskOutcome) : Prop where
  task : o.task = a.1
  result : o.result = a.2
  scored : a.2.ok = true → Scores h a.1.check a.2.content (o.passed, o.reason)

theorem isOutcome_of_scoreTask {h : Harness} {a : Task × RequestResult} {o : TaskOutcome}
    (ho : scoreTask h false a.1 a.2 = .ok o) : IsOutcome h a o := by
  rw [scoreTask] at ho
  split at ho
  · cases hv : checkAnswer h false a.1.check a.2.content with
    | error e => rw [hv] at ho; cases ho
    | ok v =>
      rw [hv] at ho
      cases ho
      exact ⟨rfl, rfl, fun _ => scores_iff.mpr hv⟩
  · rename_i hok
    cases ho
    exact ⟨rfl, rfl, fun h => absurd h hok⟩

/-- A task is scored unless its check raises. -/
theorem scoreTask_ok_iff {h : Harness} {a : Task × RequestResult}
    (hwf : a.1.check.WellFormed h) :
    (∃ o, scoreTask h false a.1 a.2 = .ok o) ↔
      (a.2.ok = true → a.1.check.Readable h a.2.content) := by
  rw [scoreTask]
  split
  · rename_i hok
    rw [← checkAnswer_ok_iff hwf]
    cases checkAnswer h false a.1.check a.2.content with
    | error e =>
      refine iff_of_false (fun ⟨o, ho⟩ => by cases ho) fun hv => ?_
      obtain ⟨v, hv⟩ := hv hok
      cases hv
    | ok v => exact iff_of_true ⟨_, rfl⟩ fun _ => ⟨v, rfl⟩
  · rename_i hok
    exact iff_of_true ⟨_, rfl⟩ fun h => absurd h hok

/-- **A run has one outcome per task**, in the order of the tasks. -/
theorem foldlM_scoreTask (h : Harness) (allow : Bool) : ∀ {answers : List (Task × RequestResult)}
    {before outcomes : List TaskOutcome},
      answers.foldlM (fun outcomes a => do
        let outcome ← scoreTask h allow a.1 a.2
        return outcomes ++ [outcome]) before = .ok outcomes ↔
      ∃ new, outcomes = before ++ new ∧
        List.Forall₂ (fun a o => scoreTask h allow a.1 a.2 = .ok o) answers new
  | [], before, outcomes => by
    constructor
    · intro hrun
      cases hrun
      exact ⟨[], (List.append_nil _).symm, .nil⟩
    · rintro ⟨new, rfl, hnew⟩
      cases hnew
      rw [List.append_nil]
      rfl
  | a :: answers, before, outcomes => by
    rw [List.foldlM_cons]
    cases ho : scoreTask h allow a.1 a.2 with
    | error e =>
      refine iff_of_false (fun hrun => by cases hrun) ?_
      rintro ⟨new, -, hnew⟩
      cases hnew with
      | cons ha _ => rw [ho] at ha; cases ha
    | ok o =>
      refine (foldlM_scoreTask h allow).trans ?_
      constructor
      · rintro ⟨new, rfl, hnew⟩
        exact ⟨o :: new, by simp, .cons ho hnew⟩
      · rintro ⟨new, rfl, hnew⟩
        cases hnew with
        | cons ha hnew =>
          rw [ho] at ha
          cases ha
          exact ⟨_, by simp, hnew⟩

theorem runTasks_eq_ok_iff {h : Harness} {allow : Bool} {answers : List (Task × RequestResult)}
    {outcomes : List TaskOutcome} :
    runTasks h allow answers = .ok outcomes ↔
      List.Forall₂ (fun a o => scoreTask h allow a.1 a.2 = .ok o) answers outcomes := by
  rw [runTasks, foldlM_scoreTask]
  simp

theorem exists_forall₂_iff {α β : Type} {r : α → β → Prop} : ∀ {l : List α},
    (∃ l', List.Forall₂ r l l') ↔ ∀ a ∈ l, ∃ b, r a b
  | [] => iff_of_true ⟨[], .nil⟩ fun _ h => absurd h List.not_mem_nil
  | a :: l => by
    rw [List.forall_mem_cons, ← exists_forall₂_iff]
    constructor
    · rintro ⟨l', hl⟩
      cases hl with
      | cons ha hl => exact ⟨⟨_, ha⟩, ⟨_, hl⟩⟩
    · rintro ⟨⟨b, hb⟩, ⟨l', hl⟩⟩
      exact ⟨b :: l', .cons hb hl⟩

/-- **When every answer is scored, by its first object**: `check_answer` gives a verdict on the
answers that can be read, and a run has its outcomes if all of them can be. -/
theorem answers_scored_iff (h : Harness) (answers : List (Task × RequestResult))
    (hwf : ∀ a ∈ answers, a.1.check.WellFormed h) :
    (∀ a ∈ answers, (∃ v, Scores h a.1.check a.2.content v) ↔
        a.1.check.Readable h a.2.content) ∧
      ((∃ outcomes, runTasks h false answers = .ok outcomes ∧
          List.Forall₂ (IsOutcome h) answers outcomes) ↔
        ∀ a ∈ answers, a.2.ok = true → a.1.check.Readable h a.2.content) := by
  constructor
  · intro a ha
    simp only [scores_iff]
    exact checkAnswer_ok_iff (hwf a ha) a.2.content
  · have hrun : (∃ outcomes, runTasks h false answers = .ok outcomes ∧
        List.Forall₂ (IsOutcome h) answers outcomes) ↔
          ∀ a ∈ answers, ∃ o, scoreTask h false a.1 a.2 = .ok o := by
      rw [← exists_forall₂_iff]
      constructor
      · rintro ⟨outcomes, hok, -⟩
        exact ⟨outcomes, runTasks_eq_ok_iff.mp hok⟩
      · rintro ⟨outcomes, hscored⟩
        exact ⟨outcomes, runTasks_eq_ok_iff.mpr hscored,
          hscored.imp fun _ _ => isOutcome_of_scoreTask⟩
    rw [hrun]
    exact forall₂_congr fun a ha => scoreTask_ok_iff (hwf a ha)

/-- A check that asks for `n`, and wants it to be 1. -/
def wantsOne : JsonCheck where
  schema := Dict.empty.set "n" .int
  equals := Dict.empty.set "n" (.int 1)

/-- A task with this check. -/
def numberTask : Task := ⟨"n", "Reply with a JSON object.", 16, .jsonSchema wantsOne⟩

/-- An interpreter with room for a hundred of everything. -/
def sampleHarness : Harness where
  py := ⟨fun _ _ _ => [], fun _ => true, 100⟩
  depth := 100
  compares := 100
  runPytest := fun _ _ => (false, "")

theorem wellFormed_numberTask : numberTask.check.WellFormed sampleHarness := by
  intro e he
  obtain rfl := List.mem_singleton.mp he
  exact ⟨trivial, trivial⟩

/-- Prose with one object in it. -/
def oneObject : RequestResult := { status := 200, content := "use \x7b\"n\": 1\x7d.".toList }

/-- One object in prose is scored. -/
theorem oneObject_scored : ∃ outcomes,
    runTasks sampleHarness false [(numberTask, oneObject)] = .ok outcomes ∧
      List.Forall₂ (IsOutcome sampleHarness) [(numberTask, oneObject)] outcomes := by
  refine (answers_scored_iff sampleHarness [(numberTask, oneObject)]
    (List.forall_mem_singleton.mpr wellFormed_numberTask)).2.mpr
      (List.forall_mem_singleton.mpr fun _ => .inr ⟨rfl, fun m hm => ?_⟩)
  have hsearch : searchBraces (Text.strip oneObject.content) =
    some "\x7b\"n\": 1\x7d".toList := rfl
  rw [← searchBraces_iff, hsearch] at hm
  obtain rfl := Option.some.inj hm
  refine ⟨.obj [([110], .int 1)], rfl, fun _ v hv => ?_⟩
  cases hv

/-- Prose with two objects in it. -/
def twoObjects : RequestResult :=
  { status := 200, content := "use \x7b\"n\": 1\x7d or \x7b\"n\": 2\x7d".toList }

/-- **Two objects in prose end the run.**  The first one is as the check wants it; but what is
read goes on to the last brace. -/
theorem twoObjects_unscored :
    numberTask.check.WellFormed sampleHarness ∧ Prose (Text.strip twoObjects.content) ∧
      FirstObject (Text.strip twoObjects.content) [([110], .int 1)] ∧
      checkPayload sampleHarness wantsOne (.obj [([110], .int 1)]) =
        .ok (true, "json schema satisfied") ∧
      checkAnswer sampleHarness false numberTask.check twoObjects.content = .error .decode ∧
      runTasks sampleHarness false [(numberTask, oneObject), (numberTask, twoObjects)] =
        .error .decode := by
  refine ⟨wellFormed_numberTask, ?_, ?_, rfl, rfl, rfl⟩
  · intro depth v hv
    cases depth <;> cases hv
  · have htext : Text.strip twoObjects.content =
        "use ".toList ++ '{' :: "\"n\": 1\x7d or \x7b\"n\": 2\x7d".toList := rfl
    have hscan : scanOnce 100 ('{' :: "\"n\": 1\x7d or \x7b\"n\": 2\x7d".toList) =
      .ok (.obj [([110], .int 1)], " or \x7b\"n\": 2\x7d".toList) := rfl
    have hfree : '{' ∉ "use ".toList := fun hmem =>
      Text.forall_mem_of_all (p := (· ≠ '{')) rfl '{' hmem rfl
    rw [htext]
    exact (firstObject_append_iff hfree hscan).mpr rfl

end Inferna.Coding
