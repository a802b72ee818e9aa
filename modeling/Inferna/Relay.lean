import Inferna.Lib.Json
import Mathlib.Data.Rat.Defs
import Mathlib.Tactic

/-!
# The relay of a response

`_relay` of `api/gateway.py` passes the chunks of an upstream response on to the client.
On the paths of chat completions and embeddings it looks into each chunk first: the text
is kept in a tail buffer, from which `_record_usage` reads the token numbers at the end,
and `_content_deltas` finds the contents in the events of the chunk, for the times of
the first and the following ones.

The clock readings are rational numbers here.  Two things are taken from outside: how
deep the interpreter's stack lets `json.loads` nest, and which amounts a Prometheus
counter takes.

## Main definitions

* `RelayEnv` — the interpreter, the metrics library and the clocks.
* `contentDeltas` — `_content_deltas`.
* `recordUsage` — `_record_usage`.
* `observeServing` — `_observe_serving`.
* `relay` — `_relay`.
* `ChunkFits`, `UsageFits` — the contents that the telemetry can take.

## Main results

* `relay_prefix` — whatever happens, the client gets the first chunks.
* `relay_transparent` — the relay yields the chunks and ends, exactly when the chunks and
  the token numbers at their end are such contents.
-/

namespace Inferna

/-! ### What the relay runs on -/

/-- The exceptions of the relay. -/
inductive Raised
  | typeError
  | valueError
  | recursionError
  | overflowError
  | generatorExit
  deriving DecidableEq, Repr

/-- An integer that converts to a 64-bit floating point number. -/
def fitsFloat (n : ℕ) : Bool := n < 2 ^ 1024 - 2 ^ 970

/-- The interpreter, the metrics library and the clocks. -/
structure RelayEnv where
  /-- The value of a decimal digit, of any script. -/
  decimal : Char → Option ℕ
  /-- How many arrays and objects `json.loads` can enter before the stack is used up. -/
  depth : ℕ
  /-- `Counter.inc` takes the amount. -/
  takes : ℕ → Bool
  /-- A counter holds a floating point number. -/
  fits_of_takes : ∀ n, takes n = true → fitsFloat n = true
  /-- The readings of `time.perf_counter()`, one after the other. -/
  perfCounter : ℕ → ℚ
  /-- `time.monotonic()` when the request is recorded. -/
  monotonic : ℚ

/-- The fields of `UsageContext` that the relay reads. -/
structure RelayContext where
  modelName : String := ""
  engine : String := "unknown"
  parallelism : String := "single"
  started : ℚ := 0
  prefixDigests : List String := []

/-! ### Content deltas -/

/-- What a generator has yielded, and the exception that ended it. -/
structure Deltas where
  yielded : List (List ℕ) := []
  raised : Option Raised := none
  deriving DecidableEq

/-- The payload of an event line; `none` for a line that is skipped. -/
def dataPayload (line : List Char) : Option (List Char) :=
  if "data:".toList.isPrefixOf line then
    let payload := Text.strip (line.drop 5)
    if payload.isEmpty || payload = "[DONE]".toList then none else some payload
  else none

/-- `choice.get(name).get("content")`, or `None` when the member is no object. -/
def contentOf (choice : List (List ℕ × Json)) (name : String) : Json :=
  match Json.get choice name with
  | .obj members => Json.get members "content"
  | _ => .null

/-- The content of a choice: of its delta, or else of its message. -/
def choiceContent : Json → Option (List ℕ)
  | .obj choice =>
    let content := contentOf choice "delta"
    let content := if content.truthy then content else contentOf choice "message"
    match content with
    | .str s => if s.isEmpty then none else some s
    | _ => none
  | _ => none

/-- What `for choice in chunk.get("choices") or []` runs over. -/
def choicesOf (chunk : List (List ℕ × Json)) : Except Raised (List Json) :=
  let choices := Json.get chunk "choices"
  if choices.truthy then
    match choices with
    | .arr items => .ok items
    | .str s => .ok (s.map fun c => .str [c])
    | .obj members => .ok ((members.map Prod.fst).eraseDups.map .str)
    | _ => .error .typeError
  else .ok []

/-- The deltas of one payload. -/
def payloadDeltas (env : RelayEnv) (payload : List Char) : Deltas :=
  match Json.loads env.depth payload with
  | .error .decode => {}
  | .error .intTooLong => { raised := some .valueError }
  | .error .recursion => { raised := some .recursionError }
  | .ok (.obj chunk) =>
    match choicesOf chunk with
    | .error e => { raised := some e }
    | .ok choices => { yielded := choices.filterMap choiceContent }
  | .ok _ => {}

/-- The deltas of the lines. -/
def linesDeltas (env : RelayEnv) : List (List Char) → Deltas
  | [] => {}
  | line :: lines =>
    let d := (dataPayload line).elim {} (payloadDeltas env)
    match d.raised with
    | some e => { yielded := d.yielded, raised := some e }
    | none =>
      let ds := linesDeltas env lines
      { ds with yielded := d.yielded ++ ds.yielded }

/-- `_content_deltas`. -/
def contentDeltas (env : RelayEnv) (text : List Char) : Deltas :=
  linesDeltas env (Text.splitlines text)

/-! ### Usage -/

/-- The metrics the relay writes to. -/
inductive Metric
  | promptTokens
  | completionTokens
  | ttftSeconds
  | interTokenSeconds
  | outputTps
  deriving DecidableEq, Repr

/-- A value a metric was given, under the labels of the request. -/
structure Sample where
  metric : Metric
  labels : List String
  value : ℚ
  deriving DecidableEq, Repr

/-- `pattern.search(text)`, for a pattern that matches at the start of a text. -/
def search {α : Type} (pattern : List Char → Option α) : List Char → Option α
  | [] => pattern []
  | c :: cs =>
    match pattern (c :: cs) with
    | some a => some a
    | none => search pattern cs

/-- `"name"\s*:\s*`, and the text behind it. -/
def matchKey (name : String) (s : List Char) : Option (List Char) := do
  let r ← s.dropPrefix? ('"' :: name.toList ++ ['"'])
  let r ← (r.dropWhile Text.isSpace).dropPrefix? [':']
  return r.dropWhile Text.isSpace

/-- `_USAGE_RE`: the key and everything up to the first closing brace. -/
def matchUsage (s : List Char) : Option (List Char) := do
  let r ← matchKey "usage" s
  let r ← r.dropPrefix? ['{']
  if '}' ∈ r then some (s.take (s.length - r.length) ++ r.takeWhile (· ≠ '}') ++ ['}']) else none

/-- `_PROMPT_TOKENS_RE` and `_COMPLETION_TOKENS_RE`: the digits of the group. -/
def matchTokens (env : RelayEnv) (name : String) (s : List Char) : Option (List ℕ) := do
  let r ← matchKey name s
  let ds := (r.takeWhile fun c => (env.decimal c).isSome).filterMap env.decimal
  if ds.isEmpty then none else some ds

/-- The number of a numeral. -/
def numeral (ds : List ℕ) : ℕ := ds.foldl (fun n d => 10 * n + d) 0

/-- `int(match.group(1)) if match is not None`. -/
def groupInt : Option (List ℕ) → Except Raised (Option ℕ)
  | none => .ok none
  | some ds => if Text.maxStrDigits < ds.length then .error .valueError else .ok (some (numeral ds))

/-- `inferna_tokens.labels(model_name, …).inc(n) if match is not None`. -/
def incTokens (env : RelayEnv) (ctx : RelayContext) (metric : Metric) :
    Option ℕ → List Sample × Option Raised
  | none => ([], none)
  | some n =>
    if env.takes n then ([⟨metric, [ctx.modelName], n⟩], none) else ([], some .overflowError)

/-- `_record_usage` on a usage block. -/
def countUsage (env : RelayEnv) (ctx : RelayContext) (prompt completion : Option ℕ) :
    List Sample × Except Raised (Option (ℕ × ℕ)) :=
  let p := incTokens env ctx .promptTokens prompt
  let c := incTokens env ctx .completionTokens completion
  match p.2, c.2 with
  | some e, _ => (p.1, .error e)
  | none, some e => (p.1 ++ c.1, .error e)
  | none, none =>
    (p.1 ++ c.1, .ok (if prompt.isNone && completion.isNone then none
      else some (prompt.getD 0, completion.getD 0)))

/-- `_record_usage`. -/
def recordUsage (env : RelayEnv) (ctx : RelayContext) (tail : List (List Char)) :
    List Sample × Except Raised (Option (ℕ × ℕ)) :=
  match search matchUsage tail.flatten with
  | none => ([], .ok none)
  | some block =>
    match groupInt (search (matchTokens env "prompt_tokens") block),
      groupInt (search (matchTokens env "completion_tokens") block) with
    | .error e, _ => ([], .error e)
    | .ok _, .error e => ([], .error e)
    | .ok prompt, .ok completion => countUsage env ctx prompt completion

/-! ### The relay -/

/-- The local variables of `_relay`, and how often the clock was read. -/
structure Serving where
  tail : List (List Char) := []
  firstContentAt : Option ℚ := none
  lastContentAt : Option ℚ := none
  itlMs : List ℚ := []
  reads : ℕ := 0

/-- A content delta is seen. -/
def Serving.content (env : RelayEnv) (s : Serving) : Serving :=
  let now := env.perfCounter s.reads
  let s' := { s with lastContentAt := some now, reads := s.reads + 1 }
  match s.firstContentAt with
  | none => { s' with firstContentAt := some now }
  | some _ =>
    -- a reading of zero counts as none
    let last := s.lastContentAt.getD 0
    { s' with itlMs := s.itlMs ++ [if last = 0 then 0 else (now - last) * 1000] }

/-- The buffer after `while len(tail) > 8 or sum(len(c) for c in tail) > 16384`. -/
def trimTail : List (List Char) → List (List Char)
  | [] => []
  | text :: tail =>
    if 8 < (text :: tail).length ∨ 16384 < ((text :: tail).map List.length).sum then trimTail tail
    else text :: tail

/-- The paths whose responses are looked into. -/
def watched (path : String) : Bool :=
  path = "/v1/chat/completions" || path = "/v1/embeddings"

/-- One chunk, up to its `yield`. -/
def takeChunk (env : RelayEnv) (path : String) (s : Serving) (chunk : List UInt8) :
    Serving × Option Raised :=
  if watched path then
    let text := Text.decodeReplace chunk
    let deltas := contentDeltas env text
    let s := { s with tail := trimTail (s.tail ++ [text]) }
    (deltas.yielded.foldl (fun s _ => s.content env) s, deltas.raised)
  else (s, none)

/-- What the loop over the chunks has done. -/
structure Loop where
  yielded : List (List UInt8)
  serving : Serving
  raised : Option Raised

/-- The loop over the chunks. -/
def relayChunks (env : RelayEnv) (path : String) : Serving → List (List UInt8) → Loop
  | s, [] => ⟨[], s, none⟩
  | s, chunk :: chunks =>
    match takeChunk env path s chunk with
    | (s, some e) => ⟨[], s, some e⟩
    | (s, none) =>
      let r := relayChunks env path s chunks
      { r with yielded := chunk :: r.yielded }

/-- `_observe_serving`. -/
def observeServing (env : RelayEnv) (ctx : RelayContext) (tokens : Option (ℕ × ℕ))
    (s : Serving) : List Sample × Option Raised :=
  let labels := [ctx.modelName, ctx.engine, ctx.parallelism]
  let times := (s.firstContentAt.elim [] fun t => [⟨.ttftSeconds, labels, t - ctx.started⟩]) ++
    s.itlMs.map fun ms => ⟨.interTokenSeconds, labels, ms / 1000⟩
  match tokens, s.firstContentAt with
  | some (_, completion), some t =>
    let generationSeconds := env.perfCounter s.reads - t
    if 0 < completion ∧ 0 < generationSeconds then
      -- the division converts the number of tokens
      if fitsFloat completion then
        (times ++ [⟨.outputTps, labels, completion / generationSeconds⟩], none)
      else (times, some .overflowError)
    else (times, none)
  | _, _ => (times, none)

/-- The `outcome` of a request. -/
inductive RelayOutcome
  | ok
  | upstreamError
  | clientDisconnect
  | noUsageChunk
  deriving DecidableEq, Repr

/-- The arguments of `record_request`. -/
structure Recorded where
  tokensIn : ℕ
  tokensOut : ℕ
  latencyMs : ℤ
  outcome : RelayOutcome
  deriving DecidableEq, Repr

/-- What came of a response. -/
structure Relayed where
  /-- The chunks passed on. -/
  yielded : List (List UInt8)
  /-- The exception; `none` when the generator ends. -/
  raised : Option Raised
  samples : List Sample
  /-- What the prefix cache was told. -/
  cached : List String := []
  recorded : Option Recorded := none
  /-- `resp.aclose()` was called. -/
  closed : Bool := false

/-- The `finally` of `_relay`, with the exception that is under way. -/
def settle (env : RelayEnv) (ctx : RelayContext) (yielded : List (List UInt8)) (s : Serving)
    (completed : Bool) (outcome : RelayOutcome) (underWay : Option Raised) : Relayed :=
  match recordUsage env ctx s.tail with
  | (samples, .error e) => { yielded, raised := some e, samples }
  | (samples, .ok tokens) =>
    match observeServing env ctx tokens s with
    | (times, some e) => { yielded, raised := some e, samples := samples ++ times }
    | (times, none) =>
      let latency := (env.monotonic - ctx.started) * 1000
      { yielded
        raised := underWay
        samples := samples ++ times
        cached := ctx.prefixDigests
        recorded := some
          { tokensIn := (tokens.map Prod.fst).getD 0
            tokensOut := (tokens.map Prod.snd).getD 0
            latencyMs := latency.num.tdiv latency.den
            outcome := if completed && tokens.isNone then .noUsageChunk else outcome }
        closed := true }

/-- How a response ends, after its chunks. -/
inductive StreamEnd
  /-- Normally. -/
  | finished
  /-- With a `TransportError` or a `DecodingError`. -/
  | failed
  /-- The client is gone, and the generator is closed at its last `yield`. -/
  | hungUp
  deriving DecidableEq, Repr

/-- `_relay`. -/
def relay (env : RelayEnv) (ctx : RelayContext) (path : String) (chunks : List (List UInt8))
    (ending : StreamEnd) : Relayed :=
  match relayChunks env path {} chunks with
  | ⟨yielded, s, some e⟩ => settle env ctx yielded s false .ok (some e)
  | ⟨yielded, s, none⟩ =>
    match ending with
    | .finished => settle env ctx yielded s true .ok none
    | .failed => settle env ctx yielded s false .upstreamError none
    | .hungUp => settle env ctx yielded s false .clientDisconnect (some .generatorExit)

/-! ### The contents the telemetry can take -/

/-- A value a loop can run over, or one that counts as false: no `true`, and no number but
zero. -/
def Loopable : Json → Prop
  | .bool b => b = false
  | .int n => n = 0
  | .float _ m e => Json.roundsToZero m e = true
  | .nan => False
  | .infinity _ => False
  | .null => True
  | .str _ => True
  | .arr _ => True
  | .obj _ => True

/-- A payload that is no JSON text, or one without a long integer and not nested too
deep; if it is an object, its `choices` can be looped over. -/
def PayloadFits (env : RelayEnv) (payload : List Char) : Prop :=
  match Json.loads env.depth payload with
  | .error e => e = .decode
  | .ok (.obj chunk) => Loopable (Json.get chunk "choices")
  | .ok _ => True

/-- The payloads of a chunk. -/
def ChunkFits (env : RelayEnv) (chunk : List UInt8) : Prop :=
  ∀ line ∈ Text.splitlines (Text.decodeReplace chunk), ∀ payload, dataPayload line = some payload →
    PayloadFits env payload

/-- The token numbers of the usage block in a text: `int` converts them, and a counter
takes them. -/
def UsageFits (env : RelayEnv) (text : List Char) : Prop :=
  ∀ block, search matchUsage text = some block →
    ∀ name ∈ ["prompt_tokens", "completion_tokens"],
      ∀ ds, search (matchTokens env name) block = some ds →
        ds.length ≤ Text.maxStrDigits ∧ env.takes (numeral ds) = true

/-! ### Deltas -/

theorem choicesOf_ok_iff (chunk : List (List ℕ × Json)) :
    (∃ choices, choicesOf chunk = .ok choices) ↔ Loopable (Json.get chunk "choices") := by
  rw [choicesOf]
  -- by the type of the value; `truthy` decides for the scalars
  cases Json.get chunk "choices" with
  | null => simp [Json.truthy, Loopable]
  | bool b => cases b <;> simp [Json.truthy, Loopable]
  | int n => by_cases hn : n = 0 <;> simp [Json.truthy, Loopable, hn]
  | float neg m e => cases hz : Json.roundsToZero m e <;> simp [Json.truthy, Loopable, hz]
  | nan => simp [Json.truthy, Loopable]
  | infinity neg => simp [Json.truthy, Loopable]
  | str s => by_cases hs : s = [] <;> simp [Json.truthy, Loopable, hs]
  | arr items => by_cases hs : items = [] <;> simp [Json.truthy, Loopable, hs]
  | obj members => by_cases hs : members = [] <;> simp [Json.truthy, Loopable, hs]

theorem payloadDeltas_raised_iff (env : RelayEnv) (payload : List Char) :
    (payloadDeltas env payload).raised = none ↔ PayloadFits env payload := by
  rw [payloadDeltas, PayloadFits]
  cases Json.loads env.depth payload with
  | error e => cases e <;> simp
  | ok v =>
    cases v with
    | obj chunk =>
      dsimp only
      rw [← choicesOf_ok_iff]
      cases choicesOf chunk with
      | error e => simp
      | ok choices => simp
    | _ => simp

theorem linesDeltas_raised_iff (env : RelayEnv) (lines : List (List Char)) :
    (linesDeltas env lines).raised = none ↔
      ∀ line ∈ lines, ∀ payload, dataPayload line = some payload → PayloadFits env payload := by
  induction lines with
  | nil => simp [linesDeltas]
  | cons line lines ih =>
    have hline : ((dataPayload line).elim {} (payloadDeltas env)).raised = none ↔
        ∀ payload, dataPayload line = some payload → PayloadFits env payload := by
      cases dataPayload line with
      | none => simp
      | some payload => simpa using payloadDeltas_raised_iff env payload
    rw [List.forall_mem_cons, ← hline, ← ih, linesDeltas]
    dsimp only
    cases ((dataPayload line).elim {} (payloadDeltas env)).raised with
    | none => simp
    | some e => simp

theorem contentDeltas_raised_iff (env : RelayEnv) (chunk : List UInt8) :
    (contentDeltas env (Text.decodeReplace chunk)).raised = none ↔ ChunkFits env chunk :=
  linesDeltas_raised_iff env _

/-! ### The tail buffer -/

theorem trimTail_append (tail : List (List Char)) (text : List Char) :
    trimTail (trimTail tail ++ [text]) = trimTail (tail ++ [text]) := by
  induction tail with
  | nil => rfl
  | cons t tail ih =>
    rw [trimTail]
    split
    · -- the longer buffer is over the limit as well
      rename_i h
      rw [ih, List.cons_append, trimTail, if_pos]
      rcases h with h | h
      · exact .inl (by simp only [List.length_cons, List.length_append] at h ⊢; omega)
      · refine .inr (lt_of_lt_of_le h ?_)
        simp only [List.map_cons, List.map_append, List.sum_cons, List.sum_append]
        omega
    · rfl

@[simp] theorem Serving.content_tail (env : RelayEnv) (s : Serving) :
    (s.content env).tail = s.tail := by
  rw [content]
  cases s.firstContentAt <;> rfl

theorem foldl_content_tail (env : RelayEnv) (deltas : List (List ℕ)) : ∀ (s : Serving),
    (deltas.foldl (fun s _ => s.content env) s).tail = s.tail := by
  induction deltas with
  | nil => intro s; rfl
  | cons d deltas ih =>
    intro s
    rw [List.foldl_cons, ih, Serving.content_tail]

/-! ### The loop over the chunks -/

section Loop

variable (env : RelayEnv) (path : String)

theorem takeChunk_raised_iff (s : Serving) (chunk : List UInt8) :
    (takeChunk env path s chunk).2 = none ↔ (watched path = true → ChunkFits env chunk) := by
  rw [takeChunk]
  split
  · rename_i hw
    simp only [hw, forall_const]
    exact contentDeltas_raised_iff env chunk
  · rename_i hw
    simp [hw]

theorem takeChunk_tail (s : Serving) (chunk : List UInt8) :
    (takeChunk env path s chunk).1.tail =
      if watched path then trimTail (s.tail ++ [Text.decodeReplace chunk]) else s.tail := by
  rw [takeChunk]
  split
  · exact foldl_content_tail env _ _
  · rfl

theorem relayChunks_raised_iff (chunks : List (List UInt8)) : ∀ (s : Serving),
    (relayChunks env path s chunks).raised = none ↔
      (watched path = true → ∀ chunk ∈ chunks, ChunkFits env chunk) := by
  induction chunks with
  | nil => intro s; simp [relayChunks]
  | cons chunk chunks ih =>
    intro s
    have hstep := takeChunk_raised_iff env path s chunk
    rw [relayChunks]
    split
    · rename_i s' e he
      rw [he] at hstep
      simp only [reduceCtorEq, false_iff] at hstep ⊢
      exact fun h => hstep fun hw => h hw chunk List.mem_cons_self
    · rename_i s' he
      rw [he] at hstep
      simp only [true_iff] at hstep
      rw [ih s']
      refine forall_congr' fun hw => ?_
      rw [List.forall_mem_cons]
      exact ⟨fun h => ⟨hstep hw, h⟩, fun h => h.2⟩

/-- The chunks passed on are the first ones, in order, whatever is raised. -/
theorem relayChunks_prefix (chunks : List (List UInt8)) : ∀ (s : Serving),
    (relayChunks env path s chunks).yielded <+: chunks := by
  induction chunks with
  | nil => intro s; exact List.prefix_rfl
  | cons chunk chunks ih =>
    intro s
    rw [relayChunks]
    split
    · exact List.nil_prefix
    · exact List.cons_prefix_cons.mpr ⟨rfl, ih _⟩

theorem relayChunks_yielded (chunks : List (List UInt8)) : ∀ (s : Serving),
    (relayChunks env path s chunks).raised = none →
      (relayChunks env path s chunks).yielded = chunks := by
  induction chunks with
  | nil => intro s _; rfl
  | cons chunk chunks ih =>
    intro s h
    rw [relayChunks] at h ⊢
    split at h
    · cases h
    · exact congrArg (chunk :: ·) (ih _ h)

/-- The buffer holds the end of what was read. -/
theorem relayChunks_tail (hw : watched path = true) (chunks : List (List UInt8)) :
    ∀ (s : Serving) (texts : List (List Char)), s.tail = trimTail texts →
      (relayChunks env path s chunks).raised = none →
      (relayChunks env path s chunks).serving.tail =
        trimTail (texts ++ chunks.map Text.decodeReplace) := by
  induction chunks with
  | nil =>
    intro s texts hs _
    rw [List.map_nil, List.append_nil]
    exact hs
  | cons chunk chunks ih =>
    intro s texts hs h
    have htail := takeChunk_tail env path s chunk
    rw [if_pos hw, hs, trimTail_append] at htail
    rw [relayChunks] at h ⊢
    split at h
    · cases h
    · rename_i s' he
      rw [he] at htail
      rw [List.map_cons, List.append_cons]
      exact ih s' _ htail h

theorem relayChunks_tail_of_not (hw : watched path = false) (chunks : List (List UInt8)) :
    ∀ (s : Serving), (relayChunks env path s chunks).serving = s := by
  induction chunks with
  | nil => intro s; rfl
  | cons chunk chunks ih =>
    intro s
    have hstep : takeChunk env path s chunk = (s, none) := by rw [takeChunk, hw]; rfl
    rw [relayChunks, hstep]
    exact ih s

end Loop

/-! ### Usage and the end of the relay -/

section Settle

variable (env : RelayEnv) (ctx : RelayContext)

/-- A numeral that `int` converts to a number that a counter takes. -/
theorem groupInt_takes_iff (group : Option (List ℕ)) :
    (∃ n, groupInt group = .ok n ∧ ∀ k, n = some k → env.takes k = true) ↔
      ∀ ds, group = some ds → ds.length ≤ Text.maxStrDigits ∧ env.takes (numeral ds) = true := by
  cases group with
  | none => simp [groupInt]
  | some ds =>
    by_cases h : Text.maxStrDigits < ds.length
    · simp [groupInt, h, Nat.not_le_of_lt h]
    · simp [groupInt, h, Nat.le_of_not_lt h]

theorem incTokens_none_iff (metric : Metric) (n : Option ℕ) :
    (incTokens env ctx metric n).2 = none ↔ ∀ k, n = some k → env.takes k = true := by
  cases n with
  | none => simp [incTokens]
  | some k => cases h : env.takes k <;> simp [incTokens, h]

theorem countUsage_ok_iff (prompt completion : Option ℕ) :
    (∃ tokens, (countUsage env ctx prompt completion).2 = .ok tokens) ↔
      (∀ k, prompt = some k → env.takes k = true) ∧
        ∀ k, completion = some k → env.takes k = true := by
  rw [← incTokens_none_iff env ctx .promptTokens, ← incTokens_none_iff env ctx .completionTokens,
    countUsage]
  cases (incTokens env ctx .promptTokens prompt).2 with
  | some e => simp
  | none =>
    cases (incTokens env ctx .completionTokens completion).2 with
    | some e => simp
    | none => simp

theorem recordUsage_ok_iff (tail : List (List Char)) :
    (∃ tokens, (recordUsage env ctx tail).2 = .ok tokens) ↔ UsageFits env tail.flatten := by
  rw [recordUsage, UsageFits]
  cases search matchUsage tail.flatten with
  | none => simp
  | some block =>
    simp only [Option.some.injEq, forall_eq', List.forall_mem_cons, List.not_mem_nil,
      IsEmpty.forall_iff, implies_true, and_true]
    rw [← groupInt_takes_iff, ← groupInt_takes_iff]
    cases groupInt (search (matchTokens env "prompt_tokens") block) with
    | error e => simp
    | ok prompt =>
      cases groupInt (search (matchTokens env "completion_tokens") block) with
      | error e => simp
      | ok completion => simpa using countUsage_ok_iff env ctx prompt completion

/-- The counters have taken the number of tokens that is divided. -/
theorem fits_of_countUsage {prompt completion : Option ℕ} {p c : ℕ}
    (h : (countUsage env ctx prompt completion).2 = .ok (some (p, c))) : fitsFloat c = true := by
  have hc := ((countUsage_ok_iff env ctx prompt completion).mp ⟨_, h⟩).2
  rw [countUsage] at h
  split at h
  · cases h
  · cases h
  · simp only [Except.ok.injEq, Option.ite_none_left_eq_some, Option.some.injEq,
      Prod.mk.injEq] at h
    obtain ⟨-, -, rfl⟩ := h
    cases completion with
    | none => decide +kernel
    | some k => exact env.fits_of_takes k (hc k rfl)

theorem fits_of_recordUsage {tail : List (List Char)} {p c : ℕ}
    (h : (recordUsage env ctx tail).2 = .ok (some (p, c))) : fitsFloat c = true := by
  rw [recordUsage] at h
  split at h
  · cases h
  · split at h
    · cases h
    · cases h
    · exact fits_of_countUsage env ctx h

theorem observeServing_raised {tokens : Option (ℕ × ℕ)}
    (h : ∀ p c, tokens = some (p, c) → fitsFloat c = true) (s : Serving) :
    (observeServing env ctx tokens s).2 = none := by
  rw [observeServing.eq_def]
  dsimp only
  split
  · rename_i p c t _
    rw [h p c rfl]
    split <;> rfl
  · rfl

/-- Tokens that have been recorded are observed. -/
theorem observeServing_of_recordUsage {tail : List (List Char)} {samples : List Sample}
    {tokens : Option (ℕ × ℕ)} (h : recordUsage env ctx tail = (samples, .ok tokens))
    (s : Serving) : (observeServing env ctx tokens s).2 = none := by
  refine observeServing_raised env ctx ?_ s
  rintro p c rfl
  exact fits_of_recordUsage env ctx (congrArg Prod.snd h)

/-- What `_record_usage` raises goes to the caller. -/
theorem settle_of_error {s : Serving} {samples : List Sample} {e : Raised}
    (h : recordUsage env ctx s.tail = (samples, .error e)) (yielded : List (List UInt8))
    (completed : Bool) (outcome : RelayOutcome) (underWay : Option Raised) :
    settle env ctx yielded s completed outcome underWay =
      { yielded, raised := some e, samples } := by
  rw [settle, h]

/-- Tokens that have been read are observed and recorded. -/
theorem settle_of_ok {s : Serving} {samples : List Sample} {tokens : Option (ℕ × ℕ)}
    (h : recordUsage env ctx s.tail = (samples, .ok tokens)) (yielded : List (List UInt8))
    (completed : Bool) (outcome : RelayOutcome) (underWay : Option Raised) :
    ∃ times, settle env ctx yielded s completed outcome underWay =
      { yielded
        raised := underWay
        samples := samples ++ times
        cached := ctx.prefixDigests
        recorded := some
          { tokensIn := (tokens.map Prod.fst).getD 0
            tokensOut := (tokens.map Prod.snd).getD 0
            latencyMs := ((env.monotonic - ctx.started) * 1000).num.tdiv
              ((env.monotonic - ctx.started) * 1000).den
            outcome := if completed && tokens.isNone then .noUsageChunk else outcome }
        closed := true } := by
  have hobs := observeServing_of_recordUsage env ctx h s
  cases ho : observeServing env ctx tokens s with
  | mk times raised =>
    rw [ho] at hobs
    obtain rfl : raised = none := hobs
    refine ⟨times, ?_⟩
    rw [settle, h]
    dsimp only
    rw [ho]

theorem settle_yielded (yielded : List (List UInt8)) (s : Serving) (completed : Bool)
    (outcome : RelayOutcome) (underWay : Option Raised) :
    (settle env ctx yielded s completed outcome underWay).yielded = yielded := by
  rw [settle]
  split
  · rfl
  · split <;> rfl

theorem settle_raised_iff (yielded : List (List UInt8)) (s : Serving) (completed : Bool)
    (outcome : RelayOutcome) (underWay : Option Raised) :
    (settle env ctx yielded s completed outcome underWay).raised = none ↔
      underWay = none ∧ UsageFits env s.tail.flatten := by
  rw [← recordUsage_ok_iff env ctx]
  cases hr : recordUsage env ctx s.tail with
  | mk samples result =>
    cases result with
    | error e => simp [settle_of_error env ctx hr]
    | ok tokens =>
      obtain ⟨times, hsettle⟩ := settle_of_ok env ctx hr yielded completed outcome underWay
      simp [hsettle]

end Settle

/-! ### Transparency -/

/-- However the response and the telemetry end, the client gets the first chunks, in order
and unchanged. -/
theorem relay_prefix (env : RelayEnv) (ctx : RelayContext) (path : String)
    (chunks : List (List UInt8)) (ending : StreamEnd) :
    (relay env ctx path chunks ending).yielded <+: chunks := by
  have h := relayChunks_prefix env path chunks {}
  rw [relay]
  split
  · rename_i yielded s e hr
    rw [hr] at h
    rw [settle_yielded]
    exact h
  · rename_i yielded s hr
    rw [hr] at h
    cases ending with
    | finished => rw [settle_yielded]; exact h
    | failed => rw [settle_yielded]; exact h
    | hungUp => rw [settle_yielded]; exact h

theorem usageFits_nil (env : RelayEnv) : UsageFits env [] := by
  intro block h
  cases h

/-- The relay passes every chunk on and ends, exactly when the telemetry can take the
contents: those of each chunk, and the token numbers in the last eight chunks and 16384
characters at most.  On the other paths it always does. -/
theorem relay_transparent (env : RelayEnv) (ctx : RelayContext) (path : String)
    (chunks : List (List UInt8)) :
    ((relay env ctx path chunks .finished).yielded = chunks ∧
        (relay env ctx path chunks .finished).raised = none) ↔
      (watched path = true → (∀ chunk ∈ chunks, ChunkFits env chunk) ∧
        UsageFits env (trimTail (chunks.map Text.decodeReplace)).flatten) := by
  have hraised := relayChunks_raised_iff env path chunks {}
  have hyielded := relayChunks_yielded env path chunks {}
  have htail := fun hw => relayChunks_tail env path hw chunks {} [] rfl
  rw [relay]
  split
  · rename_i yielded s e hr
    rw [hr] at hraised
    rw [settle_raised_iff]
    simp only [reduceCtorEq, false_iff, false_and, and_false] at hraised ⊢
    exact fun h => hraised fun hw => (h hw).1
  · rename_i yielded s hr
    rw [hr] at hraised hyielded htail
    simp only [true_iff, forall_const] at hraised hyielded htail
    rw [settle_yielded, settle_raised_iff]
    simp only [hyielded, true_and]
    cases hw : watched path with
    | true =>
      rw [htail hw, List.nil_append]
      simp only [forall_const]
      exact ⟨fun h => ⟨hraised hw, h⟩, fun h => h.2⟩
    | false =>
      have hs := relayChunks_tail_of_not env path hw chunks {}
      rw [hr] at hs
      rw [show s = {} from hs]
      exact ⟨fun _ h => absurd h Bool.false_ne_true, fun _ => usageFits_nil env⟩

/-- ASCII digits, a stack for 900 levels, and counters that take every float. -/
def plainEnv : RelayEnv where
  decimal c := if c.isDigit then some (c.toNat - '0'.toNat) else none
  depth := 900
  takes := fitsFloat
  fits_of_takes _ h := h
  perfCounter n := n
  monotonic := 0

/-- The bytes of an ASCII text. -/
def asciiBytes (s : String) : List UInt8 := s.toList.map fun c => UInt8.ofNat c.toNat

/-- An event whose `choices` is a number: the chunk and all after it are lost. -/
theorem choices_number_lost :
    ¬ ∀ (env : RelayEnv) (ctx : RelayContext) (path : String) (chunks : List (List UInt8)),
      (relay env ctx path chunks .finished).yielded = chunks ∧
        (relay env ctx path chunks .finished).raised = none := by
  intro h
  have hrun := h plainEnv {} "/v1/chat/completions"
    [asciiBytes "data: \x7b\"choices\": 5\x7d\n\n", asciiBytes "data: [DONE]\n\n"]
  revert hrun
  decide +kernel

end Inferna
