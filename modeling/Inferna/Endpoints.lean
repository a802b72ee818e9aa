import Inferna.Gateway
import Inferna.Stamps
import Inferna.Lib.Json

/-!
# The endpoints of the gateway

`chat_completions`, `embeddings` and `audio_transcriptions` do the same: the dependency
`get_api_key` looks the key up, the body is read up to a limit, the name of the model is
taken from it, and `_proxy` does the rest.  An `OpenAIError` of any of these is answered by
`openai_error_handler`.

A request here goes through all of it.  It keeps the increments of `inferna_requests` that its
own steps have made, and the status of the response that the gateway has made for it.

`json.loads` is that of the library, behind a decoding of the bytes that is a parameter.  What
the parser of multipart bodies finds is an input of the step, like the rows of the database.

## Main definitions

* `Endpoint`, `HttpRequest` — the three endpoints, and what is read of a request.
* `authorize` — the decision of `get_api_key`.
* `readBody`, `addChunk` — `_read_body_limited`.
* `extractModel` — `_extract_model`.
* `frontStep` — one step of a request up to `_proxy`.
* `Served`, `Door.step` — a request from its arrival, and all of them, interleaved.
-/

namespace Inferna

/-! ### Errors -/

namespace OpenAIError

/-- It carries a `WWW-Authenticate` header, which nothing here reads. -/
def invalidApiKey : OpenAIError :=
  ⟨401, "Invalid API key", "invalid_request_error", "invalid_api_key"⟩

def insufficientScope : OpenAIError :=
  ⟨403, "API key lacks inference scope", "invalid_request_error", "insufficient_scope"⟩

def bodyTooLarge : OpenAIError :=
  ⟨413, "request body too large", "invalid_request_error", "body_too_large"⟩

def invalidMultipart : OpenAIError :=
  ⟨400, "invalid multipart body", "invalid_request_error", "invalid_request_error"⟩

def missingModel : OpenAIError :=
  ⟨400, "missing 'model' field", "invalid_request_error", "missing_model"⟩

end OpenAIError

/-! ### Requests -/

/-- The endpoints that proxy. -/
inductive Endpoint
  | chatCompletions
  | embeddings
  | audioTranscriptions
  deriving DecidableEq, Repr

/-- `MAX_BODY_SIZE`. -/
def maxBodySize : ℕ := 100 * 1024 * 1024

/-- `MAX_JSON_BODY_SIZE`. -/
def maxJsonBodySize : ℕ := 10 * 1024 * 1024

/-- The path of an endpoint.  All begin with `/v1`, which `openai_error_handler` asks for. -/
def Endpoint.path : Endpoint → List Char
  | .chatCompletions => "/v1/chat/completions".toList
  | .embeddings => "/v1/embeddings".toList
  | .audioTranscriptions => "/v1/audio/transcriptions".toList

/-- The limit that the endpoint hands to `_read_body_limited`. -/
def Endpoint.bodyLimit : Endpoint → ℕ
  | .chatCompletions => maxJsonBodySize
  | .embeddings => maxJsonBodySize
  | .audioTranscriptions => maxBodySize

/-- What the gateway reads of a request before its body. -/
structure HttpRequest where
  endpoint : Endpoint
  /-- The credentials of a bearer, if there are any. -/
  credentials : Option String := none
  contentType : List Char := []
  /-- The header `content-length`, and the number it stands for, if it is one. -/
  contentLength : Option (Option ℤ) := none
  /-- `request.query_params.get("model")`. -/
  modelParam : Option String := none
  query : List Char := []

/-- What the gateway runs on. -/
structure DoorEnv where
  unicode : Unicode
  guard : GuardSettings
  /-- The text of a body as `json.loads` decodes it; `none` is a `UnicodeDecodeError`. -/
  decode : List UInt8 → Option (List Char)
  /-- How many arrays and objects `json.loads` can enter before the stack is used up. -/
  depth : ℕ

/-! ### `get_api_key` -/

/-- A row of `api_keys` with its user. -/
structure KeyRow where
  revoked : Bool := false
  /-- `key.user.is_active`; a key may have no user. -/
  userIsActive : Option Bool
  scopes : List String
  lastUsedAt : Option ℕ := none
  deriving DecidableEq, Repr

/-- The decision of `get_api_key` on the row of the key. -/
def authorize : Option KeyRow → Except OpenAIError KeyRow
  | none => .error .invalidApiKey
  | some key =>
    if key.revoked = true ∨ key.userIsActive ≠ some true then .error .invalidApiKey
    else if "inference" ∉ key.scopes then .error .insufficientScope
    else .ok key

/-! ### Where a request waits -/

/-- Where a request waits before `_proxy`. -/
inductive Front
  /-- Its task is to run. -/
  | start
  /-- `get_api_key`, for the row of the key. -/
  | key
  /-- `get_api_key`, for `_last_used_lock`. -/
  | stamp
  /-- `_read_body_limited`, for the next chunk after what it has read. -/
  | body (raw : List UInt8)
  /-- `_extract_model`, for the thread that parses a multipart body. -/
  | multipart
  deriving DecidableEq, Repr

/-- What the parser makes of a multipart body. -/
inductive MultipartAnswer
  /-- The last part named `model`, if there is one. -/
  | field (model : Option String)
  /-- `parser.write` raises. -/
  | malformed
  deriving DecidableEq, Repr

/-- What a request gets before `_proxy`.  What the preparations of `_proxy` raise comes with
the last of it, as they await nothing. -/
inductive FrontAwaited
  /-- An exception, or the cancellation of the task, where it waits. -/
  | failed (e : Exc)
  | started
  | row (key : Option KeyRow) (now : ℕ)
  | stamped
  | chunk (bytes : List UInt8)
  | bodyEnd (prepare : Option Exc)
  | extracted (answer : MultipartAnswer) (prepare : Option Exc)

/-- How a request goes on before `_proxy`. -/
inductive FrontNext
  | wait (f : Front)
  /-- `_resolve_target` is called. -/
  | proxy (modelName : String)
  deriving DecidableEq, Repr

/-! ### `_read_body_limited` -/

/-- `_read_body_limited` up to its first chunk. -/
def readBody (h : HttpRequest) : Except Exc FrontNext :=
  -- a length that is no number counts as zero
  if h.contentLength.any fun declared => (h.endpoint.bodyLimit : ℤ) < declared.getD 0 then
    .error (.openAI .bodyTooLarge)
  else .ok (.wait (.body []))

/-- The next chunk of the body. -/
def addChunk (h : HttpRequest) (raw bytes : List UInt8) : Except Exc FrontNext :=
  if h.endpoint.bodyLimit < (raw ++ bytes).length then .error (.openAI .bodyTooLarge)
  else .ok (.wait (.body (raw ++ bytes)))

/-! ### `_extract_model` -/

/-- The content type begins with this one, in small letters. -/
def HttpRequest.isOfType (h : HttpRequest) (u : Unicode) (type : String) : Bool :=
  type.toList.isPrefixOf (u.lower h.contentType)

/-- A text of a JSON string; a lone surrogate cannot be sent to the database. -/
def nameOf (codes : List ℕ) : Except Exc String :=
  if codes.all fun c => c.isValidChar then .ok (String.ofList (codes.map Char.ofNat))
  else .error (.other "UnicodeEncodeError")

/-- The member `model` of a JSON body. -/
def jsonModel (env : DoorEnv) (raw : List UInt8) : Except Exc (Option String) :=
  match env.decode raw with
  | none => .ok none
  | some text =>
    match Json.loads env.depth text with
    | .error .decode => .ok none
    | .error .intTooLong => .error (.other "ValueError")
    | .error .recursion => .error (.other "RecursionError")
    | .ok (.obj members) =>
      if Json.codePoints "model" ∈ members.map Prod.fst then
        match Json.get members "model" with
        | .str codes => (nameOf codes).map some
        | _ => .error (.openAI .missingModel)
      else .ok none
    | .ok _ => .ok none

/-- The end of `_extract_model`: the query stands in for a body without a model, and an empty
name is none. -/
def chooseModel (h : HttpRequest) (model : Option String) : Except Exc String :=
  match model.or h.modelParam with
  | none => .error (.openAI .missingModel)
  | some name => if name = "" then .error (.openAI .missingModel) else .ok name

/-- `_proxy` up to `_resolve_target`. -/
def startProxy (name : Except Exc String) (prepare : Option Exc) : Except Exc FrontNext :=
  match name, prepare with
  | .error e, _ => .error e
  | .ok _, some e => .error e
  | .ok name, none => .ok (.proxy name)

/-- `_extract_model` of the whole body. -/
def extractModel (env : DoorEnv) (h : HttpRequest) (raw : List UInt8) (prepare : Option Exc) :
    Except Exc FrontNext :=
  if h.isOfType env.unicode "application/json" then
    startProxy (jsonModel env raw >>= chooseModel h) prepare
  else if h.isOfType env.unicode "multipart/form-data" then .ok (.wait .multipart)
  else startProxy (chooseModel h none) prepare

/-- `_extract_model` after `_extract_multipart_model`. -/
def extractMultipart (h : HttpRequest) (answer : MultipartAnswer) (prepare : Option Exc) :
    Except Exc FrontNext :=
  match answer with
  | .malformed => .error (.openAI .invalidMultipart)
  | .field model => startProxy (chooseModel h model) prepare

/-! ### The steps of a request -/

/-- One step of a request before `_proxy`.  What it cannot get where it waits leaves it
there. -/
def frontStep (env : DoorEnv) (h : HttpRequest) (f : Front) (o : FrontAwaited) :
    Except Exc FrontNext :=
  match f, o with
  | _, .failed e => .error e
  | .start, .started =>
    if h.credentials.isNone then .error (.openAI .invalidApiKey) else .ok (.wait .key)
  | .key, .row key now =>
    match authorize key with
    | .error e => .error (.openAI e)
    -- a stamp awaits the lock of the stamps
    | .ok key => if stampDue key.lastUsedAt now then .ok (.wait .stamp) else readBody h
  | .stamp, .stamped => readBody h
  | .body raw, .chunk bytes => addChunk h raw bytes
  | .body raw, .bodyEnd prepare => extractModel env h raw prepare
  | .multipart, .extracted answer prepare => extractMultipart h answer prepare
  | f, _ => .ok (.wait f)

/-- The status of the response that the gateway makes where the request has come to. -/
def Phase.answer : Phase → Option ℕ
  | .relay _ status => some status
  | .ended (.raised (.openAI e)) => some e.statusCode
  | _ => none

/-- A request from its arrival: where it waits before `_proxy`, or else its part in `_proxy`. -/
structure Served where
  http : HttpRequest
  front : Option Front := some .start
  request : Request
  /-- Its increments of `inferna_requests`, by their labels. -/
  counted : List (String × ℕ) := []
  /-- The status of its response. -/
  answer : Option ℕ := none

namespace Served

/-- A request that has arrived. -/
def new (h : HttpRequest) : Served where
  http := h
  request := { modelName := "", path := h.endpoint.path, query := h.query }

/-- Keep what a step has counted and answered. -/
def record (v : Served) (s s' : Routing) : Served :=
  { v with
    counted := v.counted ++ s'.requestsCounter.drop s.requestsCounter.length
    answer := v.answer.or v.request.phase.answer }

/-- The request goes on before `_proxy`.  An exception ends it. -/
def resumeFront (env : DoorEnv) (s : Routing) (v : Served) (o : FrontAwaited) : Routing × Served :=
  match v.front with
  | none => (s, v)
  | some f =>
    match frontStep env v.http f o with
    | .error e =>
      let ended := endRequest s v.request (.raised e)
      (ended.1, { v with front := none, request := ended.2 }.record s ended.1)
    | .ok (.wait f) => (s, { v with front := some f })
    | .ok (.proxy modelName) =>
      (s, { v with front := none, request := { v.request with modelName := modelName } })

/-- The request goes on in `_proxy`. -/
def resumeProxy (env : DoorEnv) (s : Routing) (v : Served) (o : Awaited) : Routing × Served :=
  match v.front with
  | some _ => (s, v)
  | none =>
    let r := resume env.unicode env.guard s v.request o
    (r.1, { v with request := r.2 }.record s r.1)

end Served

/-! ### Interleavings -/

/-- The routing state and the requests, in the order of their arrival. -/
structure Door where
  routing : Routing := {}
  requests : List Served := []

/-- What happens next. -/
inductive DoorEvent
  | arrive (h : HttpRequest)
  /-- The request at an index goes on before `_proxy`. -/
  | front (r : ℕ) (o : FrontAwaited)
  /-- The request at an index goes on in `_proxy`. -/
  | proxy (r : ℕ) (o : Awaited)

/-- One step of the gateway. -/
def Door.step (env : DoorEnv) (g : Door) : DoorEvent → Door
  | .arrive h => { g with requests := g.requests ++ [Served.new h] }
  | .front r o =>
    match g.requests[r]? with
    | none => g
    | some v =>
      ⟨(v.resumeFront env g.routing o).1, g.requests.set r (v.resumeFront env g.routing o).2⟩
  | .proxy r o =>
    match g.requests[r]? with
    | none => g
    | some v =>
      ⟨(v.resumeProxy env g.routing o).1, g.requests.set r (v.resumeProxy env g.routing o).2⟩

end Inferna
