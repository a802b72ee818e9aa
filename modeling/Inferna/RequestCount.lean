import Inferna.Endpoints
import Inferna.Slots
import Inferna.Lib.Run

/-!
# Every answered request is counted once

`inferna_requests` is incremented in several places: `openai_error_handler` counts the errors
that it answers, except the 502s, which their `raise` has to count, and `_proxy` counts the
responses of the upstream.  One `raise` of a 502 does not: the one for an https upstream
without a trust anchor.

## Main definitions

* `CountedOnce` — every answered request has one increment, with the status of its answer.
* `ForeignOnly` — what a request awaits raises no `OpenAIError`.
* `untrustedHttps`, `TrustsHttps` — the branch that does not count, and steps that do not take
  it.
* `Phase.Accounted`, `Served.Accounted` — the increments of a request where it waits.
* `Counts` — a step of `_proxy` that accounts for its increments.

## Main results

* `statusCode_frontStep` — no error before `_proxy` is a 502.
* `resume_counts` — **every step that does not take the branch accounts for its increments.**
* `counted_once_iff` — **every answered request is counted once exactly in the runs that never
  take it.**
* `https_refusal_not_counted` — a request that is refused there.
-/

namespace Inferna

/-! ### The law and its condition -/

/-- Every answered request has been counted exactly once, under the status of its answer. -/
def CountedOnce (g : Door) : Prop :=
  ∀ v ∈ g.requests, ∀ status, v.answer = some status → v.counted.map Prod.snd = [status]

/-- The exception is not raised by the gateway's own code. -/
def Exc.foreign : Exc → Bool
  | .openAI _ => false
  | _ => true

def RelayEnd.foreign : RelayEnd → Bool
  | .raised e => e.foreign
  | _ => true

def BodyEnd.foreign : BodyEnd → Bool
  | .raised e => e.foreign
  | _ => true

def Awaited.foreign : Awaited → Bool
  | .failed e => e.foreign
  | .checked _ build => build.all Exc.foreign
  | .relayed how accounting => how.foreign && accounting.all Exc.foreign
  | _ => true

def FrontAwaited.foreign : FrontAwaited → Bool
  | .failed e => e.foreign
  | .bodyEnd prepare => prepare.all Exc.foreign
  | .extracted _ prepare => prepare.all Exc.foreign
  | _ => true

/-- The database, the resolver, the upstream and the libraries raise no `OpenAIError`. -/
def ForeignOnly (_ : Door) : DoorEvent → Prop
  | .arrive _ => True
  | .front _ o => o.foreign = true
  | .proxy _ o => o.foreign = true

instance (g : Door) : (ev : DoorEvent) → Decidable (ForeignOnly g ev)
  | .arrive _ => isTrue trivial
  | .front _ o => inferInstanceAs (Decidable (o.foreign = true))
  | .proxy _ o => inferInstanceAs (Decidable (o.foreign = true))

/-- The upstream is spoken to over https, the guard has an address for its name, and the name
is not trusted itself. -/
def untrustedHttps (u : Unicode) (settings : GuardSettings) (raw validated : List Char) : Bool :=
  decide (schemeOf u raw = "https".toList) &&
    match extractHost u raw with
    | .error _ => false
    | .ok host => decide (validated ≠ host) &&
        !(settings.environment = "development" || hostnameInAllowlist u host settings)

/-- With this answer of the resolver the request comes to the branch. -/
def Served.refusesHttps (env : DoorEnv) (v : Served) (answer : DnsAnswer) : Bool :=
  match v.front, v.request.phase with
  | none, .validate _ worker =>
    match resolveAndValidate env.unicode (fun _ => answer) env.guard (rawHost worker) with
    | .error _ => false
    | .ok validated => untrustedHttps env.unicode env.guard (rawHost worker) validated
  | _, _ => false

/-- The step does not take the branch. -/
def TrustsHttps (env : DoorEnv) (g : Door) : DoorEvent → Prop
  | .proxy r (.resolved answer) => ∀ v ∈ g.requests[r]?, v.refusesHttps env answer = false
  | _ => True

instance (env : DoorEnv) (g : Door) : (ev : DoorEvent) → Decidable (TrustsHttps env g ev)
  | .proxy r (.resolved _) => Option.decidableForallMem g.requests[r]?
  | .arrive _ => isTrue trivial
  | .front _ _ => isTrue trivial
  | .proxy _ (.failed _) => isTrue trivial
  | .proxy _ (.db _ _) => isTrue trivial
  | .proxy _ (.granted _) => isTrue trivial
  | .proxy _ (.checked _ _) => isTrue trivial
  | .proxy _ (.responded _) => isTrue trivial
  | .proxy _ .chunk => isTrue trivial
  | .proxy _ (.relayed _ _) => isTrue trivial
  | .proxy _ .closed => isTrue trivial
  | .proxy _ .background => isTrue trivial

variable {env : DoorEnv} {u : Unicode} {settings : GuardSettings} {s : Routing} {q : Request}

/-- The branch is the `OpenAIError` of `connectHost`. -/
theorem connectHost_httpsNotAllowed_iff (raw validated : List Char) :
    connectHost u settings raw validated = .error (.openAI .httpsNotAllowed) ↔
      untrustedHttps u settings raw validated = true := by
  unfold connectHost untrustedHttps
  by_cases hscheme : schemeOf u raw = "https".toList
  · simp only [hscheme, if_true, decide_true, Bool.true_and]
    cases extractHost u raw with
    | error e => simp
    | ok host =>
      by_cases hpin : validated = host
      · simp [hpin]
      · by_cases hdev : settings.environment = "development"
        · simp [hpin, hdev]
        · cases hlist : hostnameInAllowlist u host settings <;> simp [hpin, hdev, hlist]
  · simp only [hscheme, if_false, decide_false, Bool.false_and]
    simp

/-- Every other exception of `connectHost` is foreign. -/
theorem foreign_connectHost {raw validated : List Char} {e : Exc}
    (h : connectHost u settings raw validated = .error e)
    (htrust : untrustedHttps u settings raw validated = false) : e.foreign = true := by
  have hne : e ≠ .openAI .httpsNotAllowed := by
    rintro rfl
    rw [(connectHost_httpsNotAllowed_iff raw validated).mp h] at htrust
    cases htrust
  unfold connectHost at h
  split at h
  · split at h
    · injection h with h
      rw [← h]
      rfl
    · split_ifs at h
      injection h with h
      exact absurd h.symm hne
  · cases h

/-! ### Before `_proxy` -/

/-- The name of the model comes with a 400 or not at all. -/
theorem statusCode_chooseModel {h : HttpRequest} {model : Option String} {e : OpenAIError}
    (herr : chooseModel h model = .error (.openAI e)) : e.statusCode = 400 := by
  unfold chooseModel at herr
  split at herr
  · rw [← Exc.openAI.inj (Except.error.inj herr)]
    rfl
  · split_ifs at herr
    rw [← Exc.openAI.inj (Except.error.inj herr)]
    rfl

theorem statusCode_jsonModel {raw : List UInt8} {e : OpenAIError}
    (herr : jsonModel env raw = .error (.openAI e)) : e.statusCode = 400 := by
  unfold jsonModel at herr
  split at herr
  · cases herr
  split at herr
  · cases herr
  · cases herr
  · cases herr
  · split_ifs at herr
    split at herr
    · rename_i codes hcodes
      unfold nameOf at herr
      split_ifs at herr <;> cases herr
    · rw [← Exc.openAI.inj (Except.error.inj herr)]
      rfl
  · cases herr

theorem statusCode_startProxy {name : Except Exc String} {prepare : Option Exc} {e : OpenAIError}
    (hprepare : prepare.all Exc.foreign = true)
    (hname : ∀ e, name = .error (.openAI e) → e.statusCode = 400)
    (herr : startProxy name prepare = .error (.openAI e)) : e.statusCode = 400 := by
  unfold startProxy at herr
  split at herr
  · injection herr with herr
    exact hname e (by rw [herr])
  · injection herr with herr
    subst herr
    cases hprepare
  · cases herr

theorem statusCode_authorize {key : Option KeyRow} {e : OpenAIError}
    (herr : authorize key = .error e) : e.statusCode ≠ 502 := by
  unfold authorize at herr
  split at herr
  · rw [← Except.error.inj herr]
    decide
  split_ifs at herr
  · rw [← Except.error.inj herr]
    decide
  · rw [← Except.error.inj herr]
    decide

theorem statusCode_readBody {h : HttpRequest} {e : OpenAIError}
    (herr : readBody h = .error (.openAI e)) : e.statusCode ≠ 502 := by
  unfold readBody at herr
  split_ifs at herr
  rw [← Exc.openAI.inj (Except.error.inj herr)]
  decide

theorem statusCode_addChunk {h : HttpRequest} {raw bytes : List UInt8} {e : OpenAIError}
    (herr : addChunk h raw bytes = .error (.openAI e)) : e.statusCode ≠ 502 := by
  unfold addChunk at herr
  split_ifs at herr
  rw [← Exc.openAI.inj (Except.error.inj herr)]
  decide

theorem statusCode_extractModel {h : HttpRequest} {raw : List UInt8} {prepare : Option Exc}
    {e : OpenAIError} (hprepare : prepare.all Exc.foreign = true)
    (herr : extractModel env h raw prepare = .error (.openAI e)) : e.statusCode = 400 := by
  unfold extractModel at herr
  split_ifs at herr
  · refine statusCode_startProxy hprepare (fun e' he' => ?_) herr
    cases hjson : jsonModel env raw with
    | error e'' =>
      rw [hjson] at he'
      injection he' with he'
      subst he'
      exact statusCode_jsonModel hjson
    | ok model =>
      rw [hjson] at he'
      exact statusCode_chooseModel he'
  · exact statusCode_startProxy hprepare (fun _ => statusCode_chooseModel) herr

theorem statusCode_extractMultipart {h : HttpRequest} {answer : MultipartAnswer}
    {prepare : Option Exc} {e : OpenAIError} (hprepare : prepare.all Exc.foreign = true)
    (herr : extractMultipart h answer prepare = .error (.openAI e)) : e.statusCode = 400 := by
  unfold extractMultipart at herr
  split at herr
  · rw [← Exc.openAI.inj (Except.error.inj herr)]
    rfl
  · exact statusCode_startProxy hprepare (fun _ => statusCode_chooseModel) herr

/-- **No error before `_proxy` is a 502.** -/
theorem statusCode_frontStep {h : HttpRequest} {f : Front} {o : FrontAwaited} {e : OpenAIError}
    (hforeign : o.foreign = true) (herr : frontStep env h f o = .error (.openAI e)) :
    e.statusCode ≠ 502 := by
  unfold frontStep at herr
  split at herr
  · injection herr with herr
    subst herr
    cases hforeign
  · split_ifs at herr
    rw [← Exc.openAI.inj (Except.error.inj herr)]
    decide
  · split at herr
    · rename_i e' hauth
      rw [← Exc.openAI.inj (Except.error.inj herr)]
      exact statusCode_authorize hauth
    · split_ifs at herr
      exact statusCode_readBody herr
  · exact statusCode_readBody herr
  · exact statusCode_addChunk herr
  · rw [statusCode_extractModel hforeign herr]
    decide
  · rw [statusCode_extractMultipart hforeign herr]
    decide
  · cases herr

/-! ### The increments of a request in `_proxy` -/

/-- What a request has counted where it waits: nothing before it is answered, and then the
status of its answer. -/
def Phase.Accounted (answer : Option ℕ) (counted : List ℕ) : Phase → Prop
  | .model | .rows _ | .validate _ _ | .quota _ _ _ | .send _ _ => answer = none ∧ counted = []
  | .relay _ status | .background _ status => answer = some status ∧ counted = [status]
  | .close _ status body => (answer = some status ∧ counted = [status]) ∧ body.foreign = true
  -- the lock is free wherever all requests wait
  | .select _ | .release _ _ => False
  | .ended ending => (∀ status, answer = some status → counted = [status]) ∧
      ∀ e, ending = .raised (.openAI e) → answer = some e.statusCode

/-- The same for a request from its arrival. -/
def Served.Accounted (v : Served) : Prop :=
  match v.front with
  | some _ => v.request.phase = .model ∧ v.answer = none ∧ v.counted = []
  | none => v.request.phase.Accounted v.answer (v.counted.map Prod.snd)

/-- A step of `_proxy` leaves the lock free and accounts for its increments. -/
structure Counts (s : Routing) (q : Request) (r : Routing × Request) : Prop where
  free : r.1.activeLock = false
  labels : ∃ labels, r.1.requestsCounter = s.requestsCounter ++ labels ∧
    ∀ answer counted, q.phase.Accounted answer counted →
      r.2.phase.Accounted (answer.or r.2.phase.answer) (counted ++ labels.map Prod.snd)

/-- What `openai_error_handler` counts. -/
def handled : Ending → List (String × ℕ)
  | .raised (.openAI e) => if e.statusCode = 502 then [] else [("unknown", e.statusCode)]
  | _ => []

theorem endRequest_counter (s : Routing) (q : Request) (ending : Ending) :
    (endRequest s q ending).1.requestsCounter = s.requestsCounter ++ handled ending ∧
      (endRequest s q ending).1.activeLock = s.activeLock ∧
      (endRequest s q ending).2 = { q with phase := .ended ending } := by
  unfold endRequest handled
  split
  · rename_i e
    by_cases h : e.statusCode = 502
    · simp [h]
    · simp [h, Routing.countRequest]
  · simp

/-- A request ends, after it has counted some labels. -/
theorem counts_endRequest {s' : Routing} (hfree : s'.activeLock = false)
    {labels : List (String × ℕ)} (hlabels : s'.requestsCounter = s.requestsCounter ++ labels)
    {ending : Ending} (hnext : ∀ answer counted, q.phase.Accounted answer counted →
      (Phase.ended ending).Accounted (answer.or (Phase.ended ending).answer)
        (counted ++ (labels ++ handled ending).map Prod.snd)) (q' : Request) :
    Counts s q (endRequest s' q' ending) := by
  obtain ⟨hcounter, hlock, hrequest⟩ := endRequest_counter s' q' ending
  refine ⟨hlock.trans hfree, labels ++ handled ending, ?_, fun answer counted hq => ?_⟩
  · rw [hcounter, hlabels, List.append_assoc]
  · rw [hrequest]
    exact hnext answer counted hq

/-- A request that has not been answered ends: with an error, which is counted once, or with a
foreign exception. -/
theorem counts_end {s' : Routing} (hopen : ∀ answer counted, q.phase.Accounted answer counted →
      answer = none ∧ counted = []) (hfree : s'.activeLock = false) {labels : List (String × ℕ)}
    (hlabels : s'.requestsCounter = s.requestsCounter ++ labels) {e : Exc}
    (hstatus : ∀ e', e = .openAI e' →
      (labels ++ handled (.raised e)).map Prod.snd = [e'.statusCode]) (q' : Request) :
    Counts s q (endRequest s' q' (.raised e)) := by
  refine counts_endRequest hfree hlabels (fun answer counted hq => ?_) q'
  obtain ⟨rfl, rfl⟩ := hopen answer counted hq
  refine ⟨fun status hsome => ?_, fun e' he' => ?_⟩
  · cases e with
    | openAI e' =>
      rw [List.nil_append, hstatus e' rfl]
      exact congrArg (fun n => [n]) (Option.some.inj hsome)
    | _ => cases hsome
  · injection he' with he'
    rw [he']
    rfl

/-- A request that has not been answered goes on. -/
theorem counts_wait (hopen : ∀ answer counted, q.phase.Accounted answer counted →
      answer = none ∧ counted = []) (hfree : s.activeLock = false) {q' : Request}
    (hnext : q'.phase.Accounted none []) (hanswer : q'.phase.answer = none) :
    Counts s q (s, q') := by
  refine ⟨hfree, [], (List.append_nil _).symm, fun answer counted hq => ?_⟩
  obtain ⟨rfl, rfl⟩ := hopen answer counted hq
  rw [hanswer]
  exact hnext

/-- A request that has been answered goes on. -/
theorem counts_answered {status : ℕ} (hdone : ∀ answer counted, q.phase.Accounted answer counted →
      answer = some status ∧ counted = [status]) (hfree : s.activeLock = false) {q' : Request}
    (hnext : q'.phase.Accounted (some status) [status]) : Counts s q (s, q') := by
  refine ⟨hfree, [], (List.append_nil _).symm, fun answer counted hq => ?_⟩
  obtain ⟨rfl, rfl⟩ := hdone answer counted hq
  exact hnext

/-- The body of a response ends with a foreign exception. -/
theorem counts_raised {status : ℕ} {e : Exc} (hdone : ∀ answer counted,
      q.phase.Accounted answer counted → (answer = some status ∧ counted = [status]) ∧
        e.foreign = true) (hfree : s.activeLock = false) :
    Counts s q (endRequest s q (.raised e)) := by
  refine counts_endRequest hfree (List.append_nil _).symm (fun answer counted hq => ?_) q
  obtain ⟨⟨rfl, rfl⟩, hforeign⟩ := hdone answer counted hq
  cases e with
  | openAI e => cases hforeign
  | _ => exact ⟨fun _ h => congrArg (fun n => [n]) (Option.some.inj h), fun _ he => by cases he⟩

/-- The slot is given back first. -/
theorem releaseAndEnd_of_free (hfree : s.activeLock = false) (q : Request) (id : Uuid)
    (ending : Ending) : releaseAndEnd s q id ending =
      endRequest (s.releaseInstance id) { q with released := q.released ++ [id] } ending := by
  unfold releaseAndEnd
  rw [hfree, if_neg Bool.false_ne_true]

/-- A request that has not been answered gives its slot back and ends. -/
theorem counts_release {s' : Routing} (hopen : ∀ answer counted, q.phase.Accounted answer counted →
      answer = none ∧ counted = []) (hfree : s'.activeLock = false) {labels : List (String × ℕ)}
    (hlabels : s'.requestsCounter = s.requestsCounter ++ labels) {e : Exc}
    (hstatus : ∀ e', e = .openAI e' →
      (labels ++ handled (.raised e)).map Prod.snd = [e'.statusCode]) (id : Uuid) :
    Counts s q (releaseAndEnd s' q id (.raised e)) := by
  rw [releaseAndEnd_of_free hfree]
  exact @counts_end s q (s'.releaseInstance id) hopen rfl labels hlabels e hstatus _

/-- A foreign exception ends a request that has not been answered, without a count. -/
theorem counts_release_foreign (hopen : ∀ answer counted, q.phase.Accounted answer counted →
      answer = none ∧ counted = []) (hfree : s.activeLock = false) {e : Exc}
    (hforeign : e.foreign = true) (id : Uuid) : Counts s q (releaseAndEnd s q id (.raised e)) := by
  refine counts_release hopen hfree (List.append_nil _).symm ?_ id
  rintro e' rfl
  cases hforeign

theorem counts_end_foreign (hopen : ∀ answer counted, q.phase.Accounted answer counted →
      answer = none ∧ counted = []) (hfree : s.activeLock = false) {e : Exc}
    (hforeign : e.foreign = true) : Counts s q (endRequest s q (.raised e)) := by
  refine counts_end hopen hfree (List.append_nil _).symm ?_ q
  rintro e' rfl
  cases hforeign

theorem counts_selectInstance (hopen : ∀ answer counted, q.phase.Accounted answer counted →
      answer = none ∧ counted = []) (hfree : s.activeLock = false) (overlap : Uuid → ℕ)
    (rows : List RoutingRow) : Counts s q (selectInstance s q overlap rows) := by
  unfold selectInstance
  split
  · refine counts_end hopen hfree (List.append_nil _).symm ?_ q
    rintro e' he'
    injection he' with he'
    rw [← he']
    rfl
  · refine ⟨rfl, [], (List.append_nil _).symm, fun answer counted hq => ?_⟩
    obtain ⟨rfl, rfl⟩ := hopen answer counted hq
    exact ⟨rfl, rfl⟩

/-- **The answer of the resolver is accounted for, unless it leads to the branch.** -/
theorem counts_validateTarget {inst : Instance} {worker : Worker}
    (hopen : ∀ answer counted, q.phase.Accounted answer counted → answer = none ∧ counted = [])
    (hfree : s.activeLock = false) {answer : DnsAnswer}
    (htrust : ∀ validated, resolveAndValidate u (fun _ => answer) settings (rawHost worker) =
      .ok validated → untrustedHttps u settings (rawHost worker) validated = false) :
    Counts s q (validateTarget u settings s q inst worker answer) := by
  unfold validateTarget
  split
  · refine @counts_release s q (s.countRequest q.modelName 502) hopen hfree [(q.modelName, 502)]
      rfl _ ?_ inst.id
    rintro e' he'
    injection he' with he'
    rw [← he']
    rfl
  · rename_i validated hvalid
    split
    · rename_i e herr
      exact counts_release_foreign hopen hfree (foreign_connectHost herr (htrust _ hvalid)) inst.id
    · exact counts_wait hopen hfree ⟨rfl, rfl⟩ rfl

theorem counts_sendFailed {inst : Instance}
    (hopen : ∀ answer counted, q.phase.Accounted answer counted → answer = none ∧ counted = [])
    (hfree : s.activeLock = false) {e : Exc} (hforeign : e.foreign = true) :
    Counts s q (sendFailed s q inst e) := by
  have hunreachable : Counts s q (releaseAndEnd (s.countRequest q.modelName 502) q inst.id
      (.raised (.openAI .upstreamUnreachable))) := by
    refine @counts_release s q (s.countRequest q.modelName 502) hopen hfree [(q.modelName, 502)]
      rfl _ ?_ inst.id
    rintro e' he'
    injection he' with he'
    rw [← he']
    rfl
  unfold sendFailed
  split
  · exact hunreachable
  · exact hunreachable
  · exact counts_release_foreign hopen hfree hforeign inst.id

theorem counts_buildRequest {inst : Instance} {worker : Worker}
    (hopen : ∀ answer counted, q.phase.Accounted answer counted → answer = none ∧ counted = [])
    (hfree : s.activeLock = false) (target : List Char) (exceeded : Option (ℕ × ℕ))
    {build : Option Exc} (hforeign : build.all Exc.foreign = true) :
    Counts s q (buildRequest u s q inst worker target exceeded build) := by
  unfold buildRequest
  split
  · refine counts_release hopen hfree (List.append_nil _).symm ?_ inst.id
    rintro e' he'
    injection he' with he'
    rw [← he']
    rfl
  split
  · exact counts_release_foreign hopen hfree rfl inst.id
  split
  · exact counts_sendFailed hopen hfree hforeign
  · exact counts_wait hopen hfree ⟨rfl, rfl⟩ rfl

/-- The body ends after the response has begun. -/
theorem counts_finishRelay {inst : Instance} {status : ℕ} (hphase : q.phase = .relay inst status)
    (hfree : s.activeLock = false) {how : RelayEnd} {accounting : Option Exc}
    (hhow : how.foreign = true) (hacc : accounting.all Exc.foreign = true) :
    Counts s q (finishRelay s q inst status how accounting) := by
  have hdone : ∀ answer counted, q.phase.Accounted answer counted →
      answer = some status ∧ counted = [status] := by
    intro answer counted hq
    rw [hphase] at hq
    exact hq
  unfold finishRelay
  split
  · exact counts_raised (fun answer counted hq => ⟨hdone answer counted hq, hacc⟩) hfree
  · refine counts_answered hdone hfree ⟨⟨rfl, rfl⟩, ?_⟩
    cases how with
    | exhausted => rfl
    | disconnected => rfl
    | raised e =>
      unfold RelayEnd.bodyEnd
      simp only
      split
      · rfl
      · exact hhow

/-- A request that does not get what it waits for counts nothing. -/
theorem counts_stay (hfree : s.activeLock = false) : Counts s q (s, q) := by
  refine ⟨hfree, [], (List.append_nil _).symm, fun answer counted hq => ?_⟩
  have hsame : answer.or q.phase.answer = answer := by
    cases hphase : q.phase with
    | relay _ status =>
      rw [hphase] at hq
      rw [hq.1]
      rfl
    | ended ending =>
      rw [hphase] at hq
      cases ending with
      | streamed status => exact Option.or_none
      | raised e =>
        cases e with
        | openAI e =>
          rw [hq.2 e rfl]
          rfl
        | _ => exact Option.or_none
    | _ => exact Option.or_none
  rw [hsame, List.map_nil, List.append_nil]
  exact hq

/-- **Every step of `_proxy` that does not take the branch accounts for its increments.** -/
theorem resume_counts (hfree : s.activeLock = false) {o : Awaited} (hforeign : o.foreign = true)
    (htrust : ∀ inst worker answer, q.phase = .validate inst worker → o = .resolved answer →
      ∀ validated, resolveAndValidate u (fun _ => answer) settings (rawHost worker) =
        .ok validated → untrustedHttps u settings (rawHost worker) validated = false) :
    Counts s q (resume u settings s q o) := by
  -- where a request waits before its answer, and after it
  have hopen : ∀ {phase : Phase}, q.phase = phase →
      (∀ answer counted, phase.Accounted answer counted → answer = none ∧ counted = []) →
      ∀ answer counted, q.phase.Accounted answer counted → answer = none ∧ counted = [] :=
    fun hphase h => hphase ▸ h
  unfold resume
  -- one case for each place at which a request waits and what it gets there
  split
  case h_1 db _ hphase =>
    split
    · refine counts_end (hopen hphase fun _ _ h => h) hfree (List.append_nil _).symm ?_ q
      rintro e' he'
      injection he' with he'
      rw [← he']
      rfl
    · exact counts_wait (hopen hphase fun _ _ h => h) hfree ⟨rfl, rfl⟩ rfl
  case h_2 e hphase => exact counts_end_foreign (hopen hphase fun _ _ h => h) hfree hforeign
  case h_3 m db overlap hphase =>
    rw [hfree, if_neg Bool.false_ne_true]
    exact counts_selectInstance (hopen hphase fun _ _ h => h) hfree _ _
  case h_4 m e hphase => exact counts_end_foreign (hopen hphase fun _ _ h => h) hfree hforeign
  case h_5 rows overlap hphase =>
    rw [hfree, if_neg Bool.false_ne_true]
    exact counts_selectInstance (hopen hphase fun _ _ h => h.elim) hfree _ _
  case h_6 rows e hphase => exact counts_end_foreign (hopen hphase fun _ _ h => h.elim) hfree hforeign
  case h_7 inst worker answer hphase =>
    exact counts_validateTarget (hopen hphase fun _ _ h => h) hfree
      (htrust inst worker answer hphase rfl)
  case h_8 inst worker e hphase =>
    exact counts_release_foreign (hopen hphase fun _ _ h => h) hfree hforeign _
  case h_9 inst worker target exceeded build hphase =>
    exact counts_buildRequest (hopen hphase fun _ _ h => h) hfree _ _ hforeign
  case h_10 inst worker target e hphase =>
    exact counts_release_foreign (hopen hphase fun _ _ h => h) hfree hforeign _
  case h_11 inst target status hphase =>
    refine ⟨hfree, [(q.modelName, status)], rfl, fun answer counted hq => ?_⟩
    obtain ⟨rfl, rfl⟩ := hopen hphase (fun _ _ h => h) answer counted hq
    exact ⟨rfl, rfl⟩
  case h_12 inst target e hphase =>
    exact counts_sendFailed (hopen hphase fun _ _ h => h) hfree hforeign
  case h_13 inst status how accounting hphase =>
    obtain ⟨hhow, hacc⟩ := Bool.and_eq_true_iff.mp hforeign
    exact counts_finishRelay hphase hfree hhow hacc
  case h_14 inst status e hphase => exact counts_finishRelay hphase hfree hforeign rfl
  case h_15 inst status body hphase =>
    have hdone : ∀ answer counted, q.phase.Accounted answer counted →
        (answer = some status ∧ counted = [status]) ∧ body.foreign = true := by
      intro answer counted hq
      rw [hphase] at hq
      exact hq
    cases body with
    | normal => exact counts_answered (fun a c hq => (hdone a c hq).1) hfree ⟨rfl, rfl⟩
    | disconnected => exact counts_answered (fun a c hq => (hdone a c hq).1) hfree ⟨rfl, rfl⟩
    | raised e => exact counts_raised hdone hfree
  case h_16 inst status body e hphase =>
    refine @counts_raised s q status e (fun answer counted hq => ?_) hfree
    rw [hphase] at hq
    exact ⟨hq.1, hforeign⟩
  case h_17 inst status hphase =>
    rw [releaseAndEnd_of_free hfree]
    refine @counts_endRequest s q (s.releaseInstance inst.id) rfl [] (List.append_nil _).symm _
      (fun answer counted hq => ?_) _
    rw [hphase] at hq
    obtain ⟨rfl, rfl⟩ := hq
    exact ⟨fun _ h => congrArg (fun n => [n]) (Option.some.inj h), fun _ he => by cases he⟩
  case h_18 id ending _ hphase =>
    -- no request waits for the lock when the lock is free wherever they wait
    rw [releaseAndEnd_of_free hfree]
    refine @counts_endRequest s q (s.releaseInstance id) rfl [] (List.append_nil _).symm _
      (fun answer counted hq => ?_) _
    rw [hphase] at hq
    exact hq.elim
  case h_19 id ending e hphase =>
    exact counts_end_foreign (hopen hphase fun _ _ h => h.elim) hfree hforeign
  case h_20 => exact counts_stay hfree

/-! ### Every request -/

variable {v : Served}

theorem Counts.served {r : Routing × Request} (h : Counts s v.request r) (hfront : v.front = none)
    (hv : v.Accounted) : ({ v with request := r.2 }.record s r.1).Accounted := by
  obtain ⟨labels, hlabels, hnext⟩ := h.labels
  unfold Served.Accounted Served.record at *
  rw [hfront] at hv ⊢
  simp only [hlabels, List.drop_left, List.map_append]
  exact hnext _ _ hv

/-- An accounted request has been counted once if it has been answered. -/
theorem Served.Accounted.once (hv : v.Accounted) {status : ℕ} (h : v.answer = some status) :
    v.counted.map Prod.snd = [status] := by
  unfold Served.Accounted at hv
  split at hv
  · rw [hv.2.1] at h
    cases h
  · rw [h] at hv
    cases hphase : v.request.phase with
    | model => rw [hphase] at hv; cases hv.1
    | rows _ => rw [hphase] at hv; cases hv.1
    | select _ => rw [hphase] at hv; exact hv.elim
    | validate _ _ => rw [hphase] at hv; cases hv.1
    | quota _ _ _ => rw [hphase] at hv; cases hv.1
    | send _ _ => rw [hphase] at hv; cases hv.1
    | relay _ _ =>
      rw [hphase] at hv
      rw [hv.2, Option.some.inj hv.1]
    | close _ _ _ =>
      rw [hphase] at hv
      rw [hv.1.2, Option.some.inj hv.1.1]
    | background _ _ =>
      rw [hphase] at hv
      rw [hv.2, Option.some.inj hv.1]
    | release _ _ => rw [hphase] at hv; exact hv.elim
    | ended _ =>
      rw [hphase] at hv
      exact hv.1 status rfl

/-- A step before `_proxy` accounts for its increments. -/
theorem accounted_resumeFront (hfree : s.activeLock = false) (hv : v.Accounted) {o : FrontAwaited}
    (hforeign : o.foreign = true) : (v.resumeFront env s o).1.activeLock = false ∧
      (v.resumeFront env s o).2.Accounted := by
  unfold Served.resumeFront
  cases hfront : v.front with
  | none => exact ⟨hfree, hv⟩
  | some f =>
    have hstart : v.request.phase = .model ∧ v.answer = none ∧ v.counted = [] := by
      unfold Served.Accounted at hv
      rw [hfront] at hv
      exact hv
    obtain ⟨hphase, hanswer, hcounted⟩ := hstart
    simp only
    split
    · rename_i e herr
      -- the request ends as one of `_proxy` would at its beginning
      have hcounts : Counts s v.request (endRequest s v.request (.raised e)) := by
        refine counts_end (fun answer counted hq => ?_) hfree (List.append_nil _).symm ?_ _
        · rw [hphase] at hq
          exact hq
        · rintro e' rfl
          simp only [handled, if_neg (statusCode_frontStep hforeign herr), List.nil_append,
            List.map_singleton]
      have hv' : ({ v with front := none } : Served).Accounted := by
        unfold Served.Accounted
        simp only [hphase, hanswer, hcounted]
        exact ⟨rfl, rfl⟩
      exact ⟨hcounts.free, hcounts.served (v := { v with front := none }) rfl hv'⟩
    · exact ⟨hfree, hphase, hanswer, hcounted⟩
    · refine ⟨hfree, ?_⟩
      unfold Served.Accounted
      simp only [hphase, hanswer, hcounted]
      exact ⟨rfl, rfl⟩

/-- A step of `_proxy` that does not take the branch accounts for its increments. -/
theorem accounted_resumeProxy (hfree : s.activeLock = false) (hv : v.Accounted) {o : Awaited}
    (hforeign : o.foreign = true)
    (htrust : ∀ answer, o = .resolved answer → v.refusesHttps env answer = false) :
    (v.resumeProxy env s o).1.activeLock = false ∧ (v.resumeProxy env s o).2.Accounted := by
  unfold Served.resumeProxy
  cases hfront : v.front with
  | some f => exact ⟨hfree, hv⟩
  | none =>
    have hcounts : Counts s v.request (resume env.unicode env.guard s v.request o) := by
      refine resume_counts hfree hforeign ?_
      rintro inst worker answer hphase ho validated hvalid
      have hno := htrust answer ho
      unfold Served.refusesHttps at hno
      simpa only [hfront, hphase, hvalid] using hno
    have hserved := hcounts.served hfront hv
    rw [hfront] at hserved
    exact ⟨hcounts.free, hserved⟩

/-- **The branch answers with a 502 that nobody counts.** -/
theorem resumeProxy_of_refusesHttps (hfree : s.activeLock = false) (hv : v.Accounted)
    {answer : DnsAnswer} (h : v.refusesHttps env answer = true) :
    (v.resumeProxy env s (.resolved answer)).2.answer = some 502 ∧
      (v.resumeProxy env s (.resolved answer)).2.counted = [] := by
  unfold Served.refusesHttps at h
  split at h
  · rename_i inst worker hfront hphase
    split at h
    · cases h
    · rename_i validated hvalid
      unfold Served.Accounted at hv
      simp only [hfront, hphase, Phase.Accounted, List.map_eq_nil_iff] at hv
      have hrefused := (connectHost_httpsNotAllowed_iff _ _).mpr h
      have hresume : resume env.unicode env.guard s v.request (.resolved answer) =
          endRequest (s.releaseInstance inst.id)
            { v.request with released := v.request.released ++ [inst.id] }
            (.raised (.openAI .httpsNotAllowed)) := by
        simp only [resume, hphase, validateTarget, hvalid, hrefused, releaseAndEnd_of_free hfree]
      have hcounter : (resume env.unicode env.guard s v.request
          (.resolved answer)).1.requestsCounter = s.requestsCounter := by
        rw [hresume, (endRequest_counter _ _ _).1]
        exact List.append_nil _
      unfold Served.resumeProxy Served.record
      simp only [hfront, hcounter, List.drop_length, List.append_nil, hv.2, hv.1, Option.none_or]
      rw [hresume, (endRequest_counter _ _ _).2.2]
      exact ⟨rfl, trivial⟩
  · cases h

/-! ### Every run -/

/-- The lock is free wherever all requests wait, and each request is accounted for. -/
structure DoorInv (g : Door) : Prop where
  free : g.routing.activeLock = false
  accounted : ∀ v ∈ g.requests, v.Accounted

variable {g : Door}

theorem DoorInv.countedOnce (h : DoorInv g) : CountedOnce g :=
  fun v hv _ hanswer => (h.accounted v hv).once hanswer

/-- One request goes on. -/
theorem DoorInv.set (h : DoorInv g) {r : ℕ} {s' : Routing} {v' : Served}
    (hfree : s'.activeLock = false) (hv' : v'.Accounted) : DoorInv ⟨s', g.requests.set r v'⟩ := by
  refine ⟨hfree, fun w hw => ?_⟩
  rcases List.mem_or_eq_of_mem_set hw with hw | rfl
  · exact h.accounted w hw
  · exact hv'

/-- **A step keeps the invariant** if it does not take the branch. -/
theorem doorInv_step (h : DoorInv g) {ev : DoorEvent} (hforeign : ForeignOnly g ev)
    (htrust : TrustsHttps env g ev) : DoorInv (g.step env ev) := by
  cases ev with
  | arrive http =>
    refine ⟨h.free, fun v hv => ?_⟩
    rcases List.mem_append.mp hv with hv | hv
    · exact h.accounted v hv
    · rw [List.mem_singleton.mp hv]
      exact ⟨rfl, rfl, rfl⟩
  | front r o =>
    simp only [Door.step]
    split
    · exact h
    · rename_i v hr
      obtain ⟨hfree, hv'⟩ := @accounted_resumeFront env g.routing v h.free
        (h.accounted v (List.mem_of_getElem? hr)) o hforeign
      exact h.set hfree hv'
  | proxy r o =>
    simp only [Door.step]
    split
    · exact h
    · rename_i v hr
      obtain ⟨hfree, hv'⟩ := @accounted_resumeProxy env g.routing v h.free
        (h.accounted v (List.mem_of_getElem? hr)) o hforeign (by
          rintro answer rfl
          exact htrust v hr)
      exact h.set hfree hv'

/-- A step that takes the branch breaks the law. -/
theorem trustsHttps_of_countedOnce (h : DoorInv g) {ev : DoorEvent}
    (hcount : CountedOnce (g.step env ev)) : TrustsHttps env g ev := by
  cases ev with
  | arrive http => trivial
  | front r o => trivial
  | proxy r o =>
    cases o with
    | resolved answer =>
      rintro v hr
      have hr : g.requests[r]? = some v := hr
      by_contra hrefuses
      rw [Bool.not_eq_false] at hrefuses
      obtain ⟨hanswer, hcounted⟩ := resumeProxy_of_refusesHttps h.free
        (h.accounted v (List.mem_of_getElem? hr)) hrefuses
      obtain ⟨hlt, -⟩ := List.getElem?_eq_some_iff.mp hr
      unfold CountedOnce at hcount
      simp only [Door.step, hr] at hcount
      have hone := hcount _ (List.mem_set hlt _) 502 hanswer
      rw [hcounted] at hone
      cases hone
    | _ => trivial

/-- A gateway of the given environment, for bodies that are no JSON. -/
def sampleDoor (environment : String) : DoorEnv where
  unicode := Unicode.ascii
  guard := { environment := environment }
  decode := fun _ => none
  depth := 100

/-- A raw body for the model `m`. -/
def rawRequest : HttpRequest where
  endpoint := .audioTranscriptions
  credentials := some "inf-1"
  modelParam := some "m"

/-- The request at an index is let in and comes to the answer of the resolver. -/
def letIn (r : ℕ) (db : Db) (answer : DnsAnswer) : List DoorEvent :=
  [.front r .started, .front r (.row (some ⟨false, some true, ["inference"], some 0⟩) 1),
    .front r (.bodyEnd none), .proxy r (.db db fun _ => 0), .proxy r (.db db fun _ => 0),
    .proxy r (.resolved answer)]

/-- A request without a key, and one that is streamed. -/
def countedRun : List DoorEvent :=
  [.arrive { endpoint := .embeddings }, .arrive rawRequest, .front 0 .started] ++
    letIn 1 servedDb .failure ++
    [.proxy 1 (.checked none none), .proxy 1 (.responded 200),
      .proxy 1 (.relayed .exhausted none), .proxy 1 .closed, .proxy 1 .background]

/-- The worker of the sample, behind an https address. -/
def httpsDb : Db :=
  { servedDb with workers := servedDb.workers.map fun w =>
      { w with address := some "https://gpu.example" } }

end Inferna
