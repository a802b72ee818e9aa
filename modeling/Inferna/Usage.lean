import Inferna.Lib.Tally
import Inferna.Lib.Run
import Mathlib.Tactic

/-!
# Usage accounting

`services/usage.py`: the gateway adds up its requests in the buffer `_PENDING`, and a
background loop folds the buffer into `usage_records`.  `record_request` runs without
an await.  `flush_usage` takes the buffer out first and then awaits the database once
for each aggregate, once for the commit and, after an exception, once for the rollback;
between these the gateway goes on recording.

The state keeps what `record_request` was given and did not drop, to compare with.

## Main definitions

* `UsageKey`, `Accum` — the key of an aggregate, and the aggregate.
* `recordRequest` — `record_request`.
* `Flush`, `Usage` — a flush that waits, and the whole state.
* `UsageEvent`, `Usage.step` — what may happen, and what comes of it.
* `usageToday`, `checkQuota` — `usage_today` after its query, and `check_quota`.
-/

namespace Inferna

/-! ### Aggregates -/

/-- The user, the API key, the model and the UTC day. -/
structure UsageKey where
  userId : ℕ
  apiKeyId : ℕ
  modelId : ℕ
  day : ℕ
  deriving DecidableEq, Repr

/-- `_Accum`. -/
@[ext]
structure Accum where
  requests : ℕ := 0
  tokensIn : ℕ := 0
  tokensOut : ℕ := 0
  latencyMsSum : ℕ := 0
  deriving DecidableEq, Repr

namespace Accum

instance : Zero Accum := ⟨{}⟩

/-- `_Accum.add`. -/
instance : Add Accum where
  add a b := ⟨a.requests + b.requests, a.tokensIn + b.tokensIn, a.tokensOut + b.tokensOut,
    a.latencyMsSum + b.latencyMsSum⟩

@[simp] theorem requests_add (a b : Accum) : (a + b).requests = a.requests + b.requests := rfl
@[simp] theorem tokensIn_add (a b : Accum) : (a + b).tokensIn = a.tokensIn + b.tokensIn := rfl
@[simp] theorem tokensOut_add (a b : Accum) : (a + b).tokensOut = a.tokensOut + b.tokensOut := rfl
@[simp] theorem latencyMsSum_add (a b : Accum) :
    (a + b).latencyMsSum = a.latencyMsSum + b.latencyMsSum := rfl

@[simp] theorem requests_zero : (0 : Accum).requests = 0 := rfl
@[simp] theorem tokensIn_zero : (0 : Accum).tokensIn = 0 := rfl
@[simp] theorem tokensOut_zero : (0 : Accum).tokensOut = 0 := rfl
@[simp] theorem latencyMsSum_zero : (0 : Accum).latencyMsSum = 0 := rfl

instance : AddCommMonoid Accum where
  add_assoc a b c := by ext <;> simp [Nat.add_assoc]
  zero_add a := by ext <;> simp
  add_zero a := by ext <;> simp
  add_comm a b := by ext <;> simp [Nat.add_comm]
  nsmul := nsmulRec

/-- The aggregate of one request; negative numbers count as zero. -/
def ofRequest (tokensIn tokensOut latencyMs : ℤ) : Accum :=
  ⟨1, (max tokensIn 0).toNat, (max tokensOut 0).toNat, (max latencyMs 0).toNat⟩

/-- The tokens of an aggregate. -/
def tokens (a : Accum) : ℕ := a.tokensIn + a.tokensOut

end Accum

/-- `MAX_PENDING_KEYS`. -/
def maxPendingKeys : ℕ := 10000

/-- `record_request` on the buffer; a full one drops the request. -/
def recordRequest (pending : Dict UsageKey Accum) (key : UsageKey) (a : Accum) :
    Option (Dict UsageKey Accum) :=
  match pending.get? key with
  | some accum => some (pending.set key (accum + a))
  | none => if maxPendingKeys ≤ pending.size then none else some (pending.set key a)

/-! ### Flushes -/

/-- A flush of `flush_usage` that waits for the database. -/
structure Flush where
  /-- The local `pending`: the buffer that was taken out. -/
  snapshot : Dict UsageKey Accum
  /-- The entries to fold; it waits for the row of the first, or for the commit. -/
  todo : List (UsageKey × Accum)
  /-- The rows of the session, written but not committed. -/
  session : List (UsageKey × Accum) := []
  /-- It has failed and waits for the rollback. -/
  rollback : Bool := false

/-- The committed rows of `usage_records`, the buffer, the flush that runs, and the
requests recorded so far that were not dropped. -/
structure Usage where
  records : Dict UsageKey Accum := Dict.empty
  pending : Dict UsageKey Accum := Dict.empty
  flush : Option Flush := none
  accepted : List (UsageKey × Accum) := []

/-- What may happen. -/
inductive UsageEvent
  /-- `record_request`. -/
  | record (key : UsageKey) (tokensIn tokensOut latencyMs : ℤ)
  /-- `flush_usage` is called. -/
  | flush
  /-- The database answers the flush. -/
  | answered
  /-- The awaited call of the flush raises; a commit may have taken effect. -/
  | raised (effective : Bool)
  /-- The flush is cancelled where it waits; a commit may have taken effect. -/
  | cancelled (effective : Bool)
  deriving DecidableEq, Repr

/-- The rows of the session are written. -/
def commitRows (records : Dict UsageKey Accum) (session : List (UsageKey × Accum)) :
    Dict UsageKey Accum :=
  session.foldl (fun d e => d.set e.1 e.2) records

/-- One aggregate is folded into the row that was read, or into a new one. -/
def foldRow (row : Option Accum) (a : Accum) : Accum :=
  match row with
  | none => a
  | some r => r + a

namespace Usage

/-- `flush_usage` up to its first await.  A second call while one runs is none:
the callers are sequential. -/
def startFlush (s : Usage) : Usage :=
  match s.flush with
  | some _ => s
  | none =>
    if s.pending.isEmpty then s
    else { s with pending := Dict.empty, flush := some ⟨s.pending, s.pending.entries, [], false⟩ }

/-- The awaited call returns: a row was read, or the commit or the rollback is done.
After a rollback the aggregates are merged back. -/
def dbAnswered (s : Usage) (f : Flush) : Usage :=
  if f.rollback then
    { s with pending := s.pending.addAll f.snapshot.entries, flush := none }
  else
    match f.todo with
    | (key, a) :: rest =>
      let session := f.session ++ [(key, foldRow (s.records.get? key) a)]
      { s with flush := some { f with todo := rest, session := session } }
    | [] => { s with records := commitRows s.records f.session, flush := none }

/-- The flush waits for its commit. -/
def commits (f : Flush) : Bool := f.rollback = false ∧ f.todo = []

/-- What a commit that does not return leaves in the table. -/
def recordsAfter (s : Usage) (f : Flush) (effective : Bool) : Dict UsageKey Accum :=
  if commits f ∧ effective = true then commitRows s.records f.session else s.records

/-- The awaited call raises.  `except Exception` awaits the rollback; an exception of
the rollback itself leaves `flush_usage` before anything is merged back. -/
def dbRaised (s : Usage) (f : Flush) (effective : Bool) : Usage :=
  if f.rollback then { s with flush := none }
  else { s with records := s.recordsAfter f effective, flush := some { f with rollback := true } }

/-- The flush is cancelled, which `except Exception` does not catch. -/
def dbCancelled (s : Usage) (f : Flush) (effective : Bool) : Usage :=
  { s with records := s.recordsAfter f effective, flush := none }

/-- One step. -/
def step (s : Usage) : UsageEvent → Usage
  | .record key tokensIn tokensOut latencyMs =>
    match recordRequest s.pending key (Accum.ofRequest tokensIn tokensOut latencyMs) with
    | none => s
    | some pending =>
      { s with
        pending := pending
        accepted := s.accepted ++ [(key, Accum.ofRequest tokensIn tokensOut latencyMs)] }
  | .flush => s.startFlush
  | .answered => s.flush.elim s s.dbAnswered
  | .raised effective => s.flush.elim s fun f => s.dbRaised f effective
  | .cancelled effective => s.flush.elim s fun f => s.dbCancelled f effective

end Usage

/-! ### Quotas -/

/-- The aggregates of a user on a day. -/
def ofUser (userId day : ℕ) (key : UsageKey) : Bool := key.userId = userId ∧ key.day = day

/-- The query of `usage_today`: requests and tokens of the user's rows of the day. -/
def queryUsage (records : Dict UsageKey Accum) (userId day : ℕ) : ℕ × ℕ :=
  ((records.total (ofUser userId day)).requests, (records.total (ofUser userId day)).tokens)

/-- `usage_today` after its query: the rows, plus what is still in the buffer. -/
def usageToday (row : ℕ × ℕ) (pending : Dict UsageKey Accum) (userId day : ℕ) : ℕ × ℕ :=
  pending.entries.foldl
    (fun acc e => if ofUser userId day e.1 then (acc.1 + e.2.requests, acc.2 + e.2.tokens) else acc)
    row

/-- `check_quota` on what `usage_today` returns: the usage and the limit it has reached. -/
def checkQuota (requestLimit tokenLimit : Option ℕ) (usage : ℕ × ℕ) : Option (ℕ × ℕ) :=
  match requestLimit.filter (· ≤ usage.1) with
  | some limit => some (usage.1, limit)
  | none => (tokenLimit.filter (· ≤ usage.2)).map fun limit => (usage.2, limit)

end Inferna
