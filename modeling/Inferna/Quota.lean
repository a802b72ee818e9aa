import Inferna.Conservation

/-!
# What the quota check sees

`usage_today` adds the user's rows of the day, read by a query, and the user's
aggregates in `_PENDING`, read when the query has returned.  A flush that runs holds
aggregates which are in neither place, and one that commits between the two readings
moves aggregates from the place read last to the place read first.

## Main definitions

* `Reader`, `Quota` — a call of `check_quota`, and all calls with the accounting.
* `QuotaSeen` — what was recorded before a call is in what it returns.
* `UndisturbedRead` — nothing of the user moves while a call reads.

## Main results

* `usageToday_eq` — what `usage_today` returns, as totals.
* `quota_seen` — **after every run in which nothing of a user moves while its usage is
  read, each call has seen all that was recorded before it.**
* `flush_hides_usage` — a running flush hides the usage it holds.
-/

namespace Inferna

/-- A call of `check_quota` for a user with limits. -/
structure Reader where
  userId : ℕ
  day : ℕ
  requestLimit : Option ℕ
  tokenLimit : Option ℕ
  /-- The requests and tokens recorded for the user when it was called. -/
  recordedBefore : ℕ × ℕ
  /-- The answer of the query. -/
  row : Option (ℕ × ℕ) := none
  /-- What `usage_today` returned. -/
  result : Option (ℕ × ℕ) := none

/-- The accounting, and the calls of `check_quota` so far. -/
structure Quota where
  usage : Usage := {}
  readers : List Reader := []

/-- What may happen. -/
inductive QuotaEvent
  | usage (ev : UsageEvent)
  /-- `check_quota` is called and waits for its query. -/
  | call (userId day : ℕ) (requestLimit tokenLimit : Option ℕ)
  /-- The database executes the query of a call. -/
  | query (r : ℕ)
  /-- A call whose query was executed goes on. -/
  | finish (r : ℕ)

/-- The requests and tokens recorded for a user on a day. -/
def recordedUsage (s : Usage) (userId day : ℕ) : ℕ × ℕ :=
  ((Dict.sumEntries (ofUser userId day) s.accepted).requests,
    (Dict.sumEntries (ofUser userId day) s.accepted).tokens)

/-- The database executes the query. -/
def Reader.query (s : Usage) (rd : Reader) : Reader :=
  { rd with row := some (rd.row.getD (queryUsage s.records rd.userId rd.day)) }

/-- `usage_today` goes on after its query. -/
def Reader.finish (s : Usage) (rd : Reader) : Reader :=
  match rd.row with
  | none => rd
  | some row =>
    { rd with result := some (rd.result.getD (usageToday row s.pending rd.userId rd.day)) }

/-- One step. -/
def Quota.step (q : Quota) : QuotaEvent → Quota
  | .usage ev => { q with usage := q.usage.step ev }
  | .call userId day requestLimit tokenLimit =>
    let rd : Reader :=
      { userId, day, requestLimit, tokenLimit, recordedBefore := recordedUsage q.usage userId day }
    { q with readers := q.readers ++ [rd] }
  | .query r => { q with readers := q.readers.modify r (Reader.query q.usage) }
  | .finish r => { q with readers := q.readers.modify r (Reader.finish q.usage) }

/-- The call has returned at least what was recorded before it, and so has not let a
user pass whose recorded requests or tokens had reached the limit. -/
def Reader.Seen (rd : Reader) : Prop :=
  ∀ result ∈ rd.result, rd.recordedBefore.1 ≤ result.1 ∧ rd.recordedBefore.2 ≤ result.2 ∧
    ((∃ limit ∈ rd.requestLimit, limit ≤ rd.recordedBefore.1) ∨
      (∃ limit ∈ rd.tokenLimit, limit ≤ rd.recordedBefore.2) →
        checkQuota rd.requestLimit rd.tokenLimit result ≠ none)

/-- Every call has seen what was recorded before it. -/
def QuotaSeen (q : Quota) : Prop := ∀ rd ∈ q.readers, rd.Seen

/-- When a call reads the buffer, no flush holds an aggregate of the user's day, and the
user's rows are still what the query has read. -/
def Undisturbed (s : Usage) (rd : Reader) : Prop :=
  (∀ f ∈ s.flush, ∀ key ∈ f.snapshot.keys, ofUser rd.userId rd.day key = false) ∧
    ∀ row ∈ rd.row, row = queryUsage s.records rd.userId rd.day

instance (s : Usage) (rd : Reader) : Decidable (Undisturbed s rd) :=
  haveI : ∀ f : Flush, Decidable (∀ key ∈ f.snapshot.keys, ofUser rd.userId rd.day key = false) :=
    fun _ => List.decidableBAll _ _
  haveI := Option.decidableForallMem
    (p := fun f : Flush => ∀ key ∈ f.snapshot.keys, ofUser rd.userId rd.day key = false) s.flush
  haveI := Option.decidableForallMem
    (p := fun row => row = queryUsage s.records rd.userId rd.day) rd.row
  instDecidableAnd

/-- The steps under which each call sees everything. -/
def UndisturbedRead (q : Quota) : QuotaEvent → Prop
  | .usage ev => OrderlyFlush q.usage ev
  | .finish r => ∀ rd ∈ q.readers[r]?, Undisturbed q.usage rd
  | _ => True

instance (q : Quota) : ∀ ev, Decidable (UndisturbedRead q ev)
  | .usage ev => inferInstanceAs (Decidable (OrderlyFlush q.usage ev))
  | .finish r => Option.decidableForallMem q.readers[r]?
  | .call _ _ _ _ => isTrue trivial
  | .query _ => isTrue trivial

/-! ### Totals -/

theorem tokens_add (a b : Accum) : (a + b).tokens = a.tokens + b.tokens := by
  show a.tokensIn + b.tokensIn + (a.tokensOut + b.tokensOut) = _
  unfold Accum.tokens
  omega

/-- What `usage_today` returns: the rows it read and the user's total in the buffer. -/
theorem usageToday_eq (row : ℕ × ℕ) (pending : Dict UsageKey Accum) (userId day : ℕ) :
    usageToday row pending userId day =
      (row.1 + (pending.total (ofUser userId day)).requests,
        row.2 + (pending.total (ofUser userId day)).tokens) := by
  have hgen : ∀ (es : List (UsageKey × Accum)) (acc : ℕ × ℕ),
      es.foldl (fun acc e =>
        if ofUser userId day e.1 then (acc.1 + e.2.requests, acc.2 + e.2.tokens) else acc) acc =
      (acc.1 + (Dict.sumEntries (ofUser userId day) es).requests,
        acc.2 + (Dict.sumEntries (ofUser userId day) es).tokens) := by
    intro es
    induction es with
    | nil => intro acc; rfl
    | cons e es ih =>
      intro acc
      rw [List.foldl_cons, ih, Dict.sumEntries_cons]
      split
      · rw [Accum.requests_add, tokens_add]
        simp only [Nat.add_assoc]
      · rw [zero_add]
  exact hgen pending.entries row

/-- A call that is not disturbed returns what is recorded when it reads the buffer. -/
theorem usageToday_undisturbed {s : Usage} (h : UsageInv s) {rd : Reader} (hrd : Undisturbed s rd)
    {row : ℕ × ℕ} (hrow : rd.row = some row) :
    usageToday row s.pending rd.userId rd.day = recordedUsage s rd.userId rd.day := by
  have hflight : s.inFlight (ofUser rd.userId rd.day) = 0 := by
    unfold Usage.inFlight
    cases hf : s.flush with
    | none => rfl
    | some f =>
      exact Dict.sumEntries_of_notMem fun e he => hrd.1 f hf e.1 (List.mem_map_of_mem he)
  have htotal := h.total (ofUser rd.userId rd.day)
  rw [hflight, add_zero] at htotal
  rw [usageToday_eq, hrd.2 row hrow, recordedUsage, ← htotal, Accum.requests_add, tokens_add]
  rfl

/-! ### Runs -/

/-- A step appends to what was recorded. -/
theorem accepted_step (s : Usage) (ev : UsageEvent) :
    ∃ new, (s.step ev).accepted = s.accepted ++ new := by
  cases ev with
  | record key tokensIn tokensOut latencyMs =>
    simp only [Usage.step]
    split
    · exact ⟨[], (List.append_nil _).symm⟩
    · exact ⟨_, rfl⟩
  | flush =>
    refine ⟨[], ?_⟩
    rw [List.append_nil]
    show s.startFlush.accepted = _
    unfold Usage.startFlush
    split
    · rfl
    · split <;> rfl
  | answered =>
    refine ⟨[], ?_⟩
    rw [List.append_nil]
    cases hf : s.flush with
    | none => simp only [Usage.step, hf, Option.elim]
    | some f =>
      simp only [Usage.step, hf, Option.elim, Usage.dbAnswered]
      split
      · rfl
      · split <;> rfl
  | raised effective =>
    refine ⟨[], ?_⟩
    rw [List.append_nil]
    cases hf : s.flush with
    | none => simp only [Usage.step, hf, Option.elim]
    | some f =>
      simp only [Usage.step, hf, Option.elim, Usage.dbRaised]
      split <;> rfl
  | cancelled effective =>
    refine ⟨[], ?_⟩
    rw [List.append_nil]
    cases hf : s.flush with
    | none => simp only [Usage.step, hf, Option.elim]
    | some f => simp only [Usage.step, hf, Option.elim, Usage.dbCancelled]

theorem recordedUsage_step (s : Usage) (ev : UsageEvent) (userId day : ℕ) :
    (recordedUsage s userId day).1 ≤ (recordedUsage (s.step ev) userId day).1 ∧
      (recordedUsage s userId day).2 ≤ (recordedUsage (s.step ev) userId day).2 := by
  obtain ⟨new, hnew⟩ := accepted_step s ev
  unfold recordedUsage
  rw [hnew, Dict.sumEntries_append, Accum.requests_add, tokens_add]
  exact ⟨Nat.le_add_right _ _, Nat.le_add_right _ _⟩

/-- A limit that has been reached is reported. -/
theorem checkQuota_ne_none {requestLimit tokenLimit : Option ℕ} {usage : ℕ × ℕ}
    (h : (∃ limit ∈ requestLimit, limit ≤ usage.1) ∨ ∃ limit ∈ tokenLimit, limit ≤ usage.2) :
    checkQuota requestLimit tokenLimit usage ≠ none := by
  unfold checkQuota
  split
  · exact Option.some_ne_none _
  · rename_i hnone
    rcases h with ⟨limit, hlimit, hle⟩ | ⟨limit, hlimit, hle⟩
    · obtain rfl := Option.mem_def.mp hlimit
      have hlt : usage.1 < limit := by simpa using hnone
      omega
    · obtain rfl := Option.mem_def.mp hlimit
      simp [hle]

/-- The invariant: the accounting is conserved, no call is ahead of the recording, and
every call that has returned has seen what was recorded before it. -/
structure QuotaInv (q : Quota) : Prop where
  usage : UsageInv q.usage
  before : ∀ rd ∈ q.readers, rd.recordedBefore.1 ≤ (recordedUsage q.usage rd.userId rd.day).1 ∧
    rd.recordedBefore.2 ≤ (recordedUsage q.usage rd.userId rd.day).2
  seen : QuotaSeen q

theorem Reader.seen_finish {s : Usage} (h : UsageInv s) {rd : Reader} (hrd : Undisturbed s rd)
    (hbefore : rd.recordedBefore.1 ≤ (recordedUsage s rd.userId rd.day).1 ∧
      rd.recordedBefore.2 ≤ (recordedUsage s rd.userId rd.day).2)
    (hseen : rd.Seen) : (rd.finish s).Seen := by
  unfold Reader.finish
  split
  · exact hseen
  · rename_i row hrow
    cases hres : rd.result with
    | some result =>
      intro result' hresult'
      obtain rfl := Option.mem_some.mp hresult'
      exact hseen _ hres
    | none =>
      intro result hresult
      obtain rfl := Option.mem_some.mp hresult
      show rd.recordedBefore.1 ≤ (usageToday row s.pending rd.userId rd.day).1 ∧ _
      rw [Option.getD_none, usageToday_undisturbed h hrd hrow]
      refine ⟨hbefore.1, hbefore.2, fun hlimit => checkQuota_ne_none ?_⟩
      rcases hlimit with ⟨limit, hlimit, hle⟩ | ⟨limit, hlimit, hle⟩
      · exact Or.inl ⟨limit, hlimit, hle.trans hbefore.1⟩
      · exact Or.inr ⟨limit, hlimit, hle.trans hbefore.2⟩

/-- A reader of a modified list is an old one, or the modified one. -/
theorem mem_modify {α : Type*} {xs : List α} {r : ℕ} {f : α → α} {x : α} (h : x ∈ xs.modify r f) :
    x ∈ xs ∨ ∃ y, xs[r]? = some y ∧ y ∈ xs ∧ x = f y := by
  obtain ⟨n, hn⟩ := List.mem_iff_getElem?.mp h
  rw [List.getElem?_modify] at hn
  obtain ⟨y, hy, rfl⟩ := Option.map_eq_some_iff.mp hn
  split
  · rename_i hr
    exact Or.inr ⟨y, hr ▸ hy, List.mem_of_getElem? hy, rfl⟩
  · exact Or.inl (List.mem_of_getElem? hy)

theorem quotaInv_step {q : Quota} (h : QuotaInv q) {ev : QuotaEvent} (hok : UndisturbedRead q ev) :
    QuotaInv (q.step ev) := by
  cases ev with
  | usage ev =>
    refine ⟨usageInv_step h.usage hok, fun rd hrd => ?_, h.seen⟩
    have hold := h.before rd hrd
    have hmore := recordedUsage_step q.usage ev rd.userId rd.day
    exact ⟨hold.1.trans hmore.1, hold.2.trans hmore.2⟩
  | call userId day requestLimit tokenLimit =>
    refine ⟨h.usage, fun rd hrd => ?_, fun rd hrd => ?_⟩
    · rcases List.mem_append.mp hrd with hrd | hrd
      · exact h.before rd hrd
      · rw [List.mem_singleton.mp hrd]
        exact ⟨le_rfl, le_rfl⟩
    · rcases List.mem_append.mp hrd with hrd | hrd
      · exact h.seen rd hrd
      · rw [List.mem_singleton.mp hrd]
        exact fun _ hresult => (nomatch hresult)
  | query r =>
    refine ⟨h.usage, fun rd hrd => ?_, fun rd hrd => ?_⟩
    · rcases mem_modify hrd with hrd | ⟨rd', -, hmem, rfl⟩
      · exact h.before rd hrd
      · exact h.before rd' hmem
    · rcases mem_modify hrd with hrd | ⟨rd', -, hmem, rfl⟩
      · exact h.seen rd hrd
      · exact h.seen rd' hmem
  | finish r =>
    have hsame : ∀ rd : Reader, (rd.finish q.usage).recordedBefore = rd.recordedBefore ∧
        (rd.finish q.usage).userId = rd.userId ∧ (rd.finish q.usage).day = rd.day := by
      intro rd
      unfold Reader.finish
      split <;> exact ⟨rfl, rfl, rfl⟩
    refine ⟨h.usage, fun rd hrd => ?_, fun rd hrd => ?_⟩
    · rcases mem_modify hrd with hrd | ⟨rd', -, hmem, rfl⟩
      · exact h.before rd hrd
      · rw [(hsame rd').1, (hsame rd').2.1, (hsame rd').2.2]
        exact h.before rd' hmem
    · rcases mem_modify hrd with hrd | ⟨rd', hr, hmem, rfl⟩
      · exact h.seen rd hrd
      · exact rd'.seen_finish h.usage (hok rd' hr) (h.before rd' hmem) (h.seen rd' hmem)

/-- **After every run in which nothing of a user moves while its usage is read, each
call has returned at least what was recorded before it, and no user was let pass whose
recorded usage had reached a limit.** -/
theorem quota_seen (evs : List QuotaEvent) (h : Run.Conforms Quota.step UndisturbedRead {} evs) :
    QuotaSeen (Run.exec Quota.step {} evs) := by
  have hinit : QuotaInv {} :=
    ⟨⟨fun _ hf => (nomatch hf), fun _ => rfl⟩, fun _ hrd => (nomatch hrd), fun _ hrd => (nomatch hrd)⟩
  exact (Run.invariant_of_conforms QuotaInv (fun _ _ hq hok => quotaInv_step hq hok) evs {} hinit
    h).seen

/-- A request is recorded and flushed, another is recorded, and the user is at its limit. -/
def quotaRun : List QuotaEvent :=
  [.usage (.record ⟨1, 2, 3, 0⟩ 10 20 5), .usage .flush, .usage .answered, .usage .answered,
    .usage (.record ⟨1, 2, 3, 0⟩ 1 1 1), .call 1 0 (some 2) none, .query 0, .finish 0]

theorem quota_seen_sample :
    (Run.exec Quota.step {} quotaRun).readers.map Reader.result = [some (2, 32)] ∧
    QuotaSeen (Run.exec Quota.step {} quotaRun) :=
  ⟨by decide +kernel, quota_seen quotaRun (by decide +kernel)⟩

/-- **A flush that runs hides the usage it holds**: a user whose recorded request has
reached the limit is let pass. -/
theorem flush_hides_usage : ¬ ∀ evs, QuotaSeen (Run.exec Quota.step {} evs) := by
  intro h
  have hseen := h [.usage (.record ⟨1, 2, 3, 0⟩ 10 20 5), .usage .flush, .call 1 0 (some 1) none,
    .query 0, .finish 0] _ List.mem_cons_self (0, 0) (by decide +kernel)
  revert hseen
  decide +kernel

end Inferna
