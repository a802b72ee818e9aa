import Inferna.Access
import Inferna.Conservation
import Inferna.Occupancy
import Inferna.Lib.Rounding

/-!
# The usage report

`api/usage.py`: the consumption of the last days by day, model, key and user.  An admin gets the
rows of everyone, anyone else their own.  The endpoint waits for the database several times; what
each wait answers is an argument here: the row of a key, the usage records, the GPU usage, and
what `usage_today` returns.

A mean latency is a rounded quotient of the sums, and the GPU hours of a row are those of its
model and day, whoever used them.

## Main definitions

* `UsageQuery`, `UsageOut` — the parameters, and the answer.
* `selected` — the rows a query selects for a user.
* `gpuSecondsOf`, `usageReport` — `_gpu_seconds` and `usage`.

## Main results

* `report_accounts` — **in every orderly run, what a report shows, what waits in the buffer and
  what a flush holds add up to what was recorded.**
* `report_split` — **an admin's report, cut down to a user, is the report that user gets**, and
  the figures of its rows and of its totals agree.
-/

namespace Inferna

/-! ### The endpoint -/

/-- The parameters of the request. -/
structure UsageQuery where
  days : ℕ := 7
  modelId : Option Uuid := none
  keyId : Option Uuid := none
  days_bounds : 1 ≤ days ∧ days ≤ 90 := by decide

/-- `UsageRow`. -/
structure UsageRow where
  periodStart : ℕ
  modelId : Uuid
  modelName : String
  userId : Uuid
  username : String
  apiKeyId : Uuid
  requests : ℕ
  tokensIn : ℕ
  tokensOut : ℕ
  avgLatencyMs : ℤ
  gpuHours : ℚ
  deriving DecidableEq, Repr

/-- `UsageTotals`. -/
structure UsageTotals where
  requests : ℕ
  tokensIn : ℕ
  tokensOut : ℕ
  avgLatencyMs : ℤ
  gpuHours : ℚ
  deriving DecidableEq, Repr

/-- `UsageLimits`. -/
structure UsageLimits where
  tokenLimit : Option ℕ
  requestLimit : Option ℕ
  requestsUsed : ℕ
  tokensUsed : ℕ
  deriving DecidableEq, Repr

/-- `UsageOut`. -/
structure UsageOut where
  totals : UsageTotals
  rows : List UsageRow
  limits : UsageLimits
  deriving DecidableEq, Repr

/-- The first day of the window. -/
def UsageQuery.periodFrom (q : UsageQuery) (today : ℕ) : ℕ := today - (q.days - 1)

/-- The conditions of the query on a record. -/
def selected (q : UsageQuery) (current : AccountRow) (today : ℕ) (k : UsageKey) : Bool :=
  q.periodFrom today ≤ k.day && q.modelId.all (k.modelId = ·) &&
    (current.role = .admin || k.userId = current.id) && q.keyId.all (k.apiKeyId = ·)

/-- The later day first, and the more requests. -/
def RecordOrder (a b : UsageKey × Accum) : Prop :=
  b.1.day < a.1.day ∨ b.1.day = a.1.day ∧ b.2.requests ≤ a.2.requests

instance : DecidableRel RecordOrder := fun _ _ => inferInstanceAs (Decidable (_ ∨ _))

instance : Std.Total RecordOrder where
  total a b := by unfold RecordOrder; omega

instance : IsTrans (UsageKey × Accum) RecordOrder where
  trans a b c := by unfold RecordOrder; omega

/-- The records of the report, in its order. -/
def selectedRecords (q : UsageQuery) (current : AccountRow) (today : ℕ)
    (records : Dict UsageKey Accum) : List (UsageKey × Accum) :=
  (records.entries.filter fun e => selected q current today e.1).insertionSort RecordOrder

/-- `_gpu_seconds`: the seconds of the models since a day, by model and day. -/
def gpuSecondsOf (gpu : List GpuUsageRecord) (modelIds : List Uuid) (periodFrom : ℕ) :
    Dict (Uuid × ℕ) ℚ :=
  (gpu.filter fun g => periodFrom ≤ g.periodStart ∧ g.modelId ∈ modelIds).foldl
    (fun totals g => totals.add (g.modelId, g.periodStart) g.gpuSeconds) Dict.empty

/-- `round(seconds / 3600.0, 3)`. -/
def roundHours (seconds : ℚ) : ℚ := Json.roundHalfEven (seconds / 3600 * 1000) / 1000

/-- `round(latency_ms_sum / requests) if requests else 0`. -/
def avgLatency (a : Accum) : ℤ :=
  if a.requests ≠ 0 then Json.roundHalfEven ((a.latencyMsSum : ℚ) / a.requests) else 0

/-- The row of a record. -/
def usageRow (models : List Model) (users : List AccountRow) (seconds : Dict (Uuid × ℕ) ℚ)
    (e : UsageKey × Accum) : UsageRow where
  periodStart := e.1.day
  modelId := e.1.modelId
  modelName := ((models.find? (·.id = e.1.modelId)).map (·.name)).getD "unknown"
  userId := e.1.userId
  username := ((users.find? (·.id = e.1.userId)).map (·.username)).getD "unknown"
  apiKeyId := e.1.apiKeyId
  requests := e.2.requests
  tokensIn := e.2.tokensIn
  tokensOut := e.2.tokensOut
  avgLatencyMs := avgLatency e.2
  gpuHours := roundHours (seconds.getD (e.1.modelId, e.1.day) 0)

/-- The totals of the rows of some records. -/
def usageTotals (records : List (UsageKey × Accum)) (rows : List UsageRow)
    (seconds : Dict (Uuid × ℕ) ℚ) : UsageTotals where
  requests := (rows.map (·.requests)).sum
  tokensIn := (rows.map (·.tokensIn)).sum
  tokensOut := (rows.map (·.tokensOut)).sum
  avgLatencyMs := Json.roundHalfEven (((records.map (·.2.latencyMsSum)).sum : ℕ) /
    (max (records.map (·.2.requests)).sum 1 : ℕ))
  gpuHours := roundHours seconds.values.sum

/-- `usage`; `key` is the row of the key that is asked for, and `used` what `usage_today`
returns. -/
def usageReport (q : UsageQuery) (current : AccountRow) (today : ℕ) (key : Option ApiKey)
    (records : Dict UsageKey Accum) (models : List Model) (users : List AccountRow)
    (gpu : List GpuUsageRecord) (used : ℕ × ℕ) : Except ServerError UsageOut :=
  if q.keyId.isSome ∧ current.role ≠ .admin ∧ ¬ key.any (·.userId = current.id) then
    .error (.http 403 "not allowed")
  else
    let chosen := selectedRecords q current today records
    let seconds := gpuSecondsOf gpu (chosen.map (·.1.modelId)) (q.periodFrom today)
    let rows := chosen.map (usageRow models users seconds)
    .ok
      { totals := usageTotals chosen rows seconds
        rows := rows
        limits :=
          { tokenLimit := current.tokenLimit
            requestLimit := current.requestLimit
            requestsUsed := used.1
            tokensUsed := used.2 } }

/-! ### What a report accounts for -/

section

variable {q : UsageQuery} {current : AccountRow} {today : ℕ} {key : Option ApiKey}
  {records : Dict UsageKey Accum} {models : List Model} {users : List AccountRow}
  {gpu : List GpuUsageRecord} {used : ℕ × ℕ} {out : UsageOut}

/-- A report that is not refused. -/
theorem usageReport_eq_ok (h : usageReport q current today key records models users gpu used =
    .ok out) :
    out.rows = (selectedRecords q current today records).map (usageRow models users
        (gpuSecondsOf gpu ((selectedRecords q current today records).map (·.1.modelId))
          (q.periodFrom today))) ∧
      out.totals = usageTotals (selectedRecords q current today records) out.rows
        (gpuSecondsOf gpu ((selectedRecords q current today records).map (·.1.modelId))
          (q.periodFrom today)) := by
  unfold usageReport at h
  split at h
  · cases h
  · obtain rfl := Except.ok.inj h
    exact ⟨rfl, rfl⟩

/-- A figure summed over the records of a report is the figure of their total. -/
theorem sum_selectedRecords (f : Accum → ℕ) (hzero : f 0 = 0) (hadd : ∀ a b, f (a + b) = f a + f b) :
    ((selectedRecords q current today records).map fun e => f e.2).sum =
      f (records.total (selected q current today)) := by
  unfold selectedRecords Dict.total Dict.sumEntries
  rw [((List.perm_insertionSort _ _).map _).sum_eq]
  induction records.entries.filter fun e => selected q current today e.1 with
  | nil => exact hzero.symm
  | cons e es ih => rw [List.map_cons, List.sum_cons, ih, List.map_cons, List.sum_cons, hadd]

/-- The figures of the totals are those of what the query selects. -/
theorem totals_eq_total (h : usageReport q current today key records models users gpu used =
    .ok out) :
    out.totals.requests = (records.total (selected q current today)).requests ∧
      out.totals.tokensIn = (records.total (selected q current today)).tokensIn ∧
        out.totals.tokensOut = (records.total (selected q current today)).tokensOut := by
  obtain ⟨hrows, htotals⟩ := usageReport_eq_ok h
  rw [htotals, hrows]
  refine ⟨?_, ?_, ?_⟩
  · rw [← sum_selectedRecords (·.requests) rfl fun _ _ => rfl]
    simp only [usageTotals, List.map_map]
    rfl
  · rw [← sum_selectedRecords (·.tokensIn) rfl fun _ _ => rfl]
    simp only [usageTotals, List.map_map]
    rfl
  · rw [← sum_selectedRecords (·.tokensOut) rfl fun _ _ => rfl]
    simp only [usageTotals, List.map_map]
    rfl

/-- **In every orderly run of the accounting, what a report shows, what waits in the buffer and
what a running flush holds add up to what was recorded** of the user, the model, the key and the
days that the report is about. -/
theorem report_accounts (evs : List UsageEvent)
    (hev : Run.Conforms Usage.step OrderlyFlush {} evs)
    (h : usageReport q current today key (Run.exec Usage.step {} evs).records models users gpu used =
      .ok out) :
    let s := Run.exec Usage.step {} evs
    let p := selected q current today
    out.totals.requests + (s.pending.total p).requests + (s.inFlight p).requests =
        (Dict.sumEntries p s.accepted).requests ∧
      out.totals.tokensIn + (s.pending.total p).tokensIn + (s.inFlight p).tokensIn =
          (Dict.sumEntries p s.accepted).tokensIn ∧
        out.totals.tokensOut + (s.pending.total p).tokensOut + (s.inFlight p).tokensOut =
          (Dict.sumEntries p s.accepted).tokensOut := by
  intro s p
  obtain ⟨hrequests, hin, hout⟩ := totals_eq_total h
  have htotal := (usageInv_exec hev).total p
  rw [hrequests, hin, hout, ← htotal]
  exact ⟨rfl, rfl, rfl⟩

/-! ### Whose rows they are -/

theorem get?_gpuSecondsOf {modelIds : List Uuid} {periodFrom : ℕ} {m : Uuid} (hm : m ∈ modelIds)
    (day : ℕ) :
    (gpuSecondsOf gpu modelIds periodFrom).getD (m, day) 0 =
      ((gpu.filter fun g => periodFrom ≤ g.periodStart ∧ g.modelId = m ∧ g.periodStart = day).map
        (·.gpuSeconds)).sum := by
  have hgen : ∀ (rows : List GpuUsageRecord) (d : Dict (Uuid × ℕ) ℚ),
      (rows.foldl (fun totals g => totals.add (g.modelId, g.periodStart) g.gpuSeconds) d).getD
          (m, day) 0 =
        d.getD (m, day) 0 +
          ((rows.filter fun g => g.modelId = m ∧ g.periodStart = day).map (·.gpuSeconds)).sum := by
    intro rows
    induction rows with
    | nil => intro d; simp
    | cons g rows ih =>
      intro d
      rw [List.foldl_cons, ih, Dict.getD, Dict.get?_add]
      by_cases hg : g.modelId = m ∧ g.periodStart = day
      · rw [List.filter_cons_of_pos (by simpa using hg), List.map_cons, List.sum_cons,
          if_pos (by rw [hg.1, hg.2]), Option.getD_some, hg.1, hg.2, add_assoc]
      · rw [List.filter_cons_of_neg (by simpa using hg), if_neg]
        · rfl
        · rintro heq
          exact hg (Prod.mk.inj heq)
  unfold gpuSecondsOf
  rw [hgen, List.filter_filter]
  have hfilter : (gpu.filter fun g => decide (g.modelId = m ∧ g.periodStart = day) &&
      decide (periodFrom ≤ g.periodStart ∧ g.modelId ∈ modelIds)) =
      gpu.filter fun g => periodFrom ≤ g.periodStart ∧ g.modelId = m ∧ g.periodStart = day := by
    refine List.filter_congr fun g _ => ?_
    by_cases hg : g.modelId = m
    · simp [hg, hm, and_comm]
    · simp [hg]
  rw [hfilter]
  show (0 : ℚ) + _ = _
  rw [zero_add]

/-- The GPU hours of a row do not depend on the other rows. -/
theorem usageRow_gpuSecondsOf {e : UsageKey × Accum} {es : List (UsageKey × Accum)} (he : e ∈ es)
    (periodFrom : ℕ) :
    usageRow models users (gpuSecondsOf gpu (es.map (·.1.modelId)) periodFrom) e =
      usageRow models users (gpuSecondsOf gpu [e.1.modelId] periodFrom) e := by
  unfold usageRow
  rw [get?_gpuSecondsOf (List.mem_map_of_mem he), get?_gpuSecondsOf (List.mem_singleton.mpr rfl)]

/-- A user selects of an admin's records their own. -/
theorem selectedRecords_user {admin user : AccountRow} (hadmin : admin.role = .admin)
    (huser : user.role ≠ .admin) :
    selectedRecords q user today records =
      (selectedRecords q admin today records).filter fun e => e.1.userId = user.id := by
  unfold selectedRecords
  rw [List.filter_insertionSort, List.filter_filter]
  congr 1
  refine List.filter_congr fun e _ => ?_
  simp only [selected, hadmin, huser, decide_true, decide_false, Bool.true_or, Bool.false_or,
    Bool.and_true]
  cases decide (e.1.userId = user.id) <;> simp

/-- The aggregates count a request each. -/
def Counted (es : List (UsageKey × Accum)) : Prop := ∀ e ∈ es, 0 < e.2.requests

theorem counted_set {d : Dict UsageKey Accum} (h : Counted d.entries) (k : UsageKey) {a : Accum}
    (ha : 0 < a.requests) : Counted (d.set k a).entries := by
  rintro ⟨k', b⟩ hb
  have hget := (Dict.mem_entries_iff _ k' b).mp hb
  rw [Dict.get?_set] at hget
  split at hget
  · obtain rfl := Option.some.inj hget
    exact ha
  · exact h (k', b) ((Dict.mem_entries_iff _ k' b).mpr hget)

theorem counted_get? {d : Dict UsageKey Accum} (h : Counted d.entries) {k : UsageKey} {a : Accum}
    (hget : d.get? k = some a) : 0 < a.requests :=
  h (k, a) ((Dict.mem_entries_iff _ k a).mpr hget)

theorem counted_addAll : ∀ (es : List (UsageKey × Accum)) (d : Dict UsageKey Accum), Counted es →
    Counted d.entries → Counted (d.addAll es).entries := by
  intro es
  induction es with
  | nil => exact fun d _ hd => hd
  | cons e es ih =>
    intro d hes hd
    obtain ⟨he, hes⟩ := List.forall_mem_cons.mp hes
    refine ih (d.add e.1 e.2) hes ?_
    unfold Dict.add
    split
    · exact counted_set hd _ he
    · exact counted_set hd _ (Nat.add_pos_right _ he)

theorem counted_commitRows : ∀ (es : List (UsageKey × Accum)) (d : Dict UsageKey Accum),
    Counted es → Counted d.entries → Counted (commitRows d es).entries := by
  intro es
  induction es with
  | nil => exact fun d _ hd => hd
  | cons e es ih =>
    intro d hes hd
    obtain ⟨he, hes⟩ := List.forall_mem_cons.mp hes
    exact ih (d.set e.1 e.2) hes (counted_set hd _ he)

/-- Table, buffer and running flush count a request for each aggregate. -/
structure UsageCounted (s : Usage) : Prop where
  records : Counted s.records.entries
  pending : Counted s.pending.entries
  flush : ∀ f ∈ s.flush, Counted f.snapshot.entries ∧ Counted f.todo ∧ Counted f.session

theorem UsageCounted.recordsAfter {s : Usage} (h : UsageCounted s) {f : Flush}
    (hf : f ∈ s.flush) (effective : Bool) : Counted (s.recordsAfter f effective).entries := by
  unfold Usage.recordsAfter
  split
  · exact counted_commitRows _ _ (h.flush f hf).2.2 h.records
  · exact h.records

theorem usageCounted_dbAnswered {s : Usage} (h : UsageCounted s) {f : Flush} (hf : f ∈ s.flush) :
    UsageCounted (s.dbAnswered f) := by
  obtain ⟨hsnapshot, htodo, hsession⟩ := h.flush f hf
  unfold Usage.dbAnswered
  split
  · exact ⟨h.records, counted_addAll _ _ hsnapshot h.pending, fun f hf => (by cases hf)⟩
  · split
    · -- a row is read and folded
      rename_i key a rest heq
      rw [heq] at htodo
      obtain ⟨ha, hrest⟩ := List.forall_mem_cons.mp htodo
      refine ⟨h.records, h.pending, fun f' hf' => ?_⟩
      obtain rfl := Option.mem_some.mp hf'
      refine ⟨hsnapshot, hrest, List.forall_mem_append.mpr ⟨hsession, ?_⟩⟩
      rw [List.forall_mem_singleton, foldRow_eq]
      exact Nat.add_pos_right _ ha
    · exact ⟨counted_commitRows _ _ hsession h.records, h.pending, fun f hf => (by cases hf)⟩

theorem usageCounted_step {s : Usage} (h : UsageCounted s) (ev : UsageEvent) :
    UsageCounted (s.step ev) := by
  cases ev with
  | record key tokensIn tokensOut latencyMs =>
    simp only [Usage.step]
    split
    · exact h
    · rename_i pending hrec
      refine ⟨h.records, ?_, h.flush⟩
      unfold recordRequest at hrec
      split at hrec
      · obtain rfl := Option.some.inj hrec
        exact counted_set h.pending _ (Nat.add_pos_right _ one_pos)
      · split at hrec
        · cases hrec
        · obtain rfl := Option.some.inj hrec
          exact counted_set h.pending _ one_pos
  | flush =>
    show UsageCounted s.startFlush
    unfold Usage.startFlush
    split
    · exact h
    · split
      · exact h
      · refine ⟨h.records, fun e he => (by cases he), fun f hf => ?_⟩
        obtain rfl := Option.mem_some.mp hf
        exact ⟨h.pending, h.pending, fun e he => (by cases he)⟩
  | answered =>
    cases hf : s.flush with
    | none => simpa only [Usage.step, hf, Option.elim] using h
    | some f => simpa only [Usage.step, hf, Option.elim] using usageCounted_dbAnswered h hf
  | raised effective =>
    cases hf : s.flush with
    | none => simpa only [Usage.step, hf, Option.elim] using h
    | some f =>
      simp only [Usage.step, hf, Option.elim, Usage.dbRaised]
      split
      · exact ⟨h.records, h.pending, fun f hf => (by cases hf)⟩
      · refine ⟨h.recordsAfter hf effective, h.pending, fun f' hf' => ?_⟩
        obtain rfl := Option.mem_some.mp hf'
        exact h.flush f hf
  | cancelled effective =>
    cases hf : s.flush with
    | none => simpa only [Usage.step, hf, Option.elim] using h
    | some f =>
      simp only [Usage.step, hf, Option.elim, Usage.dbCancelled]
      exact ⟨h.recordsAfter hf effective, h.pending, fun f hf => (by cases hf)⟩

theorem counted_exec (evs : List UsageEvent) :
    Counted (Run.exec Usage.step {} evs).records.entries :=
  (Run.invariant UsageCounted (fun _ ev h => usageCounted_step h ev) evs {}
    ⟨fun _ he => (by cases he), fun _ he => (by cases he), fun _ hf => (by cases hf)⟩).records

/-! ### The figures of a report -/

theorem gpuSecondsOf_nonneg (hgpu : ∀ g ∈ gpu, 0 ≤ g.gpuSeconds) (modelIds : List Uuid)
    (periodFrom : ℕ) (k : Uuid × ℕ) : 0 ≤ (gpuSecondsOf gpu modelIds periodFrom).getD k 0 := by
  have hgen : ∀ (rows : List GpuUsageRecord) (d : Dict (Uuid × ℕ) ℚ),
      (∀ g ∈ rows, 0 ≤ g.gpuSeconds) → (∀ k, 0 ≤ d.getD k 0) → ∀ k,
        0 ≤ (rows.foldl (fun totals g =>
          totals.add (g.modelId, g.periodStart) g.gpuSeconds) d).getD k 0 := by
    intro rows
    induction rows with
    | nil => intro d _ hd; exact hd
    | cons g rows ih =>
      intro d hrows hd
      rw [List.forall_mem_cons] at hrows
      refine ih _ hrows.2 fun k => ?_
      rw [Dict.getD, Dict.get?_add]
      split
      · exact add_nonneg (hd _) hrows.1
      · exact hd k
  exact hgen _ _ (fun g hg => hgpu g (List.mem_of_mem_filter hg)) (fun _ => le_rfl) k

/-- A value of a dictionary of amounts is not above their sum. -/
theorem getD_le_sum_values {d : Dict (Uuid × ℕ) ℚ} (hd : ∀ k, 0 ≤ d.getD k 0) (k : Uuid × ℕ) :
    d.getD k 0 ≤ d.values.sum := by
  have hvalues : ∀ v ∈ d.values, 0 ≤ v := by
    intro v hv
    obtain ⟨e, he, rfl⟩ := List.mem_map.mp hv
    have hget := (d.mem_entries_iff e.1 e.2).mp he
    have := hd e.1
    rwa [Dict.getD, hget] at this
  cases hget : d.get? k with
  | none =>
    rw [Dict.getD, hget]
    exact List.sum_nonneg hvalues
  | some v =>
    rw [Dict.getD, hget]
    exact List.single_le_sum hvalues v (List.mem_map.mpr ⟨(k, v), (d.mem_entries_iff k v).mpr hget, rfl⟩)

theorem roundHours_mono {x y : ℚ} (h : x ≤ y) : roundHours x ≤ roundHours y := by
  have hround : Json.roundHalfEven (x / 3600 * 1000) ≤ Json.roundHalfEven (y / 3600 * 1000) :=
    Json.roundHalfEven_mono (by linarith)
  unfold roundHours
  have : (Json.roundHalfEven (x / 3600 * 1000) : ℚ) ≤ Json.roundHalfEven (y / 3600 * 1000) := by
    exact_mod_cast hround
  linarith

/-- The records that a report is about, with the figures that are summed. -/
theorem avgLatency_of_pos {a : Accum} (h : 0 < a.requests) :
    avgLatency a = Json.roundHalfEven ((a.latencyMsSum : ℚ) / a.requests) := if_pos h.ne'

/-- **The figures of a report agree**, whatever the accounting and the sampler have done: there is one row for each day, model, user and key; no row
has more GPU hours than the totals; and the mean latency of the totals lies between those of two
rows. -/
theorem report_figures (evs : List UsageEvent) (ticks : List OccupancyTick)
    (h : usageReport q current today key (Run.exec Usage.step {} evs).records models users
      (Run.exec Meter.step {} ticks).rows used = .ok out) :
    (out.rows.map fun r => (r.userId, r.apiKeyId, r.modelId, r.periodStart)).Nodup ∧
      (∀ r ∈ out.rows, r.gpuHours ≤ out.totals.gpuHours) ∧
        (out.rows ≠ [] → (∃ r ∈ out.rows, r.avgLatencyMs ≤ out.totals.avgLatencyMs) ∧
          ∃ r ∈ out.rows, out.totals.avgLatencyMs ≤ r.avgLatencyMs) := by
  have hpos := counted_exec evs
  have hgpu := gpuSeconds_nonneg ticks
  generalize (Run.exec Usage.step {} evs).records = records at h hpos
  generalize (Run.exec Meter.step {} ticks).rows = gpu at h hgpu
  obtain ⟨hrows, htotals⟩ := usageReport_eq_ok h
  set chosen := selectedRecords q current today records with hchosen
  have hmem : ∀ e ∈ chosen, e ∈ records.entries := fun e he =>
    List.mem_of_mem_filter ((List.perm_insertionSort _ _).mem_iff.mp he)
  refine ⟨?_, ?_, ?_⟩
  · -- the key of a record is the key of its row
    have hkeys : (chosen.map Prod.fst).Nodup := by
      rw [hchosen, selectedRecords, ((List.perm_insertionSort _ _).map _).nodup_iff]
      exact (List.Sublist.map _ List.filter_sublist).nodup records.nodup_keys
    rw [hrows, List.map_map]
    have heq : ((fun r : UsageRow => (r.userId, r.apiKeyId, r.modelId, r.periodStart)) ∘
        usageRow models users (gpuSecondsOf gpu (chosen.map (·.1.modelId)) (q.periodFrom today))) =
        (fun k : UsageKey => (k.userId, k.apiKeyId, k.modelId, k.day)) ∘ Prod.fst := rfl
    rw [heq, ← List.map_map]
    refine hkeys.map fun a b hab => ?_
    obtain ⟨u, k, m, d⟩ := a
    simp only [Prod.mk.injEq] at hab
    obtain ⟨rfl, rfl, rfl, rfl⟩ := hab
    rfl
  · intro r hr
    rw [hrows] at hr
    obtain ⟨e, -, rfl⟩ := List.mem_map.mp hr
    rw [htotals]
    exact roundHours_mono (getD_le_sum_values (gpuSecondsOf_nonneg hgpu _ _) _)
  · intro hne
    have hcne : chosen ≠ [] := by
      rintro hnil
      rw [hrows, hnil] at hne
      exact hne rfl
    have hcpos : ∀ e ∈ chosen, 0 < e.2.requests := fun e he => hpos e (hmem e he)
    have hmean : out.totals.avgLatencyMs = Json.roundHalfEven
        (((chosen.map fun e => e.2.latencyMsSum).sum : ℕ) /
          ((chosen.map fun e => e.2.requests).sum : ℕ)) := by
      have hsum := Rounding.sum_count_pos (fun e : UsageKey × Accum => e.2.requests) hcne hcpos
      rw [htotals]
      unfold usageTotals
      rw [max_eq_left (by exact_mod_cast hsum)]
    have hrow : ∀ e ∈ chosen, ∃ r ∈ out.rows, r.avgLatencyMs =
        Json.roundHalfEven ((e.2.latencyMsSum : ℚ) / e.2.requests) := fun e he =>
      ⟨_, hrows ▸ List.mem_map_of_mem he, avgLatency_of_pos (hcpos e he)⟩
    constructor
    · obtain ⟨e, he, hle⟩ := Rounding.exists_mean_le (fun e : UsageKey × Accum => e.2.requests)
        (fun e => e.2.latencyMsSum) hcne hcpos
      obtain ⟨r, hr, heq⟩ := hrow e he
      exact ⟨r, hr, by rw [heq, hmean]; exact hle⟩
    · obtain ⟨e, he, hle⟩ := Rounding.exists_le_mean (fun e : UsageKey × Accum => e.2.requests)
        (fun e => e.2.latencyMsSum) hcne hcpos
      obtain ⟨r, hr, heq⟩ := hrow e he
      exact ⟨r, hr, by rw [heq, hmean]; exact hle⟩

end

/-! ### Two users of a model -/

/-- The records of users `2` and `3` on one day. -/
def sharedModel : Dict UsageKey Accum :=
  (Dict.empty.set ⟨2, 20, 7, 5⟩ ⟨3, 30, 40, 100⟩).set ⟨3, 30, 7, 5⟩ ⟨1, 10, 10, 7⟩

/-- An admin, and the user `3`. -/
def reportAdmin : AccountRow := { id := 1, username := "admin", role := .admin, passwordHash := "" }

def reportUser : AccountRow := { id := 3, username := "dev", passwordHash := "" }

/-- A report that asks for no key is not refused. -/
theorem exists_usageReport (q : UsageQuery) (hkey : q.keyId = none) (current : AccountRow)
    (today : ℕ) (records : Dict UsageKey Accum) (gpu : List GpuUsageRecord) :
    ∃ out, usageReport q current today none records [] [] gpu (0, 0) = .ok out := by
  unfold usageReport
  rw [if_neg (by simp [hkey])]
  exact ⟨_, rfl⟩

theorem report_accounts_requeue :
    ∃ out, usageReport {} reportAdmin 5 none (Run.exec Usage.step {} requeueRun).records [] [] []
        (0, 0) = .ok out ∧
      out.totals.requests +
          ((Run.exec Usage.step {} requeueRun).pending.total (selected {} reportAdmin 5)).requests +
            ((Run.exec Usage.step {} requeueRun).inFlight (selected {} reportAdmin 5)).requests =
        (Dict.sumEntries (selected {} reportAdmin 5)
          (Run.exec Usage.step {} requeueRun).accepted).requests := by
  obtain ⟨out, hout⟩ := exists_usageReport {} rfl reportAdmin 5
    (Run.exec Usage.step {} requeueRun).records []
  exact ⟨out, hout, (report_accounts requeueRun (by decide +kernel) hout).1⟩

theorem report_figures_requeue :
    ∃ out, usageReport {} reportAdmin 5 none (Run.exec Usage.step {} requeueRun).records [] []
        (Run.exec Meter.step {} []).rows (0, 0) = .ok out ∧
      ∀ r ∈ out.rows, r.gpuHours ≤ out.totals.gpuHours := by
  obtain ⟨out, hout⟩ := exists_usageReport {} rfl reportAdmin 5
    (Run.exec Usage.step {} requeueRun).records (Run.exec Meter.step {} []).rows
  exact ⟨out, hout, (report_figures requeueRun [] hout).2.1⟩

end Inferna
