import Inferna.Lib.Dict
import Inferna.Lib.Run
import Mathlib.Tactic

/-!
# The last use of an API key

`api/gateway.py` stamps the use of a key in the map `_last_used_dirty`, and a background
loop persists the stamps.  The sections of `_last_used_lock` await nothing, so a stamp is
one step.  `flush_last_used_stamps` takes the map out and awaits one `UPDATE` for each key
and the commit; after an exception it puts back what has no newer stamp.

The state keeps every stamp ever recorded, to compare with.

## Main definitions

* `stampDue` — the condition of `get_api_key`.
* `Stamps`, `StampEvent`, `Stamps.step` — the state, what may happen, and what comes of it.
* `Stamps.newest` — the newest stamp of a key.
* `StampInv` — where the newest stamp is, and that what is on its way is newer than the row.

## Main results

* `stamps_kept` — **no stamp goes back or vanishes.**
-/

namespace Inferna

/-! ### Stamps and flushes -/

/-- `LAST_USED_UPDATE_SECONDS`, in microseconds. -/
def lastUsedUpdateMicros : ℕ := 60 * 1000000

/-- The key has no stamp, or one that is old enough. -/
def stampDue (lastUsedAt : Option ℕ) (now : ℕ) : Bool :=
  lastUsedAt.all fun t => t + lastUsedUpdateMicros ≤ now

/-- A call of `flush_last_used_stamps` that waits for the database. -/
structure StampFlush where
  /-- The local `pending`. -/
  snapshot : Dict ℕ ℕ
  /-- The updates to come; it waits for the first, or for the commit. -/
  todo : List (ℕ × ℕ)

/-- The column `last_used_at` by key, the map `_last_used_dirty`, the flush that runs, the
stamps recorded so far, and the time of the last. -/
structure Stamps where
  committed : Dict ℕ ℕ
  dirty : Dict ℕ ℕ := Dict.empty
  flush : Option StampFlush := none
  recorded : List (ℕ × ℕ)
  clock : ℕ

/-- What may happen. -/
inductive StampEvent
  /-- `get_api_key` accepts the key, whose `last_used_at` it has read. -/
  | request (key : ℕ) (lastUsedAt : Option ℕ) (now : ℕ)
  /-- `flush_last_used_stamps` is called. -/
  | flush
  /-- The database answers the flush. -/
  | answered
  /-- The awaited call of the flush raises; a commit may have taken effect. -/
  | raised (effective : Bool)
  deriving DecidableEq, Repr

namespace Stamps

/-- A server that has just started on the given column. -/
def start (committed : Dict ℕ ℕ) (clock : ℕ) : Stamps where
  committed := committed
  recorded := committed.entries
  clock := clock

/-- The stamp of `get_api_key`. -/
def stamp (s : Stamps) (key now : ℕ) : Stamps :=
  { s with
    dirty := s.dirty.set key now
    recorded := s.recorded ++ [(key, now)]
    clock := now }

/-- `flush_last_used_stamps` up to its first await.  A second call while one runs is none:
the callers are sequential. -/
def startFlush (s : Stamps) : Stamps :=
  match s.flush with
  | some _ => s
  | none =>
    if s.dirty.isEmpty then s
    else { s with dirty := Dict.empty, flush := some ⟨s.dirty, s.dirty.entries⟩ }

/-- The awaited call returns: an `UPDATE` is done, or the commit. -/
def dbAnswered (s : Stamps) (f : StampFlush) : Stamps :=
  match f.todo with
  | _ :: rest => { s with flush := some { f with todo := rest } }
  | [] => { s with committed := s.committed.update f.snapshot, flush := none }

/-- The awaited call raises, and the snapshot is put back under the newer stamps. -/
def dbRaised (s : Stamps) (f : StampFlush) (effective : Bool) : Stamps :=
  { s with
    committed :=
      if f.todo = [] ∧ effective = true then s.committed.update f.snapshot else s.committed
    dirty := s.dirty.setDefaults f.snapshot.entries
    flush := none }

/-- One step. -/
def step (s : Stamps) : StampEvent → Stamps
  | .request key lastUsedAt now => if stampDue lastUsedAt now then s.stamp key now else s
  | .flush => s.startFlush
  | .answered => s.flush.elim s s.dbAnswered
  | .raised effective => s.flush.elim s fun f => s.dbRaised f effective

/-- The newest stamp of a key. -/
def newest (s : Stamps) (key : ℕ) : Option ℕ :=
  ((s.recorded.filter fun e => e.1 = key).map Prod.snd).max?

end Stamps

/-- The clock does not go back. -/
def ClockOk (s : Stamps) : StampEvent → Prop
  | .request _ _ now => s.clock ≤ now
  | _ => True

instance (s : Stamps) : ∀ ev, Decidable (ClockOk s ev)
  | .request _ _ now => inferInstanceAs (Decidable (s.clock ≤ now))
  | .flush => isTrue trivial
  | .answered => isTrue trivial
  | .raised _ => isTrue trivial

/-! ### Where the newest stamp is -/

variable {s : Stamps}

/-- The snapshot of the flush that runs. -/
def Stamps.inFlight (s : Stamps) (key : ℕ) : Option ℕ := s.flush.bind fun f => f.snapshot.get? key

/-- The newest stamp of a key is in the map; or in the snapshot, if the map has none; or in
the row, if neither has one.  What is on its way to the row is not older than it. -/
structure StampInv (s : Stamps) : Prop where
  clock : ∀ e ∈ s.recorded, e.2 ≤ s.clock
  newest : ∀ key, s.newest key =
    ((s.dirty.get? key).or (s.inFlight key)).or (s.committed.get? key)
  row : ∀ key t, s.committed.get? key = some t → (key, t) ∈ s.recorded
  sent : ∀ key t, s.inFlight key = some t → (key, t) ∈ s.recorded
  flight : ∀ key t u, s.inFlight key = some t → s.committed.get? key = some u → u ≤ t

theorem newest_eq_some_iff {key t : ℕ} :
    s.newest key = some t ↔ (key, t) ∈ s.recorded ∧ ∀ u, (key, u) ∈ s.recorded → u ≤ t := by
  unfold Stamps.newest
  rw [List.max?_eq_some_iff]
  simp [List.mem_map, List.mem_filter]

/-- A row is not newer than the newest stamp. -/
theorem StampInv.row_le (h : StampInv s) {key t u : ℕ} (ht : s.newest key = some t)
    (hu : s.committed.get? key = some u) : u ≤ t :=
  (newest_eq_some_iff.mp ht).2 u (h.row key u hu)

/-- A stamp is newer than all before. -/
theorem newest_stamp (h : ∀ e ∈ s.recorded, e.2 ≤ s.clock) {key now : ℕ} (hnow : s.clock ≤ now)
    (key' : ℕ) :
    (s.stamp key now).newest key' = if key = key' then some now else s.newest key' := by
  split
  · rename_i heq
    subst heq
    rw [newest_eq_some_iff]
    refine ⟨List.mem_append_right _ (List.mem_singleton_self _), ?_⟩
    intro u hu
    rcases List.mem_append.mp hu with hu | hu
    · exact le_trans (h _ hu) hnow
    · rw [List.mem_singleton, Prod.mk.injEq] at hu
      exact hu.2.le
  · rename_i hne
    unfold Stamps.newest Stamps.stamp
    simp only
    rw [List.filter_append, List.filter_singleton]
    simp [hne]

theorem stampInv_stamp (h : StampInv s) {key now : ℕ} (hnow : s.clock ≤ now) :
    StampInv (s.stamp key now) where
  clock := by
    intro e he
    rcases List.mem_append.mp he with he | he
    · exact le_trans (h.clock e he) hnow
    · rw [List.mem_singleton] at he
      rw [he]
      exact le_rfl
  newest := by
    intro key'
    rw [newest_stamp h.clock hnow]
    show _ = (((s.dirty.set key now).get? key').or (s.inFlight key')).or (s.committed.get? key')
    rw [Dict.get?_set]
    split
    · rw [Option.some_or, Option.some_or]
    · exact h.newest key'
  row := fun key' t ht => List.mem_append_left _ (h.row key' t ht)
  sent := fun key' t ht => List.mem_append_left _ (h.sent key' t ht)
  flight := h.flight

theorem stampInv_startFlush (h : StampInv s) : StampInv s.startFlush := by
  unfold Stamps.startFlush
  split
  · exact h
  · rename_i hnone
    split
    · exact h
    -- the map becomes the snapshot of a flush, and there was none before
    · have hflight : ∀ key, s.inFlight key = none := by
        intro key
        simp [Stamps.inFlight, hnone]
      have hnewest : ∀ key t, s.dirty.get? key = some t → s.newest key = some t := by
        intro key t ht
        rw [h.newest, ht, Option.some_or, Option.some_or]
      refine ⟨h.clock, ?_, h.row, ?_, ?_⟩
      · intro key
        have hkey := h.newest key
        rw [hflight, Option.or_none] at hkey
        exact hkey
      · intro key t ht
        exact (newest_eq_some_iff.mp (hnewest key t ht)).1
      · intro key t u ht hu
        exact h.row_le (hnewest key t ht) hu

/-- A commit writes what was sent, and nothing older than the row. -/
theorem get?_commit {f : StampFlush} (hf : s.flush = some f) (key : ℕ) :
    (s.committed.update f.snapshot).get? key = (s.inFlight key).or (s.committed.get? key) := by
  rw [Dict.get?_update]
  simp [Stamps.inFlight, hf]

theorem recorded_of_commit (h : StampInv s) {key t : ℕ}
    (ht : (s.inFlight key).or (s.committed.get? key) = some t) : (key, t) ∈ s.recorded := by
  cases hp : s.inFlight key with
  | some u =>
    rw [hp, Option.some_or] at ht
    exact h.sent key t (hp.trans ht)
  | none =>
    rw [hp, Option.none_or] at ht
    exact h.row key t ht

theorem stampInv_dbAnswered (h : StampInv s) {f : StampFlush} (hf : s.flush = some f) :
    StampInv (s.dbAnswered f) := by
  unfold Stamps.dbAnswered
  split
  · have hflight : ∀ key, s.inFlight key = f.snapshot.get? key := by
      intro key
      simp [Stamps.inFlight, hf]
    refine ⟨h.clock, ?_, h.row, ?_, ?_⟩
    · intro key
      have hkey := h.newest key
      rw [hflight] at hkey
      exact hkey
    · intro key t ht
      exact h.sent key t ((hflight key).trans ht)
    · intro key t u ht hu
      exact h.flight key t u ((hflight key).trans ht) hu
  · refine ⟨h.clock, ?_, ?_, ?_, ?_⟩
    · intro key
      show s.newest key = ((s.dirty.get? key).or none).or ((s.committed.update f.snapshot).get? key)
      rw [get?_commit hf, Option.or_none, ← Option.or_assoc]
      exact h.newest key
    · intro key t ht
      simp only [get?_commit hf] at ht
      exact recorded_of_commit h ht
    · intro key t ht
      cases ht
    · intro key t u ht
      cases ht

theorem stampInv_dbRaised (h : StampInv s) {f : StampFlush} (hf : s.flush = some f)
    (effective : Bool) : StampInv (s.dbRaised f effective) := by
  have hdirty : ∀ key, (s.dirty.setDefaults f.snapshot.entries).get? key =
      (s.dirty.get? key).or (s.inFlight key) := by
    intro key
    rw [Dict.get?_setDefaults]
    simp [Stamps.inFlight, hf, Dict.get?]
  refine ⟨h.clock, ?_, ?_, ?_, ?_⟩
  · intro key
    show s.newest key = (((s.dirty.setDefaults f.snapshot.entries).get? key).or none).or _
    rw [hdirty, Option.or_none]
    unfold Stamps.dbRaised
    simp only
    split
    · rw [get?_commit hf, h.newest key]
      cases s.dirty.get? key <;> cases s.inFlight key <;> rfl
    · exact h.newest key
  · intro key t ht
    unfold Stamps.dbRaised at ht
    simp only at ht
    split at ht
    · rw [get?_commit hf] at ht
      exact recorded_of_commit h ht
    · exact h.row key t ht
  · intro key t ht
    cases ht
  · intro key t u ht
    cases ht

/-! ### The rows -/

/-- No row is older afterwards. -/
def Stamps.Later (s s' : Stamps) : Prop :=
  ∀ key t, s.committed.get? key = some t → ∃ t', s'.committed.get? key = some t' ∧ t ≤ t'

theorem Stamps.Later.of_eq {s' : Stamps} (h : s'.committed = s.committed) : s.Later s' :=
  fun key t ht => ⟨t, by rw [h]; exact ht, le_rfl⟩

theorem later_commit (h : StampInv s) {f : StampFlush} (hf : s.flush = some f) {key t : ℕ}
    (ht : s.committed.get? key = some t) :
    ∃ t', (s.committed.update f.snapshot).get? key = some t' ∧ t ≤ t' := by
  rw [get?_commit hf]
  cases hp : s.inFlight key with
  | some u => exact ⟨u, rfl, h.flight key u t hp ht⟩
  | none => exact ⟨t, ht, le_rfl⟩

/-- **A step keeps the invariant, and makes no row older.** -/
theorem stampInv_step (h : StampInv s) {ev : StampEvent} (hok : ClockOk s ev) :
    StampInv (s.step ev) ∧ s.Later (s.step ev) := by
  cases ev with
  | request key lastUsedAt now =>
    unfold Stamps.step
    simp only
    split
    · exact ⟨stampInv_stamp h hok, .of_eq rfl⟩
    · exact ⟨h, .of_eq rfl⟩
  | flush =>
    refine ⟨stampInv_startFlush h, .of_eq ?_⟩
    show s.startFlush.committed = s.committed
    unfold Stamps.startFlush
    split
    · rfl
    · split <;> rfl
  | answered =>
    show StampInv (s.flush.elim s s.dbAnswered) ∧ s.Later (s.flush.elim s s.dbAnswered)
    cases hf : s.flush with
    | none => exact ⟨h, .of_eq rfl⟩
    | some f =>
      refine ⟨stampInv_dbAnswered h hf, ?_⟩
      show s.Later (s.dbAnswered f)
      unfold Stamps.dbAnswered
      split
      · exact .of_eq rfl
      · exact fun key t ht => later_commit h hf ht
  | raised effective =>
    show StampInv (s.flush.elim s fun f => s.dbRaised f effective) ∧
      s.Later (s.flush.elim s fun f => s.dbRaised f effective)
    cases hf : s.flush with
    | none => exact ⟨h, .of_eq rfl⟩
    | some f =>
      refine ⟨stampInv_dbRaised h hf effective, ?_⟩
      intro key t ht
      show ∃ t', (s.dbRaised f effective).committed.get? key = some t' ∧ t ≤ t'
      unfold Stamps.dbRaised
      simp only
      split
      · exact later_commit h hf ht
      · exact ⟨t, ht, le_rfl⟩

theorem stampInv_start {committed : Dict ℕ ℕ} {clock : ℕ}
    (h : ∀ e ∈ committed.entries, e.2 ≤ clock) : StampInv (Stamps.start committed clock) where
  clock := h
  newest := by
    intro key
    show (Stamps.start committed clock).newest key = committed.get? key
    cases hget : committed.get? key with
    | some t =>
      rw [newest_eq_some_iff]
      refine ⟨(committed.mem_entries_iff key t).mpr hget, ?_⟩
      intro u hu
      rw [(committed.mem_entries_iff key u).mp hu] at hget
      injection hget with hget
      exact hget.le
    | none =>
      cases hnew : (Stamps.start committed clock).newest key with
      | none => rfl
      | some t =>
        have hmem := (newest_eq_some_iff.mp hnew).1
        rw [(committed.mem_entries_iff key t).mp hmem] at hget
        cases hget
  row := fun key t ht => (committed.mem_entries_iff key t).mpr ht
  sent := fun _ _ ht => (by cases ht)
  flight := fun _ _ _ ht => (by cases ht)

/-- **No stamp goes back or vanishes**: along every run the rows only become newer, and
whenever no flush is in progress the newer of the row and the map is the newest stamp ever
recorded. -/
theorem stamps_kept (committed : Dict ℕ ℕ) (clock : ℕ) (h0 : ∀ e ∈ committed.entries, e.2 ≤ clock)
    (as bs : List StampEvent)
    (h : Run.Conforms Stamps.step ClockOk (Stamps.start committed clock) (as ++ bs)) :
    let s := Run.exec Stamps.step (Stamps.start committed clock) as
    let s' := Run.exec Stamps.step (Stamps.start committed clock) (as ++ bs)
    s.Later s' ∧ (s'.flush = none →
      ∀ key, max (s'.committed.get? key) (s'.dirty.get? key) = s'.newest key) := by
  intro s s'
  have hall := h
  rw [Run.conforms_append] at h
  have hkeep : ∀ s ev, StampInv s → ClockOk s ev → StampInv (s.step ev) :=
    fun _ _ hs hok => (stampInv_step hs hok).1
  have hs : StampInv s := Run.invariant_of_conforms StampInv hkeep as _ (stampInv_start h0) h.1
  have hs' : StampInv s' := Run.invariant_of_conforms StampInv hkeep _ _ (stampInv_start h0) hall
  refine ⟨?_, ?_⟩
  · show s.Later (Run.exec Stamps.step _ (as ++ bs))
    rw [Run.exec_append]
    refine Run.rel_of_conforms StampInv Stamps.Later (fun _ => .of_eq rfl) ?_
      (fun _ _ hinv hok => stampInv_step hinv hok) bs s hs h.2
    intro s t u hst htu key a ha
    obtain ⟨b, hb, hab⟩ := hst key a ha
    obtain ⟨c, hc, hbc⟩ := htu key b hb
    exact ⟨c, hc, le_trans hab hbc⟩
  · intro hflush key
    have hflight : s'.inFlight key = none := by
      simp [Stamps.inFlight, hflush]
    have hnewest := hs'.newest key
    rw [hflight, Option.or_none] at hnewest
    cases hd : s'.dirty.get? key with
    | none =>
      rw [hd, Option.none_or] at hnewest
      rw [hnewest, Option.max_none_right]
    | some t =>
      rw [hd, Option.some_or] at hnewest
      rw [hnewest]
      cases hc : s'.committed.get? key with
      | none => rfl
      | some u => exact congrArg some (max_eq_right (hs'.row_le hnewest hc))

/-- Two keys are stamped; the flush fails at its commit, after a newer stamp of the first. -/
def stampRun : List StampEvent :=
  [.request 1 (some 5) 60000005, .request 2 none 60000007, .flush, .answered, .answered,
    .request 1 (some 5) 130000000, .raised false]

theorem stamps_kept_sample :
    let s := Run.exec Stamps.step (Stamps.start (Dict.empty.set 1 5) 9) stampRun
    s.dirty.get? 1 = some 130000000 ∧ s.dirty.get? 2 = some 60000007 ∧
      (s.flush = none →
        ∀ key, max (s.committed.get? key) (s.dirty.get? key) = s.newest key) :=
  ⟨by decide, by decide,
    (stamps_kept (Dict.empty.set 1 5) 9 (by decide) stampRun [] (by decide)).2⟩

end Inferna
