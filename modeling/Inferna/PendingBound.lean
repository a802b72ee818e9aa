import Inferna.Usage

/-!
# The bound of the usage buffer

`record_request` drops a request whose key is new to a full buffer.  A flush that fails
merges its snapshot back into the buffer that has filled meanwhile, and does not look at
the bound.

## Main definitions

* `MergeFits` — the snapshot of a failed flush and the buffer together keep to the bound.

## Main results

* `size_recordRequest`, `size_merged` — what recording and merging do to the size.
* `pending_bounded` — **the buffer keeps to its bound exactly while every merge fits.**
* `requeue_overfills` — a full buffer whose flush fails, and one request meanwhile.
-/

namespace Inferna

/-- If a failed flush is about to merge its snapshot back, the keys of the buffer and the
keys of the snapshot that it lacks are within the bound. -/
def MergeFits (s : Usage) : UsageEvent → Prop
  | .answered => ∀ f ∈ s.flush, f.rollback = true →
      s.pending.size + (f.snapshot.keys.filter fun k => k ∉ s.pending.keys).length ≤ maxPendingKeys
  | _ => True

/-- Recording keeps to the bound. -/
theorem size_recordRequest {pending pending' : Dict UsageKey Accum} {key : UsageKey} {a : Accum}
    (h : recordRequest pending key a = some pending') (hle : pending.size ≤ maxPendingKeys) :
    pending'.size ≤ maxPendingKeys := by
  unfold recordRequest at h
  cases hget : pending.get? key with
  | some accum =>
    have hmem : key ∈ pending.keys := by
      by_contra hnot
      rw [(pending.get?_eq_none_iff key).mpr hnot] at hget
      cases hget
    rw [hget] at h
    injection h with h
    rw [← h, Dict.size_set_of_mem _ _ hmem]
    exact hle
  | none =>
    have hnot := (pending.get?_eq_none_iff key).mp hget
    rw [hget] at h
    simp only at h
    split_ifs at h with hfull
    injection h with h
    rw [← h, Dict.size_set_of_notMem _ _ hnot]
    omega

/-- The size of the buffer after a failed flush has been merged back. -/
theorem size_merged (s : Usage) {f : Flush} (h : f.rollback = true) :
    (s.dbAnswered f).pending.size =
      s.pending.size + (f.snapshot.keys.filter fun k => k ∉ s.pending.keys).length := by
  unfold Usage.dbAnswered
  rw [if_pos h]
  exact Dict.size_addAll _ _ f.snapshot.nodup_keys

/-- A call of the database that returns to a flush which has not failed leaves the
buffer alone. -/
theorem pending_dbAnswered (s : Usage) {f : Flush} (h : f.rollback ≠ true) :
    (s.dbAnswered f).pending = s.pending := by
  unfold Usage.dbAnswered
  rw [if_neg h]
  cases f.todo <;> rfl

/-- **A step keeps to the bound exactly if it is no merge that does not fit.** -/
theorem pending_le_step_iff (s : Usage) (ev : UsageEvent) (hle : s.pending.size ≤ maxPendingKeys) :
    (s.step ev).pending.size ≤ maxPendingKeys ↔ MergeFits s ev := by
  cases ev with
  | record key tokensIn tokensOut latencyMs =>
    refine iff_of_true ?_ trivial
    unfold Usage.step
    simp only
    split
    · exact hle
    · rename_i pending' h
      exact size_recordRequest h hle
  | flush =>
    refine iff_of_true ?_ trivial
    show s.startFlush.pending.size ≤ maxPendingKeys
    unfold Usage.startFlush
    split
    · exact hle
    · split
      · exact hle
      · exact Nat.zero_le _
  | answered =>
    show (s.flush.elim s s.dbAnswered).pending.size ≤ maxPendingKeys ↔ _
    cases hf : s.flush with
    | none =>
      refine iff_of_true hle ?_
      intro f hmem
      rw [hf] at hmem
      cases hmem
    | some f =>
      have hiff : MergeFits s .answered ↔ (f.rollback = true →
          s.pending.size + (f.snapshot.keys.filter fun k => k ∉ s.pending.keys).length ≤
            maxPendingKeys) := by
        simp [MergeFits, hf]
      rw [hiff]
      show (s.dbAnswered f).pending.size ≤ maxPendingKeys ↔ _
      by_cases hr : f.rollback = true
      · rw [size_merged s hr]
        exact ⟨fun h _ => h, fun h => h hr⟩
      · rw [pending_dbAnswered s hr]
        exact iff_of_true hle fun h => absurd h hr
  | raised effective =>
    refine iff_of_true ?_ trivial
    show (s.flush.elim s fun f => s.dbRaised f effective).pending.size ≤ maxPendingKeys
    cases s.flush with
    | none => exact hle
    | some f =>
      show (s.dbRaised f effective).pending.size ≤ maxPendingKeys
      unfold Usage.dbRaised
      split <;> exact hle
  | cancelled effective =>
    refine iff_of_true ?_ trivial
    show (s.flush.elim s fun f => s.dbCancelled f effective).pending.size ≤ maxPendingKeys
    cases s.flush <;> exact hle

/-- **In every run the buffer keeps to its bound exactly while every merge of a failed
flush fits.** -/
theorem pending_bounded (evs : List UsageEvent) :
    Run.Always Usage.step (fun s => s.pending.size ≤ maxPendingKeys) {} evs ↔
      Run.Conforms Usage.step MergeFits {} evs :=
  Run.always_iff_conforms (fun _ => True) (fun _ _ _ _ _ => trivial)
    (fun s ev _ hle => pending_le_step_iff s ev hle) evs {} trivial (Nat.zero_le _)

/-! ### A full buffer whose flush fails -/

/-- The key of the user `n`. -/
def fillKey (n : ℕ) : UsageKey := ⟨n, 0, 0, 0⟩

/-- One request of each of `n` users. -/
def fill (n : ℕ) : List UsageEvent := (List.range n).map fun k => .record (fillKey k) 0 0 0

/-- They are all in the buffer, as long as there is room, and no flush runs. -/
theorem fill_spec : ∀ n, n ≤ maxPendingKeys →
    (Run.exec Usage.step {} (fill n)).pending.keys = (List.range n).map fillKey ∧
      (Run.exec Usage.step {} (fill n)).flush = none := by
  intro n
  induction n with
  | zero => intro _; exact ⟨rfl, rfl⟩
  | succ n ih =>
    intro hn
    have hsplit : fill (n + 1) = fill n ++ [.record (fillKey n) 0 0 0] := by
      simp [fill, List.range_succ]
    obtain ⟨hkeys, hflush⟩ := ih (Nat.le_of_succ_le hn)
    rw [hsplit, Run.exec_append]
    generalize Run.exec Usage.step {} (fill n) = s at hkeys hflush
    have hnot : fillKey n ∉ s.pending.keys := by
      rw [hkeys, List.mem_map]
      rintro ⟨k, hk, heq⟩
      injection heq with heq
      exact absurd (heq ▸ hk) List.not_mem_range_self
    have hsize : s.pending.size = n := by
      have hlen := congrArg List.length hkeys
      simpa [Dict.keys, Dict.size] using hlen
    have hrecord : recordRequest s.pending (fillKey n) (Accum.ofRequest 0 0 0) =
        some (s.pending.set (fillKey n) (Accum.ofRequest 0 0 0)) := by
      unfold recordRequest
      rw [(s.pending.get?_eq_none_iff _).mpr hnot]
      simp only
      rw [if_neg (by omega)]
    have hstep : s.step (.record (fillKey n) 0 0 0) =
        { s with
          pending := s.pending.set (fillKey n) (Accum.ofRequest 0 0 0)
          accepted := s.accepted ++ [(fillKey n, Accum.ofRequest 0 0 0)] } := by
      unfold Usage.step
      simp only [hrecord]
    rw [Run.exec_cons, hstep]
    refine ⟨?_, hflush⟩
    show (Dict.assocSet s.pending.entries _ _).map Prod.fst = _
    rw [Dict.assocSet_of_notMem _ _ hnot, List.map_append, List.range_succ, List.map_append, ← hkeys]
    rfl

/-- A buffer that is flushed, whose flush fails at its first query, and a request with a
new key before the rollback is done. -/
def requeue (key : UsageKey) : List UsageEvent :=
  [.flush, .raised false, .record key 0 0 0, .answered]

/-- The new key comes on top of what was there. -/
theorem size_requeue {s : Usage} {key : UsageKey} (hflush : s.flush = none)
    (hkey : key ∉ s.pending.keys) (hne : s.pending.isEmpty = false) :
    (Run.exec Usage.step s (requeue key)).pending.size = s.pending.size + 1 := by
  have hstart : s.step .flush =
      { s with pending := Dict.empty, flush := some ⟨s.pending, s.pending.entries, [], false⟩ } := by
    show s.startFlush = _
    unfold Usage.startFlush
    simp [hflush, hne]
  let f : Flush := ⟨s.pending, s.pending.entries, [], true⟩
  let s₃ : Usage := { s with
    pending := Dict.empty.set key (Accum.ofRequest 0 0 0)
    flush := some f
    accepted := s.accepted ++ [(key, Accum.ofRequest 0 0 0)] }
  have hraised : Usage.step { s with
      pending := Dict.empty, flush := some ⟨s.pending, s.pending.entries, [], false⟩ }
        (.raised false) = { s with pending := Dict.empty, flush := some f } := by
    simp [Usage.step, Usage.dbRaised, Usage.recordsAfter, f]
  have hlast : Run.exec Usage.step s (requeue key) = s₃.dbAnswered f := by
    unfold requeue
    rw [Run.exec_cons, hstart, Run.exec_cons, hraised]
    rfl
  have hfilter : f.snapshot.keys.filter (fun k => k ∉ s₃.pending.keys) = s.pending.keys := by
    rw [List.filter_eq_self]
    intro k hk
    rw [decide_eq_true_eq, Dict.mem_keys_set]
    rintro (hmem | rfl)
    · cases hmem
    · exact hkey hk
  rw [hlast, size_merged s₃ rfl, hfilter, Dict.keys, List.length_map, Nat.add_comm]
  rfl

/-- **A full buffer whose flush fails, and one request meanwhile: the buffer is larger
than its bound.** -/
theorem requeue_overfills :
    ¬ ∀ evs, (Run.exec Usage.step {} evs).pending.size ≤ maxPendingKeys := by
  intro h
  obtain ⟨hkeys, hflush⟩ := fill_spec maxPendingKeys le_rfl
  have hsize : (Run.exec Usage.step {} (fill maxPendingKeys)).pending.size = maxPendingKeys := by
    have hlen := congrArg List.length hkeys
    simpa [Dict.keys, Dict.size] using hlen
  have hover := h (fill maxPendingKeys ++ requeue (fillKey maxPendingKeys))
  rw [Run.exec_append, size_requeue hflush] at hover
  · omega
  · rw [hkeys, List.mem_map]
    rintro ⟨k, hk, heq⟩
    injection heq with heq
    exact absurd (heq ▸ hk) List.not_mem_range_self
  · cases hempty : (Run.exec Usage.step {} (fill maxPendingKeys)).pending.isEmpty with
    | false => rfl
    | true =>
      rw [Dict.eq_empty_of_isEmpty hempty] at hsize
      exact absurd hsize (by decide)

end Inferna
