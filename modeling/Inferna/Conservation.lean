import Inferna.Usage

/-!
# No recorded request is lost

A flush takes the buffer out of `_PENDING` and holds the only copy of it until it has
committed or merged it back.  It merges back after an exception, but not when it is
cancelled, and not when the rollback raises as well.

The invariant is stated for the totals over any set of keys, so that the amounts of
one key and those of one user are cases of it.

## Main definitions

* `Conserved` — the table and the buffer hold what was recorded.
* `OrderlyFlush` — the flush does not end with the only copy.
* `UsageInv` — the invariant: table, buffer and running flush hold what was recorded.

## Main results

* `total_commitRows` — a commit writes what the flush has folded.
* `usage_conserved` — **after every run of orderly steps nothing is lost or counted twice.**
* `cancelled_flush_loses` — a flush that is cancelled at its commit loses the buffer.
-/

namespace Inferna

variable {s : Usage}

/-- Unless a flush runs, the table and the buffer hold for every key what was recorded
for it. -/
def Conserved (s : Usage) : Prop :=
  s.flush = none → ∀ key, s.records.getD key 0 + s.pending.getD key 0 =
    Dict.sumEntries (fun k => k = key) s.accepted

/-- The flush is not cancelled unless its commit has taken effect, its commit does not
raise if it has, and its rollback neither raises nor is cancelled. -/
def OrderlyFlush (s : Usage) : UsageEvent → Prop
  | .raised effective =>
    ∀ f ∈ s.flush, f.rollback = false ∧ (Usage.commits f = true → effective = false)
  | .cancelled effective => ∀ f ∈ s.flush, Usage.commits f = true ∧ effective = true
  | _ => True

instance (s : Usage) : ∀ ev, Decidable (OrderlyFlush s ev)
  | .raised _ => Option.decidableForallMem s.flush
  | .cancelled _ => Option.decidableForallMem s.flush
  | .record _ _ _ _ => isTrue trivial
  | .flush => isTrue trivial
  | .answered => isTrue trivial

/-! ### Commits -/

theorem foldRow_eq (records : Dict UsageKey Accum) (key : UsageKey) (a : Accum) :
    foldRow (records.get? key) a = records.getD key 0 + a := by
  unfold foldRow Dict.getD
  cases records.get? key with
  | none => rw [Option.getD_none, zero_add]
  | some r => rfl

/-- What the session of a flush holds once it has folded some entries. -/
def foldedRows (records : Dict UsageKey Accum) (es : List (UsageKey × Accum)) :
    List (UsageKey × Accum) :=
  es.map fun e => (e.1, foldRow (records.get? e.1) e.2)

theorem set_foldRow (records : Dict UsageKey Accum) (key : UsageKey) (a : Accum) :
    records.set key (foldRow (records.get? key) a) = records.add key a := by
  unfold foldRow Dict.add
  cases records.get? key <;> rfl

/-- Writing the rows of distinct keys adds their aggregates to the table: the rows were
read before any was written, but no key is read twice. -/
theorem commitRows_foldedRows : ∀ (es : List (UsageKey × Accum)) (records base : Dict UsageKey Accum),
    (es.map Prod.fst).Nodup → (∀ e ∈ es, records.get? e.1 = base.get? e.1) →
      commitRows records (foldedRows base es) = records.addAll es := by
  intro es
  induction es with
  | nil => intro records base _ _; rfl
  | cons e es ih =>
    intro records base hnd hbase
    rw [List.map_cons, List.nodup_cons] at hnd
    show commitRows (records.set e.1 (foldRow (base.get? e.1) e.2)) (foldedRows base es) =
      (records.add e.1 e.2).addAll es
    rw [← hbase e List.mem_cons_self, set_foldRow]
    refine ih _ base hnd.2 fun e' he' => ?_
    have hne : e.1 ≠ e'.1 := fun heq => hnd.1 (heq ▸ List.mem_map_of_mem he')
    rw [Dict.get?_add, if_neg hne]
    exact hbase e' (List.mem_cons_of_mem _ he')

/-- **A commit writes what the flush has folded.** -/
theorem total_commitRows (p : UsageKey → Bool) (records snapshot : Dict UsageKey Accum) :
    (commitRows records (foldedRows records snapshot.entries)).total p =
      records.total p + snapshot.total p := by
  rw [commitRows_foldedRows _ _ _ snapshot.nodup_keys fun _ _ => rfl, Dict.total_addAll]
  rfl

/-! ### The invariant -/

/-- The session of a running flush holds the entries it has folded. -/
def Flush.Sound (records : Dict UsageKey Accum) (f : Flush) : Prop :=
  f.rollback = false →
    ∃ folded, f.snapshot.entries = folded ++ f.todo ∧ f.session = foldedRows records folded

/-- What a running flush holds. -/
def Usage.inFlight (s : Usage) (p : UsageKey → Bool) : Accum :=
  s.flush.elim 0 fun f => f.snapshot.total p

/-- Table, buffer and running flush hold what was recorded. -/
structure UsageInv (s : Usage) : Prop where
  sound : ∀ f ∈ s.flush, f.Sound s.records
  total : ∀ p, s.records.total p + s.pending.total p + s.inFlight p =
    Dict.sumEntries p s.accepted

theorem UsageInv.conserved (h : UsageInv s) : Conserved s := by
  intro hflush key
  have htotal := h.total fun k => k = key
  rw [Usage.inFlight, hflush, Option.elim_none, add_zero, Dict.total_single, Dict.total_single]
    at htotal
  exact htotal

theorem total_recordRequest {pending pending' : Dict UsageKey Accum} {key : UsageKey} {a : Accum}
    (h : recordRequest pending key a = some pending') (p : UsageKey → Bool) :
    pending'.total p = pending.total p + if p key then a else 0 := by
  unfold recordRequest at h
  have hadd : pending' = pending.add key a := by
    unfold Dict.add
    split at h
    · rename_i accum hget
      rw [hget]
      injection h with h
      exact h.symm
    · rename_i hget
      rw [hget]
      split at h
      · cases h
      · injection h with h
        exact h.symm
  rw [hadd, Dict.total_add]

theorem usageInv_record (h : UsageInv s) (key : UsageKey) (tokensIn tokensOut latencyMs : ℤ) :
    UsageInv (s.step (.record key tokensIn tokensOut latencyMs)) := by
  simp only [Usage.step]
  split
  · exact h
  · rename_i pending hrec
    refine ⟨h.sound, fun p => ?_⟩
    have htotal := h.total p
    show s.records.total p + pending.total p + s.inFlight p = _
    rw [total_recordRequest hrec, Dict.sumEntries_append, ← htotal, Dict.sumEntries_cons,
      Dict.sumEntries_nil]
    abel

theorem usageInv_startFlush (h : UsageInv s) : UsageInv s.startFlush := by
  unfold Usage.startFlush
  split
  · exact h
  · rename_i hflush
    split
    · exact h
    · refine ⟨fun f hf => ?_, fun p => ?_⟩
      · obtain rfl := Option.mem_some.mp hf
        exact fun _ => ⟨[], rfl, rfl⟩
      · have htotal := h.total p
        rw [Usage.inFlight, hflush, Option.elim_none, add_zero] at htotal
        show s.records.total p + 0 + s.pending.total p = _
        rw [add_zero, htotal]

theorem usageInv_dbAnswered (h : UsageInv s) {f : Flush} (hf : s.flush = some f) :
    UsageInv (s.dbAnswered f) := by
  have hsound := h.sound f hf
  have htotal : ∀ p, s.records.total p + s.pending.total p + f.snapshot.total p =
      Dict.sumEntries p s.accepted := by
    intro p
    rw [← h.total p, Usage.inFlight, hf]
    rfl
  unfold Usage.dbAnswered
  split
  · -- the rollback is done
    refine ⟨fun f hf => (by cases hf), fun p => ?_⟩
    show s.records.total p + (s.pending.addAll f.snapshot.entries).total p + 0 = _
    rw [Dict.total_addAll, ← htotal p, add_zero, add_assoc]
    rfl
  · rename_i hroll
    obtain ⟨folded, hentries, hsession⟩ := hsound (by simpa using hroll)
    split
    · -- one more row is folded
      rename_i key a rest htodo
      refine ⟨fun f' hf' => ?_, fun p => htotal p⟩
      obtain rfl := Option.mem_some.mp hf'
      refine fun _ => ⟨folded ++ [(key, a)], ?_, ?_⟩
      · rw [List.append_assoc, hentries, htodo]
        rfl
      · show f.session ++ _ = _
        rw [hsession, foldedRows, foldedRows, List.map_append]
        rfl
    · -- the commit is done
      rename_i htodo
      refine ⟨fun f hf => (by cases hf), fun p => ?_⟩
      rw [htodo, List.append_nil] at hentries
      show (commitRows s.records f.session).total p + s.pending.total p + 0 = _
      rw [hsession, ← hentries, total_commitRows, ← htotal p, add_zero]
      abel

/-- A commit that raises or is cancelled after all: what the table holds then. -/
theorem total_recordsAfter (h : UsageInv s) {f : Flush} (hf : s.flush = some f)
    (hcommits : Usage.commits f = true) (p : UsageKey → Bool) :
    (s.recordsAfter f true).total p = s.records.total p + f.snapshot.total p := by
  obtain ⟨hroll, htodo⟩ : f.rollback = false ∧ f.todo = [] := by simpa [Usage.commits] using hcommits
  obtain ⟨folded, hentries, hsession⟩ := h.sound f hf hroll
  rw [htodo, List.append_nil] at hentries
  unfold Usage.recordsAfter
  rw [if_pos ⟨hcommits, rfl⟩, hsession, ← hentries, total_commitRows]

theorem usageInv_dbRaised (h : UsageInv s) {f : Flush} (hf : s.flush = some f) {effective : Bool}
    (hroll : f.rollback = false) (heff : Usage.commits f = true → effective = false) :
    UsageInv (s.dbRaised f effective) := by
  have hrecords : s.recordsAfter f effective = s.records := by
    unfold Usage.recordsAfter
    rw [if_neg]
    rintro ⟨hcommits, htrue⟩
    rw [heff hcommits] at htrue
    cases htrue
  unfold Usage.dbRaised
  rw [hroll, if_neg Bool.false_ne_true, hrecords]
  refine ⟨fun f' hf' => ?_, fun p => ?_⟩
  · obtain rfl := Option.mem_some.mp hf'
    exact fun hno => by cases hno
  · rw [← h.total p, Usage.inFlight, Usage.inFlight, hf]
    rfl

theorem usageInv_dbCancelled (h : UsageInv s) {f : Flush} (hf : s.flush = some f)
    (hcommits : Usage.commits f = true) : UsageInv (s.dbCancelled f true) := by
  refine ⟨fun f hf => (by cases hf), fun p => ?_⟩
  have htotal := h.total p
  rw [Usage.inFlight, hf, Option.elim_some] at htotal
  show (s.recordsAfter f true).total p + s.pending.total p + 0 = Dict.sumEntries p s.accepted
  rw [total_recordsAfter h hf hcommits, ← htotal]
  abel

theorem usageInv_step (h : UsageInv s) {ev : UsageEvent} (hok : OrderlyFlush s ev) :
    UsageInv (s.step ev) := by
  cases ev with
  | record key tokensIn tokensOut latencyMs => exact usageInv_record h key _ _ _
  | flush => exact usageInv_startFlush h
  | answered =>
    cases hf : s.flush with
    | none => simpa only [Usage.step, hf, Option.elim] using h
    | some f => simpa only [Usage.step, hf, Option.elim] using usageInv_dbAnswered h hf
  | raised effective =>
    cases hf : s.flush with
    | none => simpa only [Usage.step, hf, Option.elim] using h
    | some f =>
      obtain ⟨hroll, heff⟩ := hok f hf
      simpa only [Usage.step, hf, Option.elim] using usageInv_dbRaised h hf hroll heff
  | cancelled effective =>
    cases hf : s.flush with
    | none => simpa only [Usage.step, hf, Option.elim] using h
    | some f =>
      obtain ⟨hcommits, rfl⟩ := hok f hf
      simpa only [Usage.step, hf, Option.elim] using usageInv_dbCancelled h hf hcommits

theorem usageInv_exec {evs : List UsageEvent}
    (h : Run.Conforms Usage.step OrderlyFlush {} evs) : UsageInv (Run.exec Usage.step {} evs) :=
  Run.invariant_of_conforms UsageInv (fun _ _ hs hok => usageInv_step hs hok) evs {}
    ⟨fun _ hf => (by cases hf), fun _ => rfl⟩ h

/-- **After every run of orderly steps the table and the buffer hold what was recorded:
nothing is lost or counted twice.** -/
theorem usage_conserved (evs : List UsageEvent)
    (h : Run.Conforms Usage.step OrderlyFlush {} evs) : Conserved (Run.exec Usage.step {} evs) :=
  (usageInv_exec h).conserved

/-- A flush that fails, is merged with a request that came meanwhile, and is repeated. -/
def requeueRun : List UsageEvent :=
  [.record ⟨1, 2, 3, 0⟩ 10 20 5, .flush, .record ⟨1, 2, 3, 0⟩ 1 1 1, .raised false, .answered, .flush,
    .answered, .answered]

theorem usage_conserved_requeue :
    (Run.exec Usage.step {} requeueRun).records.get? ⟨1, 2, 3, 0⟩ = some ⟨2, 11, 21, 6⟩ ∧
    Conserved (Run.exec Usage.step {} requeueRun) :=
  ⟨by decide +kernel, usage_conserved requeueRun (by decide +kernel)⟩

/-- **A flush that is cancelled before its commit has taken effect loses the buffer.** -/
theorem cancelled_flush_loses : ¬ ∀ evs, Conserved (Run.exec Usage.step {} evs) := by
  intro h
  have hlost := h [.record ⟨1, 2, 3, 0⟩ 10 20 5, .flush, .answered, .cancelled false] rfl
    ⟨1, 2, 3, 0⟩
  revert hlost
  decide +kernel

end Inferna
