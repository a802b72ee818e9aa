import Inferna.Conservation

/-!
# One aggregate without its rows

A flush writes its whole snapshot in one transaction.  When the user, the API key or
the model of an aggregate has been deleted, inserting its row violates a foreign key,
the flush is rolled back and merged, and the next one finds the same buffer.

## Main definitions

* `Referents` — the users, API keys and models there are.
* `Usage.advance`, `flushUsage` — a flush on a database that is available and enforces
  its foreign keys.
* `Persisted` — an aggregate is in the table and no longer in the buffer.

## Main results

* `flushUsage_of_good` — a buffer whose rows all exist is written.
* `flushUsage_of_bad` — a buffer with one bad aggregate stays as it is.
* `flushes_persist_iff` — **flushing persists the good aggregates exactly if all are good
  or none is.**
* `deleted_user_blocks` — a deleted user blocks the usage of another.
-/

namespace Inferna

/-- The identifiers of the users, API keys and models there are. -/
structure Referents where
  users : List ℕ
  apiKeys : List ℕ
  models : List ℕ

/-- The rows an aggregate refers to exist. -/
def Referents.has (refs : Referents) (key : UsageKey) : Bool :=
  key.userId ∈ refs.users ∧ key.apiKeyId ∈ refs.apiKeys ∧ key.modelId ∈ refs.models

/-- A row of the session violates a foreign key: it is new, and a row it refers to is
missing. -/
def violates (refs : Referents) (s : Usage) (e : UsageKey × Accum) : Bool :=
  (s.records.get? e.1).isNone && !refs.has e.1

/-- What the next call of a running flush brings: each query and the commit first write
the new rows of the session. -/
def dbEvent (refs : Referents) (s : Usage) (f : Flush) : UsageEvent :=
  if !f.rollback && f.session.any (violates refs s) then .raised false else .answered

/-- A running flush goes on; without one nothing happens. -/
def Usage.advance (refs : Referents) (s : Usage) : Usage :=
  s.flush.elim s fun f => s.step (dbEvent refs s f)

/-- `flush_usage` on an available database: a query for each aggregate, then the commit
or a rollback. -/
def flushUsage (refs : Referents) (s : Usage) : Usage :=
  (Usage.advance refs)^[s.pending.size + 2] s.startFlush

/-- The aggregate is in the table and no longer in the buffer. -/
def Persisted (s s' : Usage) (key : UsageKey) (a : Accum) : Prop :=
  s'.records.get? key = some (foldRow (s.records.get? key) a) ∧ s'.pending.get? key = none

theorem advance_of_flush {refs : Referents} {s : Usage} {f : Flush} (hf : s.flush = some f) :
    s.advance refs = s.step (dbEvent refs s f) := by
  unfold Usage.advance
  rw [hf]
  rfl

section

variable {refs : Referents} {records pending : Dict UsageKey Accum}
  {accepted : List (UsageKey × Accum)}

/-- A flush that has folded some entries. -/
def foldingState (records pending : Dict UsageKey Accum) (accepted : List (UsageKey × Accum))
    (folded todo : List (UsageKey × Accum)) : Usage where
  records := records
  flush := some ⟨pending, todo, foldedRows records folded, false⟩
  accepted := accepted

/-- A database that enforces its foreign keys has no row without its referents, so a
folded entry violates one exactly if its referents are missing. -/
theorem any_violates (hfk : ∀ key ∈ records.keys, refs.has key = true)
    (folded todo : List (UsageKey × Accum)) :
    (foldedRows records folded).any (violates refs (foldingState records pending accepted folded todo)) =
      folded.any fun e => !refs.has e.1 := by
  unfold foldedRows
  rw [List.any_map]
  congr 1
  funext e
  show ((records.get? e.1).isNone && !refs.has e.1) = !refs.has e.1
  cases hhas : refs.has e.1 with
  | true => simp
  | false =>
    have hnone : records.get? e.1 = none := by
      rw [Dict.get?_eq_none_iff]
      intro hmem
      rw [hfk e.1 hmem] at hhas
      cases hhas
    rw [hnone]
    rfl

/-- While the folded entries are good, the next row is folded. -/
theorem advance_fold (hfk : ∀ key ∈ records.keys, refs.has key = true)
    {folded : List (UsageKey × Accum)} (hgood : ∀ e ∈ folded, refs.has e.1 = true)
    (e : UsageKey × Accum) (rest : List (UsageKey × Accum)) :
    (foldingState records pending accepted folded (e :: rest)).advance refs =
      foldingState records pending accepted (folded ++ [e]) rest := by
  have hev : dbEvent refs (foldingState records pending accepted folded (e :: rest))
      ⟨pending, e :: rest, foldedRows records folded, false⟩ = .answered := by
    unfold dbEvent
    rw [any_violates hfk, if_neg]
    simpa using hgood
  rw [advance_of_flush rfl, hev]
  show Usage.mk _ _ (some ⟨pending, rest, foldedRows records folded ++ _, false⟩) _ = _
  unfold foldingState foldedRows
  rw [List.map_append]
  rfl

/-- Good entries are folded one after another. -/
theorem advance_iterate (hfk : ∀ key ∈ records.keys, refs.has key = true) :
    ∀ (es folded rest : List (UsageKey × Accum)),
      (∀ e ∈ folded, refs.has e.1 = true) → (∀ e ∈ es, refs.has e.1 = true) →
      (Usage.advance refs)^[es.length] (foldingState records pending accepted folded (es ++ rest)) =
        foldingState records pending accepted (folded ++ es) rest := by
  intro es
  induction es with
  | nil => intro folded rest _ _; rw [List.append_nil]; rfl
  | cons e es ih =>
    intro folded rest hfolded hes
    rw [List.length_cons, Function.iterate_succ_apply, List.cons_append, advance_fold hfk hfolded]
    have hfolded' : ∀ e' ∈ folded ++ [e], refs.has e'.1 = true := by
      intro e' he'
      rcases List.mem_append.mp he' with he' | he'
      · exact hfolded e' he'
      · rw [List.mem_singleton.mp he']
        exact hes e List.mem_cons_self
    rw [ih _ _ hfolded' fun e' he' => hes e' (List.mem_cons_of_mem _ he'), List.append_assoc]
    rfl

/-- An idle state stays as it is. -/
theorem advance_idle {s : Usage} (h : s.flush = none) (n : ℕ) :
    (Usage.advance refs)^[n] s = s := by
  refine Function.iterate_fixed ?_ n
  unfold Usage.advance
  rw [h]
  rfl

theorem startFlush_eq (hne : pending.isEmpty = false) :
    (Usage.mk records pending none accepted).startFlush =
      foldingState records pending accepted [] pending.entries := by
  unfold Usage.startFlush
  simp only [hne]
  rfl

/-- **A buffer whose rows all exist is written.** -/
theorem flushUsage_of_good (hfk : ∀ key ∈ records.keys, refs.has key = true)
    (hgood : ∀ e ∈ pending.entries, refs.has e.1 = true) (hne : pending.isEmpty = false) :
    flushUsage refs ⟨records, pending, none, accepted⟩ =
      ⟨commitRows records (foldedRows records pending.entries), Dict.empty, none, accepted⟩ := by
  have hcommit : (foldingState records pending accepted pending.entries []).advance refs =
      ⟨commitRows records (foldedRows records pending.entries), Dict.empty, none, accepted⟩ := by
    have hev : dbEvent refs (foldingState records pending accepted pending.entries [])
        ⟨pending, [], foldedRows records pending.entries, false⟩ = .answered := by
      unfold dbEvent
      rw [any_violates hfk, if_neg]
      simpa using fun key a he => hgood (key, a) he
    rw [advance_of_flush rfl, hev]
    rfl
  have hfold := @advance_iterate refs records pending accepted hfk pending.entries [] []
    (fun _ he => (nomatch he)) hgood
  rw [List.append_nil, List.nil_append] at hfold
  unfold flushUsage
  rw [startFlush_eq hne, show (Usage.mk records pending none accepted).pending.size + 2 =
    1 + (1 + pending.entries.length) by simp only [Dict.size]; omega, Function.iterate_add_apply,
    Function.iterate_add_apply, hfold, Function.iterate_one, hcommit]
  rfl

/-- A bad entry that was folded makes the next call raise, and the buffer is merged back. -/
theorem advance_bad (hfk : ∀ key ∈ records.keys, refs.has key = true)
    {folded : List (UsageKey × Accum)} {e : UsageKey × Accum} (he : e ∈ folded)
    (hbad : refs.has e.1 = false) (todo : List (UsageKey × Accum)) :
    (Usage.advance refs)^[2] (foldingState records pending accepted folded todo) =
      ⟨records, pending, none, accepted⟩ := by
  have hev : dbEvent refs (foldingState records pending accepted folded todo)
      ⟨pending, todo, foldedRows records folded, false⟩ = .raised false := by
    unfold dbEvent
    rw [any_violates hfk, if_pos]
    simpa using ⟨e.1, ⟨e.2, he⟩, hbad⟩
  have hraised : (foldingState records pending accepted folded todo).advance refs =
      ⟨records, Dict.empty, some ⟨pending, todo, foldedRows records folded, true⟩, accepted⟩ := by
    rw [advance_of_flush rfl, hev]
    simp only [Usage.step, Usage.dbRaised, Usage.recordsAfter, foldingState, Option.elim,
      Bool.false_eq_true, and_false, if_false]
  rw [Function.iterate_succ_apply, hraised, Function.iterate_one, advance_of_flush rfl]
  show Usage.mk records (Dict.empty.addAll pending.entries) none accepted = _
  rw [Dict.empty_addAll]

/-- **A buffer with a bad aggregate stays as it is.** -/
theorem flushUsage_of_bad (hfk : ∀ key ∈ records.keys, refs.has key = true)
    (hbad : ∃ e ∈ pending.entries, refs.has e.1 = false) :
    flushUsage refs ⟨records, pending, none, accepted⟩ = ⟨records, pending, none, accepted⟩ := by
  -- the entries before the first bad one are folded, and so is that one
  obtain ⟨good, e, rest, hsplit, hgood, he⟩ : ∃ good e rest, pending.entries = good ++ e :: rest ∧
      (∀ e' ∈ good, refs.has e'.1 = true) ∧ refs.has e.1 = false := by
    cases hfind : pending.entries.find? fun e => !refs.has e.1 with
    | none =>
      obtain ⟨e, he, hbad⟩ := hbad
      have hall := List.find?_eq_none.mp hfind e he
      simp [hbad] at hall
    | some e =>
      obtain ⟨he, good, rest, hsplit, hgood⟩ := List.find?_eq_some_iff_append.mp hfind
      exact ⟨good, e, rest, hsplit, by simpa using hgood, by simpa using he⟩
  have hne : pending.isEmpty = false := by
    unfold Dict.isEmpty
    rw [hsplit]
    cases good <;> rfl
  have hsize : (Usage.mk records pending none accepted).pending.size + 2 =
      rest.length + (2 + (1 + good.length)) := by
    show pending.entries.length + 2 = _
    rw [hsplit, List.length_append, List.length_cons]
    omega
  unfold flushUsage
  rw [startFlush_eq hne, hsize, Function.iterate_add_apply, Function.iterate_add_apply,
    Function.iterate_add_apply, hsplit,
    advance_iterate hfk good [] (e :: rest) (fun _ he => (nomatch he)) hgood, Function.iterate_one,
    List.nil_append, advance_fold hfk hgood,
    advance_bad hfk (List.mem_append_right _ (List.mem_singleton_self e)) he]
  exact advance_idle rfl _

end

/-! ### Repeated flushes -/

/-- What a commit of the whole buffer leaves for one of its keys. -/
theorem get?_commitRows {records pending : Dict UsageKey Accum} {key : UsageKey} {a : Accum}
    (h : (key, a) ∈ pending.entries) :
    (commitRows records (foldedRows records pending.entries)).get? key =
      some (foldRow (records.get? key) a) := by
  have hgen : ∀ (es : List (UsageKey × Accum)) (d : Dict UsageKey Accum), (es.map Prod.fst).Nodup →
      (key, a) ∈ es → (d.addAll es).get? key = some (foldRow (d.get? key) a) := by
    intro es
    induction es with
    | nil => intro d _ hmem; cases hmem
    | cons e es ih =>
      intro d hnd hmem
      rw [List.map_cons, List.nodup_cons] at hnd
      show ((d.add e.1 e.2).addAll es).get? key = _
      rcases List.mem_cons.mp hmem with rfl | hmem
      · rw [Dict.get?_addAll_of_notMem _ _ hnd.1, Dict.get?_add, if_pos rfl, foldRow_eq]
      · have hne : e.1 ≠ key := fun heq => hnd.1 (heq ▸ List.mem_map_of_mem hmem)
        rw [ih _ hnd.2 hmem, Dict.get?_add, if_neg hne]
  rw [commitRows_foldedRows _ _ _ pending.nodup_keys fun _ _ => rfl]
  exact hgen _ _ pending.nodup_keys h

/-- **Flushing again and again persists the aggregates whose rows exist exactly if that
is all of them or none.** -/
theorem flushes_persist_iff (refs : Referents) (records pending : Dict UsageKey Accum)
    (accepted : List (UsageKey × Accum)) (hfk : ∀ key ∈ records.keys, refs.has key = true) :
    (∃ n, ∀ e ∈ pending.entries, refs.has e.1 = true →
      Persisted ⟨records, pending, none, accepted⟩
        ((flushUsage refs)^[n] ⟨records, pending, none, accepted⟩) e.1 e.2) ↔
      (∀ e ∈ pending.entries, refs.has e.1 = true) ∨
        ∀ e ∈ pending.entries, refs.has e.1 = false := by
  constructor
  · rintro ⟨n, hn⟩
    by_contra hmixed
    rw [not_or] at hmixed
    simp only [not_forall] at hmixed
    obtain ⟨⟨e, he, hbad⟩, e', he', hgood⟩ := hmixed
    have hfix : (flushUsage refs)^[n] ⟨records, pending, none, accepted⟩ =
        ⟨records, pending, none, accepted⟩ :=
      Function.iterate_fixed (flushUsage_of_bad hfk ⟨e, he, by simpa using hbad⟩) n
    have hpers := (hn e' he' (by simpa using hgood)).2
    rw [hfix] at hpers
    have hget := (pending.mem_entries_iff e'.1 e'.2).mp he'
    rw [show (Usage.mk records pending none accepted).pending = pending from rfl, hget] at hpers
    cases hpers
  · rintro (hgood | hbad)
    · refine ⟨1, fun e he _ => ?_⟩
      have hne : pending.isEmpty = false := by
        unfold Dict.isEmpty
        cases hes : pending.entries with
        | nil => rw [hes] at he; cases he
        | cons => rfl
      rw [Function.iterate_one, flushUsage_of_good hfk hgood hne]
      exact ⟨get?_commitRows he, rfl⟩
    · refine ⟨0, fun e he hgood => ?_⟩
      rw [hbad e he] at hgood
      cases hgood

/-- Users 1 and 2 have usage; the rows of both exist. -/
def twoUsers : Dict UsageKey Accum :=
  (Dict.empty.set ⟨1, 10, 5, 0⟩ ⟨1, 3, 4, 9⟩).set ⟨2, 20, 5, 0⟩ ⟨2, 1, 1, 7⟩

theorem flushes_persist_both :
    (∀ e ∈ twoUsers.entries, Referents.has ⟨[1, 2], [10, 20], [5]⟩ e.1 = true) ∧
    ∃ n, ∀ e ∈ twoUsers.entries, Referents.has ⟨[1, 2], [10, 20], [5]⟩ e.1 = true →
      Persisted ⟨Dict.empty, twoUsers, none, []⟩
        ((flushUsage ⟨[1, 2], [10, 20], [5]⟩)^[n] ⟨Dict.empty, twoUsers, none, []⟩) e.1 e.2 := by
  have hgood : ∀ e ∈ twoUsers.entries, Referents.has ⟨[1, 2], [10, 20], [5]⟩ e.1 = true := by
    decide +kernel
  exact ⟨hgood, (flushes_persist_iff ⟨[1, 2], [10, 20], [5]⟩ Dict.empty twoUsers []
    fun _ hkey => (nomatch hkey)).mpr (Or.inl hgood)⟩

/-- **A deleted user blocks the usage of another**, however often the buffer is flushed. -/
theorem deleted_user_blocks :
    ¬ ∀ (refs : Referents) (records pending : Dict UsageKey Accum),
      (∀ key ∈ records.keys, refs.has key = true) →
        ∃ n, ∀ e ∈ pending.entries, refs.has e.1 = true →
          Persisted ⟨records, pending, none, []⟩
            ((flushUsage refs)^[n] ⟨records, pending, none, []⟩) e.1 e.2 := by
  intro h
  obtain ⟨n, hn⟩ := h ⟨[2], [20], [5]⟩ Dict.empty twoUsers fun _ hkey => (nomatch hkey)
  have hbad : flushUsage ⟨[2], [20], [5]⟩ ⟨Dict.empty, twoUsers, none, []⟩ =
      ⟨Dict.empty, twoUsers, none, []⟩ :=
    flushUsage_of_bad (fun _ hkey => (nomatch hkey)) (by decide +kernel)
  have hpers := (hn (⟨2, 20, 5, 0⟩, ⟨2, 1, 1, 7⟩) (by decide +kernel) (by decide +kernel)).2
  rw [Function.iterate_fixed hbad n] at hpers
  revert hpers
  decide +kernel

end Inferna
