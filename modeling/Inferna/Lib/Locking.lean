import Inferna.Lib.Run
import Mathlib.Algebra.Order.BigOperators.Group.List
import Mathlib.Algebra.Order.Group.Nat
import Mathlib.Data.Set.Insert

/-!
# Transactions that lock what they read

A transaction reads the shared state, takes locks, and at its end either writes or fails; its locks
are given back then, and not before.  What it does next may depend on everything it has read.
Transactions are interleaved at every read, every lock and every write.

A footprint says which part of the state the locks protect.  A guarded transaction reads only what
its locks protect, or what nobody ever writes, and writes only where it has locks.  What such a
transaction has read is then what it would read now, so that it does at its end what it would do if
it ran at once.

## Main definitions

* `Txn`, `Txn.run`, `serially` — a transaction, its run at once, and runs one after the other.
* `System`, `System.step` — transactions interleaved.
* `Footprint`, `Guarded` — what locks protect, and the transactions that respect it.
* `Ascending` — a transaction takes its locks in a given order.

## Main results

* `serial_run` — **guarded transactions are serializable, in the order of their ends.**
* `exists_unblocked` — **with one order for all locks there is no deadlock.**
-/

namespace Locking

open Run

/-! ### Transactions -/

/-- A transaction over the states `σ`, with locks `κ` and errors `ε`. -/
inductive Txn (σ κ ε : Type*)
  | read (next : σ → Txn σ κ ε)
  /-- Wait for a lock, and read under it. -/
  | lock (key : κ) (next : σ → Txn σ κ ε)
  /-- Write and end; the write may be refused. -/
  | commit (write : σ → Except ε σ)
  | fail (e : ε)

variable {σ κ ε ι : Type*}

/-- The run of a transaction at once. -/
def Txn.run : Txn σ κ ε → σ → Except ε σ
  | .read next, s => (next s).run s
  | .lock _ next, s => (next s).run s
  | .commit write, s => write s
  | .fail e, _ => .error e

/-- Read something, and go on with it. -/
def Txn.ask {α : Type*} (query : σ → α) (next : α → Txn σ κ ε) : Txn σ κ ε :=
  .read fun s => next (query s)

@[simp] theorem Txn.run_ask {α : Type*} (query : σ → α) (next : α → Txn σ κ ε) (s : σ) :
    (Txn.ask query next).run s = (next (query s)).run s := rfl

/-- What an end makes of the state, and what it answers. -/
def conclude (s : σ) : Except ε σ → σ × Option ε
  | .ok s' => (s', none)
  | .error e => (s, some e)

/-- Transactions one after the other, each at once: the state, and their answers. -/
def serially (prog : ι → Txn σ κ ε) (s : σ) : List ι → σ × List (ι × Option ε)
  | [] => (s, [])
  | x :: xs =>
    let first := conclude s ((prog x).run s)
    let rest := serially prog first.1 xs
    (rest.1, (x, first.2) :: rest.2)

theorem serially_concat (prog : ι → Txn σ κ ε) (x : ι) : ∀ (xs : List ι) (s : σ),
    serially prog s (xs ++ [x]) =
      ((conclude (serially prog s xs).1 ((prog x).run (serially prog s xs).1)).1,
        (serially prog s xs).2 ++
          [(x, (conclude (serially prog s xs).1 ((prog x).run (serially prog s xs).1)).2)]) := by
  intro xs
  induction xs with
  | nil => exact fun s => rfl
  | cons y ys ih =>
    intro s
    rw [List.cons_append, serially, ih]
    rfl

/-- What every transaction of a series keeps, the series keeps. -/
theorem serially_keeps {prog : ι → Txn σ κ ε} (P : σ → Prop)
    (hstep : ∀ s x, P s → P (conclude s ((prog x).run s)).1) :
    ∀ (xs : List ι) {s : σ}, P s → P (serially prog s xs).1 := by
  intro xs
  induction xs with
  | nil => exact fun hs => hs
  | cons x xs ih => exact fun hs => ih (hstep _ x hs)

/-- What every answer of a series satisfies while the states keep `P`. -/
theorem serially_answers {prog : ι → Txn σ κ ε} (P : σ → Prop) (Q : Option ε → Prop)
    (hstep : ∀ s x, P s → P (conclude s ((prog x).run s)).1 ∧ Q (conclude s ((prog x).run s)).2) :
    ∀ (xs : List ι) {s : σ}, P s → ∀ r ∈ (serially prog s xs).2, Q r.2 := by
  intro xs
  induction xs with
  | nil => exact fun _ r hr => (List.not_mem_nil hr).elim
  | cons x xs ih =>
    intro s hs r hr
    rcases List.mem_cons.mp hr with rfl | hr
    · exact (hstep s x hs).2
    · exact ih (hstep s x hs).1 r hr

/-! ### Interleavings -/

/-- A transaction that has been called: which one, and what is left of it. -/
structure Call (σ κ ε ι : Type*) where
  label : ι
  rest : Option (Txn σ κ ε)

/-- The shared state, the locks with their holders, the calls in the order of their arrival, and
those that have ended, with their answers. -/
structure System (σ κ ε ι : Type*) where
  shared : σ
  locks : List (κ × ℕ) := []
  calls : List (Call σ κ ε ι) := []
  ended : List (ι × Option ε) := []

/-- What happens next. -/
inductive Event (ι : Type*)
  | arrive (x : ι)
  | advance (i : ℕ)
  deriving DecidableEq, Repr

/-- A call ends, and gives its locks back. -/
def System.finish (c : System σ κ ε ι) (i : ℕ) (x : ι) (r : Except ε σ) : System σ κ ε ι where
  shared := (conclude c.shared r).1
  locks := c.locks.filter (·.2 ≠ i)
  calls := c.calls.set i ⟨x, none⟩
  ended := c.ended ++ [(x, (conclude c.shared r).2)]

/-- A call goes on. -/
def System.goOn (c : System σ κ ε ι) (i : ℕ) (x : ι) (t : Txn σ κ ε) : System σ κ ε ι :=
  { c with calls := c.calls.set i ⟨x, some t⟩ }

variable [DecidableEq κ]

/-- Somebody else has the lock. -/
def System.taken (c : System σ κ ε ι) (i : ℕ) (key : κ) : Bool :=
  c.locks.any fun p => p.1 = key ∧ p.2 ≠ i

/-- One step.  Without `locking` nobody waits for a lock. -/
def System.step (locking : Bool) (prog : ι → Txn σ κ ε) (c : System σ κ ε ι) :
    Event ι → System σ κ ε ι
  | .arrive x => { c with calls := c.calls ++ [⟨x, some (prog x)⟩] }
  | .advance i =>
    match c.calls[i]? with
    | some ⟨x, some (.read next)⟩ => c.goOn i x (next c.shared)
    | some ⟨x, some (.lock key next)⟩ =>
      if locking && c.taken i key then c
      else { c with locks := (key, i) :: c.locks }.goOn i x (next c.shared)
    | some ⟨x, some (.commit write)⟩ => c.finish i x (write c.shared)
    | some ⟨x, some (.fail e)⟩ => c.finish i x (.error e)
    | _ => c

/-! ### Footprints -/

/-- What a set of locks protects: two states agree on it. -/
structure Footprint (σ κ : Type*) where
  agree : Set κ → σ → σ → Prop
  refl : ∀ L s, agree L s s
  mono : ∀ {L L' : Set κ} {s s' : σ}, L' ⊆ L → agree L s s' → agree L' s s'

variable (F : Footprint σ κ)

/-- With these locks, a transaction reads what they protect and writes where it has locks. -/
def Guarded : Set κ → Txn σ κ ε → Prop
  | L, .read next => (∀ s s', F.agree L s s' → next s = next s') ∧ ∀ s, Guarded L (next s)
  | L, .lock key next =>
    (∀ s s', F.agree (insert key L) s s' → next s = next s') ∧ ∀ s, Guarded (insert key L) (next s)
  | L, .commit write => ∀ s s', write s = .ok s' → ∀ L', (∀ key ∈ L', key ∉ L) → F.agree L' s s'
  | _, .fail _ => True

/-- What is left of a transaction after some of its steps at one state, with the locks taken on
the way. -/
inductive Path (s : σ) : Txn σ κ ε → Txn σ κ ε → Set κ → Prop
  | refl (t : Txn σ κ ε) : Path s t t ∅
  | read {next : σ → Txn σ κ ε} {t : Txn σ κ ε} {L : Set κ} (h : Path s (next s) t L) :
      Path s (.read next) t L
  | lock {key : κ} {next : σ → Txn σ κ ε} {t : Txn σ κ ε} {L : Set κ} (h : Path s (next s) t L) :
      Path s (.lock key next) t (insert key L)

variable {F} {s s' : σ} {t t' : Txn σ κ ε} {L : Set κ}

omit [DecidableEq κ] in
theorem guarded_ask {α : Type*} {query : σ → α} {next : α → Txn σ κ ε}
    (hquery : ∀ s s', F.agree L s s' → query s = query s')
    (hnext : ∀ s, Guarded F L (next (query s))) : Guarded F L (.ask query next) :=
  ⟨fun s s' h => congrArg next (hquery s s' h), hnext⟩

omit [DecidableEq κ] in
/-- What is left does what the whole does. -/
theorem Path.run_eq (h : Path s t t' L) : t.run s = t'.run s := by
  induction h with
  | refl t => rfl
  | read _ ih => exact ih
  | lock _ ih => exact ih

omit [DecidableEq κ] in
theorem Path.concat_read {next : σ → Txn σ κ ε} (h : Path s t (.read next) L) :
    Path s t (next s) L := by
  generalize ht : Txn.read next = t' at h
  induction h with
  | refl t =>
    subst ht
    exact .read (.refl _)
  | read _ ih => exact .read (ih ht)
  | lock _ ih => exact .lock (ih ht)

omit [DecidableEq κ] in
theorem Path.concat_lock {key : κ} {next : σ → Txn σ κ ε} (h : Path s t (.lock key next) L) :
    Path s t (next s) (insert key L) := by
  generalize ht : Txn.lock key next = t' at h
  induction h with
  | refl t =>
    subst ht
    exact .lock (.refl _)
  | read _ ih => exact .read (ih ht)
  | lock _ ih =>
    rw [Set.insert_comm]
    exact .lock (ih ht)

omit [DecidableEq κ] in
/-- The rest of a guarded transaction is guarded by the locks it has by then. -/
theorem Path.guarded (h : Path s t t' L) : ∀ {L₀ : Set κ}, Guarded F L₀ t →
    Guarded F (L₀ ∪ L) t' := by
  induction h with
  | refl t => exact fun hg => by rwa [Set.union_empty]
  | read _ ih => exact fun hg => ih (hg.2 _)
  | lock _ ih =>
    intro L₀ hg
    have hrest := ih (hg.2 _)
    rwa [Set.insert_union, ← Set.union_insert] at hrest

omit [DecidableEq κ] in
/-- What a guarded transaction has read it would read again, as long as nothing has changed that
its locks protect. -/
theorem Path.transfer (h : Path s t t' L) : ∀ {L₀ : Set κ}, Guarded F L₀ t →
    F.agree (L₀ ∪ L) s s' → Path s' t t' L := by
  induction h with
  | refl t => exact fun _ _ => .refl t
  | @read next t L _ ih =>
    intro L₀ hg hagree
    have hsame : next s = next s' := hg.1 s s' (F.mono Set.subset_union_left hagree)
    refine .read ?_
    rw [← hsame]
    exact ih (hg.2 s) hagree
  | @lock key next t L _ ih =>
    intro L₀ hg hagree
    rw [Set.union_insert, ← Set.insert_union] at hagree
    have hsame : next s = next s' := hg.1 s s' (F.mono Set.subset_union_left hagree)
    refine .lock ?_
    rw [← hsame]
    exact ih (hg.2 s) hagree

/-! ### Serializability -/

/-- The locks of a call. -/
def System.held (c : System σ κ ε ι) (i : ℕ) : Set κ := {key | (key, i) ∈ c.locks}

/-- A call that has not ended, with what is left of it. -/
def System.Active (c : System σ κ ε ι) (i : ℕ) (x : ι) (t : Txn σ κ ε) : Prop :=
  c.calls[i]? = some ⟨x, some t⟩

/-- What holds between steps: the calls that have ended have done what they do one after the other,
locks belong to one active call each, and an active call is where it would be had it started now. -/
structure Inv (prog : ι → Txn σ κ ε) (s₀ : σ) (c : System σ κ ε ι) : Prop where
  serial : serially prog s₀ (c.ended.map (·.1)) = (c.shared, c.ended)
  owned : ∀ {key i}, (key, i) ∈ c.locks → ∃ x t, c.Active i x t
  exclusive : ∀ {key i j}, (key, i) ∈ c.locks → (key, j) ∈ c.locks → i = j
  path : ∀ {i x t}, c.Active i x t → Path c.shared (prog x) t (c.held i)

variable {prog : ι → Txn σ κ ε} {s₀ : σ} {c : System σ κ ε ι} {i j : ℕ} {x y : ι} {r : Except ε σ}

omit [DecidableEq κ] in
theorem inv_init (prog : ι → Txn σ κ ε) (s : σ) : Inv prog s ⟨s, [], [], []⟩ where
  serial := rfl
  owned h := (List.not_mem_nil h).elim
  exclusive h := (List.not_mem_nil h).elim
  path h := by simp [System.Active] at h

omit [DecidableEq κ] in
/-- Locks of two calls have nothing in common. -/
theorem Inv.disjoint (hc : Inv prog s₀ c) (hij : i ≠ j) : ∀ key ∈ c.held i, key ∉ c.held j :=
  fun _ hi hj => hij (hc.exclusive hi hj)

omit [DecidableEq κ] in
theorem active_set_iff {z : Option (Txn σ κ ε)} (hi : i < c.calls.length) :
    (c.calls.set i ⟨x, z⟩)[j]? = some ⟨y, some t⟩ ↔
      (i = j ∧ x = y ∧ z = some t) ∨ (i ≠ j ∧ c.Active j y t) := by
  by_cases hij : i = j
  · subst hij
    simp [hi]
  · simp [hij, System.Active]

omit [DecidableEq κ] in
theorem System.Active.lt (h : c.Active i x t) : i < c.calls.length := by
  rw [System.Active, List.getElem?_eq_some_iff] at h
  exact h.1

omit [DecidableEq κ] in
theorem inv_arrive (hc : Inv prog s₀ c) (x : ι) :
    Inv prog s₀ { c with calls := c.calls ++ [⟨x, some (prog x)⟩] } := by
  have hold : ∀ {i y t}, c.Active i y t →
      (c.calls ++ [⟨x, some (prog x)⟩])[i]? = some ⟨y, some t⟩ := by
    intro i y t h
    rwa [List.getElem?_append_left h.lt]
  refine ⟨hc.serial, ?_, hc.exclusive, ?_⟩
  · intro key i h
    obtain ⟨y, t, hy⟩ := hc.owned h
    exact ⟨y, t, hold hy⟩
  · intro i y t h
    rcases lt_or_ge i c.calls.length with hi | hi
    · exact hc.path (by rwa [System.Active, List.getElem?_append_left hi] at h)
    · -- The new call has done nothing yet, and has no locks.
      simp only [System.Active, List.getElem?_append_right hi, List.getElem?_singleton] at h
      split at h
      · obtain ⟨rfl, rfl⟩ : x = y ∧ prog x = t := by simpa using h
        have hnone : c.held i = ∅ := by
          refine Set.eq_empty_iff_forall_notMem.mpr fun key hkey => ?_
          obtain ⟨z, u, hz⟩ := hc.owned hkey
          exact absurd hz.lt (Nat.not_lt.mpr hi)
        have hpath : Path c.shared (prog x) (prog x) (c.held i) := hnone ▸ .refl _
        exact hpath
      · cases h

omit [DecidableEq κ] in
theorem inv_read {next : σ → Txn σ κ ε} (hc : Inv prog s₀ c) (h : c.Active i x (.read next)) :
    Inv prog s₀ (c.goOn i x (next c.shared)) := by
  refine ⟨hc.serial, ?_, hc.exclusive, ?_⟩
  · intro key j hkey
    by_cases hij : i = j
    · exact ⟨x, next c.shared, (active_set_iff h.lt).mpr (.inl ⟨hij, rfl, rfl⟩)⟩
    · obtain ⟨y, t, hy⟩ := hc.owned hkey
      exact ⟨y, t, (active_set_iff h.lt).mpr (.inr ⟨hij, hy⟩)⟩
  · intro j y t hj
    rcases (active_set_iff h.lt).mp hj with ⟨rfl, rfl, ht⟩ | ⟨-, hy⟩
    · obtain rfl := Option.some.inj ht
      exact (hc.path h).concat_read
    · exact hc.path hy

theorem inv_lock {key : κ} {next : σ → Txn σ κ ε} (hc : Inv prog s₀ c)
    (h : c.Active i x (.lock key next)) (hfree : c.taken i key = false) :
    Inv prog s₀ ({ c with locks := (key, i) :: c.locks }.goOn i x (next c.shared)) := by
  have hmine : ∀ {j}, (key, j) ∈ c.locks → j = i := by
    intro j hj
    by_contra hne
    rw [System.taken, List.any_eq_false] at hfree
    exact hfree _ hj (by simp [hne])
  refine ⟨hc.serial, ?_, ?_, ?_⟩
  · intro key' j hkey
    by_cases hij : i = j
    · exact ⟨x, next c.shared, (active_set_iff h.lt).mpr (.inl ⟨hij, rfl, rfl⟩)⟩
    · rcases List.mem_cons.mp hkey with hnew | hold
      · exact absurd (Prod.mk.inj hnew).2.symm hij
      · obtain ⟨y, t, hy⟩ := hc.owned hold
        exact ⟨y, t, (active_set_iff h.lt).mpr (.inr ⟨hij, hy⟩)⟩
  · intro key' j k hj hk
    rcases List.mem_cons.mp hj with hjnew | hjold <;> rcases List.mem_cons.mp hk with hknew | hkold
    · rw [(Prod.mk.inj hjnew).2, (Prod.mk.inj hknew).2]
    · obtain ⟨rfl, rfl⟩ := Prod.mk.inj hjnew
      exact (hmine hkold).symm
    · obtain ⟨rfl, rfl⟩ := Prod.mk.inj hknew
      exact hmine hjold
    · exact hc.exclusive hjold hkold
  · intro j y t hj
    rcases (active_set_iff h.lt).mp hj with ⟨rfl, rfl, ht⟩ | ⟨hij, hy⟩
    · obtain rfl := Option.some.inj ht
      have hheld : ({ c with locks := (key, i) :: c.locks }.goOn i x (next c.shared)).held i =
          insert key (c.held i) := by
        ext k
        simp [System.held, System.goOn]
      rw [hheld]
      exact (hc.path h).concat_lock
    · have hheld : ({ c with locks := (key, i) :: c.locks }.goOn i x (next c.shared)).held j =
          c.held j := by
        ext k
        simp [System.held, System.goOn, Ne.symm hij]
      rw [hheld]
      exact hc.path hy

omit [DecidableEq κ] in
/-- A call ends with what its run at once would do now, and changes nothing that others have
locked. -/
theorem inv_finish (hg : ∀ x, Guarded F ∅ (prog x)) (hc : Inv prog s₀ c) (h : c.Active i x t)
    (hrun : (prog x).run c.shared = r)
    (hframe : ∀ L, (∀ key ∈ L, key ∉ c.held i) → F.agree L c.shared (conclude c.shared r).1) :
    Inv prog s₀ (c.finish i x r) := by
  have hlocks : ∀ {key j}, (key, j) ∈ (c.finish i x r).locks ↔ (key, j) ∈ c.locks ∧ j ≠ i := by
    intro key j
    simp [System.finish, List.mem_filter]
  refine ⟨?_, ?_, ?_, ?_⟩
  · simp only [System.finish, List.map_append, List.map_cons, List.map_nil]
    rw [serially_concat, hc.serial, hrun]
  · intro key j hkey
    obtain ⟨hold, hji⟩ := hlocks.mp hkey
    obtain ⟨y, u, hy⟩ := hc.owned hold
    exact ⟨y, u, (active_set_iff h.lt).mpr (.inr ⟨hji.symm, hy⟩)⟩
  · intro key j k hj hk
    exact hc.exclusive (hlocks.mp hj).1 (hlocks.mp hk).1
  · intro j y u hj
    rcases (active_set_iff h.lt).mp hj with ⟨-, -, hnone⟩ | ⟨hij, hy⟩
    · cases hnone
    have hheld : (c.finish i x r).held j = c.held j := by
      ext key
      exact hlocks.trans ⟨fun hk => hk.1, fun hk => ⟨hk, hij.symm⟩⟩
    rw [hheld]
    refine (hc.path hy).transfer (hg y) ?_
    rw [Set.empty_union]
    exact hframe _ (hc.disjoint hij.symm)

/-- **A step keeps the invariant**: the read, lock, commit and failure of a call one by one. -/
theorem inv_step (hg : ∀ x, Guarded F ∅ (prog x)) (hc : Inv prog s₀ c) (e : Event ι) :
    Inv prog s₀ (c.step true prog e) := by
  cases e with
  | arrive x => exact inv_arrive hc x
  | advance i =>
    simp only [System.step]
    split
    · rename_i x next h
      exact inv_read hc h
    · rename_i x key next h
      split
      · exact hc
      · rename_i hfree
        exact inv_lock hc h (by simpa using hfree)
    · rename_i x write h
      have hwrite : Guarded F (c.held i) (.commit write : Txn σ κ ε) := by
        simpa using (hc.path h).guarded (hg x)
      refine inv_finish hg hc h (hc.path h).run_eq fun L hL => ?_
      cases hw : write c.shared with
      | error e => exact F.refl L _
      | ok s' => exact hwrite _ _ hw L hL
    · rename_i x e h
      exact inv_finish hg hc h (hc.path h).run_eq fun L _ => F.refl L _
    · exact hc

theorem inv_exec (hg : ∀ x, Guarded F ∅ (prog x)) (s : σ) (es : List (Event ι)) :
    Inv prog s (exec (System.step true prog) ⟨s, [], [], []⟩ es) :=
  invariant (Inv prog s) (fun _ e hc => inv_step hg hc e) es _ (inv_init prog s)

/-- **Guarded transactions are serializable.**  However they are interleaved, the state is what
those that have ended make of it one after the other, each at once, in the order of their ends,
and they have the same answers. -/
theorem serial_run (hg : ∀ x, Guarded F ∅ (prog x)) (s : σ) (es : List (Event ι)) :
    let c := exec (System.step true prog) ⟨s, [], [], []⟩ es
    serially prog s (c.ended.map (·.1)) = (c.shared, c.ended) :=
  (inv_exec hg s es).serial

/-! ### Deadlock -/

/-- From this state on, a transaction takes its locks in the order of their ranks. -/
def Ascending (s : σ) (rank : κ → ℕ) : ℕ → Txn σ κ ε → Prop
  | least, .read next => Ascending s rank least (next s)
  | least, .lock key next => least ≤ rank key ∧ Ascending s rank (rank key + 1) (next s)
  | _, .commit _ => True
  | _, .fail _ => True

omit [DecidableEq κ] in
@[simp] theorem ascending_ask {α : Type*} {rank : κ → ℕ} {least : ℕ} {query : σ → α}
    {next : α → Txn σ κ ε} :
    Ascending s rank least (.ask query next) ↔ Ascending s rank least (next (query s)) := Iff.rfl

omit [DecidableEq κ] in
/-- The locks a call will take come after those it has. -/
theorem Path.ascending {rank : κ → ℕ} (h : Path s t t' L) : ∀ {least}, Ascending s rank least t →
    ∃ least', least ≤ least' ∧ Ascending s rank least' t' ∧ ∀ key ∈ L, rank key < least' := by
  induction h with
  | refl t => exact fun ha => ⟨_, le_rfl, ha, fun key hkey => hkey.elim⟩
  | read _ ih => exact fun ha => ih ha
  | @lock key next t L _ ih =>
    rintro least ⟨hleast, ha⟩
    obtain ⟨least', hle, ha', hheld⟩ := ih ha
    refine ⟨least', by omega, ha', ?_⟩
    rintro k (rfl | hk)
    · omega
    · exact hheld k hk

/-- The call waits for a lock that another call has. -/
def System.Waits (c : System σ κ ε ι) (i : ℕ) : Prop :=
  ∃ x key next, c.Active i x (.lock key next) ∧ c.taken i key = true

/-- **With one order for all locks there is no deadlock**: as long as there is an active call, there
is one that does not wait. -/
theorem exists_unblocked {rank : κ → ℕ} (hc : Inv prog s₀ c)
    (ha : ∀ x, Ascending c.shared rank 0 (prog x)) (h : c.Active i x t) :
    ∃ j y u, c.Active j y u ∧ ¬ c.Waits j := by
  by_contra hall
  push Not at hall
  -- Each call waits for a lock of a higher rank than those it has, whose holder waits in turn.
  have hclimb : ∀ n : ℕ, ∃ j y key next, c.Active j y (.lock key next) ∧ c.taken j key = true ∧
      n ≤ rank key := by
    intro n
    induction n with
    | zero =>
      obtain ⟨y, key, next, hy, htaken⟩ := hall i x t h
      exact ⟨i, y, key, next, hy, htaken, Nat.zero_le _⟩
    | succ n ih =>
      obtain ⟨j, y, key, next, hj, htaken, hn⟩ := ih
      obtain ⟨⟨key', k⟩, hmem, hk⟩ := List.any_eq_true.mp htaken
      obtain ⟨rfl, hkj⟩ : key' = key ∧ k ≠ j := by simpa using hk
      obtain ⟨z, u, hz⟩ := hc.owned hmem
      obtain ⟨z', key'', next', hz', htaken'⟩ := hall k z u hz
      obtain ⟨least, -, hasc, hheld⟩ := (hc.path hz').ascending (ha z')
      have hlt : rank key' < least := hheld key' hmem
      have hle : least ≤ rank key'' := hasc.1
      exact ⟨k, z', key'', next', hz', htaken', by omega⟩
  -- No awaited lock is above all the locks that are taken.
  obtain ⟨j, y, key, next, -, htaken, hn⟩ :=
    hclimb ((c.locks.map fun p => rank p.1).sum + 1)
  obtain ⟨⟨key', k⟩, hmem, hk⟩ := List.any_eq_true.mp htaken
  obtain ⟨rfl, -⟩ : key' = key ∧ k ≠ j := by simpa using hk
  have hle : rank key' ≤ (c.locks.map fun p => rank p.1).sum :=
    List.le_sum_of_mem (List.mem_map.mpr ⟨_, hmem, rfl⟩)
  omega

end Locking
