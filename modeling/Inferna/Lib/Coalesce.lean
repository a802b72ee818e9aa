import Mathlib.Data.List.Nodup
import Mathlib.Data.List.Perm.Basic
import Inferna.Lib.Dict
import Inferna.Lib.Run

/-!
# A batch at a time, and what arrives meanwhile

Commands arrive in lists and are applied by tasks, one command at a time, in an order
that the task chooses when it starts.  While the current task runs, commands that arrive
are kept by key, the last one for each key; a task that ends starts a task for what has
been kept.  Applying a command acts on an inner state, which others may change at any
moment.

The tasks are kept by number and never forgotten, and any of them may move, so that
"one task at a time" is a theorem and not a consequence of the state's type.

## Main definitions

* `Spec` — the keys, the order of a batch and what its commands do.
* `BatchTask`, `State`, `Event`, `State.step`.
* `State.flow` — what has been applied for a key, then what is queued for it.
* `Inv` — the invariant.

## Main results

* `inv_step` — every event keeps the invariant.
* `Inv.unique` — **one task runs at a time.**
* `Inv.sublist` — **what is applied for a key is a subsequence of what arrived.**
* `Inv.last` — **the last command that arrived is the last one applied**, once
  nothing runs.
-/

namespace Coalesce

variable {κ γ σ ω : Type*} [DecidableEq κ]

/-- What a worker does with its commands.  The outcomes `ω` are the environment's. -/
structure Spec (κ γ σ ω : Type*) where
  key : γ → κ
  /-- The order in which a batch applies its commands. -/
  order : σ → List γ → List γ
  order_perm : ∀ s cs, (order s cs).Perm cs
  apply : σ → ω → γ → σ
  /-- The end of a batch. -/
  finish : σ → ω → σ

/-- A task that has not started, that has still to apply some commands, or that is over. -/
inductive BatchTask (γ : Type*)
  | created (commands : List γ)
  | working (rest : List γ)
  | ended

/-- The commands a task has still to apply. -/
def BatchTask.rest : BatchTask γ → List γ
  | .created commands => commands
  | .working rest => rest
  | .ended => []

/-- The task is not over. -/
def BatchTask.live : BatchTask γ → Bool
  | .ended => false
  | _ => true

/-- The tasks by number, the one that was created last, what has been kept meanwhile,
and the commands that arrived and were applied so far. -/
structure State (κ γ σ : Type*) where
  inner : σ
  tasks : List (BatchTask γ) := []
  current : Option ℕ := none
  pending : Dict κ γ := Dict.empty
  received : List γ := []
  applied : List γ := []

/-- Commands arrive, a task moves, or somebody else changes the inner state. -/
inductive Event (γ σ ω : Type*)
  | receive (commands : List γ)
  | advance (task : ℕ) (outcome : ω)
  | outside (inner : σ)

/-- At most one of the commands that arrive together is for a key. -/
def Event.Distinct (w : Spec κ γ σ ω) : Event γ σ ω → Prop
  | .receive commands => (commands.map w.key).Nodup
  | _ => True

instance (w : Spec κ γ σ ω) : ∀ e : Event γ σ ω, Decidable (e.Distinct w)
  | .receive commands => inferInstanceAs (Decidable (commands.map w.key).Nodup)
  | .advance _ _ => isTrue trivial
  | .outside _ => isTrue trivial

namespace State

variable (w : Spec κ γ σ ω) (s : State κ γ σ)

/-- The task runs. -/
def Running (n : ℕ) : Prop := ∃ t, s.tasks[n]? = some t ∧ t.live = true

/-- The current task runs, as it is asked when commands arrive. -/
def busy : Bool := s.current.any fun n => (s.tasks[n]?).any BatchTask.live

/-- A new task becomes the current one. -/
def create (commands : List γ) : State κ γ σ :=
  { s with
    tasks := s.tasks ++ [.created commands]
    current := some s.tasks.length }

/-- Keep commands, the last one for each key. -/
def keep (pending : Dict κ γ) (commands : List γ) : Dict κ γ :=
  commands.foldl (fun p c => p.set (w.key c) c) pending

/-- Commands arrive. -/
def receive (commands : List γ) : State κ γ σ :=
  let s := { s with received := s.received ++ commands }
  if s.busy then { s with pending := keep w s.pending commands } else s.create commands

/-- A task ends, and starts a task for what has been kept. -/
def finish (n : ℕ) (o : ω) : State κ γ σ :=
  let s := { s with
    inner := w.finish s.inner o
    tasks := s.tasks.set n .ended
    current := none }
  if s.pending.isEmpty then s else { s with pending := Dict.empty }.create s.pending.values

/-- A task moves. -/
def advance (n : ℕ) (o : ω) : State κ γ σ :=
  match s.tasks[n]? with
  | none => s
  | some .ended => s
  | some (.created commands) =>
    { s with tasks := s.tasks.set n (.working (w.order s.inner commands)) }
  | some (.working (c :: rest)) =>
    { s with
      tasks := s.tasks.set n (.working rest)
      inner := w.apply s.inner o c
      applied := s.applied ++ [c] }
  | some (.working []) => s.finish w n o

/-- One event. -/
def step : Event γ σ ω → State κ γ σ
  | .receive commands => s.receive w commands
  | .advance n o => s.advance w n o
  | .outside inner => { s with inner := inner }

/-! ### The flow of a key -/

/-- The commands for a key. -/
def ofKey (k : κ) (cs : List γ) : List γ := cs.filter fun c => w.key c = k

@[simp] theorem ofKey_append (k : κ) (cs ds : List γ) :
    ofKey w k (cs ++ ds) = ofKey w k cs ++ ofKey w k ds :=
  List.filter_append ..

/-- The commands the current task has still to apply. -/
def queue : List γ := ((s.current.bind fun n => s.tasks[n]?).map BatchTask.rest).getD []

/-- What has been applied for a key, then what is queued for it. -/
def flow (k : κ) : List γ :=
  ofKey w k s.applied ++ ofKey w k s.queue ++ (s.pending.get? k).toList

end State

open State

/-- What holds in every state. -/
structure Inv (w : Spec κ γ σ ω) (s : State κ γ σ) : Prop where
  /-- A task that runs is the current one. -/
  current : ∀ n, s.Running n → s.current = some n
  /-- Nothing is kept while no task runs. -/
  idle : (∀ n, ¬ s.Running n) → s.pending = Dict.empty
  /-- What is kept is filed under its key. -/
  filed : ∀ k c, s.pending.get? k = some c → w.key c = k
  /-- A task has at most one command for a key. -/
  distinct : ∀ t ∈ s.tasks, (t.rest.map w.key).Nodup
  /-- What is applied and queued for a key is a subsequence of what arrived, with
  the same end. -/
  flow : ∀ k, (s.flow w k).Sublist (ofKey w k s.received) ∧
    (s.flow w k).getLast? = (ofKey w k s.received).getLast?

variable {w : Spec κ γ σ ω} {s : State κ γ σ}

theorem inv_init (w : Spec κ γ σ ω) (inner : σ) : Inv w ({ inner := inner } : State κ γ σ) where
  current n h := by
    obtain ⟨t, ht, -⟩ := h
    cases ht
  idle _ := rfl
  filed k c h := by cases h
  distinct t ht := absurd ht List.not_mem_nil
  flow k := ⟨List.Sublist.refl _, rfl⟩

/-- **One task runs at a time.** -/
theorem Inv.unique (h : Inv w s) {m n : ℕ} (hm : s.Running m) (hn : s.Running n) : m = n :=
  Option.some.inj ((h.current m hm).symm.trans (h.current n hn))

/-- **What is applied for a key is a subsequence of what arrived.** -/
theorem Inv.sublist (h : Inv w s) (k : κ) :
    (ofKey w k s.applied).Sublist (ofKey w k s.received) := by
  refine List.Sublist.trans ?_ (h.flow k).1
  unfold State.flow
  rw [List.append_assoc]
  exact List.sublist_append_left _ _

omit [DecidableEq κ] in
/-- What is queued when no task runs. -/
theorem queue_of_not_running (hno : ∀ n, ¬ s.Running n) : s.queue = [] := by
  unfold queue
  cases hc : s.current with
  | none => rfl
  | some n =>
    cases ht : s.tasks[n]? with
    | none => simp [ht]
    | some t =>
      have hended : t.live = false := by
        by_contra hlive
        exact hno n ⟨t, ht, by simpa using hlive⟩
      cases t with
      | ended => simp [ht, BatchTask.rest]
      | created cs => cases hended
      | working cs => cases hended

/-- **The last command that arrived is the last one applied**, once nothing runs. -/
theorem Inv.last (h : Inv w s) (hno : ∀ n, ¬ s.Running n) (k : κ) :
    (ofKey w k s.applied).getLast? = (ofKey w k s.received).getLast? := by
  have hflow := (h.flow k).2
  unfold State.flow at hflow
  rw [queue_of_not_running hno, h.idle hno] at hflow
  simpa [ofKey] using hflow

/-! ### The tasks -/

omit [DecidableEq κ] in
/-- Which tasks run after the task `n` has changed. -/
theorem running_set {s' : State κ γ σ} {n : ℕ} {t t' : BatchTask γ} (ht : s.tasks[n]? = some t)
    (hs' : s'.tasks = s.tasks.set n t') (m : ℕ) :
    s'.Running m ↔ (m = n ∧ t'.live = true) ∨ (m ≠ n ∧ s.Running m) := by
  have hn : n < s.tasks.length := (List.getElem?_eq_some_iff.mp ht).1
  unfold Running
  rw [hs', List.getElem?_set]
  by_cases hm : n = m
  · subst hm
    simp [hn]
  · simp [hm, Ne.symm hm]

omit [DecidableEq κ] in
/-- Which tasks run after one has been created. -/
theorem running_create (cs : List γ) (m : ℕ) :
    (s.create cs).Running m ↔ m = s.tasks.length ∨ s.Running m := by
  unfold Running create
  simp only [List.getElem?_append]
  split
  · rename_i hlt
    simp [Nat.ne_of_lt hlt]
  · rename_i hge
    rw [List.getElem?_eq_none (Nat.le_of_not_lt hge)]
    by_cases hm : m = s.tasks.length
    · simp [hm, BatchTask.live]
    · have hpos : m - s.tasks.length ≠ 0 := by omega
      simp [hm, hpos]

omit [DecidableEq κ] in
/-- A created task has its commands queued. -/
theorem queue_create (cs : List γ) : (s.create cs).queue = cs := by
  simp [queue, create, BatchTask.rest]

theorem flow_create (cs : List γ) (k : κ) : (s.create cs).flow w k =
    ofKey w k s.applied ++ ofKey w k cs ++ (s.pending.get? k).toList := by
  unfold State.flow
  rw [queue_create]
  rfl

omit [DecidableEq κ] in
theorem busy_iff : s.busy = true ↔ ∃ n, s.current = some n ∧ s.Running n := by
  unfold busy Running
  cases hc : s.current with
  | none => simp
  | some n => cases ht : s.tasks[n]? <;> simp [ht]

omit [DecidableEq κ] in
/-- What is queued after the current task has changed. -/
theorem queue_set {s' : State κ γ σ} {n : ℕ} {t t' : BatchTask γ} (ht : s.tasks[n]? = some t)
    (hs' : s'.tasks = s.tasks.set n t') (hc : s'.current = some n) : s'.queue = t'.rest := by
  have hn : n < s.tasks.length := (List.getElem?_eq_some_iff.mp ht).1
  simp [queue, hc, hs', hn]

omit [DecidableEq κ] in
theorem queue_of_current {n : ℕ} {t : BatchTask γ} (ht : s.tasks[n]? = some t)
    (hc : s.current = some n) : s.queue = t.rest := by
  simp [queue, hc, ht]

omit [DecidableEq κ] in
theorem distinct_set {n : ℕ} {t' : BatchTask γ} (h : ∀ t ∈ s.tasks, (t.rest.map w.key).Nodup)
    (ht' : (t'.rest.map w.key).Nodup) : ∀ t ∈ s.tasks.set n t', (t.rest.map w.key).Nodup := by
  intro t ht
  rcases List.mem_or_eq_of_mem_set ht with ht | rfl
  · exact h t ht
  · exact ht'

/-! ### The commands for a key -/

/-- Distinct commands hold at most one for a key. -/
theorem length_ofKey_le {cs : List γ} (h : (cs.map w.key).Nodup) (k : κ) :
    (ofKey w k cs).length ≤ 1 := by
  have hrep : (ofKey w k cs).map w.key = List.replicate (ofKey w k cs).length k := by
    refine List.eq_replicate_iff.mpr ⟨List.length_map _, fun x hx => ?_⟩
    obtain ⟨c, hc, rfl⟩ := List.mem_map.mp hx
    simpa using (List.mem_filter.mp hc).2
  have hnd : ((ofKey w k cs).map w.key).Nodup := (List.filter_sublist.map w.key).nodup h
  rw [hrep] at hnd
  exact List.nodup_replicate.mp hnd

/-- The order of a batch does not matter for one key. -/
theorem ofKey_order (inner : σ) {cs : List γ} (h : (cs.map w.key).Nodup) (k : κ) :
    ofKey w k (w.order inner cs) = ofKey w k cs := by
  have hperm : (ofKey w k (w.order inner cs)).Perm (ofKey w k cs) :=
    (w.order_perm inner cs).filter _
  have hlen := length_ofKey_le h k
  match hcs : ofKey w k cs with
  | [] => exact List.perm_nil.mp (hcs ▸ hperm)
  | [c] => exact List.perm_singleton.mp (hcs ▸ hperm)
  | c :: d :: rest =>
    rw [hcs, List.length_cons, List.length_cons] at hlen
    omega

/-- What is kept for a key: the last command for it, or what was kept before. -/
theorem get?_keep (k : κ) : ∀ (cs : List γ) (p : Dict κ γ),
    (keep w p cs).get? k = (ofKey w k cs).getLast?.or (p.get? k) := by
  intro cs
  induction cs with
  | nil => exact fun p => rfl
  | cons c cs ih =>
    intro p
    show (keep w (p.set (w.key c) c) cs).get? k = _
    rw [ih, Dict.get?_set]
    by_cases hk : w.key c = k
    · have hcons : ofKey w k (c :: cs) = c :: ofKey w k cs := List.filter_cons_of_pos (by simpa)
      rw [if_pos hk, hcons, List.getLast?_cons]
      cases (ofKey w k cs).getLast? <;> rfl
    · have hcons : ofKey w k (c :: cs) = ofKey w k cs := List.filter_cons_of_neg (by simpa)
      rw [if_neg hk, hcons]

/-- What is kept is filed under its key. -/
theorem filed_keep {p : Dict κ γ} (h : ∀ k c, p.get? k = some c → w.key c = k) (cs : List γ)
    (k : κ) (c : γ) (hc : (keep w p cs).get? k = some c) : w.key c = k := by
  rw [get?_keep, Option.or_eq_some_iff] at hc
  rcases hc with hc | ⟨-, hc⟩
  · simpa using (List.mem_filter.mp (List.mem_of_getLast? hc)).2
  · exact h k c hc

/-- The values of a dictionary that files its commands under their keys. -/
theorem ofKey_values {p : Dict κ γ} (h : ∀ k c, p.get? k = some c → w.key c = k) (k : κ) :
    ofKey w k p.values = (p.get? k).toList := by
  unfold ofKey Dict.values
  rw [List.filter_map]
  have hsame : p.entries.filter ((fun c => decide (w.key c = k)) ∘ Prod.snd) =
      p.entries.filter fun e => e.1 = k := by
    refine List.filter_congr fun e he => ?_
    have hkey : w.key e.2 = e.1 := h e.1 e.2 ((p.mem_entries_iff e.1 e.2).mp he)
    simp only [Function.comp_apply, hkey]
  rw [hsame, p.filter_entries, List.map_map]
  exact List.map_id _

theorem nodup_values {p : Dict κ γ} (h : ∀ k c, p.get? k = some c → w.key c = k) :
    (p.values.map w.key).Nodup := by
  have hkeys : p.values.map w.key = p.entries.map Prod.fst := by
    unfold Dict.values
    rw [List.map_map]
    exact List.map_congr_left fun e he => h e.1 e.2 ((p.mem_entries_iff e.1 e.2).mp he)
  rw [hkeys]
  exact p.nodup_keys

omit [DecidableEq κ] in
/-- Commands that are queued as they arrive keep a flow a subsequence with the same end. -/
theorem sameEnd_append {as rs cs : List γ} (h : as.Sublist rs ∧ as.getLast? = rs.getLast?) :
    (as ++ cs).Sublist (rs ++ cs) ∧ (as ++ cs).getLast? = (rs ++ cs).getLast? := by
  refine ⟨h.1.append (List.Sublist.refl cs), ?_⟩
  rw [List.getLast?_append, List.getLast?_append, h.2]

/-! ### Every event -/

theorem inv_receive (h : Inv w s) {cs : List γ} (hcs : (cs.map w.key).Nodup) :
    Inv w (s.receive w cs) := by
  unfold receive
  simp only
  split
  · -- the commands are kept
    rename_i hbusy
    refine ⟨h.current, fun hno => ?_, filed_keep h.filed cs, h.distinct, fun k => ?_⟩
    · obtain ⟨n, -, hn⟩ := busy_iff.mp hbusy
      exact absurd hn (hno n)
    · have hold := h.flow k
      show (ofKey w k s.applied ++ ofKey w k s.queue ++
          ((keep w s.pending cs).get? k).toList).Sublist _ ∧
        (ofKey w k s.applied ++ ofKey w k s.queue ++
          ((keep w s.pending cs).get? k).toList).getLast? = _
      rw [get?_keep, ofKey_append]
      unfold State.flow at hold
      cases hlast : (ofKey w k cs).getLast? with
      | none =>
        rw [List.getLast?_eq_none_iff.mp hlast, List.append_nil]
        exact hold
      | some c =>
        have hmem : [c].Sublist (ofKey w k cs) :=
          List.singleton_sublist.mpr (List.mem_of_getLast? hlast)
        refine ⟨((List.sublist_append_left _ _).trans hold.1).append hmem, ?_⟩
        simp only [List.getLast?_append, hlast]
        rfl
  · -- no task runs, and a new one takes the commands
    rename_i hbusy
    have hno : ∀ n, ¬ s.Running n :=
      fun n hn => hbusy (busy_iff.mpr ⟨n, h.current n hn, hn⟩)
    refine ⟨fun n hn => ?_, fun hno' => ?_, h.filed, ?_, fun k => ?_⟩
    · rcases (running_create cs n).mp hn with rfl | hn
      · rfl
      · exact absurd hn (hno n)
    · exact absurd ((running_create cs _).mpr (Or.inl rfl)) (hno' s.tasks.length)
    · intro t ht
      rcases List.mem_append.mp ht with ht | ht
      · exact h.distinct t ht
      · rw [List.mem_singleton.mp ht]
        exact hcs
    · have hold := h.flow k
      unfold State.flow at hold
      rw [queue_of_not_running hno, h.idle hno] at hold
      rw [flow_create]
      show (ofKey w k s.applied ++ ofKey w k cs ++ (s.pending.get? k).toList).Sublist
          (ofKey w k (s.received ++ cs)) ∧
        (ofKey w k s.applied ++ ofKey w k cs ++ (s.pending.get? k).toList).getLast? =
          (ofKey w k (s.received ++ cs)).getLast?
      rw [h.idle hno, Dict.get?_empty, Option.toList_none, List.append_nil, ofKey_append]
      refine sameEnd_append ?_
      simpa [ofKey] using hold

/-- The end of a task: what was kept is queued. -/
theorem inv_finish (h : Inv w s) {n : ℕ} (ht : s.tasks[n]? = some (.working [])) (o : ω) :
    Inv w (s.finish w n o) := by
  have hcur : s.current = some n := h.current n ⟨_, ht, rfl⟩
  -- no other task runs, so none runs once this one has ended
  have hothers : ∀ m, m ≠ n → ¬ s.Running m := by
    intro m hm hrun
    exact hm (h.unique hrun ⟨_, ht, rfl⟩)
  set s₁ : State κ γ σ := { s with
    inner := w.finish s.inner o
    tasks := s.tasks.set n .ended
    current := none } with hs₁
  have htasks : s₁.tasks = s.tasks.set n .ended := rfl
  have hno : ∀ m, ¬ s₁.Running m := by
    intro m hm
    rcases (running_set ht htasks m).mp hm with ⟨-, hlive⟩ | ⟨hne, hm⟩
    · cases hlive
    · exact hothers m hne hm
  have hdist : ∀ t ∈ s₁.tasks, (t.rest.map w.key).Nodup := distinct_set h.distinct List.nodup_nil
  have hflow : ∀ k, s.flow w k = ofKey w k s.applied ++ (s.pending.get? k).toList := by
    intro k
    unfold State.flow
    rw [queue_of_current ht hcur]
    simp [BatchTask.rest, ofKey]
  unfold finish
  simp only
  split
  · rename_i hempty
    have hp : s.pending = Dict.empty := Dict.eq_empty_of_isEmpty hempty
    refine ⟨fun m hm => absurd hm (hno m), fun _ => hp, h.filed, hdist, fun k => ?_⟩
    have hsame : s₁.flow w k = s.flow w k := by
      rw [hflow]
      show ofKey w k s.applied ++ ofKey w k [] ++ _ = _
      simp [ofKey, hs₁]
    rw [hsame]
    exact h.flow k
  · -- the pending items move into a new task, where they are the queue
    refine ⟨fun m hm => ?_, fun hno' => ?_, ?_, ?_, fun k => ?_⟩
    · rcases (running_create _ m).mp hm with rfl | hm
      · rfl
      · exact absurd hm (hno m)
    · exact absurd ((running_create _ _).mpr (Or.inl rfl)) (hno' _)
    · intro k c hc
      cases hc
    · intro t ht'
      rcases List.mem_append.mp ht' with ht' | ht'
      · exact hdist t ht'
      · rw [List.mem_singleton.mp ht']
        exact nodup_values h.filed
    · rw [flow_create]
      show (ofKey w k s.applied ++ ofKey w k s.pending.values ++ []).Sublist _ ∧
        (ofKey w k s.applied ++ ofKey w k s.pending.values ++ []).getLast? = _
      rw [List.append_nil, ofKey_values h.filed, ← hflow]
      exact h.flow k

/-- A task that runs on keeps the flow if what it has applied and what it has still to
apply stay together. -/
theorem inv_set (h : Inv w s) {n : ℕ} {t t' : BatchTask γ} (ht : s.tasks[n]? = some t)
    (hlive : t.live = true) (hlive' : t'.live = true) (hdist : (t'.rest.map w.key).Nodup)
    (inner : σ) (applied : List γ)
    (hflow : ∀ k, ofKey w k applied ++ ofKey w k t'.rest =
      ofKey w k s.applied ++ ofKey w k t.rest) :
    Inv w { s with tasks := s.tasks.set n t', inner := inner, applied := applied } := by
  have hcur : s.current = some n := h.current n ⟨t, ht, hlive⟩
  set s₁ : State κ γ σ :=
    { s with tasks := s.tasks.set n t', inner := inner, applied := applied }
  have htasks : s₁.tasks = s.tasks.set n t' := rfl
  refine ⟨fun m hm => ?_, fun hno => ?_, h.filed, distinct_set h.distinct hdist, fun k => ?_⟩
  · rcases (running_set ht htasks m).mp hm with ⟨rfl, -⟩ | ⟨-, hm⟩
    · exact hcur
    · exact h.current m hm
  · exact absurd ((running_set ht htasks n).mpr (Or.inl ⟨rfl, hlive'⟩)) (hno n)
  · have hsame : s₁.flow w k = s.flow w k := by
      unfold State.flow
      rw [queue_set ht htasks hcur, queue_of_current ht hcur]
      show ofKey w k applied ++ ofKey w k t'.rest ++ _ = _
      rw [hflow]
    rw [hsame]
    exact h.flow k

theorem inv_advance (h : Inv w s) (n : ℕ) (o : ω) : Inv w (s.advance w n o) := by
  unfold advance
  split
  · exact h
  · exact h
  · rename_i cs ht
    have hdist : (cs.map w.key).Nodup := h.distinct (.created cs) (List.mem_of_getElem? ht)
    refine inv_set h ht rfl rfl ?_ s.inner s.applied fun k => ?_
    · exact ((w.order_perm s.inner cs).map w.key).nodup_iff.mpr hdist
    · show _ ++ ofKey w k (w.order s.inner cs) = _
      rw [ofKey_order s.inner hdist]
      rfl
  · rename_i c rest ht
    have hdist : ((c :: rest).map w.key).Nodup :=
      h.distinct (.working (c :: rest)) (List.mem_of_getElem? ht)
    have hrest : ((BatchTask.working rest).rest.map w.key).Nodup := (List.nodup_cons.mp hdist).2
    refine inv_set h ht rfl rfl hrest _ _ fun k => ?_
    show ofKey w k (s.applied ++ [c]) ++ ofKey w k rest = ofKey w k s.applied ++ ofKey w k (c :: rest)
    rw [← ofKey_append, ← ofKey_append, List.append_assoc, List.singleton_append]
  · rename_i ht
    exact inv_finish h ht o

/-- **Every event keeps the invariant.** -/
theorem inv_step (s : State κ γ σ) (e : Event γ σ ω) (h : Inv w s) (he : e.Distinct w) :
    Inv w (s.step w e) := by
  cases e with
  | receive cs => exact inv_receive h he
  | advance n o => exact inv_advance h n o
  | outside inner => exact ⟨h.current, h.idle, h.filed, h.distinct, h.flow⟩

end Coalesce
