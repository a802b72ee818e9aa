import Inferna.Docker
import Inferna.Lib.Coalesce

/-!
# Coalesced commands

`reconcile` and `_apply_batch` with their asyncio tasks: a batch is a task that sorts its
commands when it starts, applies them one by one, and in its `finally` block starts the
next one.  The tasks are those of `Inferna.Lib.Coalesce`; `toHost` forgets them again, and
what is left moves as the host does.

## Main definitions

* `batches` — the worker's commands, their order and what they do.
* `Batches.toHost` — the host with its running batch and pending commands.

## Main results

* `toHost_receive`, `toHost_advance` — **the tasks refine the host's batches.**
* `commands_coalesced` — **one batch runs at a time, commands are applied in the order
  in which they arrived, and the last one is.**
-/

namespace Inferna

open Run Coalesce

open Coalesce.State (busy create receive finish advance)

/-- What the worker does with its commands, for any outcome of their Docker calls. -/
def batches (hfToken : Bool) : Spec Uuid Command Host (CallOutcome × SweepOutcome) where
  key c := c.instanceId
  order h cs := cs.insertionSort h.commandOrder
  order_perm h cs := List.perm_insertionSort h.commandOrder cs
  apply h o c := h.applyCommand hfToken o.1 c
  finish h o := (h.sweep o.2).scheduleProbes

/-- The worker with its batch tasks. -/
abbrev Batches := State Uuid Command Host

/-- Reconciliations, moves of the batch tasks, and whatever else happens to the worker. -/
abbrev BatchEvent := Event Command Host (CallOutcome × SweepOutcome)

namespace Batches

/-- The commands a task has still to apply, in their order. -/
def ordered (h : Host) : BatchTask Command → Option (List Command)
  | .created commands => some (commands.insertionSort h.commandOrder)
  | .working rest => some rest
  | .ended => none

/-- The host with its running batch and the pending commands. -/
def toHost (s : Batches) : Host :=
  { s.inner with
    batch := (s.current.bind fun n => s.tasks[n]?).bind (ordered s.inner)
    pending := s.pending }

/-! ### The tasks refine the host's batches -/

section Refinement

variable {hfToken : Bool} {s : Batches}

/-- The host's batch is that of its current task. -/
theorem toHost_of_current {n : ℕ} {t : BatchTask Command} (ht : s.tasks[n]? = some t)
    (hc : s.current = some n) :
    s.toHost = { s.inner with batch := ordered s.inner t, pending := s.pending } := by
  simp [toHost, hc, ht]

/-- The host's batch after the current task has moved. -/
theorem toHost_set {n : ℕ} {t : BatchTask Command} (ht : s.tasks[n]? = some t)
    (hc : s.current = some n) (t' : BatchTask Command) (inner : Host) (applied : List Command) :
    toHost { s with tasks := s.tasks.set n t', inner := inner, applied := applied } =
      { inner with batch := ordered inner t', pending := s.pending } := by
  have hn : n < s.tasks.length := (List.getElem?_eq_some_iff.mp ht).1
  simp [toHost, hc, hn]

/-- A host runs a batch exactly when its current task runs. -/
theorem isSome_batch : s.toHost.batch.isSome = s.busy := by
  show ((s.current.bind fun n => s.tasks[n]?).bind (ordered s.inner)).isSome = _
  unfold busy
  cases hc : s.current with
  | none => rfl
  | some n =>
    cases ht : s.tasks[n]? with
    | none => simp [ht]
    | some t => cases t <;> simp [ht, ordered, BatchTask.live]

/-- **Commands that arrive** are coalesced, or start a batch. -/
theorem toHost_receive (cs : List Command) :
    toHost (s.receive (batches hfToken) cs) = s.toHost.reconcile cs := by
  have hbusy := @isSome_batch s
  unfold receive Host.reconcile
  simp only
  split
  · rename_i h
    have h : s.busy = true := h
    split
    · rfl
    · rename_i hnone
      rw [hnone, h] at hbusy
      cases hbusy
  · rename_i h
    have h : ¬ s.busy = true := h
    split
    · rename_i hsome
      rw [hsome] at hbusy
      exact absurd hbusy.symm h
    · have ht : (s.tasks ++ [.created cs])[s.tasks.length]? = some (.created cs) := by simp
      rw [toHost_of_current (t := .created cs) ht rfl]
      rfl

/-- The host with another batch and other pending commands. -/
def withQueue (b : Option (List Command)) (p : Dict Uuid Command) (h : Host) : Host :=
  { h with batch := b, pending := p }

section Queue

variable (b : Option (List Command)) (p : Dict Uuid Command) (h : Host)

theorem removeOld_withQueue (id : Uuid) (ok : Bool) :
    (withQueue b p h).removeOld id ok = withQueue b p (h.removeOld id ok) := by
  rw [Host.removeOld, Host.removeOld, apply_ite (withQueue b p)]
  rfl

theorem pull_withQueue (engine : Engine) :
    (withQueue b p h).pull engine = withQueue b p (h.pull engine) := by
  rw [Host.pull, Host.pull, apply_ite (withQueue b p)]
  rfl

theorem launch_withQueue (id : Uuid) (config : EngineConfig) (g : ℕ) (ok : Bool) :
    (withQueue b p h).launch id config g ok = withQueue b p (h.launch id config g ok) := by
  rw [Host.launch, Host.launch, apply_ite (withQueue b p)]
  rfl

theorem startSync_withQueue (o : StartOutcome) (id : Uuid) (g : ℕ) (config : EngineConfig) :
    (withQueue b p h).startSync hfToken o id g config =
      withQueue b p (h.startSync hfToken o id g config) := by
  rw [Host.startSync, Host.startSync]
  simp only [removeOld_withQueue, apply_ite (withQueue b p)]
  have hcancel : ∀ h' : Host, (withQueue b p h').cancelProbe id =
      withQueue b p (h'.cancelProbe id) := fun _ => rfl
  simp only [hcancel, pull_withQueue, launch_withQueue]
  rfl

end Queue

/-- Commands do not look at the batches. -/
theorem applyCommand_queue (h : Host) (o : CallOutcome) (c : Command) (b : Option (List Command))
    (p : Dict Uuid Command) :
    ({ h with batch := b, pending := p } : Host).applyCommand hfToken o c =
      { h.applyCommand hfToken o c with batch := b, pending := p } := by
  change (withQueue b p h).applyCommand hfToken o c = withQueue b p (h.applyCommand hfToken o c)
  have hfree : (withQueue b p h).nameFree c.instanceId o.removeOk =
      h.nameFree c.instanceId o.removeOk := by
    rw [Host.nameFree, Host.nameFree, removeOld_withQueue]
    rfl
  simp only [Host.applyCommand, Host.outcomeOn, hfree]
  generalize { o.toStartOutcome with
    createOk := o.createOk && h.nameFree c.instanceId o.removeOk } = o'
  unfold Host.applyDockerCommand
  split
  · exact startSync_withQueue b p h o' _ _ _
  · rfl
  · rfl
  · rfl

theorem scheduleProbes_queue (h : Host) (o : SweepOutcome) (b : Option (List Command))
    (p : Dict Uuid Command) :
    (({ h with batch := b, pending := p } : Host).sweep o).scheduleProbes =
      { (h.sweep o).scheduleProbes with batch := b, pending := p } := by
  unfold Host.sweep
  split <;> rfl

/-- **A move of a running task** starts it, applies its next command, or ends the
batch. -/
theorem toHost_advance (hinv : Inv (batches hfToken) s) (n : ℕ) (o : CallOutcome × SweepOutcome) :
    toHost (s.advance (batches hfToken) n o) = s.toHost ∨
      toHost (s.advance (batches hfToken) n o) = s.toHost.move hfToken (.apply o.1) ∨
      toHost (s.advance (batches hfToken) n o) = s.toHost.move hfToken (.finish o.2) := by
  unfold advance
  split
  · exact Or.inl rfl
  · exact Or.inl rfl
  · -- the task sorts its commands as the host has done at once
    rename_i cs ht
    have hcur := hinv.current n ⟨_, ht, rfl⟩
    refine Or.inl ?_
    rw [toHost_of_current ht hcur]
    exact toHost_set ht hcur (.working (cs.insertionSort s.inner.commandOrder)) s.inner s.applied
  · rename_i c rest ht
    have hcur := hinv.current n ⟨_, ht, rfl⟩
    refine Or.inr (Or.inl ?_)
    rw [toHost_of_current ht hcur]
    refine (toHost_set ht hcur (.working rest) _ _).trans ?_
    simp only [Host.move, ordered, applyCommand_queue]
    rfl
  · rename_i ht
    have hcur := hinv.current n ⟨_, ht, rfl⟩
    refine Or.inr (Or.inr ?_)
    rw [toHost_of_current ht hcur]
    simp only [Host.move, ordered, Host.endBatch, scheduleProbes_queue]
    unfold finish
    simp only
    split
    · rfl
    · have ht' : (s.tasks.set n .ended ++ [.created s.pending.values])[
          (s.tasks.set n .ended).length]? = some (.created s.pending.values) := by simp
      rw [toHost_of_current (t := .created s.pending.values) ht' rfl]
      rfl

end Refinement

end Batches

/-! ### Nothing that matters is lost -/

/-- The commands for an instance. -/
def ofInstance (id : Uuid) (cs : List Command) : List Command := cs.filter (·.instanceId = id)

/-- **Coalescing loses nothing that matters.**  However reconciliations, moves of the batch
tasks and other changes of the worker interleave, one batch runs at a time; the commands
applied to an instance are a subsequence of those received for it; and when no batch
runs and nothing is pending, the last command received for it is the last one applied. -/
theorem commands_coalesced (hfToken : Bool) (h : Host) (events : List BatchEvent)
    (hok : Conforms (State.step (batches hfToken)) (fun _ e => e.Distinct (batches hfToken))
      { inner := h } events) :
    let s := exec (State.step (batches hfToken)) { inner := h } events
    (∀ m n, s.Running m → s.Running n → m = n) ∧
      ∀ id, (ofInstance id s.applied).Sublist (ofInstance id s.received) ∧
        ((∀ n, ¬ s.Running n) → s.pending = Dict.empty →
          (ofInstance id s.applied).getLast? = (ofInstance id s.received).getLast?) := by
  intro s
  have hinv : Inv (batches hfToken) s :=
    invariant_of_conforms (Inv (batches hfToken)) inv_step events _ (inv_init _ h) hok
  refine ⟨fun m n hm hn => hinv.unique hm hn, fun id => ⟨hinv.sublist id, ?_⟩⟩
  exact fun hno _ => hinv.last hno id

/-- While the first start is applied, a second and a third one arrive; the second is
never applied. -/
def coalesceRun : List BatchEvent :=
  [.receive [sampleStart 1], .advance 0 ({}, {}), .receive [sampleStart 2, ⟨4, .stop, 0, none⟩],
   .receive [sampleStart 3], .advance 0 ({}, {}), .advance 0 ({}, {}), .advance 1 ({}, {}),
   .advance 1 ({}, {}), .advance 1 ({}, {}), .advance 1 ({}, {})]

theorem commands_coalesced_sample :
    let s := exec (State.step (batches false)) { inner := {} } coalesceRun
    ofInstance 3 s.received = [sampleStart 1, sampleStart 2, sampleStart 3] ∧
      ofInstance 3 s.applied = [sampleStart 1, sampleStart 3] ∧
      ((∀ m n, s.Running m → s.Running n → m = n) ∧
        ∀ id, (ofInstance id s.applied).Sublist (ofInstance id s.received) ∧
          ((∀ n, ¬ s.Running n) → s.pending = Dict.empty →
            (ofInstance id s.applied).getLast? = (ofInstance id s.received).getLast?)) := by
  exact ⟨by decide +kernel, by decide +kernel,
    commands_coalesced false {} coalesceRun (by decide +kernel)⟩

end Inferna
