import Inferna.WorkersSvc

/-!
# The worker's instance manager

`engines/manager.py` in real mode: the registry of tracked instances, the
containers on the Docker host, and the batches of commands that take one to the
other.  Commands are applied one at a time by the running batch; commands that
arrive meanwhile are coalesced per instance and form the next batch.

Docker is the environment: `StartOutcome` says what the calls of one start do.
Log tails are left out; nothing on the worker reads them back.

## Main definitions

* `Tracked`, `Container`, `Host` — an entry of `_instances`, a managed
  container, and the worker's whole state.
* `startSync`, `stopSync`, `deleteSync` — the three commands.
* `reconcile`, `applyNext`, `finishBatch` — batches and coalescing.
* `adoptExisting` — a worker process that starts on a host with containers.
* `statuses` — what the worker reports.
* `TouchesOnly` — two states that differ by one instance at most.

## Main results

* `touchesOnly_applyDockerCommand` — the frame of a command.
-/

namespace Inferna

/-! ### The state of a worker -/

/-- An entry of `_instances`. -/
structure Tracked where
  state : InstanceState
  port : ℕ
  generation : ℕ
  nodeRank : Option ℕ := none
  detail : String := ""
  deriving DecidableEq, Repr, Inhabited

/-- A managed container `inferna-instance-<id>`: whether it runs, its labels, and
the host port it publishes.  A container on the host network publishes none. -/
structure Container where
  running : Bool
  generation : ℕ
  port : ℕ
  published : Option ℕ
  deriving DecidableEq, Repr, Inhabited

/-- A worker process and its Docker host. -/
structure Host where
  /-- `_instances`. -/
  instances : Dict Uuid Tracked := Dict.empty
  /-- The managed containers, by instance id. -/
  containers : Dict Uuid Container := Dict.empty
  /-- `_pulled_images`, by engine. -/
  pulledImages : List Engine := []
  /-- The commands the running batch has still to apply; `none` when no batch runs. -/
  batch : Option (List Command) := none
  /-- `_pending`. -/
  pending : Dict Uuid Command := Dict.empty
  /-- `_pending_probes`. -/
  pendingProbes : List (Uuid × ℕ) := []
  /-- The instances with a running probe task. -/
  probeTasks : List Uuid := []

/-- What Docker does with the calls of one start. -/
structure StartOutcome where
  removeOk : Bool := true
  pullOk : Bool := true
  pullTimeout : Bool := false
  createOk : Bool := true
  startOk : Bool := true
  deriving DecidableEq, Repr, Inhabited

/-! ### Commands -/

/-- `MultiNodeSpec.from_config(config) is not None`. -/
def EngineConfig.isMultiNode (c : EngineConfig) : Bool :=
  c.parallelism.any (·.mode ≠ .single)

/-- The rank of a multi-node config. -/
def EngineConfig.rank (c : EngineConfig) : Option ℕ :=
  if c.isMultiNode then some ((c.rendezvous.map (·.nodeRank)).getD 0) else none

/-- The host port a container for this config publishes.  For host port `0`
Docker picks a free one. -/
def EngineConfig.published (c : EngineConfig) : Option ℕ :=
  if c.isMultiNode ∨ c.port = 0 then none else some c.port

/-- A start of this generation has nothing to do. -/
def alreadyApplied (tracked : Option Tracked) (generation : ℕ) : Bool :=
  tracked.any fun t => (t.state = .starting ∨ t.state = .running) ∧ generation ≤ t.generation

namespace Host

/-- Record a failed start. -/
def recordError (h : Host) (id : Uuid) (config : EngineConfig) (generation : ℕ)
    (detail : String) : Host :=
  { h with instances := h.instances.set id ⟨.error, config.port, generation, none, detail⟩ }

/-- Cancel the probe task of an instance. -/
def cancelProbe (h : Host) (id : Uuid) : Host :=
  { h with probeTasks := h.probeTasks.filter (· ≠ id) }

/-- Remove the previous container of a tracked instance. -/
def removeOld (h : Host) (id : Uuid) (removeOk : Bool) : Host :=
  if (h.instances.get? id).isSome ∧ removeOk then { h with containers := h.containers.erase id }
  else h

/-- Create the container of a start, running or not, and record what came of it. -/
def launch (h : Host) (id : Uuid) (config : EngineConfig) (generation : ℕ) (startOk : Bool) :
    Host :=
  let created := { h with
    containers := h.containers.set id ⟨startOk, generation, config.port, config.published⟩ }
  if startOk then
    { created with
      instances := h.instances.set id ⟨.starting, config.port, generation, config.rank, ""⟩
      pendingProbes := h.pendingProbes ++ [(id, config.port)] }
  else created.recordError id config generation "docker unavailable: start failed"

/-- Pull the image when it is not there yet. -/
def pull (h : Host) (engine : Engine) : Host :=
  if engine ∈ h.pulledImages then h else { h with pulledImages := h.pulledImages ++ [engine] }

/-- `_start_sync`. -/
def startSync (hfToken : Bool) (o : StartOutcome) (h : Host) (id : Uuid) (generation : ℕ)
    (config : EngineConfig) : Host :=
  if alreadyApplied (h.instances.get? id) generation then h
  else
    let h := h.removeOld id o.removeOk
    if config.requiresHfToken ∧ ¬ hfToken then
      h.recordError id config generation "model requires HF token"
    else
      let h := h.cancelProbe id
      if config.engine ∉ h.pulledImages ∧ o.pullTimeout then
        h.recordError id config generation "image pull timed out"
      else if config.engine ∉ h.pulledImages ∧ ¬ o.pullOk then
        h.recordError id config generation "docker unavailable: pull failed"
      else
        let h := h.pull config.engine
        if o.createOk then h.launch id config generation o.startOk
        else h.recordError id config generation "docker unavailable: create failed"

/-- `_stop_sync`.  The instance counts as stopped whatever Docker answers. -/
def stopSync (stopOk : Bool) (h : Host) (id : Uuid) : Host :=
  let h := h.cancelProbe id
  { h with
    containers :=
      if stopOk then h.containers.modify id fun c => { c with running := false }
      else h.containers
    instances := h.instances.modify id fun t => { t with state := .stopped, detail := "" } }

/-- `_delete_sync`. -/
def deleteSync (removeOk : Bool) (h : Host) (id : Uuid) : Host :=
  let h := h.cancelProbe id
  { h with
    containers := if removeOk then h.containers.erase id else h.containers
    instances := h.instances.erase id }

/-- `_apply_docker_command`.  A start without a config cannot be built by the
server; the worker records it as an error. -/
def applyDockerCommand (hfToken : Bool) (o : StartOutcome) (stopOk : Bool) (h : Host)
    (c : Command) : Host :=
  match c.action, c.config with
  | .start, some config => h.startSync hfToken o c.instanceId c.generation config
  | .start, none =>
    { h with instances := h.instances.set c.instanceId ⟨.error, 0, c.generation, none, ""⟩ }
  | .stop, _ => h.stopSync stopOk c.instanceId
  | .delete, _ => h.deleteSync o.removeOk c.instanceId

/-! ### Batches -/

/-- The rank the manager recorded for an instance. -/
def rankOf (h : Host) (id : Uuid) : ℕ := ((h.instances.get? id).bind (·.nodeRank)).getD 0

/-- `_order`: starts first, then stops and deletes with followers before the head. -/
def commandOrder (h : Host) (a b : Command) : Prop :=
  (a.action = .start ∧ b.action ≠ .start) ∨
    ((a.action = .start ↔ b.action = .start) ∧ h.rankOf b.instanceId ≤ h.rankOf a.instanceId)

instance (h : Host) : DecidableRel h.commandOrder := fun _ _ => inferInstanceAs (Decidable (_ ∨ _))

/-- A new batch, its commands in the order `_apply_batch` applies them. -/
def startBatch (h : Host) (commands : List Command) : Host :=
  { h with batch := some (commands.insertionSort h.commandOrder) }

/-- `reconcile`: coalesce into the pending commands while a batch runs, else
start one. -/
def reconcile (h : Host) (commands : List Command) : Host :=
  match h.batch with
  | some _ =>
    { h with pending := commands.foldl (fun p c => p.set c.instanceId c) h.pending }
  | none => h.startBatch commands

/-- `_remove_stale_containers_sync`: containers the registry does not know. -/
def removeStale (h : Host) : Host :=
  { h with
    containers := ⟨h.containers.entries.filter fun e => (h.instances.get? e.1).isSome,
      (List.Sublist.map Prod.fst List.filter_sublist).nodup h.containers.nodup_keys⟩ }

/-- `_schedule_pending_probes`: one task per started rank that has something to
probe. -/
def scheduleProbes (h : Host) : Host :=
  { h with
    probeTasks := h.probeTasks ++ (h.pendingProbes.filter fun p =>
      0 < h.rankOf p.1 ∨ 0 < p.2).map (·.1)
    pendingProbes := [] }

/-- The end of a batch: sweep, schedule the probes, go on with what is pending. -/
def finishBatch (h : Host) : Host :=
  let h := h.removeStale.scheduleProbes
  if h.pending.isEmpty then { h with batch := none }
  else { h with pending := Dict.empty }.startBatch h.pending.values

/-! ### Probes, exits, restarts, reports -/

/-- A probe task ends: the rank answered, or it exited or timed out. -/
def probeResult (h : Host) (id : Uuid) (ready : Bool) : Host :=
  if id ∈ h.probeTasks then
    { h.cancelProbe id with
      instances := h.instances.modify id fun t =>
        if ready then { t with state := .running, detail := "" }
        else { t with state := .error, detail := "health probe timed out" } }
  else h

/-- A container exits on its own. -/
def containerExit (h : Host) (id : Uuid) : Host :=
  { h with containers := h.containers.modify id fun c => { c with running := false } }

/-- What a new worker process tracks for a container it finds. -/
def adopted (c : Container) : Tracked where
  state := if c.running then .running else .stopped
  port := c.port
  generation := c.generation

/-- `adopt_existing` in a new worker process: the registry is rebuilt from the
containers' labels; batches and probes of the old process are gone. -/
def adoptExisting (h : Host) : Host where
  instances := ⟨h.containers.entries.map fun e => (e.1, adopted e.2), by
    simpa [List.map_map, Function.comp_def] using h.containers.nodup_keys⟩
  containers := h.containers

/-- `statuses`. -/
def statuses (h : Host) : List InstanceStatus :=
  h.instances.entries.map fun e =>
    { instanceId := e.1, state := .of e.2.state, detail := e.2.detail, port := e.2.port,
      generation := e.2.generation }

/-- Another running container publishes the port. -/
def portHeld (h : Host) (id : Uuid) (port : ℕ) : Bool :=
  h.containers.entries.any fun e => e.1 ≠ id ∧ e.2.running ∧ e.2.published = some port

/-! ### The frame of a command -/

/-- Only what concerns the instance `id` may differ. -/
structure TouchesOnly (h h' : Host) (id : Uuid) : Prop where
  batch : h'.batch = h.batch
  pending : h'.pending = h.pending
  instances : ∀ j, id ≠ j → h'.instances.get? j = h.instances.get? j
  containers : ∀ j, id ≠ j → h'.containers.get? j = h.containers.get? j

theorem TouchesOnly.refl (h : Host) (id : Uuid) : TouchesOnly h h id :=
  ⟨rfl, rfl, fun _ _ => rfl, fun _ _ => rfl⟩

theorem TouchesOnly.trans {h h' h'' : Host} {id : Uuid} (h₁ : TouchesOnly h h' id)
    (h₂ : TouchesOnly h' h'' id) : TouchesOnly h h'' id where
  batch := h₂.batch.trans h₁.batch
  pending := h₂.pending.trans h₁.pending
  instances j hj := (h₂.instances j hj).trans (h₁.instances j hj)
  containers j hj := (h₂.containers j hj).trans (h₁.containers j hj)

theorem touchesOnly_recordError (h : Host) (id : Uuid) (config : EngineConfig) (generation : ℕ)
    (detail : String) : TouchesOnly h (h.recordError id config generation detail) id :=
  ⟨rfl, rfl, fun _ hj => Dict.get?_set_of_ne _ _ hj, fun _ _ => rfl⟩

theorem touchesOnly_removeOld (h : Host) (id : Uuid) (ok : Bool) :
    TouchesOnly h (h.removeOld id ok) id := by
  unfold removeOld
  split
  · exact ⟨rfl, rfl, fun _ _ => rfl, fun _ hj => Dict.get?_erase_of_ne _ hj⟩
  · exact .refl h id

theorem touchesOnly_pull (h : Host) (id : Uuid) (engine : Engine) :
    TouchesOnly h (h.pull engine) id := by
  unfold pull
  split
  · exact .refl h id
  · exact ⟨rfl, rfl, fun _ _ => rfl, fun _ _ => rfl⟩

theorem touchesOnly_launch (h : Host) (id : Uuid) (config : EngineConfig) (generation : ℕ)
    (ok : Bool) : TouchesOnly h (h.launch id config generation ok) id := by
  unfold launch
  simp only
  split
  · exact ⟨rfl, rfl, fun _ hj => Dict.get?_set_of_ne _ _ hj,
      fun _ hj => Dict.get?_set_of_ne _ _ hj⟩
  · exact ⟨rfl, rfl, fun _ hj => Dict.get?_set_of_ne _ _ hj,
      fun _ hj => Dict.get?_set_of_ne _ _ hj⟩

theorem touchesOnly_startSync (hfToken : Bool) (o : StartOutcome) (h : Host) (id : Uuid)
    (generation : ℕ) (config : EngineConfig) :
    TouchesOnly h (h.startSync hfToken o id generation config) id := by
  have hold := touchesOnly_removeOld h id o.removeOk
  have hprobe : TouchesOnly h ((h.removeOld id o.removeOk).cancelProbe id) id :=
    hold.trans ⟨rfl, rfl, fun _ _ => rfl, fun _ _ => rfl⟩
  unfold startSync
  simp only
  split
  · exact .refl h id
  split
  · exact hold.trans (touchesOnly_recordError _ id config generation _)
  split
  · exact hprobe.trans (touchesOnly_recordError _ id config generation _)
  split
  · exact hprobe.trans (touchesOnly_recordError _ id config generation _)
  have hpull := hprobe.trans (touchesOnly_pull _ id config.engine)
  split
  · exact hpull.trans (touchesOnly_launch _ id config generation _)
  · exact hpull.trans (touchesOnly_recordError _ id config generation _)

/-- **A command touches the instance it names.** -/
theorem touchesOnly_applyDockerCommand (hfToken : Bool) (o : StartOutcome) (ok : Bool) (h : Host)
    (c : Command) : TouchesOnly h (h.applyDockerCommand hfToken o ok c) c.instanceId := by
  unfold applyDockerCommand
  split
  · exact touchesOnly_startSync hfToken o h _ _ _
  · exact ⟨rfl, rfl, fun _ hj => Dict.get?_set_of_ne _ _ hj, fun _ _ => rfl⟩
  · refine ⟨rfl, rfl, fun _ hj => Dict.get?_modify_of_ne _ _ hj, fun _ hj => ?_⟩
    unfold stopSync
    simp only
    split
    · exact Dict.get?_modify_of_ne _ _ hj
    · rfl
  · refine ⟨rfl, rfl, fun _ hj => Dict.get?_erase_of_ne _ hj, fun _ hj => ?_⟩
    unfold deleteSync
    simp only
    split
    · exact Dict.get?_erase_of_ne _ hj
    · rfl

end Host

end Inferna
