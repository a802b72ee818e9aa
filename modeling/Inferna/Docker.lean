import Inferna.Batches

/-!
# Every Docker call may fail

The moves of one worker with an outcome for each Docker call: the calls of a command,
the listing and the removals of the sweep, the listing of an adoption.  Probe tasks move
between any two of them, containers exit, and the worker process is killed and started
again.

A command is one move.  Its calls concern one instance, whose own probe it cancels
before the first call that matters, so that nothing another task does in between can
be told from the same done before or after the command.

## Main definitions

* `CallOutcome`, `SweepOutcome` — what Docker does.
* `Host.applyCommand` — a command; `create` refuses a name that is in use.
* `Host.sweep` — the sweep, which ends at the first removal that fails.
* `HostEvent`, `Host.move` — the moves of a worker and its host.

## Main results

* `get?_sweep_subset`, `sweep_ok` — what a sweep leaves, and that it is `removeStale`
  when nothing fails.
* `applyNext_eq_move` — **the moves of the system are moves of this kind.**
-/

namespace Inferna

/-- What Docker does with the calls of one command. -/
structure CallOutcome extends StartOutcome where
  stopOk : Bool := true
  deriving DecidableEq, Repr, Inhabited

/-- What Docker does with the calls of one sweep. -/
structure SweepOutcome where
  listOk : Bool := true
  removeOk : Uuid → Bool := fun _ => true

namespace Host

/-- No container has the instance's name once a start has removed the old one. -/
def nameFree (h : Host) (id : Uuid) (removeOk : Bool) : Bool :=
  ((h.removeOld id removeOk).containers.get? id).isNone

/-- What Docker does with a command on this host: it creates no container under a name
that is in use. -/
def outcomeOn (h : Host) (o : CallOutcome) (c : Command) : StartOutcome :=
  { o.toStartOutcome with createOk := o.createOk && h.nameFree c.instanceId o.removeOk }

/-- `_apply_docker_command`. -/
def applyCommand (hfToken : Bool) (o : CallOutcome) (h : Host) (c : Command) : Host :=
  h.applyDockerCommand hfToken (h.outcomeOn o c) o.stopOk c

/-! ### The sweep -/

/-- The loop of `_remove_stale_containers_sync` over the containers it has listed.  A
removal that fails ends it. -/
def sweepLoop (tracked : Dict Uuid Tracked) (removeOk : Uuid → Bool) :
    List (Uuid × Container) → Dict Uuid Container → Dict Uuid Container
  | [], containers => containers
  | e :: es, containers =>
    if (tracked.get? e.1).isSome then sweepLoop tracked removeOk es containers
    else if removeOk e.1 then sweepLoop tracked removeOk es (containers.erase e.1)
    else containers

/-- `_remove_stale_containers_sync`. -/
def sweep (o : SweepOutcome) (h : Host) : Host :=
  if o.listOk then
    { h with containers := sweepLoop h.instances o.removeOk h.containers.entries h.containers }
  else h

/-- The end of `_apply_batch`. -/
def endBatch (o : SweepOutcome) (h : Host) : Host :=
  let h := (h.sweep o).scheduleProbes
  if h.pending.isEmpty then { h with batch := none }
  else { h with pending := Dict.empty }.startBatch h.pending.values

/-! ### Probes and processes -/

/-- A probe task reads the status of its container.  One that has exited is an error,
and ends the task. -/
def inspect (h : Host) (id : Uuid) : Host :=
  if id ∈ h.probeTasks ∧ (h.containers.get? id).any (fun c => !c.running) then
    { h.cancelProbe id with
      instances := h.instances.modify id fun t =>
        { t with state := .error, detail := "container exited" } }
  else h

/-- The worker process is gone; its containers are not. -/
def crash (h : Host) : Host := { containers := h.containers }

/-- A new worker process starts. -/
def restart (listOk : Bool) (h : Host) : Host := if listOk then h.adoptExisting else h.crash

end Host

/-- A move of a worker or of its host. -/
inductive HostEvent
  | reconcile (commands : List Command)
  /-- The batch applies its next command. -/
  | apply (o : CallOutcome)
  /-- The batch ends. -/
  | finish (o : SweepOutcome)
  | inspect (id : Uuid)
  /-- The probe gets its HTTP 200, or has seen the follower's container stay up. -/
  | ready (id : Uuid)
  /-- The probe's time is up. -/
  | deadline (id : Uuid)
  | exit (id : Uuid)
  | crash
  | restart (listOk : Bool)

/-- One move. -/
def Host.move (hfToken : Bool) (h : Host) : HostEvent → Host
  | .reconcile commands => h.reconcile commands
  | .apply o =>
    match h.batch with
    | some (c :: rest) => { h.applyCommand hfToken o c with batch := some rest }
    | _ => h
  | .finish o =>
    match h.batch with
    | some [] => h.endBatch o
    | _ => h
  | .inspect id => h.inspect id
  | .ready id => h.probeResult id true
  | .deadline id => h.probeResult id false
  | .exit id => h.containerExit id
  | .crash => h.crash
  | .restart listOk => h.restart listOk

namespace Host

/-- `statuses` reports the instance in this state. -/
def reports (h : Host) (id : Uuid) (state : InstanceState) : Prop :=
  ∃ st ∈ h.statuses, st.instanceId = id ∧ st.state = .of state

instance (h : Host) (id : Uuid) (state : InstanceState) : Decidable (h.reports id state) :=
  inferInstanceAs (Decidable (∃ st ∈ h.statuses, _))

theorem reports_iff {h : Host} {id : Uuid} {state : InstanceState} :
    h.reports id state ↔ ∃ t, h.instances.get? id = some t ∧ t.state = state := by
  constructor
  · rintro ⟨st, hst, rfl, hstate⟩
    obtain ⟨e, he, rfl⟩ := List.mem_map.mp hst
    exact ⟨e.2, (Dict.mem_entries_iff _ _ _).mp he, by simpa using hstate⟩
  · rintro ⟨t, ht, rfl⟩
    refine ⟨_, List.mem_map_of_mem ((Dict.mem_entries_iff _ _ _).mpr ht), rfl, rfl⟩

/-- A stop leaves at most a stopped entry. -/
theorem eq_stopped_of_reports_stopSync {h : Host} {ok : Bool} {id : Uuid} {state : InstanceState}
    (hrep : (h.stopSync ok id).reports id state) : state = .stopped := by
  obtain ⟨t, ht, rfl⟩ := reports_iff.mp hrep
  change (h.instances.modify id _).get? id = some t at ht
  rw [Dict.get?_modify, if_pos rfl] at ht
  obtain ⟨t', -, rfl⟩ := Option.map_eq_some_iff.mp ht
  rfl

/-- A delete leaves no entry. -/
theorem not_reports_deleteSync {h : Host} {ok : Bool} {id : Uuid} {state : InstanceState} :
    ¬ (h.deleteSync ok id).reports id state := by
  intro hrep
  obtain ⟨t, ht, -⟩ := reports_iff.mp hrep
  change (h.instances.erase id).get? id = some t at ht
  rw [Dict.get?_erase_self] at ht
  cases ht

/-! ### Batches -/

/-- The batch applies a command, or there is none to apply. -/
theorem move_apply_cases (hfToken : Bool) (h : Host) (o : CallOutcome) :
    h.move hfToken (.apply o) = h ∨ ∃ c rest, h.batch = some (c :: rest) ∧
      h.move hfToken (.apply o) = { h.applyCommand hfToken o c with batch := some rest } := by
  unfold move
  simp only
  split
  · rename_i c rest hb
    exact Or.inr ⟨c, rest, hb, rfl⟩
  · exact Or.inl rfl

/-- The batch ends, or there is none that could. -/
theorem move_finish_cases (hfToken : Bool) (h : Host) (o : SweepOutcome) :
    h.move hfToken (.finish o) = h ∨
      h.batch = some [] ∧ h.move hfToken (.finish o) = h.endBatch o := by
  unfold move
  simp only
  split
  · rename_i hb
    exact Or.inr ⟨hb, rfl⟩
  · exact Or.inl rfl

/-- Commands start a batch, or wait for the one that runs. -/
theorem reconcile_cases (h : Host) (cs : List Command) :
    (h.batch = none ∧ h.reconcile cs = h.startBatch cs) ∨
      (h.batch ≠ none ∧ h.reconcile cs =
        { h with pending := cs.foldl (fun p c => p.set c.instanceId c) h.pending }) := by
  unfold reconcile
  split
  · rename_i hb
    exact Or.inr ⟨by rw [hb]; exact Option.some_ne_none _, rfl⟩
  · rename_i hb
    exact Or.inl ⟨hb, rfl⟩

@[simp] theorem reconcile_instances (h : Host) (cs : List Command) :
    (h.reconcile cs).instances = h.instances := by
  unfold reconcile
  split <;> rfl

@[simp] theorem reconcile_containers (h : Host) (cs : List Command) :
    (h.reconcile cs).containers = h.containers := by
  unfold reconcile
  split <;> rfl

@[simp] theorem reconcile_probeTasks (h : Host) (cs : List Command) :
    (h.reconcile cs).probeTasks = h.probeTasks := by
  unfold reconcile
  split <;> rfl

@[simp] theorem reconcile_pendingProbes (h : Host) (cs : List Command) :
    (h.reconcile cs).pendingProbes = h.pendingProbes := by
  unfold reconcile
  split <;> rfl

/-! ### What a sweep leaves -/

theorem sweepLoop_spec (tracked : Dict Uuid Tracked) (removeOk : Uuid → Bool) (id : Uuid) :
    ∀ (es : List (Uuid × Container)) (cs : Dict Uuid Container),
      (sweepLoop tracked removeOk es cs).get? id = cs.get? id ∨
        ((tracked.get? id).isNone ∧ (sweepLoop tracked removeOk es cs).get? id = none) := by
  intro es
  induction es with
  | nil => exact fun cs => Or.inl rfl
  | cons e es ih =>
    intro cs
    unfold sweepLoop
    split
    · exact ih cs
    rename_i htracked
    split
    · rcases ih (cs.erase e.1) with heq | hnone
      · by_cases hid : e.1 = id
        · subst hid
          rw [Dict.get?_erase_self] at heq
          exact Or.inr ⟨by simpa using htracked, heq⟩
        · rw [Dict.get?_erase_of_ne _ hid] at heq
          exact Or.inl heq
      · exact Or.inr hnone
    · exact Or.inl rfl

/-- A sweep leaves a tracked instance's container alone. -/
theorem get?_sweep_of_tracked {h : Host} {id : Uuid} {t : Tracked}
    (ht : h.instances.get? id = some t) (o : SweepOutcome) :
    (h.sweep o).containers.get? id = h.containers.get? id := by
  unfold sweep
  split
  · rcases sweepLoop_spec h.instances o.removeOk id h.containers.entries h.containers with
      heq | ⟨hnone, -⟩
    · exact heq
    · rw [ht] at hnone
      cases hnone
  · rfl

/-- A sweep creates nothing. -/
theorem get?_sweep_subset {h : Host} {id : Uuid} {c : Container} {o : SweepOutcome}
    (hc : (h.sweep o).containers.get? id = some c) : h.containers.get? id = some c := by
  unfold sweep at hc
  split at hc
  · rcases sweepLoop_spec h.instances o.removeOk id h.containers.entries h.containers with
      heq | ⟨-, hnone⟩
    · rw [← heq]
      exact hc
    · rw [hnone] at hc
      cases hc
  · exact hc

@[simp] theorem sweep_instances (o : SweepOutcome) (h : Host) :
    (h.sweep o).instances = h.instances := by
  unfold sweep
  split <;> rfl

theorem endBatch_instances (o : SweepOutcome) (h : Host) :
    (h.endBatch o).instances = h.instances := by
  unfold endBatch
  simp only
  split <;> exact sweep_instances o h

theorem endBatch_containers (o : SweepOutcome) (h : Host) :
    (h.endBatch o).containers = (h.sweep o).containers := by
  unfold endBatch
  simp only
  split <;> rfl

@[simp] theorem sweep_pending (o : SweepOutcome) (h : Host) : (h.sweep o).pending = h.pending := by
  unfold sweep
  split <;> rfl

/-- The entries that are left when no removal fails. -/
theorem entries_sweepLoop (tracked : Dict Uuid Tracked) :
    ∀ (es : List (Uuid × Container)) (cs : Dict Uuid Container),
      (sweepLoop tracked (fun _ => true) es cs).entries =
        cs.entries.filter fun e => (tracked.get? e.1).isSome ∨ e.1 ∉ es.map Prod.fst := by
  intro es
  induction es with
  | nil => exact fun cs => by simp [sweepLoop]
  | cons e es ih =>
    intro cs
    unfold sweepLoop
    split
    · rename_i htracked
      rw [ih]
      refine List.filter_congr fun e' _ => decide_eq_decide.mpr ?_
      rw [List.map_cons, List.mem_cons]
      by_cases hid : e'.1 = e.1
      · simp [hid, htracked]
      · simp [hid]
    · rename_i htracked
      rw [if_pos rfl, ih]
      show (cs.entries.filter _).filter _ = _
      rw [List.filter_filter]
      refine List.filter_congr fun e' _ => ?_
      rw [← Bool.decide_and, decide_eq_decide, List.map_cons, List.mem_cons]
      by_cases hid : e'.1 = e.1
      · simp [hid, htracked]
      · simp [hid]

/-- **A sweep in which nothing fails** leaves the containers of tracked instances. -/
theorem sweep_ok (h : Host) : h.sweep {} = h.removeStale := by
  have hentries := entries_sweepLoop h.instances h.containers.entries h.containers
  have hall : (h.containers.entries.filter fun e =>
      (h.instances.get? e.1).isSome ∨ e.1 ∉ h.containers.entries.map Prod.fst) =
      h.containers.entries.filter fun e => (h.instances.get? e.1).isSome := by
    refine List.filter_congr fun e he => ?_
    have hmem : e.1 ∈ h.containers.entries.map Prod.fst := List.mem_map_of_mem he
    simp [hmem]
  unfold sweep removeStale
  rw [if_pos rfl]
  congr 1
  rw [Dict.mk.injEq]
  exact hentries.trans hall

/-! ### What a command does -/

/-- A start that came to nothing: an error of its generation is recorded, and a container
that runs is the old one. -/
structure StartFailed (h h' : Host) (id : Uuid) (generation : ℕ) : Prop where
  entry : ∃ port detail,
    h'.instances = h.instances.set id ⟨.error, port, generation, none, detail⟩
  old : ∀ c, h'.containers.get? id = some c → c.running = true → h.containers.get? id = some c
  pendingProbes : h'.pendingProbes = h.pendingProbes

/-- A start that went through. -/
structure Started (h h' : Host) (id : Uuid) (generation : ℕ) (config : EngineConfig) : Prop where
  instances : h'.instances = h.instances.set id ⟨.starting, config.port, generation, config.rank, ""⟩
  container : h'.containers.get? id = some ⟨true, generation, config.port, config.published⟩
  pendingProbes : h'.pendingProbes = h.pendingProbes ++ [(id, config.port)]
  probeTasks : h'.probeTasks = h.probeTasks.filter (· ≠ id)

/-- A container that is left after the old one was removed, or was not, is the old one. -/
theorem removeOld_spec (h : Host) (id : Uuid) (ok : Bool) :
    (h.removeOld id ok).instances = h.instances ∧
      (h.removeOld id ok).probeTasks = h.probeTasks ∧
      (h.removeOld id ok).pendingProbes = h.pendingProbes ∧
      (h.removeOld id ok).pulledImages = h.pulledImages ∧
      ∀ c, (h.removeOld id ok).containers.get? id = some c → h.containers.get? id = some c := by
  unfold removeOld
  split
  · refine ⟨rfl, rfl, rfl, rfl, fun c hc => ?_⟩
    rw [Dict.get?_erase_self] at hc
    cases hc
  · exact ⟨rfl, rfl, rfl, rfl, fun c hc => hc⟩

/-- Pulling an image does nothing else. -/
theorem pull_spec (h : Host) (engine : Engine) :
    (h.pull engine).instances = h.instances ∧
      (h.pull engine).pendingProbes = h.pendingProbes ∧
      (h.pull engine).probeTasks = h.probeTasks ∧
      (h.pull engine).containers = h.containers := by
  unfold pull
  split
  · exact ⟨rfl, rfl, rfl, rfl⟩
  · exact ⟨rfl, rfl, rfl, rfl⟩

/-- An error is recorded on a host that differs by the old container and the probe at most. -/
theorem startFailed_recordError {h h₁ : Host} {id : Uuid} {g : ℕ} {config : EngineConfig}
    {detail : String} (hinst : h₁.instances = h.instances)
    (hpend : h₁.pendingProbes = h.pendingProbes)
    (hold : ∀ c, h₁.containers.get? id = some c → c.running = true →
      h.containers.get? id = some c) :
    StartFailed h (h₁.recordError id config g detail) id g := by
  refine ⟨⟨config.port, detail, ?_⟩, hold, hpend⟩
  show h₁.instances.set id _ = _
  rw [hinst]

/-- **What a start does**: nothing, for a generation that is there; an error for want of
a token, with the probe of the old container left alone; an error with the probe cancelled;
or a container that runs, with a probe to be scheduled. -/
theorem startSync_cases (hfToken : Bool) (o : StartOutcome) (h : Host) (id : Uuid) (g : ℕ)
    (config : EngineConfig) :
    (alreadyApplied (h.instances.get? id) g = true ∧
        h.startSync hfToken o id g config = h) ∨
      alreadyApplied (h.instances.get? id) g = false ∧
        (StartFailed h (h.startSync hfToken o id g config) id g ∧
            (config.requiresHfToken = true ∧ hfToken = false) ∧
            (h.startSync hfToken o id g config).probeTasks = h.probeTasks ∨
          StartFailed h (h.startSync hfToken o id g config) id g ∧
            ¬ (config.requiresHfToken = true ∧ hfToken = false) ∧
            (h.startSync hfToken o id g config).probeTasks = h.probeTasks.filter (· ≠ id) ∨
          Started h (h.startSync hfToken o id g config) id g config) := by
  obtain ⟨hinst, hprobes, hpend, hpulled, hold⟩ := removeOld_spec h id o.removeOk
  unfold startSync
  simp only
  split
  · rename_i happ
    exact Or.inl ⟨happ, rfl⟩
  rename_i happ
  refine Or.inr ⟨Bool.eq_false_of_not_eq_true happ, ?_⟩
  split
  · rename_i htoken
    rw [Bool.not_eq_true] at htoken
    exact Or.inl ⟨startFailed_recordError hinst hpend fun c hc _ => hold c hc, htoken, hprobes⟩
  rename_i htoken
  rw [Bool.not_eq_true] at htoken
  have hcancel : ((h.removeOld id o.removeOk).cancelProbe id).probeTasks =
      h.probeTasks.filter (· ≠ id) := by
    show (h.removeOld id o.removeOk).probeTasks.filter _ = _
    rw [hprobes]
  have hfailed : ∀ detail, StartFailed h
      (((h.removeOld id o.removeOk).cancelProbe id).recordError id config g detail) id g :=
    fun detail => startFailed_recordError hinst hpend fun c hc _ => hold c hc
  split
  · exact Or.inr (Or.inl ⟨hfailed _, htoken, hcancel⟩)
  split
  · exact Or.inr (Or.inl ⟨hfailed _, htoken, hcancel⟩)
  obtain ⟨hpi, hpp, hpt, hpc⟩ :=
    pull_spec ((h.removeOld id o.removeOk).cancelProbe id) config.engine
  split
  · unfold launch
    simp only
    split
    · refine Or.inr (Or.inr ⟨?_, ?_, ?_, hpt.trans hcancel⟩)
      · show Dict.set _ id _ = _
        rw [hpi]
        exact congrArg (Dict.set · id _) hinst
      · rename_i hstart
        rw [hstart]
        exact Dict.get?_set_self _ _ _
      · show _ ++ _ = _
        rw [hpp]
        exact congrArg (· ++ _) hpend
    · rename_i hstart
      refine Or.inr (Or.inl ⟨startFailed_recordError (hpi.trans hinst) (hpp.trans hpend) ?_, htoken,
        hpt.trans hcancel⟩)
      -- the new container was created and does not run
      intro c hc hrun
      rw [Dict.get?_set_self, Option.some.injEq] at hc
      rw [← hc] at hrun
      exact absurd hrun hstart
  · refine Or.inr (Or.inl ⟨startFailed_recordError (hpi.trans hinst) (hpp.trans hpend) ?_, htoken,
      hpt.trans hcancel⟩)
    intro c hc _
    rw [hpc] at hc
    exact hold c hc

/-! ### The moves of the system -/

/-- On a sound host the old container is gone when a new one is created. -/
theorem Sound.nameFree {h : Host} (hs : h.Sound) (id : Uuid) : h.nameFree id true = true := by
  unfold Host.nameFree removeOld
  split
  · simp
  · rename_i htracked
    cases hc : h.containers.get? id with
    | none => rfl
    | some c =>
      obtain ⟨t, ht⟩ := (hs.tracked id).1 c hc
      simp [ht] at htracked

/-- **The moves of the system are moves of this kind**, with the outcomes that the
system gives the calls. -/
theorem applyNext_eq_move (hfToken : Bool) {h : Host} (hs : h.Sound) :
    (h.applyNext hfToken).1 = h ∨ ∃ e, (h.applyNext hfToken).1 = h.move hfToken e := by
  unfold applyNext
  split
  · exact Or.inl rfl
  · rename_i hb
    refine Or.inr ⟨.finish {}, ?_⟩
    simp only [move, hb, endBatch, sweep_ok]
    rfl
  · rename_i c rest hb
    refine Or.inr ⟨.apply { startOk := !refusesStart h c }, ?_⟩
    simp only [move, hb, applyCommand, outcomeOn, hs.nameFree, Bool.and_true]

end Host

/-! ### A small replica -/

/-- The config of a single-node replica. -/
def sampleConfig : EngineConfig where
  engine := .vllm
  modelName := "llama"
  profile := .latency
  gpuIndexes := [0]
  vramRequiredMb := 10
  port := 8001
  requiresHfToken := false

/-- A start of the instance `3`. -/
def sampleStart (generation : ℕ) : Command := ⟨3, .start, generation, some sampleConfig⟩

end Inferna
