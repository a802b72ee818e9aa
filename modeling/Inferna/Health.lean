import Inferna.StoppedDown

/-!
# Health reports

`running` is written by a probe that was answered, and by an adoption that finds the
container running.  A probe ends with its first answer, and from then on nobody looks at
the container.

## Main definitions

* `Watch` — a worker with the instances whose current container has passed its check.
* `CheckStep` — a process starts only on containers that have passed, and a start is
  refused for want of a token only while no probe watches the instance.
* `CheckInv` — the invariant.
* `WatchedExit` — a container exits only while it is not reported running, and only a
  container that runs answers its probe.

## Main results

* `running_was_checked` — **what is reported running has passed its check**, in every run
  of such steps.
* `adopted_unchecked` — an adopted container is reported running unchecked.
* `dead_not_running` — **what does not run is not reported running**, in every run in which
  exits are watched.
* `exit_after_first_success` — nobody notices an exit after the first answer.
-/

namespace Inferna

open Run

/-! ### Checked containers -/

/-- The command creates a container. -/
def Host.creates (hfToken : Bool) (o : CallOutcome) (h : Host) (c : Command) : Bool :=
  match c.action, c.config with
  | .start, some config =>
    !alreadyApplied (h.instances.get? c.instanceId) c.generation &&
      !(config.requiresHfToken && !hfToken) &&
      (config.engine ∈ h.pulledImages || (o.pullOk && !o.pullTimeout)) &&
      o.createOk && h.nameFree c.instanceId o.removeOk
  | _, _ => false

/-- A worker, and the instances whose current container has passed its check under this
or an earlier process. -/
structure Watch where
  host : Host
  passed : List Uuid

/-- The check that a move passes, or the container that it replaces. -/
def Watch.record (hfToken : Bool) (s : Watch) : HostEvent → List Uuid
  | .ready id =>
    if id ∈ s.host.probeTasks ∧ (s.host.containers.get? id).isSome then s.passed ++ [id]
    else s.passed
  | .apply o =>
    match s.host.batch with
    | some (c :: _) =>
      if s.host.creates hfToken o c then s.passed.filter (· ≠ c.instanceId) else s.passed
    | _ => s.passed
  | _ => s.passed

/-- One move of the worker. -/
def Watch.step (hfToken : Bool) (s : Watch) (e : HostEvent) : Watch :=
  ⟨s.host.move hfToken e, s.record hfToken e⟩

/-- The current container of the instance has passed its check. -/
def Watch.Checked (s : Watch) (id : Uuid) : Prop :=
  (s.host.containers.get? id).isSome ∧ id ∈ s.passed

/-- The commands of one answer of the server: one for an instance, and a start with its
config. -/
structure Built (cs : List Command) : Prop where
  nodup : (cs.map (·.instanceId)).Nodup
  config : ∀ c ∈ cs, c.action = .start → c.config.isSome

/-- A process starts only on containers that have passed, and a start is refused for want
of a token only while no probe watches the instance. -/
def CheckStep (hfToken : Bool) (s : Watch) : HostEvent → Prop
  | .reconcile commands => Built commands
  | .restart listOk => listOk = true → ∀ id c, s.host.containers.get? id = some c →
      c.running = true → id ∈ s.passed
  | .apply _ => ∀ c ∈ s.host.batch.bind (·.head?), ∀ config ∈ c.config, c.action = .start →
      config.requiresHfToken = true → hfToken = false →
        alreadyApplied (s.host.instances.get? c.instanceId) c.generation = false →
          c.instanceId ∉ s.host.probeTasks
  | _ => True

/-! ### What a command does to its instance -/

/-- What a command does to its instance, when it does anything: the probe is cancelled,
nothing is reported running, and a probe is scheduled for a container that is there. -/
structure CommandSpec (h h' : Host) (id : Uuid) : Prop where
  probes : ∀ j ∈ h'.probeTasks, j ∈ h.probeTasks
  cancelled : id ∉ h'.probeTasks
  running : ¬ h'.reports id .running
  pending : h'.pendingProbes = h.pendingProbes ∨ ∃ port,
    h'.pendingProbes = h.pendingProbes ++ [(id, port)] ∧ (h'.instances.get? id).isSome ∧
      (h'.containers.get? id).isSome

theorem not_running_of_set {h : Host} {is : Dict Uuid Tracked} {id : Uuid} {t : Tracked}
    (h' : h.instances = is.set id t) (ht : t.state ≠ .running) : ¬ h.reports id .running := by
  rw [Host.reports_iff, h', Dict.get?_set_self]
  rintro ⟨t', heq, hstate⟩
  injection heq with heq
  exact ht (heq ▸ hstate)

theorem commandSpec_startSync {hfToken : Bool} {o : StartOutcome} {h : Host} {id : Uuid} {g : ℕ}
    {config : EngineConfig} (happ : alreadyApplied (h.instances.get? id) g = false)
    (hprobe : config.requiresHfToken = true → hfToken = false → id ∉ h.probeTasks) :
    CommandSpec h (h.startSync hfToken o id g config) id := by
  have hfilter : ∀ {h' : Host}, h'.probeTasks = h.probeTasks.filter (· ≠ id) →
      (∀ j ∈ h'.probeTasks, j ∈ h.probeTasks) ∧ id ∉ h'.probeTasks := by
    intro h' heq
    rw [heq]
    exact ⟨fun j hj => List.mem_of_mem_filter hj, by simp⟩
  rcases Host.startSync_cases hfToken o h id g config with
    ⟨happ', -⟩ | ⟨-, ⟨hfail, htoken, hprobes⟩ | ⟨hfail, -, hprobes⟩ | hstart⟩
  · rw [happ] at happ'
    cases happ'
  · -- refused for want of a token, while no probe watches the instance
    obtain ⟨port, detail, hinst⟩ := hfail.entry
    refine ⟨fun j hj => hprobes ▸ hj, ?_, not_running_of_set hinst (by simp),
      Or.inl hfail.pendingProbes⟩
    rw [hprobes]
    exact hprobe htoken.1 htoken.2
  · obtain ⟨port, detail, hinst⟩ := hfail.entry
    exact ⟨(hfilter hprobes).1, (hfilter hprobes).2, not_running_of_set hinst (by simp),
      Or.inl hfail.pendingProbes⟩
  · refine ⟨(hfilter hstart.probeTasks).1, (hfilter hstart.probeTasks).2,
      not_running_of_set hstart.instances (by simp),
      Or.inr ⟨config.port, hstart.pendingProbes, ?_, ?_⟩⟩
    · rw [hstart.instances, Dict.get?_set_self]
      rfl
    · rw [hstart.container]
      rfl

/-- **A command is skipped, or does what its specification says.** -/
theorem applyCommand_spec {hfToken : Bool} {o : CallOutcome} {h : Host} {c : Command}
    (hbuilt : c.action = .start → c.config.isSome)
    (hprobe : ∀ config ∈ c.config, c.action = .start → config.requiresHfToken = true →
      hfToken = false → alreadyApplied (h.instances.get? c.instanceId) c.generation = false →
        c.instanceId ∉ h.probeTasks) :
    (h.applyCommand hfToken o c = h ∧ h.creates hfToken o c = false) ∨
      CommandSpec h (h.applyCommand hfToken o c) c.instanceId := by
  unfold Host.applyCommand Host.applyDockerCommand Host.creates
  split
  · rename_i config haction hconfig
    cases happ : alreadyApplied (h.instances.get? c.instanceId) c.generation with
    | true =>
      refine Or.inl ⟨?_, by simp [haction, hconfig]⟩
      unfold Host.startSync
      rw [if_pos happ]
    | false =>
      refine Or.inr (commandSpec_startSync happ fun htoken hno => ?_)
      exact hprobe config hconfig haction htoken hno happ
  · rename_i haction hconfig
    rw [hconfig] at hbuilt
    cases hbuilt haction
  · refine Or.inr ⟨fun j hj => List.mem_of_mem_filter hj, ?_, ?_, Or.inl rfl⟩
    · simp [Host.stopSync, Host.cancelProbe]
    · intro hrep
      cases Host.eq_stopped_of_reports_stopSync hrep
  · refine Or.inr ⟨fun j hj => List.mem_of_mem_filter hj, ?_, ?_, Or.inl rfl⟩
    · simp [Host.deleteSync, Host.cancelProbe]
    · exact Host.not_reports_deleteSync

/-! ### The invariant -/

/-- What is reported running is checked, and every probe has a container to watch. -/
structure CheckInv (s : Watch) : Prop where
  checked : ∀ id, s.host.reports id .running → s.Checked id
  probed : ∀ id ∈ s.host.probeTasks,
    (s.host.instances.get? id).isSome ∧ (s.host.containers.get? id).isSome
  /-- An instance whose probe is still to be scheduled gets no further command from the
  batch that started it. -/
  started : ∀ p ∈ s.host.pendingProbes,
    ((s.host.instances.get? p.1).isSome ∧ (s.host.containers.get? p.1).isSome) ∧
      ∀ c ∈ s.host.batch.getD [], c.instanceId ≠ p.1
  idle : s.host.batch = none → s.host.pendingProbes = []
  batch : Built (s.host.batch.getD [])
  pending : ∀ k c, s.host.pending.get? k = some c →
    c.instanceId = k ∧ (c.action = .start → c.config.isSome)

theorem Built.perm {cs ds : List Command} (h : Built cs) (hp : ds.Perm cs) : Built ds :=
  ⟨(hp.map _).nodup_iff.mpr h.nodup, fun c hc => h.config c (hp.mem_iff.mp hc)⟩

theorem Built.tail {c : Command} {cs : List Command} (h : Built (c :: cs)) : Built cs :=
  ⟨(List.nodup_cons.mp h.nodup).2, fun d hd => h.config d (List.mem_cons_of_mem c hd)⟩

/-- The pending commands are those of a batch. -/
theorem built_values {p : Dict Uuid Command} (h : ∀ k c, p.get? k = some c →
    c.instanceId = k ∧ (c.action = .start → c.config.isSome)) : Built p.values := by
  have hkeys : p.values.map (·.instanceId) = p.entries.map Prod.fst := by
    unfold Dict.values
    rw [List.map_map]
    exact List.map_congr_left fun e he => (h e.1 e.2 ((p.mem_entries_iff e.1 e.2).mp he)).1
  refine ⟨hkeys ▸ p.nodup_keys, fun c hc => ?_⟩
  obtain ⟨e, he, rfl⟩ := List.mem_map.mp hc
  exact (h e.1 e.2 ((p.mem_entries_iff e.1 e.2).mp he)).2

theorem checkInv_reconcile {s : Watch} (h : CheckInv s) {cs : List Command} (hcs : Built cs) :
    CheckInv ⟨s.host.reconcile cs, s.passed⟩ := by
  have hsame : ∀ id, (s.host.reconcile cs).reports id .running ↔ s.host.reports id .running := by
    intro id
    rw [Host.reports_iff, Host.reports_iff, Host.reconcile_instances]
  have hchecked : ∀ id, (s.host.reconcile cs).reports id .running →
      Watch.Checked ⟨s.host.reconcile cs, s.passed⟩ id := by
    intro id hid
    obtain ⟨hc, hp⟩ := h.checked id ((hsame id).mp hid)
    exact ⟨by rw [Host.reconcile_containers]; exact hc, hp⟩
  have hprobed : ∀ id ∈ (s.host.reconcile cs).probeTasks,
      ((s.host.reconcile cs).instances.get? id).isSome ∧
        ((s.host.reconcile cs).containers.get? id).isSome := by
    rw [Host.reconcile_probeTasks, Host.reconcile_instances, Host.reconcile_containers]
    exact h.probed
  rcases s.host.reconcile_cases cs with ⟨hb, heq⟩ | ⟨-, heq⟩
  · have hno : (s.host.reconcile cs).pendingProbes = [] := by
      rw [Host.reconcile_pendingProbes]
      exact h.idle hb
    refine ⟨hchecked, hprobed, fun p hp => ?_, fun _ => hno, ?_, ?_⟩
    · rw [hno] at hp
      exact absurd hp List.not_mem_nil
    · rw [heq]
      exact hcs.perm (List.perm_insertionSort _ _)
    · rw [heq]
      exact h.pending
  · refine ⟨hchecked, hprobed, ?_, ?_, ?_, ?_⟩
    · rw [heq]
      exact h.started
    · rw [heq]
      exact h.idle
    · rw [heq]
      exact h.batch
    · intro k c hc
      rw [heq] at hc
      rcases Host.get?_coalesce k cs s.host.pending with ⟨-, c', hc', hid, hget⟩ | ⟨-, hget⟩
      · obtain rfl : c' = c := Option.some.inj (hget.symm.trans hc)
        exact ⟨hid, hcs.config c' hc'⟩
      · exact h.pending k c (hget.symm.trans hc)

section Apply

variable {hfToken : Bool} {s : Watch} {o : CallOutcome} {c : Command} {rest : List Command}

theorem CheckInv.built (h : CheckInv s) (hb : s.host.batch = some (c :: rest)) :
    Built (c :: rest) := by
  have hbatch := h.batch
  rw [hb] at hbatch
  exact hbatch

theorem CheckInv.spec (h : CheckInv s) (hb : s.host.batch = some (c :: rest))
    (hok : CheckStep hfToken s (.apply o)) :
    (s.host.applyCommand hfToken o c = s.host ∧ s.host.creates hfToken o c = false) ∨
      CommandSpec s.host (s.host.applyCommand hfToken o c) c.instanceId :=
  applyCommand_spec ((h.built hb).config c List.mem_cons_self)
    fun config hconfig => hok c (by simp [hb]) config hconfig

/-- A command leaves the other instances alone. -/
theorem applyCommand_other (hfToken : Bool) (h : Host) (o : CallOutcome) {c : Command} {j : Uuid}
    (hj : c.instanceId ≠ j) :
    (h.applyCommand hfToken o c).instances.get? j = h.instances.get? j ∧
      (h.applyCommand hfToken o c).containers.get? j = h.containers.get? j :=
  have htouch := Host.touchesOnly_applyDockerCommand hfToken (h.outcomeOn o c) o.stopOk h c
  ⟨htouch.instances j hj, htouch.containers j hj⟩

/-- What is reported running after a command is checked: the command was for another instance, or
it was skipped. -/
theorem checked_apply (h : CheckInv s) (hb : s.host.batch = some (c :: rest))
    (hok : CheckStep hfToken s (.apply o)) {id : Uuid}
    (hid : (s.host.applyCommand hfToken o c).reports id .running) :
    ((s.host.applyCommand hfToken o c).containers.get? id).isSome ∧
      id ∈ if s.host.creates hfToken o c then s.passed.filter (· ≠ c.instanceId)
        else s.passed := by
  by_cases hj : c.instanceId = id
  · subst hj
    rcases h.spec hb hok with ⟨heq, hcreates⟩ | hspec
    · rw [heq] at hid ⊢
      rw [hcreates]
      exact h.checked _ hid
    · exact absurd hid hspec.running
  · obtain ⟨hinst, hcont⟩ := applyCommand_other hfToken s.host o hj
    rw [Host.reports_iff, hinst, ← Host.reports_iff] at hid
    obtain ⟨hc, hp⟩ := h.checked id hid
    refine ⟨hcont ▸ hc, ?_⟩
    split
    · exact List.mem_filter.mpr ⟨hp, by simpa using Ne.symm hj⟩
    · exact hp

theorem probed_apply (h : CheckInv s) (hb : s.host.batch = some (c :: rest))
    (hok : CheckStep hfToken s (.apply o)) {id : Uuid}
    (hid : id ∈ (s.host.applyCommand hfToken o c).probeTasks) :
    ((s.host.applyCommand hfToken o c).instances.get? id).isSome ∧
      ((s.host.applyCommand hfToken o c).containers.get? id).isSome := by
  rcases h.spec hb hok with ⟨heq, -⟩ | hspec
  · rw [heq] at hid ⊢
    exact h.probed id hid
  · have hne : c.instanceId ≠ id := fun heq => hspec.cancelled (heq ▸ hid)
    rw [(applyCommand_other hfToken s.host o hne).1, (applyCommand_other hfToken s.host o hne).2]
    exact h.probed id (hspec.probes id hid)

/-- The probes to be scheduled are those from before, and the one of the command. -/
theorem started_apply (h : CheckInv s) (hb : s.host.batch = some (c :: rest))
    (hok : CheckStep hfToken s (.apply o)) {p : Uuid × ℕ}
    (hp : p ∈ (s.host.applyCommand hfToken o c).pendingProbes) :
    (((s.host.applyCommand hfToken o c).instances.get? p.1).isSome ∧
      ((s.host.applyCommand hfToken o c).containers.get? p.1).isSome) ∧
        ∀ d ∈ rest, d.instanceId ≠ p.1 := by
  have hold : p ∈ s.host.pendingProbes →
      (((s.host.applyCommand hfToken o c).instances.get? p.1).isSome ∧
        ((s.host.applyCommand hfToken o c).containers.get? p.1).isSome) ∧
          ∀ d ∈ rest, d.instanceId ≠ p.1 := by
    intro hp
    obtain ⟨hsome, hno⟩ := h.started p hp
    rw [hb] at hno
    have hne : c.instanceId ≠ p.1 := hno c List.mem_cons_self
    rw [(applyCommand_other hfToken s.host o hne).1, (applyCommand_other hfToken s.host o hne).2]
    exact ⟨hsome, fun d hd => hno d (List.mem_cons_of_mem c hd)⟩
  rcases h.spec hb hok with ⟨heq, -⟩ | hspec
  · rw [heq] at hp
    exact hold hp
  · rcases hspec.pending with hsame | ⟨port, hnew, hi, hc⟩
    · rw [hsame] at hp
      exact hold hp
    · rw [hnew] at hp
      rcases List.mem_append.mp hp with hp | hp
      · exact hold hp
      · rw [List.mem_singleton.mp hp]
        refine ⟨⟨hi, hc⟩, fun d hd heq => ?_⟩
        exact (List.nodup_cons.mp (h.built hb).nodup).1 (List.mem_map.mpr ⟨d, hd, heq⟩)

theorem checkInv_apply (h : CheckInv s) (hb : s.host.batch = some (c :: rest))
    (hok : CheckStep hfToken s (.apply o)) :
    CheckInv ⟨{ s.host.applyCommand hfToken o c with batch := some rest },
      if s.host.creates hfToken o c then s.passed.filter (· ≠ c.instanceId) else s.passed⟩ where
  checked _ hid := checked_apply h hb hok hid
  probed _ hid := probed_apply h hb hok hid
  started _ hp := started_apply h hb hok hp
  idle hno := by cases hno
  batch := (h.built hb).tail
  pending := by
    have hpend : (s.host.applyCommand hfToken o c).pending = s.host.pending :=
      (Host.touchesOnly_applyDockerCommand hfToken (s.host.outcomeOn o c) o.stopOk s.host c).pending
    dsimp only
    rw [hpend]
    exact h.pending

end Apply

/-- The queue of a batch that has ended. -/
theorem endBatch_queue (o : SweepOutcome) (h : Host) :
    (h.endBatch o).pending = Dict.empty ∧ (h.endBatch o).pendingProbes = [] ∧
      ((h.endBatch o).batch = none ∨
        ∃ b, (h.endBatch o).batch = some b ∧ b.Perm h.pending.values) := by
  have hpend : ((h.sweep o).scheduleProbes).pending = h.pending := Host.sweep_pending o h
  unfold Host.endBatch
  simp only
  split
  · rename_i hempty
    exact ⟨Dict.eq_empty_of_isEmpty hempty, rfl, Or.inl rfl⟩
  · refine ⟨rfl, rfl, Or.inr ⟨_, rfl, ?_⟩⟩
    rw [← hpend]
    exact List.perm_insertionSort _ _

/-- The probes of a batch that has ended: those that ran, and those it scheduled. -/
theorem mem_endBatch_probeTasks {o : SweepOutcome} {h : Host} {id : Uuid}
    (hid : id ∈ (h.endBatch o).probeTasks) :
    id ∈ h.probeTasks ∨ ∃ port, (id, port) ∈ h.pendingProbes := by
  have hsweep : (h.sweep o).probeTasks = h.probeTasks ∧
      (h.sweep o).pendingProbes = h.pendingProbes := by
    unfold Host.sweep
    split <;> exact ⟨rfl, rfl⟩
  have hsched : (h.endBatch o).probeTasks = ((h.sweep o).scheduleProbes).probeTasks := by
    unfold Host.endBatch
    simp only
    split <;> rfl
  rw [hsched, Host.scheduleProbes, List.mem_append, hsweep.1, hsweep.2] at hid
  rcases hid with hid | hid
  · exact Or.inl hid
  · obtain ⟨p, hp, rfl⟩ := List.mem_map.mp hid
    exact Or.inr ⟨p.2, List.mem_of_mem_filter hp⟩

theorem checkInv_finish {s : Watch} (h : CheckInv s) (o : SweepOutcome) :
    CheckInv ⟨s.host.endBatch o, s.passed⟩ := by
  obtain ⟨hpend, hprobes, hqueue⟩ := endBatch_queue o s.host
  -- a sweep leaves the containers of tracked instances alone
  have hkept : ∀ id, (s.host.instances.get? id).isSome → (s.host.containers.get? id).isSome →
      ((s.host.endBatch o).instances.get? id).isSome ∧
        ((s.host.endBatch o).containers.get? id).isSome := by
    intro id hi hc
    obtain ⟨t, ht⟩ := Option.isSome_iff_exists.mp hi
    rw [Host.endBatch_instances, Host.endBatch_containers, Host.get?_sweep_of_tracked ht]
    exact ⟨hi, hc⟩
  refine ⟨fun id hid => ?_, fun id hid => ?_, fun p hp => ?_, fun _ => hprobes, ?_, ?_⟩
  · rw [Host.reports_iff, Host.endBatch_instances, ← Host.reports_iff] at hid
    obtain ⟨hc, hp⟩ := h.checked id hid
    obtain ⟨t, ht, -⟩ := Host.reports_iff.mp hid
    exact ⟨(hkept id (by rw [ht]; rfl) hc).2, hp⟩
  · rcases mem_endBatch_probeTasks hid with hid | ⟨port, hp⟩
    · exact hkept id (h.probed id hid).1 (h.probed id hid).2
    · exact hkept id (h.started _ hp).1.1 (h.started _ hp).1.2
  · rw [hprobes] at hp
    exact absurd hp List.not_mem_nil
  · rcases hqueue with hb | ⟨b, hb, hperm⟩
    · rw [hb]
      exact ⟨List.nodup_nil, fun c hc => absurd hc List.not_mem_nil⟩
    · rw [hb]
      exact (built_values h.pending).perm hperm
  · intro k c hc
    rw [hpend] at hc
    cases hc

/-- A probe that ends writes to its own entry: an error, or an answer that is recorded. -/
theorem checkInv_probe {s : Watch} (h : CheckInv s) {id : Uuid} {f : Tracked → Tracked}
    {passed : List Uuid} (hsub : ∀ j ∈ s.passed, j ∈ passed)
    (hf : (∀ t, (f t).state ≠ .running) ∨
      (s.host.containers.get? id).isSome ∧ id ∈ passed) :
    CheckInv ⟨{ s.host.cancelProbe id with instances := s.host.instances.modify id f },
      passed⟩ := by
  have hsome : ∀ j, (s.host.instances.get? j).isSome →
      ((s.host.instances.modify id f).get? j).isSome := by
    intro j hj
    rw [Dict.get?_modify]
    split
    · rw [Option.isSome_map]
      exact hj
    · exact hj
  refine ⟨fun j hj => ?_, fun j hj => ?_, fun p hp => ?_, h.idle, h.batch, h.pending⟩
  · obtain ⟨t, ht, hstate⟩ := Host.reports_iff.mp hj
    change (s.host.instances.modify id f).get? j = some t at ht
    rw [Dict.get?_modify] at ht
    split at ht
    · rename_i hid
      subst hid
      obtain ⟨t', -, rfl⟩ := Option.map_eq_some_iff.mp ht
      rcases hf with hf | hf
      · exact absurd hstate (hf t')
      · exact hf
    · obtain ⟨hc, hp⟩ := h.checked j (Host.reports_iff.mpr ⟨t, ht, hstate⟩)
      exact ⟨hc, hsub j hp⟩
  · obtain ⟨hi, hc⟩ := h.probed j (List.mem_of_mem_filter hj)
    exact ⟨hsome j hi, hc⟩
  · obtain ⟨⟨hi, hc⟩, hno⟩ := h.started p hp
    exact ⟨⟨hsome _ hi, hc⟩, hno⟩

/-- The container of an instance that exits stays there. -/
theorem isSome_containerExit (h : Host) (i id : Uuid) :
    ((h.containerExit i).containers.get? id).isSome = (h.containers.get? id).isSome := by
  show ((h.containers.modify i _).get? id).isSome = _
  rw [Dict.get?_modify]
  split
  · rw [Option.isSome_map]
  · rfl

/-- A process without a registry, a batch or probes. -/
theorem checkInv_crash (h : Host) (passed : List Uuid) : CheckInv ⟨h.crash, passed⟩ where
  checked id hid := by
    obtain ⟨t, ht, -⟩ := Host.reports_iff.mp hid
    cases ht
  probed id hid := absurd hid List.not_mem_nil
  started p hp := absurd hp List.not_mem_nil
  idle _ := rfl
  batch := ⟨List.nodup_nil, fun c hc => absurd hc List.not_mem_nil⟩
  pending k c hc := by cases hc

/-- What a new process reports as running does run. -/
theorem running_adoptExisting {h : Host} {id : Uuid} (hid : h.adoptExisting.reports id .running) :
    ∃ c, h.containers.get? id = some c ∧ c.running = true := by
  obtain ⟨t, ht, hstate⟩ := Host.reports_iff.mp hid
  rw [← Dict.mem_entries_iff] at ht
  obtain ⟨⟨j, c⟩, hmem, heq⟩ := List.mem_map.mp ht
  rw [Prod.mk.injEq] at heq
  obtain ⟨rfl, rfl⟩ := heq
  refine ⟨c, (Dict.mem_entries_iff _ _ _).mp hmem, ?_⟩
  unfold Host.adopted at hstate
  by_contra hrun
  simp [hrun] at hstate

theorem checkInv_exit {s : Watch} (h : CheckInv s) (id : Uuid) :
    CheckInv ⟨s.host.containerExit id, s.passed⟩ := by
  refine ⟨fun j hj => ?_, fun j hj => ?_, fun p hp => ?_, h.idle, h.batch, h.pending⟩
  · obtain ⟨hc, hp⟩ := h.checked j hj
    exact ⟨(isSome_containerExit s.host id j).trans hc, hp⟩
  · obtain ⟨hi, hc⟩ := h.probed j hj
    exact ⟨hi, (isSome_containerExit s.host id j).trans hc⟩
  · obtain ⟨⟨hi, hc⟩, hno⟩ := h.started p hp
    exact ⟨⟨hi, (isSome_containerExit s.host id p.1).trans hc⟩, hno⟩

/-- A new process starts with the containers that it finds. -/
theorem checkInv_restart {hfToken : Bool} {s : Watch} {listOk : Bool}
    (hok : CheckStep hfToken s (.restart listOk)) :
    CheckInv ⟨s.host.restart listOk, s.passed⟩ := by
  unfold Host.restart
  split
  · rename_i hlist
    refine ⟨fun j hj => ?_, fun j hj => absurd hj List.not_mem_nil,
      fun p hp => absurd hp List.not_mem_nil, fun _ => rfl,
      ⟨List.nodup_nil, fun c hc => absurd hc List.not_mem_nil⟩, fun k c hc => by cases hc⟩
    obtain ⟨c, hc, hrun⟩ := running_adoptExisting hj
    refine ⟨?_, hok hlist j c hc hrun⟩
    show (s.host.containers.get? j).isSome = true
    rw [hc]
    rfl
  · exact checkInv_crash s.host s.passed

/-- **The allowed moves keep the invariant.** -/
theorem checkInv_step {hfToken : Bool} (s : Watch) (e : HostEvent) (h : CheckInv s)
    (hok : CheckStep hfToken s e) : CheckInv (s.step hfToken e) := by
  cases e with
  | reconcile commands => exact checkInv_reconcile h hok
  | apply o =>
    unfold Watch.step Watch.record
    rcases Host.move_apply_cases hfToken s.host o with heq | ⟨c, rest, hb, heq⟩
    · rw [heq]
      simp only
      split
      · rename_i c rest hb
        -- a host that does not move has no command to apply
        have hmove : s.host.move hfToken (.apply o) =
            { s.host.applyCommand hfToken o c with batch := some rest } := by
          simp only [Host.move, hb]
        have hbatch := congrArg Host.batch (heq.symm.trans hmove)
        rw [hb, Option.some.injEq] at hbatch
        exact absurd hbatch (List.cons_ne_self c rest)
      · exact h
    · rw [heq]
      simp only [hb]
      exact checkInv_apply h hb hok
  | finish o =>
    unfold Watch.step
    rcases Host.move_finish_cases hfToken s.host o with heq | ⟨-, heq⟩
    · rw [heq]
      exact h
    · rw [heq]
      exact checkInv_finish h o
  | inspect id =>
    show CheckInv ⟨s.host.inspect id, s.passed⟩
    unfold Host.inspect
    split
    · exact checkInv_probe h (fun j hj => hj) (Or.inl fun t => by simp)
    · exact h
  | ready id =>
    show CheckInv ⟨s.host.probeResult id true, s.record hfToken (.ready id)⟩
    unfold Host.probeResult Watch.record
    simp only
    split
    · rename_i hid
      have hc := (h.probed id hid).2
      rw [if_pos ⟨hid, hc⟩]
      exact checkInv_probe h (fun j hj => List.mem_append_left _ hj)
        (Or.inr ⟨hc, List.mem_append_right _ List.mem_cons_self⟩)
    · rename_i hid
      rw [if_neg fun hboth => hid hboth.1]
      exact h
  | deadline id =>
    show CheckInv ⟨s.host.probeResult id false, s.passed⟩
    unfold Host.probeResult
    split
    · exact checkInv_probe h (fun j hj => hj) (Or.inl fun t => by simp)
    · exact h
  | exit id => exact checkInv_exit h id
  | crash => exact checkInv_crash s.host s.passed
  | restart listOk => exact checkInv_restart hok

/-- **When running was checked.**  A worker process starts on a host with any containers,
some of which have passed their check under earlier processes.  In every run in which
processes are started only on containers that have passed, and no start is refused for
want of a token while a probe watches the instance, what is reported running has a
container that has passed its check. -/
theorem running_was_checked (hfToken : Bool) (cs : Dict Uuid Container) (passed : List Uuid)
    (as : List HostEvent)
    (hok : Conforms (Watch.step hfToken) (CheckStep hfToken) ⟨{ containers := cs }, passed⟩ as) :
    ∀ id, (exec (Watch.step hfToken) ⟨{ containers := cs }, passed⟩ as).host.reports id .running →
      (exec (Watch.step hfToken) ⟨{ containers := cs }, passed⟩ as).Checked id := by
  have hinit : CheckInv ⟨{ containers := cs }, passed⟩ := checkInv_crash { containers := cs } passed
  exact (invariant_of_conforms CheckInv checkInv_step as _ hinit hok).checked

/-- The instance `3` is started, and its probe is scheduled. -/
def probedRun : List HostEvent := [.reconcile [sampleStart 1], .apply {}, .finish {}]

/-- Its probe is answered, and the process is started again. -/
theorem running_was_checked_sample :
    let s := exec (Watch.step false) ⟨{}, []⟩ (probedRun ++ [.ready 3, .crash, .restart true])
    s.host.reports 3 .running ∧ ∀ id, s.host.reports id .running → s.Checked id := by
  refine ⟨by decide +kernel, running_was_checked false Dict.empty [] _ ?_⟩
  refine ⟨⟨by decide, by decide⟩, fun c _ config _ _ _ _ _ => List.not_mem_nil, trivial, trivial,
    trivial, fun _ id c hc _ => ?_, trivial⟩
  have hall : ∀ e ∈ (exec (Watch.step false) ⟨{}, []⟩
      (probedRun ++ [.ready 3, .crash])).host.containers.entries,
      e.1 ∈ (exec (Watch.step false) ⟨{}, []⟩ (probedRun ++ [.ready 3, .crash])).passed := by
    decide +kernel
  exact hall (id, c) ((Dict.mem_entries_iff _ _ _).mpr hc)

/-- **An adopted container is reported running unchecked**: the process is started again
before the probe was answered. -/
theorem adopted_unchecked :
    ¬ ∀ (hfToken : Bool) (cs : Dict Uuid Container) (passed : List Uuid) (as : List HostEvent)
      (id : Uuid),
      (exec (Watch.step hfToken) ⟨{ containers := cs }, passed⟩ as).host.reports id .running →
        (exec (Watch.step hfToken) ⟨{ containers := cs }, passed⟩ as).Checked id := by
  intro h
  have hchecked := h false Dict.empty [] (probedRun ++ [.crash, .restart true]) 3
    (by decide +kernel)
  have hnone : 3 ∉ (exec (Watch.step false) ⟨{ containers := Dict.empty }, []⟩
      (probedRun ++ [.crash, .restart true])).passed := by decide +kernel
  exact hnone hchecked.2

/-! ### Dead containers -/

/-- A container exits only while its instance is not reported running, and only a container
that runs answers its probe. -/
def WatchedExit (h : Host) : HostEvent → Prop
  | .exit id => ¬ h.reports id .running
  | .ready id => id ∈ h.probeTasks → ¬ h.Down id
  | _ => True

/-- What is reported running does run. -/
def Host.RunningUp (h : Host) : Prop := ∀ id, h.reports id .running → ¬ h.Down id

/-- Nothing new is reported running, and what is reported running runs on. -/
theorem Host.RunningUp.of_sub {h h' : Host} (hs : h.RunningUp)
    (hreports : ∀ id, h'.reports id .running → h.reports id .running)
    (hdown : ∀ id, h.reports id .running → h'.Down id → h.Down id) : h'.RunningUp :=
  fun id hid hd => hs id (hreports id hid) (hdown id (hreports id hid) hd)

/-- A command leaves its instance as it was, or not reported running. -/
theorem running_applyCommand {hfToken : Bool} {o : CallOutcome} {h : Host} {c : Command}
    (hrun : (h.applyCommand hfToken o c).reports c.instanceId .running) :
    h.applyCommand hfToken o c = h := by
  unfold Host.applyCommand Host.applyDockerCommand at hrun ⊢
  split at hrun
  · rename_i config _ _
    rcases Host.startSync_cases hfToken (h.outcomeOn o c) h c.instanceId c.generation config with
      ⟨-, heq⟩ | ⟨-, ⟨hfail, -⟩ | ⟨hfail, -⟩ | hstart⟩
    · exact heq
    · obtain ⟨port, detail, hinst⟩ := hfail.entry
      exact absurd hrun (not_running_of_set hinst (by simp))
    · obtain ⟨port, detail, hinst⟩ := hfail.entry
      exact absurd hrun (not_running_of_set hinst (by simp))
    · exact absurd hrun (not_running_of_set hstart.instances (by simp))
  · exact absurd hrun (not_running_of_set rfl (by simp))
  · cases Host.eq_stopped_of_reports_stopSync hrun
  · exact absurd hrun Host.not_reports_deleteSync

theorem runningUp_crash (h : Host) : h.crash.RunningUp := by
  intro id hid
  obtain ⟨t, ht, -⟩ := Host.reports_iff.mp hid
  cases ht

theorem runningUp_apply {hfToken : Bool} {h : Host} (hs : h.RunningUp) (o : CallOutcome) :
    (h.move hfToken (.apply o)).RunningUp := by
  rcases Host.move_apply_cases hfToken h o with heq | ⟨c, rest, hb, heq⟩
  · rw [heq]
    exact hs
  · rw [heq]
    have htouch := Host.touchesOnly_applyDockerCommand hfToken (h.outcomeOn o c) o.stopOk h c
    intro j hj hd
    change (h.applyCommand hfToken o c).reports j .running at hj
    change (h.applyCommand hfToken o c).Down j at hd
    by_cases hid : c.instanceId = j
    · subst hid
      have heq := running_applyCommand hj
      rw [heq] at hj hd
      exact hs _ hj hd
    · rw [Host.reports_iff, Host.applyCommand, htouch.instances j hid, ← Host.reports_iff] at hj
      refine hs j hj fun k hk => hd k ?_
      rw [Host.applyCommand, htouch.containers j hid]
      exact hk

theorem runningUp_finish {hfToken : Bool} {h : Host} (hs : h.RunningUp) (o : SweepOutcome) :
    (h.move hfToken (.finish o)).RunningUp := by
  rcases Host.move_finish_cases hfToken h o with heq | ⟨-, heq⟩
  · rw [heq]
    exact hs
  · rw [heq]
    refine hs.of_sub (fun j hj => ?_) fun j hj hd c hc => hd c ?_
    · rw [Host.reports_iff, Host.endBatch_instances, ← Host.reports_iff] at hj
      exact hj
    · -- the sweep leaves a tracked instance's container alone
      obtain ⟨t, ht, -⟩ := Host.reports_iff.mp hj
      rw [Host.endBatch_containers, Host.get?_sweep_of_tracked ht]
      exact hc

/-- **The allowed moves report nothing as running that does not run.** -/
theorem runningUp_move {hfToken : Bool} (h : Host) (e : HostEvent) (hs : h.RunningUp)
    (hok : WatchedExit h e) : (h.move hfToken e).RunningUp := by
  cases e with
  | reconcile commands =>
    refine hs.of_sub (fun j hj => ?_) fun j _ hj c hc => hj c ?_
    · rw [Host.reports_iff, Host.move, Host.reconcile_instances, ← Host.reports_iff] at hj
      exact hj
    · rw [Host.move, Host.reconcile_containers]
      exact hc
  | apply o => exact runningUp_apply hs o
  | finish o => exact runningUp_finish hs o
  | inspect id =>
    show (h.inspect id).RunningUp
    unfold Host.inspect
    split
    · exact hs.of_sub (fun j => Host.reports_of_modify rfl fun t => by simp) fun j _ hd => hd
    · exact hs
  | ready id =>
    show (h.probeResult id true).RunningUp
    unfold Host.probeResult
    split
    · rename_i hid
      intro j hj hd
      by_cases hij : j = id
      · exact hok hid (hij ▸ hd)
      · obtain ⟨t, ht, hstate⟩ := Host.reports_iff.mp hj
        change (h.instances.modify id _).get? j = some t at ht
        rw [Dict.get?_modify_of_ne _ _ (Ne.symm hij)] at ht
        exact hs j (Host.reports_iff.mpr ⟨t, ht, hstate⟩) hd
    · exact hs
  | deadline id =>
    show (h.probeResult id false).RunningUp
    unfold Host.probeResult
    split
    · exact hs.of_sub (fun j => Host.reports_of_modify rfl fun t => by simp) fun j _ hd => hd
    · exact hs
  | exit id =>
    refine hs.of_sub (fun j hj => hj) fun j hj hd c hc => hd c ?_
    have hne : id ≠ j := fun heq => hok (heq ▸ hj)
    show (h.containers.modify id _).get? j = some c
    rw [Dict.get?_modify_of_ne _ _ hne]
    exact hc
  | crash => exact runningUp_crash h
  | restart listOk =>
    show (h.restart listOk).RunningUp
    unfold Host.restart
    split
    · intro j hj hd
      obtain ⟨c, hc, hrun⟩ := running_adoptExisting hj
      have := hd c hc
      rw [hrun] at this
      cases this
    · exact runningUp_crash h

/-- **When a dead container is not reported healthy.**  In every run of a worker process,
started on a host with any containers, in which containers exit only while they are not
reported running and only a container that runs answers its probe, an instance whose
container does not run is never reported running. -/
theorem dead_not_running (hfToken : Bool) (cs : Dict Uuid Container) (as : List HostEvent)
    (hok : Conforms (Host.move hfToken) WatchedExit { containers := cs } as) :
    ∀ id, (exec (Host.move hfToken) { containers := cs } as).Down id →
      ¬ (exec (Host.move hfToken) { containers := cs } as).reports id .running := by
  intro id hdown hrun
  have hinit : ({ containers := cs } : Host).RunningUp := runningUp_crash { containers := cs }
  exact invariant_of_conforms Host.RunningUp runningUp_move as _ hinit hok id hrun hdown

/-- A container that exits before its probe is answered is noticed. -/
theorem dead_not_running_sample :
    let h := exec (Host.move false) {} (probedRun ++ [.exit 3, .inspect 3])
    h.reports 3 .error ∧ ∀ id, h.Down id → ¬ h.reports id .running := by
  refine ⟨by decide +kernel, dead_not_running false Dict.empty _ ?_⟩
  have hexit : ¬ (exec (Host.move false) {} probedRun).reports 3 .running := by decide +kernel
  exact ⟨trivial, trivial, trivial, hexit, trivial, trivial⟩

/-- **Nobody notices an exit after the first answer**: the container has exited, every
probe task that was there has had a turn, nothing was started since, and the instance is
reported running. -/
theorem exit_after_first_success :
    ¬ ∀ (hfToken : Bool) (cs : Dict Uuid Container) (before after : List HostEvent) (id : Uuid),
      (∀ j ∈ (exec (Host.move hfToken) { containers := cs } (before ++ [.exit id])).probeTasks,
        .inspect j ∈ after) →
      (exec (Host.move hfToken) { containers := cs } (before ++ [.exit id] ++ after)).Down id →
        ¬ (exec (Host.move hfToken) { containers := cs } (before ++ [.exit id] ++ after)).reports id
          .running := by
  intro h
  have hnone : (exec (Host.move false) { containers := Dict.empty }
      (probedRun ++ [.ready 3] ++ [.exit 3])).probeTasks = [] := by decide +kernel
  refine h false Dict.empty (probedRun ++ [.ready 3]) [] 3 ?_ ?_ (by decide +kernel)
  · rw [hnone]
    exact fun j hj => absurd hj List.not_mem_nil
  have hall : ∀ e ∈ (exec (Host.move false) { containers := Dict.empty }
      (probedRun ++ [.ready 3] ++ [.exit 3] ++ [])).containers.entries, e.2.running = false := by
    decide +kernel
  exact fun c hc => hall (3, c) ((Dict.mem_entries_iff _ _ _).mpr hc)

end Inferna
