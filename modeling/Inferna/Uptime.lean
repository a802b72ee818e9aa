import Inferna.Progress

/-!
# A container that runs is left alone

The server asks a worker for what its rows want and the worker has not got.  A container that runs
at the generation of its row is nothing the worker has not got, and so nobody touches it: whatever
happens to the other instances, however Docker answers for them, and however often the worker
process is killed and started again over it.

A new worker process takes what it finds running for running.  It does so only if Docker lists the
containers; otherwise the next start finds the name in use, and the container goes on unreported.

## Main definitions

* `WorkerEvent`, `Host.turn` — Syncs against any tables, and the moves of the worker.
* `LetsRun` — the rows want the instance at a generation, and its container does not exit.
* `Untouched` — the container runs, the worker has its generation, and no command is on its way.
* `RunsUnwatched` — it is reported running, and no probe can change that.

## Main results

* `untouched_turn` — no event touches the container.
* `runsUnwatched_restart` — a new worker process reports it running.
* `running_left_alone` — **the same container runs after any run, and every Sync is silent about
  it.**
* `untracked_start_fails` — a start of an instance the worker has lost sight of fails.
-/

namespace Inferna

open Run

/-! ### Events -/

/-- A Sync against these tables, or a move of the worker or its host. -/
inductive WorkerEvent
  | sync (db : Db) (req : SyncRequest) (now : ℕ)
  | move (e : HostEvent)

/-- One event.  The commands of a Sync go to `reconcile`. -/
def Host.turn (sha256Hex : String → String) (hfToken : Bool) (h : Host) : WorkerEvent → Host
  | .sync db req now =>
    match syncWorker sha256Hex db (req.sentBy h) now with
    | .ok (_, commands) => h.reconcile commands
    | .error _ => h
  | .move e => h.move hfToken e

/-- The tables of a Sync have the instance on this worker, to run at this generation; commands come
from Syncs; the container does not exit; a new worker process gets its listing. -/
def LetsRun (w id : Uuid) (g : ℕ) : WorkerEvent → Prop
  | .sync db req _ => (db.instances.map (·.id)).Nodup ∧ req.workerId = some w ∧
      ∃ i, RowOf db w i ∧ i.id = id ∧ i.desiredState = .running ∧ i.generation = g
  | .move (.exit j) => j ≠ id
  | .move (.restart listOk) => listOk = true
  | .move (.reconcile _) | .move .crash => False
  | .move _ => True

/-! ### The invariant -/

/-- The container is there, the worker has its generation and has not stopped it, and no command
for it waits. -/
structure Untouched (id : Uuid) (g : ℕ) (k : Container) (h : Host) : Prop where
  container : h.containers.get? id = some k
  entry : ∃ t, h.instances.get? id = some t ∧ g ≤ t.generation ∧ t.state ≠ .stopped
  queue : ∀ c ∈ h.queued, c.instanceId ≠ id

/-- The instance is reported running, and no probe of it runs or is due. -/
structure RunsUnwatched (id : Uuid) (h : Host) : Prop where
  entry : ∃ t, h.instances.get? id = some t ∧ t.state = .running
  probes : id ∉ h.probeTasks
  pending : ∀ p ∈ h.pendingProbes, p.1 ≠ id

section Turn

variable {sha256Hex : String → String} {hfToken : Bool} {w id : Uuid} {g : ℕ} {k : Container}
  {h : Host}

/-- Of the commands that wait, each waited before or has just come. -/
theorem mem_queued_reconcile {commands : List Command} {c : Command}
    (hc : c ∈ (h.reconcile commands).queued) : c ∈ h.queued ∨ c ∈ commands := by
  have hpending : ∀ (cs : List Command) (p : Dict Uuid Command),
      c ∈ (cs.foldl (fun p c => p.set c.instanceId c) p).values → c ∈ p.values ∨ c ∈ cs := by
    intro cs
    induction cs with
    | nil => exact fun p hc => Or.inl hc
    | cons c' cs ih =>
      intro p hc
      rcases ih _ hc with hc | hc
      · obtain ⟨⟨key, v⟩, he, rfl⟩ := List.mem_map.mp hc
        rw [Dict.mem_entries_iff, Dict.get?_set] at he
        split at he
        · exact Or.inr (Option.some.inj he ▸ List.mem_cons_self)
        · rw [← Dict.mem_entries_iff] at he
          exact Or.inl (List.mem_map.mpr ⟨(key, v), he, rfl⟩)
      · exact Or.inr (List.mem_cons_of_mem _ hc)
  rcases Host.reconcile_cases h commands with ⟨-, heq⟩ | ⟨-, heq⟩
  · rw [heq, Host.queued, List.mem_append] at hc
    refine hc.symm.imp (fun hc => List.mem_append_right _ hc) fun hc => ?_
    exact (List.perm_insertionSort _ _).mem_iff.mp hc
  · rw [heq, Host.queued, List.mem_append] at hc
    rcases hc with hc | hc
    · exact Or.inl (List.mem_append_left _ hc)
    · exact (hpending commands h.pending hc).imp_left fun hc => List.mem_append_right _ hc

/-- The end of a batch makes no commands. -/
theorem mem_queued_endBatch {o : SweepOutcome} {c : Command} (hc : c ∈ (h.endBatch o).queued) :
    c ∈ h.queued := by
  obtain ⟨hpending, -, hbatch⟩ := endBatch_queue o h
  rw [Host.queued, hpending, List.mem_append] at hc
  rcases hc with hc | hc
  · rcases hbatch with hnone | ⟨b, hsome, hperm⟩
    · rw [hnone] at hc
      exact absurd hc List.not_mem_nil
    · rw [hsome] at hc
      exact List.mem_append_right _ (hperm.mem_iff.mp hc)
  · exact absurd hc List.not_mem_nil

/-- A Sync has no command for an instance that the worker has at its generation. -/
theorem silent_of_untouched (hu : Untouched id g k h) {db db' : Db} {req : SyncRequest} {now : ℕ}
    {commands : List Command} (hlets : LetsRun w id g (.sync db req now))
    (hsync : syncWorker sha256Hex db (req.sentBy h) now = .ok (db', commands)) :
    ∀ c ∈ commands, c.instanceId ≠ id := by
  obtain ⟨hids, hreq, i, hi, hiid, hdes, hgen⟩ := hlets
  obtain ⟨rfl, hcommands, -⟩ := sync_spec hreq hsync
  obtain ⟨hid', hdes', hgen'⟩ := applyStatuses_wants (req.sentBy h) w i
  intro c hc hid
  rw [hcommands] at hc
  have hids' : ((storeReports db (req.sentBy h) w now).instances.map (·.id)).Nodup :=
    nodup_storeReports hids (req.sentBy h)
  have hi' : RowOf (storeReports db (req.sentBy h) w now) w (applyStatuses (req.sentBy h) w i) :=
    rowOf_storeReports.mpr ⟨i, hi, rfl⟩
  have hrow := command_of_row hids' hi' hc (hid.trans (hiid.symm.trans hid'.symm))
  rw [rowCommand_sentBy, hdes', hdes] at hrow
  obtain ⟨-, hneeds, -⟩ | ⟨hstop, -⟩ := hrow
  · obtain ⟨t, ht, hle, hstate⟩ := hu.entry
    rcases hneeds t (by rw [hid', hiid, ht]) with hlt | hstop
    · rw [hgen', hgen] at hlt
      omega
    · exact hstate hstop
  · cases hstop

/-- What any command but one of the instance leaves of it. -/
theorem Untouched.apply (hu : Untouched id g k h) {o : CallOutcome} {c : Command}
    {rest : List Command} (hbatch : h.batch = some (c :: rest)) :
    Untouched id g k { h.applyCommand hfToken o c with batch := some rest } := by
  have hcid : c.instanceId ≠ id := hu.queue c (by simp [Host.queued, hbatch])
  have htouch := Host.touchesOnly_applyDockerCommand hfToken (h.outcomeOn o c) o.stopOk h c
  refine ⟨(htouch.containers id hcid).trans hu.container, ?_, fun c' hc' => ?_⟩
  · obtain ⟨t, ht, hle, hstate⟩ := hu.entry
    exact ⟨t, (htouch.instances id hcid).trans ht, hle, hstate⟩
  · rw [Host.queued, List.mem_append] at hc'
    refine hu.queue c' ?_
    rw [Host.queued, hbatch, List.mem_append]
    refine hc'.imp (fun hc' => List.mem_cons_of_mem c hc') fun hc' => ?_
    have hpending : (h.applyCommand hfToken o c).pending = h.pending := htouch.pending
    rwa [← hpending]

/-- The sweep keeps what the worker tracks. -/
theorem Untouched.endBatch (hu : Untouched id g k h) (o : SweepOutcome) :
    Untouched id g k (h.endBatch o) := by
  obtain ⟨t, ht, hle, hstate⟩ := hu.entry
  refine ⟨?_, ⟨t, by rw [Host.endBatch_instances, ht], hle, hstate⟩,
    fun c hc => hu.queue c (mem_queued_endBatch hc)⟩
  rw [Host.endBatch_containers, Host.get?_sweep_of_tracked ht]
  exact hu.container

/-- A probe has ended, or was none of an instance that is probed. -/
def ProbeEnds (h : Host) (j : Uuid) (h' : Host) : Prop :=
  h' = h ∨ j ∈ h.probeTasks ∧ ∃ f : Tracked → Tracked,
    h' = { h.cancelProbe j with instances := h.instances.modify j f } ∧
      ∀ t, (f t).generation = t.generation ∧ (f t).state ≠ .stopped

/-- A probe may find the instance up or failed; it does not stop it. -/
theorem Untouched.probe (hu : Untouched id g k h) {j : Uuid} {h' : Host}
    (hp : ProbeEnds h j h') : Untouched id g k h' := by
  obtain rfl | ⟨-, f, rfl, hf⟩ := hp
  · exact hu
  refine ⟨hu.container, ?_, hu.queue⟩
  obtain ⟨t, ht, hle, hstate⟩ := hu.entry
  by_cases hj : j = id
  · subst hj
    refine ⟨f t, ?_, by rw [(hf t).1]; exact hle, (hf t).2⟩
    simp only [Dict.get?_modify, if_true, ht]
    rfl
  · exact ⟨t, (Dict.get?_modify_of_ne _ _ hj).trans ht, hle, hstate⟩

/-- A new worker process finds the container, and the generation on its label. -/
theorem Untouched.adopt (hrun : k.running = true) (hgen : g ≤ k.generation)
    (hk : h.containers.get? id = some k) : Untouched id g k h.adoptExisting := by
  refine ⟨hk, ⟨Host.adopted k, ?_, hgen, ?_⟩, fun c hc => ?_⟩
  · rw [← Dict.mem_entries_iff]
    exact List.mem_map.mpr ⟨(id, k), (Dict.mem_entries_iff _ _ _).mpr hk, rfl⟩
  · simp [Host.adopted, hrun]
  · simp [Host.queued, Host.adoptExisting, Dict.values, Dict.empty] at hc

/-- **No event touches the container.** -/
theorem untouched_turn (hrun : k.running = true) (hgen : g ≤ k.generation)
    (hu : Untouched id g k h) {e : WorkerEvent} (he : LetsRun w id g e) :
    Untouched id g k (h.turn sha256Hex hfToken e) := by
  cases e with
  | sync db req now =>
    unfold Host.turn
    simp only
    split
    · rename_i db' commands hsync
      have hsilent := silent_of_untouched hu he hsync
      refine ⟨by rw [Host.reconcile_containers]; exact hu.container,
        by rw [Host.reconcile_instances]; exact hu.entry, fun c hc => ?_⟩
      exact (mem_queued_reconcile hc).elim (hu.queue c) (hsilent c)
    · exact hu
  | move e =>
    change Untouched id g k (h.move hfToken e)
    cases e with
    | reconcile commands => exact he.elim
    | apply o =>
      rcases Host.move_apply_cases hfToken h o with heq | ⟨c, rest, hbatch, heq⟩
      · rwa [heq]
      · rw [heq]
        exact hu.apply hbatch
    | finish o =>
      rcases Host.move_finish_cases hfToken h o with heq | ⟨-, heq⟩
      · rwa [heq]
      · rw [heq]
        exact hu.endBatch o
    | inspect j => exact hu.probe (inspect_cases h j)
    | ready j => exact hu.probe (probe_cases h j true)
    | deadline j => exact hu.probe (probe_cases h j false)
    | exit j =>
      refine ⟨?_, hu.entry, hu.queue⟩
      exact (Dict.get?_modify_of_ne _ _ he).trans hu.container
    | crash => exact he.elim
    | restart listOk =>
      obtain rfl : listOk = true := he
      exact .adopt hrun hgen hu.container

/-! ### What is reported -/

/-- **A new worker process reports the container running**, whatever the old one made of it. -/
theorem runsUnwatched_restart (hrun : k.running = true) (hk : h.containers.get? id = some k) :
    RunsUnwatched id (h.restart true) := by
  refine ⟨⟨Host.adopted k, ?_, by simp [Host.adopted, hrun]⟩, List.not_mem_nil,
    fun p hp => (List.not_mem_nil hp).elim⟩
  rw [← Dict.mem_entries_iff]
  exact List.mem_map.mpr ⟨(id, k), (Dict.mem_entries_iff _ _ _).mpr hk, rfl⟩

/-- A probe that ends is one of another instance. -/
theorem RunsUnwatched.probe (hr : RunsUnwatched id h) {j : Uuid} {h' : Host}
    (hp : ProbeEnds h j h') : RunsUnwatched id h' := by
  obtain rfl | ⟨hj, f, rfl, -⟩ := hp
  · exact hr
  have hne : j ≠ id := fun heq => hr.probes (heq ▸ hj)
  obtain ⟨t, ht, hstate⟩ := hr.entry
  exact ⟨⟨t, (Dict.get?_modify_of_ne _ _ hne).trans ht, hstate⟩,
    fun hmem => hr.probes (List.mem_of_mem_filter hmem), hr.pending⟩

theorem runsUnwatched_turn (hrun : k.running = true) (hu : Untouched id g k h)
    (hr : RunsUnwatched id h) {e : WorkerEvent} (he : LetsRun w id g e) :
    RunsUnwatched id (h.turn sha256Hex hfToken e) := by
  cases e with
  | sync db req now =>
    unfold Host.turn
    simp only
    split
    · exact ⟨by rw [Host.reconcile_instances]; exact hr.entry,
        by rw [Host.reconcile_probeTasks]; exact hr.probes,
        by rw [Host.reconcile_pendingProbes]; exact hr.pending⟩
    · exact hr
  | move e =>
    change RunsUnwatched id (h.move hfToken e)
    cases e with
    | reconcile commands => exact he.elim
    | apply o =>
      rcases Host.move_apply_cases hfToken h o with heq | ⟨c, rest, hbatch, heq⟩
      · rwa [heq]
      · have hcid : c.instanceId ≠ id := hu.queue c (by simp [Host.queued, hbatch])
        obtain ⟨t, ht, hstate⟩ := hr.entry
        rw [heq]
        obtain ⟨hentry, hprobes⟩ := @entry_applyCommand hfToken o h c id hcid
        refine ⟨⟨t, hentry.trans ht, hstate⟩, fun hmem => hr.probes (hprobes id hmem), ?_⟩
        intro p hp
        rcases pendingProbes_applyCommand hfToken o h c with hsame | ⟨-, port, hmore⟩
        · exact hr.pending p (hsame ▸ hp)
        · rcases List.mem_append.mp (hmore ▸ hp) with hp | hp
          · exact hr.pending p hp
          · rw [List.mem_singleton.mp hp]
            exact hcid
    | finish o =>
      rcases Host.move_finish_cases hfToken h o with heq | ⟨-, heq⟩
      · rwa [heq]
      · rw [heq]
        obtain ⟨-, hpending, -⟩ := endBatch_queue o h
        refine ⟨by rw [Host.endBatch_instances]; exact hr.entry, fun hmem => ?_, ?_⟩
        · rcases mem_endBatch_probeTasks hmem with hmem | ⟨port, hp⟩
          · exact hr.probes hmem
          · exact hr.pending _ hp rfl
        · rw [hpending]
          exact fun p hp => (List.not_mem_nil hp).elim
    | inspect j => exact hr.probe (inspect_cases h j)
    | ready j => exact hr.probe (probe_cases h j true)
    | deadline j => exact hr.probe (probe_cases h j false)
    | exit j => exact ⟨hr.entry, hr.probes, hr.pending⟩
    | crash => exact he.elim
    | restart listOk =>
      obtain rfl : listOk = true := he
      exact runsUnwatched_restart hrun hu.container

/-! ### Runs -/

theorem untouched_exec (hrun : k.running = true) (hgen : g ≤ k.generation)
    (hu : Untouched id g k h) {es : List WorkerEvent} (hes : ∀ e ∈ es, LetsRun w id g e) :
    Untouched id g k (exec (Host.turn sha256Hex hfToken) h es) :=
  invariant_of_conforms (Untouched id g k) (fun _ _ hu he => untouched_turn hrun hgen hu he) es h hu
    (conforms_of_forall hes)

theorem runsUnwatched_exec (hrun : k.running = true) (hgen : g ≤ k.generation)
    (hu : Untouched id g k h) (hr : RunsUnwatched id h) {es : List WorkerEvent}
    (hes : ∀ e ∈ es, LetsRun w id g e) :
    RunsUnwatched id (exec (Host.turn sha256Hex hfToken) h es) :=
  (invariant_of_conforms (fun h => Untouched id g k h ∧ RunsUnwatched id h)
    (fun _ _ hinv he => ⟨untouched_turn hrun hgen hinv.1 he,
      runsUnwatched_turn hrun hinv.1 hinv.2 he⟩) es h ⟨hu, hr⟩ (conforms_of_forall hes)).2

/-- After a restart of the worker process the instance is reported running for good. -/
theorem runsUnwatched_of_restart (hrun : k.running = true) (hgen : g ≤ k.generation)
    (hu : Untouched id g k h) {es : List WorkerEvent} (hes : ∀ e ∈ es, LetsRun w id g e)
    (hmem : .move (.restart true) ∈ es) :
    RunsUnwatched id (exec (Host.turn sha256Hex hfToken) h es) := by
  obtain ⟨bs, cs, rfl⟩ := List.append_of_mem hmem
  have hbefore : Untouched id g k (exec (Host.turn sha256Hex hfToken) h bs) :=
    untouched_exec hrun hgen hu fun e he => hes e (List.mem_append_left _ he)
  rw [exec_append, exec_cons]
  exact runsUnwatched_exec hrun hgen (untouched_turn hrun hgen hbefore (hes _ hmem))
    (runsUnwatched_restart hrun hbefore.container)
    fun e he => hes e (List.mem_append_right _ (List.mem_cons_of_mem _ he))

end Turn

/-- **A container that runs is left alone.**  Let a worker have a container running at the
generation that its row wants, and no command for it waiting.  Then through any run of Syncs against
tables that may change in every way but for this wish, of batches for other instances with any
outcome of any Docker call, of probes, and of new worker processes, no command for it is ever
queued and the container stays.  Every Sync is silent about it; and once a new worker process has
started, or if the instance was reported running with its probe done, every Sync finds its row
`running`. -/
theorem running_left_alone (sha256Hex : String → String) (hfToken : Bool) (w id : Uuid) (g : ℕ)
    (k : Container) (hrun : k.running = true) (hgen : g ≤ k.generation) (h : Host)
    (hu : Untouched id g k h) (es : List WorkerEvent) (hes : ∀ e ∈ es, LetsRun w id g e) :
    let h' := exec (Host.turn sha256Hex hfToken) h es
    Untouched id g k h' ∧
      ∀ db db' req now commands, LetsRun w id g (.sync db req now) →
        syncWorker sha256Hex db (req.sentBy h') now = .ok (db', commands) →
        (∀ c ∈ commands, c.instanceId ≠ id) ∧
          (RunsUnwatched id h ∨ .move (.restart true) ∈ es →
            ∃ i, RowOf db' w i ∧ i.id = id ∧ i.state = .running) := by
  intro h'
  have hu' : Untouched id g k h' := untouched_exec hrun hgen hu hes
  refine ⟨hu', fun db db' req now commands hlets hsync => ⟨silent_of_untouched hu' hlets hsync, ?_⟩⟩
  intro hwatch
  have hr' : RunsUnwatched id h' := hwatch.elim
    (fun hr => runsUnwatched_exec hrun hgen hu hr hes)
    fun hmem => runsUnwatched_of_restart hrun hgen hu hes hmem
  obtain ⟨t, ht, hstate⟩ := hr'.entry
  obtain ⟨-, hreq, i, hi, hid, -⟩ := hlets
  obtain ⟨rfl, -, -⟩ := sync_spec hreq hsync
  subst hid
  refine ⟨applyStatuses (req.sentBy h') w i, rowOf_storeReports.mpr ⟨i, hi, rfl⟩,
    (applyStatuses_wants (req.sentBy h') w i).1, ?_⟩
  rw [state_applyStatuses_sentBy hi.2 ht, hstate]

/-- A fresh replica is up; the worker process is killed and started again, and syncs. -/
def patientRun : List WorkerEvent :=
  [.move (.restart true), .sync deployedDb sampleRequest 8, .move (.finish {}), .move (.deadline 3)]

/-- The next Sync is silent and finds the replica running. -/
theorem running_left_alone_patientRun :
    let h := exec (Host.turn id false) startedHost patientRun
    h.containers.get? 3 = some ⟨true, 1, 8010, some 8010⟩ ∧
      ∃ db', deployedAnswer h = .ok (db', []) ∧ ∃ i, RowOf db' 1 i ∧ i.id = 3 ∧ i.state = .running := by
  intro h
  have hstart : Untouched 3 1 ⟨true, 1, 8010, some 8010⟩ startedHost := by
    refine ⟨by decide +kernel, ⟨⟨.running, 8010, 1, none, ""⟩, ?_⟩, ?_⟩ <;> decide +kernel
  have hwant : ∃ i, RowOf deployedDb 1 i ∧ i.id = 3 ∧ i.desiredState = .running ∧
      i.generation = 1 := by
    obtain ⟨i, hi, hid, hdes, hgen, -⟩ := wanted_deployedDb
    exact ⟨i, hi, hid, hdes, hgen⟩
  have hsync : ∀ now, LetsRun 1 3 1 (.sync deployedDb sampleRequest now) :=
    fun now => ⟨by decide +kernel, rfl, hwant⟩
  obtain ⟨hend, hlast⟩ := running_left_alone id false 1 3 1 ⟨true, 1, 8010, some 8010⟩ rfl le_rfl
    startedHost hstart patientRun (by
      intro e he
      fin_cases he
      · rfl
      · exact hsync 8
      · trivial
      · trivial)
  have hsilent : (deployedAnswer h).toOption.map (·.2) = some [] := by decide +kernel
  obtain ⟨db', hanswer⟩ := exists_answer hsilent
  exact ⟨hend.container, db', hanswer,
    (hlast deployedDb db' sampleRequest 7 [] (hsync 7) hanswer).2 (Or.inr List.mem_cons_self)⟩

/-! ### A listing that fails -/

/-- **A start of an instance the worker has lost sight of fails**, whatever Docker does: the name is
in use.  The container goes on, and the generation is taken for failed. -/
theorem untracked_start_fails (hfToken : Bool) (o : CallOutcome) (h : Host) (id : Uuid) (g : ℕ)
    (config : EngineConfig) {k : Container} (hk : h.containers.get? id = some k)
    (hnone : h.instances.get? id = none) :
    (h.applyCommand hfToken o ⟨id, .start, g, some config⟩).containers.get? id = some k ∧
      ∃ t, (h.applyCommand hfToken o ⟨id, .start, g, some config⟩).instances.get? id = some t ∧
        t.state = .error ∧ t.generation = g := by
  have hold : ∀ ok, h.removeOld id ok = h := by
    intro ok
    unfold Host.removeOld
    simp [hnone]
  have htaken : (h.outcomeOn o ⟨id, .start, g, some config⟩).createOk = false := by
    simp [Host.outcomeOn, Host.nameFree, hold, hk]
  have hpull : ∀ (h : Host) engine, (h.pull engine).containers = h.containers := by
    intro h engine
    unfold Host.pull
    split <;> rfl
  -- every way the start can end is an error
  unfold Host.applyCommand Host.applyDockerCommand Host.startSync
  simp only [hnone, alreadyApplied, hold, htaken, Option.any_none, Bool.false_eq_true, if_false]
  split_ifs
  · exact ⟨hk, _, Dict.get?_set_self _ _ _, rfl, rfl⟩
  · exact ⟨hk, _, Dict.get?_set_self _ _ _, rfl, rfl⟩
  · exact ⟨hk, _, Dict.get?_set_self _ _ _, rfl, rfl⟩
  · refine ⟨?_, _, Dict.get?_set_self _ _ _, rfl, rfl⟩
    show ((h.cancelProbe id).pull config.engine).containers.get? id = some k
    rw [hpull]
    exact hk

end Inferna
