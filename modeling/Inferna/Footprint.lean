import Inferna.Moves

/-!
# What a worker holds for an instance

A worker can hold something for an instance in three places: the manager's entry,
the container, and a start command that is still queued.  A footprint is a
property of such things that the worker's own moves never create: it enters a
worker only with the commands of a Sync.

## Main definitions

* `Host.queued` — the commands of the running batch and the pending ones.
* `Footprint`, `Footprint.On` — a property of entries, containers and commands,
  and that a worker holds such a thing for an instance.

## Main results

* `on_applyNext`, `on_probeResult`, `on_containerExit`, `on_adoptExisting` — the
  worker's moves add nothing to a footprint.
* `on_reconcile` — a Sync adds what is in its commands.
* `on_next` — **what a step adds to a footprint.**
-/

namespace Inferna

/-- The commands a worker has still to apply. -/
def Host.queued (h : Host) : List Command := h.batch.getD [] ++ h.pending.values

/-- A property of the manager's entries, of containers and of commands, such that
what a command or a restart of the worker makes has it only if the source had. -/
structure Footprint where
  tracked : Tracked → Prop
  container : Container → Prop
  command : Command → Prop
  /-- The state and the detail of an entry do not matter. -/
  tracked_of_state : ∀ (t : Tracked) (s : InstanceState) (d : String),
    tracked { t with state := s, detail := d } → tracked t
  /-- A container that goes down gains nothing. -/
  container_of_down : ∀ c : Container, container { c with running := false } → container c
  /-- An adopted entry has it from its container. -/
  container_of_adopted : ∀ c : Container, tracked (Host.adopted c) → container c
  /-- A new container has it from its start command. -/
  command_of_container : ∀ (c : Command) (config : EngineConfig) (ok : Bool), c.action = .start →
    c.config = some config →
    container ⟨ok, c.generation, config.port, config.published⟩ → command c
  /-- A new entry has it from its start command. -/
  command_of_tracked : ∀ (c : Command) (s : InstanceState) (rank : Option ℕ) (d : String),
    c.action = .start →
    tracked ⟨s, (c.config.map (·.port)).getD 0, c.generation, rank, d⟩ → command c

/-- A start command of a Sync is made from a row that is to run on the worker. -/
theorem start_mem_buildCommands {db : Db} {req : SyncRequest} {w : Uuid} {c : Command}
    (hc : c ∈ buildCommands db req w) (hstart : c.action = .start) :
    ∃ i ∈ db.instances, i.workerId = some w ∧ i.desiredState = .running ∧ c.instanceId = i.id ∧
      c.config = some (engineConfig db i) := by
  unfold buildCommands at hc
  rcases List.mem_append.mp hc with hc | hc
  · obtain ⟨i, hi, hrow⟩ := List.mem_filterMap.mp hc
    rw [List.mem_filter, decide_eq_true_eq] at hi
    unfold rowCommand at hrow
    dsimp only at hrow
    split at hrow
    · rename_i hdes
      split at hrow
      · injection hrow with hrow
        subst hrow
        exact ⟨i, hi.1, hi.2, hdes, rfl, rfl⟩
      · cases hrow
    · split at hrow
      · split at hrow
        · injection hrow with hrow
          subst hrow
          cases hstart
        · cases hrow
      · cases hrow
  · obtain ⟨st, _, rfl⟩ := List.mem_map.mp hc
    cases hstart

namespace Footprint

variable (f : Footprint)

/-- The worker holds something with the footprint for the instance. -/
def On (h : Host) (id : Uuid) : Prop :=
  (∃ t, h.instances.get? id = some t ∧ f.tracked t) ∨
    (∃ c, h.containers.get? id = some c ∧ f.container c) ∨
      ∃ c ∈ h.queued, c.instanceId = id ∧ f.command c

variable {f} {h : Host} {id : Uuid}

/-! ### The pieces of a start -/

theorem on_recordError {i : Uuid} {config : EngineConfig} {generation : ℕ} {detail : String}
    (hon : f.On (h.recordError i config generation detail) id) :
    f.On h id ∨ (i = id ∧ f.tracked ⟨.error, config.port, generation, none, detail⟩) := by
  rcases hon with ⟨t, ht, hf⟩ | hc | hq
  · simp only [Host.recordError, Dict.get?_set] at ht
    split at ht
    · rename_i heq
      injection ht with ht
      exact Or.inr ⟨heq, ht ▸ hf⟩
    · exact Or.inl (Or.inl ⟨t, ht, hf⟩)
  · exact Or.inl (Or.inr (Or.inl hc))
  · exact Or.inl (Or.inr (Or.inr hq))

theorem on_removeOld {i : Uuid} {ok : Bool} (hon : f.On (h.removeOld i ok) id) : f.On h id := by
  unfold Host.removeOld at hon
  split at hon
  · rcases hon with ht | ⟨c, hc, hf⟩ | hq
    · exact Or.inl ht
    · simp only [Dict.get?_erase] at hc
      split at hc
      · cases hc
      · exact Or.inr (Or.inl ⟨c, hc, hf⟩)
    · exact Or.inr (Or.inr hq)
  · exact hon

theorem on_cancelProbe {i : Uuid} : f.On (h.cancelProbe i) id ↔ f.On h id := Iff.rfl

theorem on_pull {e : Engine} : f.On (h.pull e) id ↔ f.On h id := by
  unfold Host.pull
  split <;> exact Iff.rfl

theorem on_launch {i : Uuid} {config : EngineConfig} {generation : ℕ} {ok : Bool}
    (hon : f.On (h.launch i config generation ok) id) :
    f.On h id ∨ (i = id ∧ (f.container ⟨ok, generation, config.port, config.published⟩ ∨
      ∃ s rank d, f.tracked ⟨s, config.port, generation, rank, d⟩)) := by
  have hcontainer : ∀ c, (h.containers.set i ⟨ok, generation, config.port,
      config.published⟩).get? id = some c → f.container c →
      f.On h id ∨ (i = id ∧ f.container ⟨ok, generation, config.port, config.published⟩) := by
    intro c hc hf
    rw [Dict.get?_set] at hc
    split at hc
    · rename_i heq
      injection hc with hc
      exact Or.inr ⟨heq, hc ▸ hf⟩
    · exact Or.inl (Or.inr (Or.inl ⟨c, hc, hf⟩))
  have htracked : ∀ s rank d t, (h.instances.set i ⟨s, config.port, generation, rank, d⟩).get? id =
      some t → f.tracked t →
      f.On h id ∨ (i = id ∧ f.tracked ⟨s, config.port, generation, rank, d⟩) := by
    intro s rank d t ht hf
    rw [Dict.get?_set] at ht
    split at ht
    · rename_i heq
      injection ht with ht
      exact Or.inr ⟨heq, ht ▸ hf⟩
    · exact Or.inl (Or.inl ⟨t, ht, hf⟩)
  unfold Host.launch at hon
  dsimp only at hon
  split at hon
  · rcases hon with ⟨t, ht, hf⟩ | ⟨c, hc, hf⟩ | hq
    · rcases htracked _ _ _ t ht hf with h' | ⟨heq, hf'⟩
      · exact Or.inl h'
      · exact Or.inr ⟨heq, Or.inr ⟨_, _, _, hf'⟩⟩
    · rcases hcontainer c hc hf with h' | ⟨heq, hf'⟩
      · exact Or.inl h'
      · exact Or.inr ⟨heq, Or.inl hf'⟩
    · exact Or.inl (Or.inr (Or.inr hq))
  · rcases on_recordError hon with hon | ⟨heq, hf⟩
    · rcases hon with ht | ⟨c, hc, hf⟩ | hq
      · exact Or.inl (Or.inl ht)
      · rcases hcontainer c hc hf with h' | ⟨heq, hf'⟩
        · exact Or.inl h'
        · exact Or.inr ⟨heq, Or.inl hf'⟩
      · exact Or.inl (Or.inr (Or.inr hq))
    · exact Or.inr ⟨heq, Or.inr ⟨_, _, _, hf⟩⟩

/-- A start leaves what it found, or what its command brought. -/
theorem on_startSync {hfToken : Bool} {o : StartOutcome} {i : Uuid} {generation : ℕ}
    {config : EngineConfig} (hon : f.On (h.startSync hfToken o i generation config) id) :
    f.On h id ∨ (i = id ∧ ((∃ ok, f.container ⟨ok, generation, config.port, config.published⟩) ∨
      ∃ s rank d, f.tracked ⟨s, config.port, generation, rank, d⟩)) := by
  have herror : ∀ detail, f.On (((h.removeOld i o.removeOk).cancelProbe i).recordError i config
      generation detail) id → f.On h id ∨ (i = id ∧
        ((∃ ok, f.container ⟨ok, generation, config.port, config.published⟩) ∨
          ∃ s rank d, f.tracked ⟨s, config.port, generation, rank, d⟩)) := by
    intro detail hon
    rcases on_recordError hon with hon | ⟨heq, hf⟩
    · exact Or.inl (on_removeOld (on_cancelProbe.mp hon))
    · exact Or.inr ⟨heq, Or.inr ⟨_, _, _, hf⟩⟩
  unfold Host.startSync at hon
  dsimp only at hon
  split at hon
  · exact Or.inl hon
  split at hon
  · rcases on_recordError hon with hon | ⟨heq, hf⟩
    · exact Or.inl (on_removeOld hon)
    · exact Or.inr ⟨heq, Or.inr ⟨_, _, _, hf⟩⟩
  split at hon
  · exact herror _ hon
  split at hon
  · exact herror _ hon
  split at hon
  · rcases on_launch hon with hon | ⟨heq, hf | hf⟩
    · exact Or.inl (on_removeOld (on_cancelProbe.mp (on_pull.mp hon)))
    · exact Or.inr ⟨heq, Or.inl ⟨_, hf⟩⟩
    · exact Or.inr ⟨heq, Or.inr hf⟩
  · rcases on_recordError hon with hon | ⟨heq, hf⟩
    · exact Or.inl (on_removeOld (on_cancelProbe.mp (on_pull.mp hon)))
    · exact Or.inr ⟨heq, Or.inr ⟨_, _, _, hf⟩⟩

/-! ### Commands and batches -/

/-- An entry whose state was rewritten. -/
theorem on_of_modify {h' : Host} {i : Uuid} {g : Tracked → Tracked} (hon : f.On h' id)
    (hg : ∀ t, ∃ s d, g t = { t with state := s, detail := d })
    (hinst : h'.instances = h.instances.modify i g)
    (hcont : ∀ c, h'.containers.get? id = some c → f.container c → f.On h id)
    (hqueue : h'.queued = h.queued) : f.On h id := by
  rcases hon with ⟨t, ht, hf⟩ | ⟨c, hc, hf⟩ | hq
  · rw [hinst, Dict.get?_modify] at ht
    split at ht
    · cases ht' : h.instances.get? id with
      | none => rw [ht'] at ht; cases ht
      | some t' =>
        rw [ht'] at ht
        injection ht with ht
        obtain ⟨s, d, hgt⟩ := hg t'
        rw [← ht, hgt] at hf
        exact Or.inl ⟨t', ht', f.tracked_of_state t' s d hf⟩
    · exact Or.inl ⟨t, ht, hf⟩
  · exact hcont c hc hf
  · rw [hqueue] at hq
    exact Or.inr (Or.inr hq)

theorem on_stopSync {ok : Bool} {i : Uuid} (hon : f.On (h.stopSync ok i) id) : f.On h id := by
  refine on_of_modify hon (fun t => ⟨.stopped, "", rfl⟩) rfl ?_ rfl
  intro c hc hf
  unfold Host.stopSync at hc
  dsimp only at hc
  split at hc
  · rw [Dict.get?_modify] at hc
    split at hc
    · cases hc' : h.containers.get? id with
      | none => simp [Host.cancelProbe, hc'] at hc
      | some c' =>
        simp only [Host.cancelProbe, hc', Option.map_some, Option.some.injEq] at hc
        rw [← hc] at hf
        exact Or.inr (Or.inl ⟨c', hc', f.container_of_down c' hf⟩)
    · exact Or.inr (Or.inl ⟨c, hc, hf⟩)
  · exact Or.inr (Or.inl ⟨c, hc, hf⟩)

theorem on_deleteSync {ok : Bool} {i : Uuid} (hon : f.On (h.deleteSync ok i) id) : f.On h id := by
  rcases hon with ⟨t, ht, hf⟩ | ⟨c, hc, hf⟩ | hq
  · simp only [Host.deleteSync, Host.cancelProbe, Dict.get?_erase] at ht
    split at ht
    · cases ht
    · exact Or.inl ⟨t, ht, hf⟩
  · simp only [Host.deleteSync, Host.cancelProbe] at hc
    split at hc
    · rw [Dict.get?_erase] at hc
      split at hc
      · cases hc
      · exact Or.inr (Or.inl ⟨c, hc, hf⟩)
    · exact Or.inr (Or.inl ⟨c, hc, hf⟩)
  · exact Or.inr (Or.inr hq)

theorem on_applyDockerCommand {hfToken : Bool} {o : StartOutcome} {ok : Bool} {c : Command}
    (hon : f.On (h.applyDockerCommand hfToken o ok c) id) :
    f.On h id ∨ (c.instanceId = id ∧ f.command c) := by
  unfold Host.applyDockerCommand at hon
  split at hon
  · rename_i config haction hconfig
    rcases on_startSync hon with hon | ⟨heq, ⟨ok', hf⟩ | ⟨s, rank, d, hf⟩⟩
    · exact Or.inl hon
    · exact Or.inr ⟨heq, f.command_of_container c config ok' haction hconfig hf⟩
    · refine Or.inr ⟨heq, f.command_of_tracked c s rank d haction ?_⟩
      rwa [hconfig]
  · rename_i haction hconfig
    rcases hon with ⟨t, ht, hf⟩ | hc | hq
    · simp only [Dict.get?_set] at ht
      split at ht
      · rename_i heq
        injection ht with ht
        refine Or.inr ⟨heq, f.command_of_tracked c .error none "" haction ?_⟩
        rw [hconfig]
        exact ht ▸ hf
      · exact Or.inl (Or.inl ⟨t, ht, hf⟩)
    · exact Or.inl (Or.inr (Or.inl hc))
    · exact Or.inl (Or.inr (Or.inr hq))
  · exact Or.inl (on_stopSync hon)
  · exact Or.inl (on_deleteSync hon)

theorem on_startBatch {commands : List Command} (hon : f.On (h.startBatch commands) id) :
    f.On h id ∨ ∃ c ∈ commands, c.instanceId = id ∧ f.command c := by
  rcases hon with ht | hc | ⟨c, hc, hid, hf⟩
  · exact Or.inl (Or.inl ht)
  · exact Or.inl (Or.inr (Or.inl hc))
  · simp only [Host.queued, Host.startBatch, Option.getD_some, List.mem_append] at hc
    rcases hc with hc | hc
    · rw [(List.perm_insertionSort _ _).mem_iff] at hc
      exact Or.inr ⟨c, hc, hid, hf⟩
    · exact Or.inl (Or.inr (Or.inr ⟨c, List.mem_append_right _ hc, hid, hf⟩))

theorem on_removeStale (hon : f.On h.removeStale id) : f.On h id := by
  rcases hon with ht | ⟨c, hc, hf⟩ | hq
  · exact Or.inl ht
  · rw [← Dict.mem_entries_iff] at hc
    have hmem := List.mem_of_mem_filter hc
    rw [Dict.mem_entries_iff] at hmem
    exact Or.inr (Or.inl ⟨c, hmem, hf⟩)
  · exact Or.inr (Or.inr hq)

theorem on_finishBatch (hon : f.On h.finishBatch id) : f.On h id := by
  -- whatever the sweep and the probes leave was there before
  have hswept : f.On h.removeStale.scheduleProbes id → f.On h id := fun h' => on_removeStale h'
  unfold Host.finishBatch at hon
  dsimp only at hon
  split at hon
  · rcases hon with ht | hc | ⟨c, hc, hid, hf⟩
    · exact hswept (Or.inl ht)
    · exact hswept (Or.inr (Or.inl hc))
    · exact hswept (Or.inr (Or.inr ⟨c, List.mem_append_right _ (by simpa [Host.queued] using hc),
        hid, hf⟩))
  · rcases on_startBatch hon with hon | ⟨c, hc, hid, hf⟩
    · rcases hon with ht | hc | ⟨c, hc, hid, hf⟩
      · exact hswept (Or.inl ht)
      · exact hswept (Or.inr (Or.inl hc))
      · simp only [Host.queued, List.mem_append] at hc
        rcases hc with hc | hc
        · exact hswept (Or.inr (Or.inr ⟨c, List.mem_append_left _ hc, hid, hf⟩))
        · exact absurd hc List.not_mem_nil
    · exact hswept (Or.inr (Or.inr ⟨c, List.mem_append_right _ hc, hid, hf⟩))

/-- **A batch adds nothing**: what it makes came with its commands. -/
theorem on_applyNext {hfToken : Bool} (hon : f.On (h.applyNext hfToken).1 id) : f.On h id := by
  unfold Host.applyNext at hon
  split at hon
  · exact hon
  · exact on_finishBatch hon
  · rename_i c rest hbatch
    have hkeep := fun o => Host.touchesOnly_applyDockerCommand hfToken o true h c
    dsimp only at hon
    set o : StartOutcome := { startOk := !refusesStart h c } with ho
    have happlied : f.On (h.applyDockerCommand hfToken o true c) id → f.On h id := by
      intro hon
      rcases on_applyDockerCommand hon with hon | ⟨hid, hf⟩
      · exact hon
      · refine Or.inr (Or.inr ⟨c, ?_, hid, hf⟩)
        simp [Host.queued, hbatch]
    rcases hon with ht | hc | ⟨c', hc', hid, hf⟩
    · exact happlied (Or.inl ht)
    · exact happlied (Or.inr (Or.inl hc))
    · refine Or.inr (Or.inr ⟨c', ?_, hid, hf⟩)
      simp only [Host.queued, Option.getD_some, (hkeep o).pending, List.mem_append] at hc'
      rw [Host.queued, hbatch, Option.getD_some, List.mem_append, List.mem_cons]
      rcases hc' with hc' | hc'
      · exact Or.inl (Or.inr hc')
      · exact Or.inr hc'

theorem on_probeResult {i : Uuid} {ready : Bool} (hon : f.On (h.probeResult i ready) id) :
    f.On h id := by
  unfold Host.probeResult at hon
  split at hon
  · refine on_of_modify hon ?_ rfl (fun c hc hf => Or.inr (Or.inl ⟨c, hc, hf⟩)) rfl
    intro t
    cases ready
    · exact ⟨.error, "health probe timed out", rfl⟩
    · exact ⟨.running, "", rfl⟩
  · exact hon

theorem on_containerExit {i : Uuid} (hon : f.On (h.containerExit i) id) : f.On h id := by
  rcases hon with ht | ⟨c, hc, hf⟩ | hq
  · exact Or.inl ht
  · simp only [Host.containerExit, Dict.get?_modify] at hc
    split at hc
    · cases hc' : h.containers.get? id with
      | none => rw [hc'] at hc; cases hc
      | some c' =>
        rw [hc'] at hc
        injection hc with hc
        rw [← hc] at hf
        exact Or.inr (Or.inl ⟨c', hc', f.container_of_down c' hf⟩)
    · exact Or.inr (Or.inl ⟨c, hc, hf⟩)
  · exact Or.inr (Or.inr hq)

theorem on_adoptExisting (hon : f.On h.adoptExisting id) : f.On h id := by
  rcases hon with ⟨t, ht, hf⟩ | hc | ⟨c, hc, _⟩
  · rw [← Dict.mem_entries_iff] at ht
    obtain ⟨e, he, heq⟩ := List.mem_map.mp ht
    obtain ⟨i, c⟩ := e
    rw [Dict.mem_entries_iff] at he
    injection heq with h1 h2
    subst h1 h2
    exact Or.inr (Or.inl ⟨c, he, f.container_of_adopted c hf⟩)
  · exact Or.inr (Or.inl hc)
  · simp [Host.queued, Host.adoptExisting, Dict.values, Dict.empty] at hc

/-- **A Sync adds what is in its commands**, whether a batch runs or not. -/
theorem on_reconcile {commands : List Command} (hon : f.On (h.reconcile commands) id) :
    f.On h id ∨ ∃ c ∈ commands, c.instanceId = id ∧ f.command c := by
  unfold Host.reconcile at hon
  split at hon
  · rename_i batch hbatch
    have hmem : ∀ (cs : List Command) (p : Dict Uuid Command) (c : Command),
        c ∈ (cs.foldl (fun p c => p.set c.instanceId c) p).values → c ∈ p.values ∨ c ∈ cs := by
      intro cs
      induction cs with
      | nil => intro p c hc; exact Or.inl hc
      | cons c' cs ih =>
        intro p c hc
        rw [List.foldl_cons] at hc
        rcases ih _ c hc with hc | hc
        · obtain ⟨⟨k, v⟩, he, rfl⟩ := List.mem_map.mp hc
          rw [Dict.mem_entries_iff, Dict.get?_set] at he
          split at he
          · injection he with he
            exact Or.inr (he ▸ List.mem_cons_self)
          · rw [← Dict.mem_entries_iff] at he
            exact Or.inl (List.mem_map.mpr ⟨(k, v), he, rfl⟩)
        · exact Or.inr (List.mem_cons_of_mem _ hc)
    rcases hon with ht | hc | ⟨c, hc, hid, hf⟩
    · exact Or.inl (Or.inl ht)
    · exact Or.inl (Or.inr (Or.inl hc))
    · simp only [Host.queued, List.mem_append] at hc
      rcases hc with hc | hc
      · exact Or.inl (Or.inr (Or.inr ⟨c, List.mem_append_left _ hc, hid, hf⟩))
      · rcases hmem commands h.pending c hc with hc | hc
        · exact Or.inl (Or.inr (Or.inr ⟨c, List.mem_append_right _ hc, hid, hf⟩))
        · exact Or.inr ⟨c, hc, hid, hf⟩
  · exact on_startBatch hon

/-! ### Steps -/

/-- **What a step adds to a footprint**: only the commands of a stored Sync. -/
theorem on_next (env : Env) (wd : World) (a : Step) (w : Uuid)
    (hon : f.On ((wd.next env a).hosts w) id) :
    f.On (wd.hosts w) id ∨ ∃ now, a = .sync w now ∧ Synced env wd w now ∧
      ∃ c ∈ buildCommands (storeReports wd.db (wd.syncRequest env w) w now) (wd.syncRequest env w) w,
        c.instanceId = id ∧ f.command c := by
  -- a step that replaces one host leaves the others alone
  have hset : ∀ (v : Uuid) (h' : Host), (f.On h' id → f.On (wd.hosts v) id) →
      f.On (Function.update wd.hosts v h' w) id → f.On (wd.hosts w) id := by
    intro v h' himp hon
    by_cases hv : w = v
    · subst hv
      rw [Function.update_self] at hon
      exact himp hon
    · rwa [Function.update_of_ne hv] at hon
  cases a with
  | sync v now =>
    rcases sync_cases env wd v now with heq | hsync
    · rw [heq] at hon
      exact Or.inl hon
    · rw [hsync.2] at hon
      by_cases hv : w = v
      · subst hv
        rw [Function.update_self] at hon
        rcases on_reconcile hon with hon | hcmd
        · exact Or.inl hon
        · exact Or.inr ⟨now, rfl, hsync, hcmd⟩
      · rw [Function.update_of_ne hv] at hon
        exact Or.inl hon
  | applyNext v => exact Or.inl (hset v _ on_applyNext hon)
  | probe v i ready => exact Or.inl (hset v _ on_probeResult hon)
  | containerExit v i => exact Or.inl (hset v _ on_containerExit hon)
  | restartWorker v => exact Or.inl (hset v _ on_adoptExisting hon)
  | register req token now =>
    refine Or.inl ?_
    rcases register_cases env wd req token now with heq | ⟨db', v, -, -, heq⟩
    · rw [heq] at hon
      exact hon
    · rw [heq] at hon
      exact hon
  | autoscaleTick m clock now => exact Or.inl hon
  | deploy body now => exact Or.inl hon
  | scale i body now => exact Or.inl hon
  | setRange i body now => exact Or.inl hon
  | stop i => exact Or.inl hon
  | restart i => exact Or.inl hon
  | deleteInstance i => exact Or.inl hon
  | deleteDeployment i => exact Or.inl hon
  | markDisconnected now => exact Or.inl hon

end Footprint

end Inferna
