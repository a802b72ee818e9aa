import Inferna.Round

/-!
# Server and worker agree after one round

A Sync reports the registry and answers with commands; once the worker has applied them,
the next Sync has nothing left to say.  The rules of `sync_worker` and those of the manager
fit for every pair of a row and an entry, whatever Docker does with the calls.

A probe that outlived its container is the exception: it may turn an errored instance that
is to stop into a running one.

## Main definitions

* `Agreed` — the server has nothing to say, and the registry is what the rows want.
* `NoStrayProbe` — no probe watches an instance that is to stop and is not up.
* `mockReconcile`, `promote` — the worker in mock mode.

## Main results

* `establishes_sync` — what a Sync answers, row by row.
* `agree_after_round` — **server and worker agree after one round**, in mock mode always,
  in real mode exactly when there is no stray probe.
* `stray_probe_disagrees` — a probe left behind by a start that was refused.
-/

namespace Inferna

open Run

/-- The server has nothing to say, and the registry is what the rows want. -/
structure Agreed (sha256Hex : String → String) (db : Db) (req : SyncRequest) (w : Uuid) (h : Host) :
    Prop where
  silent : ∀ now, ∃ db', syncWorker sha256Hex db (req.sentBy h) now = .ok (db', [])
  running : ∀ i, RowOf db w i → i.desiredState = .running →
    ∃ t, h.instances.get? i.id = some t ∧ i.generation ≤ t.generation ∧ t.state ≠ .stopped
  stopped : ∀ i, RowOf db w i → i.desiredState = .stopped →
    ¬ h.reports i.id .starting ∧ ¬ h.reports i.id .running
  known : ∀ id t, h.instances.get? id = some t → ∃ i, RowOf db w i ∧ i.id = id

/-- No probe watches an instance that is to stop and is tracked but not up. -/
def NoStrayProbe (db : Db) (w : Uuid) (h : Host) : Prop :=
  ∀ i, RowOf db w i → i.desiredState = .stopped → i.id ∈ h.probeTasks →
    ∀ t, h.instances.get? i.id = some t → t.state = .starting ∨ t.state = .running

/-! ### The next Sync -/

/-- The rows of a worker after its reports were stored. -/
theorem rowOf_storeReports {db : Db} {req : SyncRequest} {w : Uuid} {now : ℕ} {j : Instance} :
    RowOf (storeReports db req w now) w j ↔ ∃ i, RowOf db w i ∧ applyStatuses req w i = j := by
  have hworker := applyStatuses_keeps (·.workerId) (fun _ _ => rfl) req w
  constructor
  · rintro ⟨hj, hw⟩
    obtain ⟨i, hi, rfl⟩ := List.mem_map.mp hj
    exact ⟨i, ⟨hi, (hworker i).symm.trans hw⟩, rfl⟩
  · rintro ⟨i, ⟨hi, hw⟩, rfl⟩
    exact ⟨List.mem_map_of_mem hi, (hworker i).trans hw⟩

/-- What the commands depend on stays as it is. -/
theorem applyStatuses_wants (req : SyncRequest) (w : Uuid) (i : Instance) :
    (applyStatuses req w i).id = i.id ∧ (applyStatuses req w i).desiredState = i.desiredState ∧
      (applyStatuses req w i).generation = i.generation :=
  ⟨applyStatuses_keeps (·.id) (fun _ _ => rfl) req w i,
    applyStatuses_keeps (·.desiredState) (fun _ _ => rfl) req w i,
    applyStatuses_keeps (·.generation) (fun _ _ => rfl) req w i⟩

/-- Storing reports does not change who may Sync. -/
theorem syncAuth_storeReports {sha256Hex : String → String} {db : Db} {req req' : SyncRequest}
    {v : Worker} (h : syncAuth sha256Hex db req = .ok v) (hid : req'.workerId = req.workerId)
    (htoken : req'.workerToken = req.workerToken) (stored : SyncRequest) (w : Uuid) (now : ℕ) :
    ∃ v', syncAuth sha256Hex (storeReports db stored w now) req' = .ok v' ∧ v'.id = v.id := by
  obtain ⟨id, hreq, hfind, hhash⟩ := syncAuth_eq_ok.mp h
  set f : Worker → Worker := fun x => if x.id = w then syncRow stored now x else x with hf
  have hsame : ∀ x, (f x).id = x.id ∧ (f x).tokenHash = x.tokenHash := by
    intro x
    simp only [hf]
    split <;> exact ⟨rfl, rfl⟩
  have hfind' : (storeReports db stored w now).findWorker id = some (f v) := by
    show (db.workers.map f).find? _ = _
    rw [List.find?_map]
    have hcomp : ((fun x : Worker => decide (x.id = id)) ∘ f) = fun x => decide (x.id = id) := by
      funext x
      simp only [Function.comp_apply, (hsame x).1]
    rw [hcomp]
    exact congrArg (Option.map f) hfind
  refine ⟨f v, syncAuth_eq_ok.mpr ⟨id, hid.trans hreq, hfind', ?_⟩, (hsame v).1⟩
  rw [(hsame v).2, htoken]
  exact hhash

/-- **A registry that is what the rows want leaves the server nothing to say.** -/
theorem silent_of_entries {sha256Hex : String → String} {db : Db} {req : SyncRequest} {v : Worker}
    {h : Host} (hauth : syncAuth sha256Hex db req = .ok v)
    (hrun : ∀ i, RowOf db v.id i → i.desiredState = .running →
      UpToDate i.generation (h.instances.get? i.id))
    (hstop : ∀ i, RowOf db v.id i → i.desiredState = .stopped →
      ¬ h.reports i.id .starting ∧ ¬ h.reports i.id .running)
    (hknown : ∀ id t, h.instances.get? id = some t → ∃ i, RowOf db v.id i ∧ i.id = id) (now : ℕ) :
    ∃ db', syncWorker sha256Hex db (req.sentBy h) now = .ok (db', []) := by
  have hvalid : db.instances.any (refusedState (req.sentBy h) v.id) = false := by
    rw [List.any_eq_false]
    intro i _
    unfold refusedState
    rw [reported_sentBy]
    cases h.instances.get? i.id <;> simp [statusOf, WireState.refused]
  have hnone : buildCommands (storeReports db (req.sentBy h) v.id now) (req.sentBy h) v.id = [] := by
    rw [List.eq_nil_iff_forall_not_mem]
    intro c hc
    rcases command_cases.mp hc with ⟨j, hj, hrow⟩ | ⟨id, t, ht, hno, -⟩
    · obtain ⟨i, hi, rfl⟩ := rowOf_storeReports.mp hj
      obtain ⟨hid, hdes, hgen⟩ := applyStatuses_wants (req.sentBy h) v.id i
      rw [rowCommand_sentBy, hid, hdes] at hrow
      rcases hrow with ⟨hwant, hneeds, -⟩ | ⟨hwant, hup, -⟩
      · obtain ⟨t, ht, hle, hstate⟩ := hrun i hi hwant
        rcases hneeds t (hid ▸ ht) with hlt | hs
        · rw [hgen] at hlt
          omega
        · exact hstate hs
      · exact hup.elim (hstop i hi hwant).1 (hstop i hi hwant).2
    · obtain ⟨i, hi, rfl⟩ := hknown id t ht
      refine hno _ (rowOf_storeReports.mpr ⟨i, hi, rfl⟩) ?_
      exact (applyStatuses_wants (req.sentBy h) v.id i).1
  refine ⟨storeReports db (req.sentBy h) v.id now, ?_⟩
  have hauth' : syncAuth sha256Hex db (req.sentBy h) = .ok v := hauth
  unfold syncWorker
  rw [hauth']
  simp only [hvalid, hnone, Bool.false_eq_true, if_false]

/-! ### The answer of a Sync -/

section Round

variable {sha256Hex : String → String} {db db₁ : Db} {req req' : SyncRequest} {w : Uuid} {now : ℕ}
  {commands : List Command} {h : Host}

/-- What a Sync leaves in the tables, and what it answers. -/
theorem sync_spec (hreq : req.workerId = some w)
    (hsync : syncWorker sha256Hex db (req.sentBy h) now = .ok (db₁, commands)) :
    db₁ = storeReports db (req.sentBy h) w now ∧
      commands = buildCommands db₁ (req.sentBy h) w ∧
      ∃ v, syncAuth sha256Hex db req = .ok v ∧ v.id = w := by
  obtain ⟨v, hauth, hdb, hcommands⟩ := syncWorker_stored hsync
  obtain rfl := @syncAuth_id _ _ (req.sentBy h) w hreq _ hauth
  exact ⟨hdb, hcommands, v, hauth, rfl⟩

theorem nodup_storeReports (hids : (db.instances.map (·.id)).Nodup) (r : SyncRequest) :
    ((storeReports db r w now).instances.map (·.id)).Nodup := by
  have hsame : (storeReports db r w now).instances.map (·.id) = db.instances.map (·.id) := by
    show (db.instances.map (applyStatuses r w)).map (·.id) = _
    rw [List.map_map]
    exact List.map_congr_left fun i _ => (applyStatuses_wants r w i).1
  rw [hsame]
  exact hids

/-- A registry that the commands have made what the rows want agrees with the server. -/
theorem agreed_of_entries (hreq : req.workerId = some w) (hreq' : req'.workerId = some w)
    (htoken : req'.workerToken = req.workerToken)
    (hsync : syncWorker sha256Hex db (req.sentBy h) now = .ok (db₁, commands)) {h' : Host}
    (hrun : ∀ i, RowOf db₁ w i → i.desiredState = .running →
      UpToDate i.generation (h'.instances.get? i.id))
    (hstop : ∀ i, RowOf db₁ w i → i.desiredState = .stopped →
      NotUp (h'.instances.get? i.id))
    (hgone : ∀ id, (∀ i, RowOf db₁ w i → i.id ≠ id) → h'.instances.get? id = none) :
    Agreed sha256Hex db₁ req' w h' := by
  obtain ⟨hdb, -, v, hauth, rfl⟩ := sync_spec hreq hsync
  obtain ⟨v', hauth', hv'⟩ := syncAuth_storeReports hauth (hreq'.trans hreq.symm) htoken
    (req.sentBy h) v.id now
  rw [← hdb] at hauth'
  have hstop' : ∀ i, RowOf db₁ v.id i → i.desiredState = .stopped →
      ¬ h'.reports i.id .starting ∧ ¬ h'.reports i.id .running := by
    intro i hi hdes
    simp only [Host.reports_iff]
    constructor
    · rintro ⟨t, ht, hs⟩
      exact (hstop i hi hdes t ht).1 hs
    · rintro ⟨t, ht, hs⟩
      exact (hstop i hi hdes t ht).2 hs
  have hknown : ∀ id t, h'.instances.get? id = some t → ∃ i, RowOf db₁ v.id i ∧ i.id = id := by
    intro id t ht
    by_contra hno
    push Not at hno
    rw [hgone id hno] at ht
    cases ht
  refine ⟨fun now' => ?_, hrun, hstop', hknown⟩
  exact silent_of_entries hauth' (hv' ▸ hrun) (hv' ▸ hstop') (hv' ▸ hknown) now'

/-- What the commands for an instance establish, whatever the worker's mode: an entry that
is up to date, one that is down, or none. -/
structure Establishes (db : Db) (w : Uuid) (commands : List Command) (h : Host) : Prop where
  running : ∀ i, RowOf db w i → i.desiredState = .running →
    (∀ c ∈ commands, c.instanceId = i.id →
      ∃ config, c = ⟨i.id, .start, i.generation, some config⟩) ∧
    ((∃ c ∈ commands, c.instanceId = i.id) ∨ UpToDate i.generation (h.instances.get? i.id))
  stopped : ∀ i, RowOf db w i → i.desiredState = .stopped →
    (∀ c ∈ commands, c.instanceId = i.id → c = ⟨i.id, .stop, 0, none⟩) ∧
    ((∃ c ∈ commands, c.instanceId = i.id) ↔
      h.reports i.id .starting ∨ h.reports i.id .running)
  unknown : ∀ id, (∀ i, RowOf db w i → i.id ≠ id) →
    (∀ c ∈ commands, c.instanceId = id → c = ⟨id, .delete, 0, none⟩) ∧
    ((∃ c ∈ commands, c.instanceId = id) ∨ h.instances.get? id = none)

/-- **What a Sync answers**, row by row. -/
theorem establishes_sync (hids : (db₁.instances.map (·.id)).Nodup)
    (hcommands : commands = buildCommands db₁ (req.sentBy h) w) :
    Establishes db₁ w commands h := by
  subst hcommands
  refine ⟨fun i hi hdes => ⟨fun c hc hid => ?_, ?_⟩, fun i hi hdes => ⟨fun c hc hid => ?_, ?_⟩,
    fun id hno => ⟨fun c hc hid => command_of_unknown hno hc hid, ?_⟩⟩
  · have hrow := command_of_row hids hi hc hid
    rw [rowCommand_sentBy, hdes] at hrow
    rcases hrow with ⟨-, -, hc⟩ | ⟨hdes', -⟩
    · exact ⟨_, hc⟩
    · cases hdes'
  · by_cases hneeds : NeedsStart h i
    · left
      have hrow := (rowCommand_sentBy db₁ req h i _).mpr (Or.inl ⟨hdes, hneeds, rfl⟩)
      exact ⟨_, command_cases.mpr (Or.inl ⟨i, hi, hrow⟩), rfl⟩
    · right
      unfold NeedsStart at hneeds
      push Not at hneeds
      obtain ⟨t, ht, hle, hstate⟩ := hneeds
      exact ⟨t, ht, hle, hstate⟩
  · have hrow := command_of_row hids hi hc hid
    rw [rowCommand_sentBy, hdes] at hrow
    rcases hrow with ⟨hdes', -⟩ | ⟨-, -, hc⟩
    · cases hdes'
    · exact hc
  · constructor
    · rintro ⟨c, hc, hid⟩
      have hrow := command_of_row hids hi hc hid
      rw [rowCommand_sentBy, hdes] at hrow
      rcases hrow with ⟨hdes', -⟩ | ⟨-, hup, -⟩
      · cases hdes'
      · exact hup
    · intro hup
      have hrow := (rowCommand_sentBy db₁ req h i _).mpr (Or.inr ⟨hdes, hup, rfl⟩)
      exact ⟨_, command_cases.mpr (Or.inl ⟨i, hi, hrow⟩), rfl⟩
  · cases ht : h.instances.get? id with
    | none => exact Or.inr rfl
    | some t =>
      left
      exact ⟨_, command_cases.mpr (Or.inr ⟨id, t, ht, hno, rfl⟩), rfl⟩

/-! ### Real mode -/

theorem roundInv_reconcile (hq : Quiet h) (commands : List Command) :
    RoundInv commands (h.reconcile commands) := by
  have heq : h.reconcile commands = h.startBatch commands := by
    rcases h.reconcile_cases commands with ⟨-, heq⟩ | ⟨hb, -⟩
    · exact heq
    · exact absurd hq.batch hb
  refine ⟨fun c hc => ?_, ?_, fun p hp => ?_⟩
  · rw [heq] at hc
    exact (List.perm_insertionSort h.commandOrder commands).mem_iff.mp hc
  · rw [heq]
    exact hq.pending
  · rw [Host.reconcile_pendingProbes, hq.pendingProbes] at hp
    exact absurd hp List.not_mem_nil

/-- A command of the answer is in the batch. -/
theorem due_reconcile (hq : Quiet h) {commands : List Command} {id : Uuid}
    (hdue : ∃ c ∈ commands, c.instanceId = id) :
    ∃ c ∈ (h.reconcile commands).batch.getD [], c.instanceId = id := by
  obtain ⟨c, hc, hid⟩ := hdue
  refine ⟨c, ?_, hid⟩
  rcases h.reconcile_cases commands with ⟨-, heq⟩ | ⟨hb, -⟩
  · rw [heq]
    exact (List.perm_insertionSort h.commandOrder commands).mem_iff.mpr hc
  · exact absurd hq.batch hb

/-- An instance that is to run is up to date at the end of the round. -/
theorem Establishes.upToDate_round {hfToken : Bool} (hest : Establishes db₁ w commands h)
    (hq : Quiet h) {i : Instance} (hi : RowOf db₁ w i) (hdes : i.desiredState = .running)
    {as : List HostEvent}
    (has : Conforms (Host.move hfToken) (fun _ e => RoundEvent e) (h.reconcile commands) as)
    (hend : (exec (Host.move hfToken) (h.reconcile commands) as).batch = none) :
    UpToDate i.generation
      ((exec (Host.move hfToken) (h.reconcile commands) as).instances.get? i.id) := by
  obtain ⟨hall, hdue⟩ := hest.running i hi hdes
  refine round_rule (roundStable_of_entry hfToken commands i.id ?_) ?_
    (roundInv_reconcile hq commands) ?_ has hend
  · rintro t t' ⟨u, hu, hle, -⟩ hgen hstate
    injection hu with hu
    exact ⟨t', rfl, by rw [hgen, hu]; exact hle, hstate⟩
  · intro h' o c hc hid
    obtain ⟨config, rfl⟩ := hall c hc hid
    exact upToDate_startSync hfToken _ h' i.id i.generation config
  · refine hdue.imp (due_reconcile hq) fun hup => ?_
    rw [Host.reconcile_instances]
    exact hup

/-- An instance that is not up stays so, if no stray probe watches it. -/
theorem settledStop_reconcile {id : Uuid}
    (hup : ¬ (h.reports id .starting ∨ h.reports id .running))
    (hprobe : id ∈ h.probeTasks → ∀ t, h.instances.get? id = some t →
      t.state = .starting ∨ t.state = .running) :
    SettledStop id (h.reconcile commands) := by
  rw [Host.reports_iff, Host.reports_iff] at hup
  push Not at hup
  unfold SettledStop
  rw [Host.reconcile_instances, Host.reconcile_probeTasks]
  refine ⟨fun t ht => ⟨hup.1 t ht, hup.2 t ht⟩, fun hmem => ?_⟩
  -- a probe that watches the instance is none that went astray
  cases ht : h.instances.get? id with
  | none => rfl
  | some t =>
    rcases hprobe hmem t ht with hs | hs
    · exact absurd hs (hup.1 t ht)
    · exact absurd hs (hup.2 t ht)

/-- An instance that is to stop is settled at the end of the round, if no stray probe
watches it. -/
theorem Establishes.settledStop_round {hfToken : Bool} (hest : Establishes db₁ w commands h)
    (hq : Quiet h) {i : Instance} (hi : RowOf db₁ w i) (hdes : i.desiredState = .stopped)
    (hprobe : i.id ∈ h.probeTasks → ∀ t, h.instances.get? i.id = some t →
      t.state = .starting ∨ t.state = .running)
    {as : List HostEvent}
    (has : Conforms (Host.move hfToken) (fun _ e => RoundEvent e) (h.reconcile commands) as)
    (hend : (exec (Host.move hfToken) (h.reconcile commands) as).batch = none) :
    SettledStop i.id (exec (Host.move hfToken) (h.reconcile commands) as) := by
  obtain ⟨hall, hdue⟩ := hest.stopped i hi hdes
  have hno : ∀ c ∈ commands, c.instanceId = i.id → c.action ≠ .start := by
    intro c hc hid
    rw [hall c hc hid]
    simp
  refine round_rule (roundStable_settledStop hfToken hno) ?_ (roundInv_reconcile hq commands) ?_
    has hend
  · intro h' o c hc hid
    rw [hall c hc hid]
    exact settledStop_stopSync o.stopOk h' i.id
  · by_cases hup : h.reports i.id .starting ∨ h.reports i.id .running
    · exact Or.inl (due_reconcile hq (hdue.mpr hup))
    · exact Or.inr (settledStop_reconcile hup hprobe)

/-- An instance without a row is gone at the end of the round. -/
theorem Establishes.gone_round {hfToken : Bool} (hest : Establishes db₁ w commands h)
    (hq : Quiet h) {id : Uuid} (hno : ∀ i, RowOf db₁ w i → i.id ≠ id) {as : List HostEvent}
    (has : Conforms (Host.move hfToken) (fun _ e => RoundEvent e) (h.reconcile commands) as)
    (hend : (exec (Host.move hfToken) (h.reconcile commands) as).batch = none) :
    (exec (Host.move hfToken) (h.reconcile commands) as).instances.get? id = none := by
  obtain ⟨hall, hdue⟩ := hest.unknown id hno
  refine round_rule (roundStable_of_entry hfToken commands id (P := (· = none)) ?_) ?_
    (roundInv_reconcile hq commands) ?_ has hend
  · intro t t' ht
    cases ht
  · intro h' o c hc hid
    rw [hall c hc hid]
    exact Dict.get?_erase_self _ _
  · refine hdue.imp (due_reconcile hq) fun hno => ?_
    rw [Host.reconcile_instances]
    exact hno

/-- **Without a stray probe the round ends in agreement**, whatever Docker does. -/
theorem agreed_of_noStrayProbe {hfToken : Bool} (hids : (db.instances.map (·.id)).Nodup)
    (hreq : req.workerId = some w) (hreq' : req'.workerId = some w)
    (htoken : req'.workerToken = req.workerToken) (hq : Quiet h)
    (hsync : syncWorker sha256Hex db (req.sentBy h) now = .ok (db₁, commands))
    (hstray : NoStrayProbe db w h) {as : List HostEvent}
    (has : Conforms (Host.move hfToken) (fun _ e => RoundEvent e) (h.reconcile commands) as)
    (hend : (exec (Host.move hfToken) (h.reconcile commands) as).batch = none) :
    Agreed sha256Hex db₁ req' w (exec (Host.move hfToken) (h.reconcile commands) as) := by
  obtain ⟨hdb, hcommands, -⟩ := sync_spec hreq hsync
  have hest : Establishes db₁ w commands h :=
    establishes_sync (hdb ▸ nodup_storeReports hids _) hcommands
  refine agreed_of_entries hreq hreq' htoken hsync ?_ ?_ ?_
  · exact fun i hi hdes => hest.upToDate_round hq hi hdes has hend
  · intro i hi hdes
    refine (hest.settledStop_round hq hi hdes ?_ has hend).1
    -- the row is one of before the Sync, with its desired state
    rw [hdb] at hi
    obtain ⟨i₀, hi₀, rfl⟩ := rowOf_storeReports.mp hi
    obtain ⟨hid, hwant, -⟩ := applyStatuses_wants (req.sentBy h) w i₀
    rw [hid]
    exact hstray i₀ hi₀ (hwant.symm.trans hdes)
  · exact fun id hno => hest.gone_round hq hno has hend

/-- A batch that has no command for a running instance ends with it running. -/
theorem exists_round_running (hfToken : Bool) (id : Uuid) : ∀ (b : List Command) (h : Host),
    h.batch = some b → h.pending = Dict.empty → (∀ c ∈ b, c.instanceId ≠ id) →
    h.reports id .running →
      ∃ as, Conforms (Host.move hfToken) (fun _ e => RoundEvent e) h as ∧
        (exec (Host.move hfToken) h as).batch = none ∧
        (exec (Host.move hfToken) h as).reports id .running := by
  intro b
  induction b with
  | nil =>
    intro h hb hp _ hrun
    have hmove : h.move hfToken (.finish {}) = h.endBatch {} := by simp only [Host.move, hb]
    refine ⟨[.finish {}], ⟨trivial, trivial⟩, ?_, ?_⟩
    · show (h.move hfToken (.finish {})).batch = none
      rw [hmove]
      unfold Host.endBatch
      simp only
      rw [if_pos]
      show (h.sweep {}).pending.isEmpty = true
      rw [Host.sweep_pending, hp]
      rfl
    · show (h.move hfToken (.finish {})).reports id .running
      rw [hmove, Host.reports_iff, Host.endBatch_instances, ← Host.reports_iff]
      exact hrun
  | cons c rest ih =>
    intro h hb hp hno hrun
    have hmove : h.move hfToken (.apply {}) =
        { h.applyCommand hfToken {} c with batch := some rest } := by simp only [Host.move, hb]
    have htouch := Host.touchesOnly_applyDockerCommand hfToken (h.outcomeOn {} c) true h c
    have hrun' : (h.move hfToken (.apply {})).reports id .running := by
      rw [hmove, Host.reports_iff]
      show ∃ t, (h.applyCommand hfToken {} c).instances.get? id = some t ∧ _
      rw [(entry_applyCommand (hno c List.mem_cons_self)).1, ← Host.reports_iff]
      exact hrun
    obtain ⟨as, has, hend, hfin⟩ := ih (h.move hfToken (.apply {})) (by rw [hmove])
      (by rw [hmove]; exact htouch.pending.trans hp)
      (fun d hd => hno d (List.mem_cons_of_mem c hd)) hrun'
    exact ⟨.apply {} :: as, ⟨trivial, has⟩, hend, hfin⟩

/-- **A stray probe may end the round in disagreement**: it is answered, and no command of
the round is for its instance. -/
theorem noStrayProbe_of_agreed {hfToken : Bool} (hids : (db.instances.map (·.id)).Nodup)
    (hreq : req.workerId = some w) (hq : Quiet h)
    (hsync : syncWorker sha256Hex db (req.sentBy h) now = .ok (db₁, commands))
    (hall : ∀ as, Conforms (Host.move hfToken) (fun _ e => RoundEvent e) (h.reconcile commands) as →
      (exec (Host.move hfToken) (h.reconcile commands) as).batch = none →
        Agreed sha256Hex db₁ req' w (exec (Host.move hfToken) (h.reconcile commands) as)) :
    NoStrayProbe db w h := by
  obtain ⟨hdb, hcommands, -⟩ := sync_spec hreq hsync
  have hest : Establishes db₁ w commands h :=
    establishes_sync (hdb ▸ nodup_storeReports hids _) hcommands
  intro i hi hdes hprobe t ht
  by_contra hup
  push Not at hup
  -- the row of the instance, after its reports were stored
  set i₁ := applyStatuses (req.sentBy h) w i
  obtain ⟨hid, hwant, -⟩ := applyStatuses_wants (req.sentBy h) w i
  have hi₁ : RowOf db₁ w i₁ := hdb ▸ rowOf_storeReports.mpr ⟨i, hi, rfl⟩
  have hnone : ∀ c ∈ commands, c.instanceId ≠ i.id := by
    intro c hc hcid
    have hsent := (hest.stopped i₁ hi₁ (hwant.trans hdes)).2.mp ⟨c, hc, hcid.trans hid.symm⟩
    rw [hid, Host.reports_iff, Host.reports_iff, ht] at hsent
    rcases hsent with ⟨t', ht', hs⟩ | ⟨t', ht', hs⟩
    · injection ht' with ht'
      exact hup.1 (ht' ▸ hs)
    · injection ht' with ht'
      exact hup.2 (ht' ▸ hs)
  have heq : h.reconcile commands = h.startBatch commands := by
    rcases h.reconcile_cases commands with ⟨-, heq⟩ | ⟨hb, -⟩
    · exact heq
    · exact absurd hq.batch hb
  -- the probe is answered before the batch gets to its first command
  set h₁ := (h.reconcile commands).move hfToken (.ready i.id) with hh₁
  have hmove : h₁ = { (h.reconcile commands).cancelProbe i.id with
      instances := h.instances.modify i.id fun t => { t with state := .running, detail := "" } } := by
    show (h.reconcile commands).probeResult i.id true = _
    unfold Host.probeResult
    rw [if_pos (by rw [Host.reconcile_probeTasks]; exact hprobe), Host.reconcile_instances]
    rfl
  have hrun : h₁.reports i.id .running := by
    rw [hmove, Host.reports_iff]
    refine ⟨{ t with state := .running, detail := "" }, ?_, rfl⟩
    show (h.instances.modify i.id _).get? i.id = _
    rw [Dict.get?_modify, if_pos rfl, ht]
    rfl
  obtain ⟨as, has, hend, hfin⟩ := exists_round_running hfToken i.id
    (commands.insertionSort h.commandOrder) h₁ (by rw [hmove, heq]; rfl)
    (by rw [hmove, heq]; exact hq.pending)
    (fun c hc => hnone c ((List.perm_insertionSort _ _).mem_iff.mp hc)) hrun
  have hagree := hall (.ready i.id :: as) ⟨trivial, has⟩ hend
  refine (hagree.stopped i₁ hi₁ (hwant.trans hdes)).2 ?_
  rw [hid]
  exact hfin

end Round

/-! ### Mock mode -/

/-- A command in mock mode: `_start_mock`, and the stop and delete of `reconcile`. -/
def mockCommand (hfToken : Bool) (h : Host) (c : Command) : Host :=
  match c.action, c.config with
  | .start, some config =>
    let entry : Tracked :=
      if config.requiresHfToken ∧ ¬ hfToken then
        ⟨.error, config.port, c.generation, config.rank, "model requires HF token"⟩
      else ⟨.starting, config.port, c.generation, config.rank, ""⟩
    { h with instances := h.instances.set c.instanceId entry }
  | .start, none =>
    { h with instances := h.instances.set c.instanceId ⟨.starting, 0, c.generation, none, ""⟩ }
  | .stop, _ =>
    { h with instances := h.instances.modify c.instanceId fun t =>
        { t with state := .stopped, detail := "" } }
  | .delete, _ => { h with instances := h.instances.erase c.instanceId }

/-- `reconcile` in mock mode. -/
def mockReconcile (hfToken : Bool) (h : Host) (commands : List Command) : Host :=
  commands.foldl (mockCommand hfToken) h

/-- `statuses` in mock mode: an instance that has been starting for long enough runs. -/
def promote (h : Host) (elapsed : Uuid → Bool) : Host :=
  { h with instances := h.instances.mapVals fun id t =>
      if t.state = .starting ∧ elapsed id then { t with state := .running } else t }

theorem entry_mockCommand {hfToken : Bool} {h : Host} {c : Command} {id : Uuid}
    (hid : c.instanceId ≠ id) :
    (mockCommand hfToken h c).instances.get? id = h.instances.get? id := by
  unfold mockCommand
  split
  · exact Dict.get?_set_of_ne _ _ hid
  · exact Dict.get?_set_of_ne _ _ hid
  · exact Dict.get?_modify_of_ne _ _ hid
  · exact Dict.get?_erase_of_ne _ hid

/-- What the commands of an instance establish holds after all of them. -/
theorem mock_rule {hfToken : Bool} {id : Uuid} {P : Option Tracked → Prop} :
    ∀ (commands : List Command) (h : Host),
      (∀ (h : Host), ∀ c ∈ commands, c.instanceId = id →
        P ((mockCommand hfToken h c).instances.get? id)) →
      ((∃ c ∈ commands, c.instanceId = id) ∨ P (h.instances.get? id)) →
        P ((mockReconcile hfToken h commands).instances.get? id) := by
  intro commands
  induction commands with
  | nil =>
    rintro h - (⟨c, hc, -⟩ | hP)
    · exact absurd hc List.not_mem_nil
    · exact hP
  | cons c cs ih =>
    intro h hest hdue
    refine ih (mockCommand hfToken h c) (fun h' d hd => hest h' d (List.mem_cons_of_mem c hd)) ?_
    by_cases hid : c.instanceId = id
    · exact Or.inr (hest h c List.mem_cons_self hid)
    · rw [entry_mockCommand hid]
      refine hdue.imp_left ?_
      rintro ⟨d, hd, hdid⟩
      rcases List.mem_cons.mp hd with rfl | hd
      · exact absurd hdid hid
      · exact ⟨d, hd, hdid⟩

/-- Promotions keep what an entry that is starting has in common with one that runs. -/
theorem promote_rule {id : Uuid} {P : Option Tracked → Prop}
    (hP : ∀ t : Tracked, P (some t) → t.state = .starting → P (some { t with state := .running })) :
    ∀ (elapsed : List (Uuid → Bool)) (h : Host), P (h.instances.get? id) →
      P ((elapsed.foldl promote h).instances.get? id) := by
  intro elapsed
  induction elapsed with
  | nil => exact fun h hh => hh
  | cons e es ih =>
    intro h hh
    refine ih (promote h e) ?_
    show P ((h.instances.mapVals _).get? id)
    rw [Dict.get?_mapVals]
    cases ht : h.instances.get? id with
    | none =>
      rw [ht] at hh
      exact hh
    | some t =>
      rw [ht] at hh
      show P (some (if _ then _ else t))
      split
      · rename_i hstart
        exact hP t hh hstart.1
      · exact hh

/-- **In mock mode every round ends in agreement.** -/
theorem agreed_mock {sha256Hex : String → String} {db db₁ : Db} {req req' : SyncRequest} {w : Uuid}
    {now : ℕ} {commands : List Command} {h : Host} (hfToken : Bool)
    (hids : (db.instances.map (·.id)).Nodup) (hreq : req.workerId = some w)
    (hreq' : req'.workerId = some w) (htoken : req'.workerToken = req.workerToken)
    (hsync : syncWorker sha256Hex db (req.sentBy h) now = .ok (db₁, commands))
    (elapsed : List (Uuid → Bool)) :
    Agreed sha256Hex db₁ req' w (elapsed.foldl promote (mockReconcile hfToken h commands)) := by
  obtain ⟨hdb, hcommands, -⟩ := sync_spec hreq hsync
  have hest : Establishes db₁ w commands h :=
    establishes_sync (hdb ▸ nodup_storeReports hids _) hcommands
  refine agreed_of_entries hreq hreq' htoken hsync ?_ ?_ ?_
  · intro i hi hdes
    obtain ⟨hall, hdue⟩ := hest.running i hi hdes
    refine promote_rule ?_ elapsed _ (mock_rule commands h ?_ hdue)
    · rintro t ⟨u, hu, hle, -⟩ -
      injection hu with hu
      exact ⟨_, rfl, by rw [hu]; exact hle, by simp⟩
    · intro h' c hc hid
      obtain ⟨config, rfl⟩ := hall c hc hid
      refine ⟨_, Dict.get?_set_self _ _ _, ?_, ?_⟩
      · split <;> exact le_rfl
      · split <;> simp
  · intro i hi hdes
    obtain ⟨hall, hdue⟩ := hest.stopped i hi hdes
    refine promote_rule (P := NotUp) ?_ elapsed _ (mock_rule (P := NotUp) commands h ?_ ?_)
    · intro t ht hstart
      exact absurd hstart (ht t rfl).1
    · intro h' c hc hid t ht
      rw [hall c hc hid] at ht
      change (h'.instances.modify i.id _).get? i.id = some t at ht
      rw [Dict.get?_modify, if_pos rfl] at ht
      obtain ⟨t', -, rfl⟩ := Option.map_eq_some_iff.mp ht
      simp
    · rw [hdue, Host.reports_iff, Host.reports_iff]
      by_cases hup : (∃ t, h.instances.get? i.id = some t ∧ t.state = .starting) ∨
          ∃ t, h.instances.get? i.id = some t ∧ t.state = .running
      · exact Or.inl hup
      · push Not at hup
        exact Or.inr fun t ht => ⟨hup.1 t ht, hup.2 t ht⟩
  · intro id hno
    obtain ⟨hall, hdue⟩ := hest.unknown id hno
    refine promote_rule (P := (· = none)) ?_ elapsed _
      (mock_rule (P := (· = none)) commands h ?_ hdue)
    · intro t ht
      cases ht
    · intro h' c hc hid
      rw [hall c hc hid]
      exact Dict.get?_erase_self _ _

/-! ### One round -/

/-- **Server and worker agree after one round.**  For every database with unique ids and
every registry, let the worker Sync and apply the commands.  In mock mode the next Sync
is silent and the registry is what the rows want.  In real mode, from a worker that runs
no batch, this holds for all outcomes of the Docker calls and all moves of probes and
containers exactly when no probe watches an instance that is to stop and is tracked
but not up. -/
theorem agree_after_round (sha256Hex : String → String) (hfToken : Bool) (db db₁ : Db)
    (req req' : SyncRequest) (w : Uuid) (now : ℕ) (commands : List Command) (h : Host)
    (hids : (db.instances.map (·.id)).Nodup) (hreq : req.workerId = some w)
    (hreq' : req'.workerId = some w) (htoken : req'.workerToken = req.workerToken)
    (hsync : syncWorker sha256Hex db (req.sentBy h) now = .ok (db₁, commands)) :
    (∀ elapsed : List (Uuid → Bool),
      Agreed sha256Hex db₁ req' w (elapsed.foldl promote (mockReconcile hfToken h commands))) ∧
    (Quiet h →
      ((∀ as, Conforms (Host.move hfToken) (fun _ e => RoundEvent e) (h.reconcile commands) as →
        (exec (Host.move hfToken) (h.reconcile commands) as).batch = none →
          Agreed sha256Hex db₁ req' w (exec (Host.move hfToken) (h.reconcile commands) as)) ↔
        NoStrayProbe db w h)) := by
  refine ⟨agreed_mock hfToken hids hreq hreq' htoken hsync, fun hq => ⟨?_, ?_⟩⟩
  · exact noStrayProbe_of_agreed hids hreq hq hsync
  · exact fun hstray as has hend =>
      agreed_of_noStrayProbe hids hreq hreq' htoken hq hsync hstray has hend

/-- The tables of a server that has stopped the instance `3`. -/
def stoppedDb : Db := (exec (World.next sampleEnv) sampleWorld (sampleServe ++ [.stop 3])).db

/-- What the worker `1` sends, its statuses apart. -/
def sampleRequest : SyncRequest where
  workerId := some 1
  workerToken := "token"

/-- A worker that has started the instance `3`, and then another generation of it. -/
def restartedHost (requiresHfToken : Bool) : Host :=
  exec (Host.move false) {} [.reconcile [sampleStart 1], .apply {}, .finish {},
    .reconcile [⟨3, .start, 2, some { sampleConfig with requiresHfToken := requiresHfToken }⟩],
    .apply {}, .finish {}]

/-- The answer to a Sync of such a worker. -/
def stoppedAnswer (requiresHfToken : Bool) : Except ServerError (Db × List Command) :=
  syncWorker id stoppedDb (sampleRequest.sentBy (restartedHost requiresHfToken)) 5

theorem quiet_restartedHost (requiresHfToken : Bool) : Quiet (restartedHost requiresHfToken) := by
  cases requiresHfToken <;> exact ⟨by decide +kernel, by decide +kernel, by decide +kernel⟩

/-- The commands of an answer that is known to be one. -/
theorem exists_answer {r : Except ServerError (Db × List Command)} {commands : List Command}
    (h : r.toOption.map (·.2) = some commands) : ∃ db₁, r = .ok (db₁, commands) := by
  cases r with
  | error e => cases h
  | ok r => exact ⟨r.1, congrArg Except.ok (Prod.ext rfl (Option.some.inj h))⟩

/-- The stop of the restarted instance is applied, and the next Sync is silent. -/
theorem agree_after_round_sample :
    ∃ db₁, stoppedAnswer false = .ok (db₁, [⟨3, .stop, 0, none⟩]) ∧
      NoStrayProbe stoppedDb 1 (restartedHost false) ∧
      Agreed id db₁ sampleRequest 1 (exec (Host.move false)
        ((restartedHost false).reconcile [⟨3, .stop, 0, none⟩]) [.apply {}, .finish {}]) := by
  have hanswer : (stoppedAnswer false).toOption.map (·.2) = some [⟨3, .stop, 0, none⟩] := by
    decide +kernel
  obtain ⟨db₁, hsync⟩ := exists_answer hanswer
  have hstray : NoStrayProbe stoppedDb 1 (restartedHost false) := by
    intro i _ _ _ t ht
    have hall : ∀ e ∈ (restartedHost false).instances.entries,
        e.2.state = .starting ∨ e.2.state = .running := by decide +kernel
    exact hall (i.id, t) ((Dict.mem_entries_iff _ _ _).mpr ht)
  refine ⟨db₁, hsync, hstray, ?_⟩
  exact ((agree_after_round id false stoppedDb db₁ sampleRequest sampleRequest 1 5 _ _
    (by decide +kernel) rfl rfl rfl hsync).2 (quiet_restartedHost false)).mpr hstray _
    ⟨trivial, trivial, trivial⟩ (by decide +kernel)

/-- **A probe left behind**: the second generation was refused for want of a token, and
the probe of the first one is answered by whoever has the port now.  The instance is to
stop and is reported running. -/
theorem stray_probe_disagrees :
    ¬ ∀ (sha256Hex : String → String) (hfToken : Bool) (db db₁ : Db) (req req' : SyncRequest)
      (w : Uuid) (now : ℕ) (commands : List Command) (h : Host),
      (db.instances.map (·.id)).Nodup → req.workerId = some w → req'.workerId = some w →
      req'.workerToken = req.workerToken →
      syncWorker sha256Hex db (req.sentBy h) now = .ok (db₁, commands) → Quiet h →
      ∀ as, Conforms (Host.move hfToken) (fun _ e => RoundEvent e) (h.reconcile commands) as →
        (exec (Host.move hfToken) (h.reconcile commands) as).batch = none →
          Agreed sha256Hex db₁ req' w (exec (Host.move hfToken) (h.reconcile commands) as) := by
  intro hall
  have hanswer : (stoppedAnswer true).toOption.map (·.2) = some [] := by decide +kernel
  obtain ⟨db₁, hsync⟩ := exists_answer hanswer
  have hagree := hall id false stoppedDb db₁ sampleRequest sampleRequest 1 5 [] (restartedHost true)
    (by decide +kernel) rfl rfl rfl hsync (quiet_restartedHost true) [.finish {}, .ready 3]
    ⟨trivial, trivial, trivial⟩ (by decide +kernel)
  -- the row of the instance is to stop
  have hrow : ∃ i ∈ stoppedDb.instances, i.workerId = some 1 ∧ i.id = 3 ∧
      i.desiredState = .stopped := by decide +kernel
  obtain ⟨i, hi, hw, hid, hdes⟩ := hrow
  obtain ⟨hdb, -, -⟩ := sync_spec (w := 1) rfl hsync
  obtain ⟨hid', hdes', -⟩ := applyStatuses_wants (sampleRequest.sentBy (restartedHost true)) 1 i
  have hi₁ : RowOf db₁ 1 (applyStatuses (sampleRequest.sentBy (restartedHost true)) 1 i) :=
    hdb ▸ rowOf_storeReports.mpr ⟨i, ⟨hi, hw⟩, rfl⟩
  refine (hagree.stopped _ hi₁ (hdes'.trans hdes)).2 ?_
  rw [hid', hid]
  decide +kernel

end Inferna
