import Inferna.Batches
import Inferna.ScaleTarget

/-!
# From a stopped desire to a stopped container

A row whose desired state is `stopped` is to take its container down.  A Sync
sends the stop only for instances reported as starting or running; for one that is
reported as failed it sends nothing, though the container may be up.

## Main definitions

* `stopCommand`, `StopsReported`, `LastReportedUp` — the stops a Sync owes, and
  the reports for which it sends them.
* `isUp` — the footprint of a container: it runs, or its start is queued.
* `StopStep` — a row is stopped while it is live or while nothing of it is up, and
  no Sync reports a stopped row as down while something of it is up.
* `StopsReach` — what a stopped desire is to come to.

## Main results

* `stopsReported_iff` — which reports get their stop command.
* `stop_reaches_container` — **the stops of a Sync exactly, and of a run**: a row
  that is to stop stays live while its container is up, and the next Sync takes
  the container down.
* `errored_stop_is_lost` — a failed health probe makes the stop get lost.
-/

namespace Inferna

open Run

/-! ### The stops of one Sync -/

/-- The stop command for an instance. -/
def stopCommand (id : Uuid) : Command := ⟨id, .stop, 0, none⟩

/-- Every instance of the worker that is to stop and is reported in another state
than `stopped` gets a stop command. -/
def StopsReported (db : Db) (req : SyncRequest) (w : Uuid) (commands : List Command) : Prop :=
  ∀ i ∈ db.instances, i.workerId = some w → i.desiredState = .stopped →
    (∃ st ∈ req.statusesOf i.id, st.state ≠ .of .stopped) → stopCommand i.id ∈ commands

/-- The last report about such an instance is `starting` or `running`. -/
def LastReportedUp (db : Db) (req : SyncRequest) (w : Uuid) : Prop :=
  ∀ i ∈ db.instances, i.workerId = some w → i.desiredState = .stopped →
    (∃ st ∈ req.statusesOf i.id, st.state ≠ .of .stopped) →
    ∃ st, req.reported i.id = some st ∧ (st.state = .of .starting ∨ st.state = .of .running)

/-- A stop is sent exactly for a last report of `starting` or `running`. -/
theorem stopCommand_mem_buildCommands {db : Db} {req : SyncRequest} {w : Uuid} {i : Instance}
    (hi : i ∈ db.instances) (hw : i.workerId = some w) (hdes : i.desiredState = .stopped) :
    stopCommand i.id ∈ buildCommands db req w ↔
      ∃ st, req.reported i.id = some st ∧
        (st.state = .of .starting ∨ st.state = .of .running) := by
  unfold buildCommands
  rw [List.mem_append, List.mem_filterMap]
  constructor
  · rintro (⟨j, hj, hrow⟩ | hdel)
    · unfold rowCommand at hrow
      simp only at hrow
      split at hrow
      · split at hrow
        · injection hrow with hrow
          have := congrArg Command.action hrow
          cases this
        · cases hrow
      · cases hrep : req.reported j.id with
        | none => rw [hrep] at hrow; cases hrow
        | some st =>
          rw [hrep] at hrow
          simp only at hrow
          split at hrow
          · rename_i hup
            injection hrow with hrow
            have hid : j.id = i.id := congrArg Command.instanceId hrow
            exact ⟨st, hid ▸ hrep, hup⟩
          · cases hrow
    · obtain ⟨st, -, heq⟩ := List.mem_map.mp hdel
      have := congrArg Command.action heq
      cases this
  · rintro ⟨st, hrep, hup⟩
    refine Or.inl ⟨i, List.mem_filter.mpr ⟨hi, by simpa using hw⟩, ?_⟩
    unfold rowCommand
    rw [hdes, hrep]
    simp only [if_pos hup]
    rfl

/-- **The stops of a Sync**: all that are owed are sent exactly when every
instance that is owed one was last reported starting or running. -/
theorem stopsReported_iff {sha : String → String} {db db' : Db} {req : SyncRequest} {now : ℕ}
    {w : Uuid} {commands : List Command} (hreq : req.workerId = some w)
    (hsync : syncWorker sha db req now = .ok (db', commands)) :
    StopsReported db req w commands ↔ LastReportedUp db req w := by
  obtain ⟨rfl, rfl⟩ := syncWorker_ok hreq hsync
  -- a row and its updated copy have the same id, worker and desired state
  have hmem : ∀ i ∈ db.instances, i.workerId = some w → i.desiredState = .stopped →
      (stopCommand i.id ∈ buildCommands (storeReports db req w now) req w ↔
        ∃ st, req.reported i.id = some st ∧
          (st.state = .of .starting ∨ st.state = .of .running)) := by
    intro i hi hw hdes
    have hid : (applyStatuses req w i).id = i.id :=
      applyStatuses_keeps (·.id) (fun _ _ => rfl) req w i
    have hi' : applyStatuses req w i ∈ (storeReports db req w now).instances :=
      List.mem_map_of_mem hi
    have hw' : (applyStatuses req w i).workerId = some w := by
      rw [applyStatuses_keeps (·.workerId) (fun _ _ => rfl)]
      exact hw
    have hdes' : (applyStatuses req w i).desiredState = .stopped := by
      rw [applyStatuses_keeps (·.desiredState) (fun _ _ => rfl)]
      exact hdes
    have hiff := @stopCommand_mem_buildCommands _ req _ _ hi' hw' hdes'
    rwa [hid] at hiff
  constructor
  · intro h i hi hw hdes hst
    exact (hmem i hi hw hdes).mp (h i hi hw hdes hst)
  · intro h i hi hw hdes hst
    exact (hmem i hi hw hdes).mpr (h i hi hw hdes hst)

/-! ### What is up on a worker -/

/-- A container that runs, or a start that is queued. -/
def isUp : Footprint where
  tracked _ := False
  container c := c.running = true
  command c := c.action = .start
  tracked_of_state := fun _ _ _ h => h
  container_of_down := fun _ h => absurd h Bool.false_ne_true
  container_of_adopted := fun _ h => h.elim
  command_of_container := fun _ _ _ hact _ _ => hact
  command_of_tracked := fun _ _ _ _ _ h => h.elim

/-- The same, computed. -/
def Host.up (h : Host) (id : Uuid) : Bool :=
  (h.containers.get? id).any (·.running) ||
    h.queued.any fun c => c.instanceId = id ∧ c.action = .start

theorem isUp_on_iff {h : Host} {id : Uuid} : isUp.On h id ↔ h.up id = true := by
  unfold Footprint.On Host.up isUp
  rw [Bool.or_eq_true, Option.any_eq_true, List.any_eq_true]
  constructor
  · rintro (⟨t, -, hf⟩ | ⟨c, hc, hf⟩ | ⟨c, hc, hid, hf⟩)
    · exact hf.elim
    · exact Or.inl ⟨c, hc, hf⟩
    · exact Or.inr ⟨c, hc, decide_eq_true_eq.mpr ⟨hid, hf⟩⟩
  · rintro (⟨c, hc, hf⟩ | ⟨c, hc, hf⟩)
    · exact Or.inr (Or.inl ⟨c, hc, hf⟩)
    · rw [decide_eq_true_eq] at hf
      exact Or.inr (Or.inr ⟨c, hc, hf.1, hf.2⟩)

/-- The row may be stopped: it is live, or nothing of it is up. -/
def SafeToStop (hosts : Uuid → Host) (i : Instance) : Prop :=
  i.desiredState = .running → i.state.isLive = false →
    i.workerId.all (fun w => !(hosts w).up i.id) = true

/-- The broken units of a deployment may be stopped. -/
def SafeUnits (hosts : Uuid → Host) (db : Db) (d : Deployment) : Prop :=
  ∀ u ∈ brokenUnits d db, ∀ i ∈ u, SafeToStop hosts i

/-- No row of the worker that is to stop and has something up is reported as down. -/
def SyncKeepsUp (wd : World) (w : Uuid) : Prop :=
  ∀ i ∈ wd.db.instances, i.workerId = some w → i.desiredState = .stopped →
    (wd.hosts w).up i.id = true →
      ((wd.hosts w).instances.get? i.id).all (·.state.isLive) = true

/-- The allowed steps: rows are stopped only when that is safe, and a Sync reports
no stopped row as down while something of it is up. -/
def StopStep (wd : World) : Step → Prop
  | .stop id => ∀ i ∈ wd.db.instances, i.id = id → SafeToStop wd.hosts i
  | .scale id _ _ => ∀ d ∈ wd.db.findDeployment id, SafeUnits wd.hosts wd.db d
  | .setRange id _ _ => ∀ d ∈ wd.db.findDeployment id, SafeUnits wd.hosts wd.db d
  | .autoscaleTick _ _ _ => ∀ d ∈ windowedDeployments wd.db, SafeUnits wd.hosts wd.db d
  | .sync w _ => SyncKeepsUp wd w
  | _ => True

instance (hosts : Uuid → Host) (i : Instance) : Decidable (SafeToStop hosts i) :=
  inferInstanceAs (Decidable (_ → _ → _))

instance (hosts : Uuid → Host) (db : Db) (d : Deployment) : Decidable (SafeUnits hosts db d) :=
  inferInstanceAs (Decidable (∀ u ∈ _, ∀ i ∈ _, _))

instance (wd : World) (w : Uuid) : Decidable (SyncKeepsUp wd w) :=
  inferInstanceAs (Decidable (∀ i ∈ _, _))

instance (wd : World) (a : Step) : Decidable (StopStep wd a) :=
  match a with
  | .stop id => inferInstanceAs (Decidable (∀ i ∈ wd.db.instances, i.id = id → _))
  | .scale id _ _ => inferInstanceAs (Decidable (∀ d ∈ wd.db.findDeployment id, _))
  | .setRange id _ _ => inferInstanceAs (Decidable (∀ d ∈ wd.db.findDeployment id, _))
  | .autoscaleTick _ _ _ => inferInstanceAs (Decidable (∀ d ∈ windowedDeployments wd.db, _))
  | .sync w _ => inferInstanceAs (Decidable (SyncKeepsUp wd w))
  | .deploy _ _ | .restart _ | .deleteInstance _ | .deleteDeployment _ | .register _ _ _
  | .markDisconnected _ | .applyNext _ | .probe _ _ _ | .containerExit _ _
  | .restartWorker _ => isTrue trivial

/-! ### Rows that are to stop stay live while something is up -/

/-- A row that is to stop and has something up on its worker is live. -/
def RowKept (hosts : Uuid → Host) (i : Instance) : Prop :=
  i.desiredState = .stopped → ∀ w, i.workerId = some w → (hosts w).up i.id = true → i.live = true

/-- All rows are kept. -/
def UpKept (hosts : Uuid → Host) (db : Db) : Prop := ∀ i ∈ db.instances, RowKept hosts i

/-- A safe stop keeps the row. -/
theorem rowKept_stop {hosts : Uuid → Host} {i : Instance} (hsafe : SafeToStop hosts i)
    (hkept : RowKept hosts i) : RowKept hosts i.stop := by
  intro _ w hw hup
  change i.state.isLive = true
  by_contra hdead
  rw [Bool.not_eq_true] at hdead
  cases hdes : i.desiredState with
  | running =>
    have hall := hsafe hdes hdead
    have hw' : i.workerId = some w := hw
    rw [hw'] at hall
    have hup' : (hosts w).up i.id = true := hup
    simp [hup'] at hall
  | stopped =>
    have hlive := hkept hdes w hw hup
    change i.state.isLive = true at hlive
    rw [hdead] at hlive
    cases hlive

/-- A live row is kept. -/
theorem rowKept_of_live {hosts : Uuid → Host} {i : Instance} (h : i.live = true) :
    RowKept hosts i := fun _ _ _ _ => h

/-- A row that is to run is kept. -/
theorem rowKept_of_running {hosts : Uuid → Host} {i : Instance} (h : i.desiredState = .running) :
    RowKept hosts i := by
  intro hstop
  rw [h] at hstop
  cases hstop

/-- Scaling keeps the rows, whether it succeeds or not. -/
theorem upKept_moveReplicas {hosts : Uuid → Host} {db : Db} (s : Settings) (d : Deployment)
    (target now : ℕ) (hids : (db.instances.map (·.id)).Nodup) (hsafe : SafeUnits hosts db d)
    (h : UpKept hosts db) : UpKept hosts (moveReplicas s d target now db).1 := by
  obtain ⟨rows, hrows, hadd, -, -⟩ := moveReplicas_rows s d target now hids
  intro j hj
  rw [hrows] at hj
  rcases List.mem_append.mp hj with hj | hj
  · obtain ⟨i, hi, rfl⟩ := List.mem_map.mp hj
    unfold scaledRow
    split
    · rename_i hst
      obtain ⟨u, hu, hiu⟩ := (isStopped_iff hids hi).mp hst
      unfold stoppedUnits at hu
      rw [List.mem_append] at hu
      rcases hu with hu | hu
      · exact rowKept_stop (hsafe u hu i hiu) (h i hi)
      · -- the surplus is live
        split at hu
        · exact absurd hu List.not_mem_nil
        · have hcap := (mem_capacityUnits.mp (mem_unitsToStop hu)).2
          have hlive : i.state.isLive = true := isLive_of_capacity hcap hiu
          exact rowKept_of_live hlive
    · exact h i hi
  · exact rowKept_of_running (hadd j hj).desired

theorem upKept_applyScale {hosts : Uuid → Host} {db : Db} (s : Settings) (obj : DeploymentObj)
    (replicas : ℕ) (setRange : Bool) (now : ℕ) (hids : (db.instances.map (·.id)).Nodup)
    (hsafe : SafeUnits hosts db obj.loaded) (h : UpKept hosts db) :
    UpKept hosts (applyScale s obj replicas setRange now db).1 := by
  unfold UpKept
  rw [applyScale_instances]
  exact upKept_moveReplicas s obj.loaded _ now hids hsafe h

/-- After a call no unit of its deployment is broken. -/
theorem safeUnits_moveReplicas_self (hosts : Uuid → Host) {db : Db} (s : Settings)
    (d : Deployment) (target now : ℕ) (hids : (db.instances.map (·.id)).Nodup) :
    SafeUnits hosts (moveReplicas s d target now db).1 d := by
  obtain ⟨rows, hrows, hadd, hnd, -⟩ := moveReplicas_rows s d target now hids
  intro u hu
  obtain ⟨hlive, hbroken⟩ := mem_brokenUnits.mp hu
  obtain ⟨hu, hlive⟩ := mem_liveUnits.mp hlive
  unfold unitBroken at hbroken
  rw [List.any_eq_true] at hbroken
  obtain ⟨i, hi, herr⟩ := hbroken
  rw [decide_eq_true_eq] at herr
  exact absurd herr (healthy_call hids hrows hadd hnd u hu hlive i hi)

/-- A call for one deployment leaves the units of another as they were. -/
theorem safeUnits_moveReplicas_of_ne {hosts : Uuid → Host} {db : Db} (s : Settings)
    (d e : Deployment) (target now : ℕ) (hids : (db.instances.map (·.id)).Nodup)
    (hne : e.id ≠ d.id) (h : SafeUnits hosts db e) :
    SafeUnits hosts (moveReplicas s d target now db).1 e := by
  unfold SafeUnits brokenUnits liveUnits at h ⊢
  rw [instancesOf_moveReplicas_of_ne s d target now hids hne]
  exact h

theorem brokenUnits_congr {d : Deployment} {db db' : Db} (h : db'.instances = db.instances) :
    brokenUnits d db' = brokenUnits d db := by
  unfold brokenUnits liveUnits Db.instancesOf
  rw [h]

/-- What the calls of a pass keep: the keys, the kept rows, and that the units of
the deployments may be stopped. -/
structure ScaleKept (hosts : Uuid → Host) (ds : List Deployment) (db : Db) : Prop where
  ids : (db.instances.map (·.id)).Nodup
  kept : UpKept hosts db
  safe : ∀ d ∈ ds, SafeUnits hosts db d

theorem scaleKept_applyScale {hosts : Uuid → Host} {ds : List Deployment} {s : Settings}
    {clock target : ℕ} {db : Db} (hnd : (ds.map (·.id)).Nodup) (h : ScaleKept hosts ds db)
    {d : Deployment} (hd : d ∈ ds) :
    ScaleKept hosts ds (applyScale s d.load target false clock db).1 := by
  have hinst := applyScale_instances s d.load target false clock db
  refine ⟨?_, upKept_applyScale s d.load target false clock h.ids (h.safe d hd) h.kept, ?_⟩
  · rw [hinst]
    obtain ⟨rows, hrows, hadd, hfresh, -⟩ :=
      moveReplicas_rows s d (scaleTarget d.load target false) clock h.ids
    exact nodup_ids_call h.ids hrows hadd hfresh
  · intro e he
    unfold SafeUnits
    rw [brokenUnits_congr hinst]
    by_cases heq : e.id = d.id
    · -- the deployment that was scaled has no broken unit left
      rw [List.inj_on_of_nodup_map hnd he hd heq]
      exact safeUnits_moveReplicas_self hosts s d _ clock h.ids
    · exact safeUnits_moveReplicas_of_ne s d e _ clock h.ids heq (h.safe e he)

/-- A pass of the autoscaler keeps the rows. -/
theorem upKept_tick {hosts : Uuid → Host} {s : Settings} (m : Metrics) (clock : ℕ) (now : ℚ)
    (cooldown : Dict Uuid ℚ) {db : Db} (hk : db.Keyed) (h : UpKept hosts db)
    (hsafe : ∀ d ∈ windowedDeployments db, SafeUnits hosts db d) :
    UpKept hosts (autoscaleTick s m clock now cooldown db).session.committed := by
  have hnd : ((windowedDeployments db).map (·.id)).Nodup :=
    (List.Sublist.map _ List.filter_sublist).nodup hk.deployments
  have hstart : ScaleKept hosts (windowedDeployments db) db := ⟨hk.instances, h, hsafe⟩
  exact (preserves_tick (P := ScaleKept hosts (windowedDeployments db)) m now cooldown
    (fun d hd _ _ hkept => scaleKept_applyScale hnd hkept hd) hstart).kept

theorem upKept_of_subset {hosts : Uuid → Host} {db db' : Db}
    (hsub : db'.instances ⊆ db.instances) (h : UpKept hosts db) : UpKept hosts db' :=
  fun i hi => h i (hsub hi)

/-- What a scale request commits keeps the rows. -/
theorem upKept_scaleCandidate {hosts : Uuid → Host} {s : Settings} {db db' : Db}
    {obj : DeploymentObj} {replicas now : ℕ} {setRange : Bool} (hk : db.Keyed)
    (hsafe : SafeUnits hosts db obj.loaded) (h : UpKept hosts db)
    (hok : scaleCandidate s db obj replicas setRange now = .ok db') : UpKept hosts db' := by
  have hkept := upKept_applyScale s obj replicas setRange now hk.instances hsafe h
  rw [scaleCandidate_ok hok] at hkept
  exact hkept

/-- The watchdog errors only rows that are to run. -/
theorem upKept_markDisconnected {hosts : Uuid → Host} {db : Db} (now : ℕ) (h : UpKept hosts db) :
    UpKept hosts (markDisconnected db now) := by
  intro j hj
  obtain ⟨i, hi, rfl⟩ := List.mem_map.mp hj
  split
  · rename_i hlost
    unfold lostWith at hlost
    rw [Bool.and_eq_true, Bool.and_eq_true, beq_iff_eq] at hlost
    exact rowKept_of_running hlost.1.2
  · exact h i hi

/-- A Sync keeps a row live when it reports no stopped row as down. -/
theorem upKept_storeReports {env : Env} {wd : World} {w : Uuid} {now : ℕ}
    (hsafe : SyncKeepsUp wd w) (h : UpKept wd.hosts wd.db) :
    UpKept wd.hosts (storeReports wd.db (wd.syncRequest env w) w now) := by
  intro j hj
  obtain ⟨i, hi, rfl⟩ := List.mem_map.mp hj
  intro hdes v hv hup
  rw [applyStatuses_keeps (·.desiredState) (fun _ _ => rfl)] at hdes
  rw [applyStatuses_keeps (·.workerId) (fun _ _ => rfl)] at hv
  rw [applyStatuses_keeps (·.id) (fun _ _ => rfl)] at hup
  have hlive : i.state.isLive = true := h i hi hdes v hv hup
  by_cases hw : i.workerId = some w
  · have hvw : v = w := Option.some.inj (hv.symm.trans hw)
    subst hvw
    rw [live_applyStatuses env wd hw]
    unfold stays
    rw [hlive, hsafe i hi hw hdes hup]
    simp
  · rw [applyStatuses_syncRequest, if_neg hw]
    exact hlive

/-- The allowed steps keep the rows, seen from the hosts before the step. -/
theorem upKept_next_db {env : Env} {wd : World} (hk : wd.db.Keyed) (h : UpKept wd.hosts wd.db)
    {a : Step} (hok : StopStep wd a) : UpKept wd.hosts (wd.next env a).db := by
  cases a with
  | deploy body now =>
    refine preserves_commitTo (UpKept wd.hosts) h ?_
    intro db' hdb'
    obtain ⟨rows, hplace⟩ := placeMove_deploy hk.workers hdb'
    intro i hi
    -- the new rows are to run
    rw [hplace.inserted] at hi
    rcases List.mem_append.mp hi with hi | hi
    · exact h i hi
    · exact rowKept_of_running (hplace.new.scheduled i hi).2
  | scale id body now =>
    refine preserves_commitTo (UpKept wd.hosts) h ?_
    intro db' hdb'
    obtain ⟨d, hd, hcall⟩ := scaleDeployment_ok hdb'
    exact upKept_scaleCandidate hk (hok d hd) h hcall
  | setRange id body now =>
    refine preserves_commitTo (UpKept wd.hosts) h ?_
    intro db' hdb'
    obtain ⟨d, hd, hcall⟩ := setDeploymentRange_ok hdb'
    have hsafe : SafeUnits wd.hosts wd.db (rangeObj d body).loaded := hok d hd
    exact upKept_scaleCandidate hk hsafe h hcall
  | autoscaleTick m clock now => exact upKept_tick m clock now wd.cooldown hk h hok
  | stop id =>
    refine preserves_commitTo (UpKept wd.hosts) h ?_
    intro db' hdb'
    rcases stopInstance_ok hdb' with rfl | rfl
    · intro j hj
      obtain ⟨i, hi, rfl⟩ := List.mem_map.mp hj
      split
      · -- the condition on the step is about the row that is stopped
        rename_i hid
        exact rowKept_stop (hok i hi (by simpa using hid)) (h i hi)
      · exact h i hi
    · exact h
  | restart id =>
    rcases (restart_cases env wd id).2 with heq | heq
    · rw [heq]
      exact h
    · rw [heq]
      intro j hj
      obtain ⟨i, hi, rfl⟩ := List.mem_map.mp hj
      split
      · -- the restarted row is to run
        exact rowKept_of_running rfl
      · exact h i hi
  | deleteInstance id =>
    exact preserves_commitTo (UpKept wd.hosts) h fun db' hdb' =>
      upKept_of_subset (deleteInstance_subset hdb') h
  | deleteDeployment id =>
    exact preserves_commitTo (UpKept wd.hosts) h fun db' hdb' =>
      upKept_of_subset (deleteDeployment_subset hdb') h
  | markDisconnected now =>
    refine preserves_commitTo (UpKept wd.hosts) h ?_
    intro db' hdb'
    injection hdb' with hdb'
    exact hdb' ▸ upKept_markDisconnected now h
  | register req token now =>
    have hsame := (tables_register env wd req token now).1
    exact upKept_of_subset (fun i hi => hsame ▸ hi) h
  | sync w now =>
    rcases sync_cases env wd w now with heq | hsync
    · rw [heq]
      exact h
    · rw [hsync.1]
      exact upKept_storeReports hok h
  | applyNext w => exact h
  | probe w id ready => exact h
  | containerExit w id => exact h
  | restartWorker w => exact h

/-- What is up after a step was up before it, or got its start in this step and is
to run. -/
theorem up_next (env : Env) (wd : World) (a : Step) {w id : Uuid}
    (hup : ((wd.next env a).hosts w).up id = true) :
    (wd.hosts w).up id = true ∨ ∃ i ∈ (wd.next env a).db.instances, i.workerId = some w ∧
      i.desiredState = .running ∧ i.id = id := by
  rcases Footprint.on_next env wd a w (isUp_on_iff.mpr hup) with
    hold | ⟨now, rfl, hsync, c, hc, hid, hstart⟩
  · exact Or.inl (isUp_on_iff.mp hold)
  · obtain ⟨i, hi, hw, hdes, hci, -⟩ := start_mem_buildCommands hc hstart
    rw [← hsync.1] at hi
    exact Or.inr ⟨i, hi, hw, hdes, hci.symm.trans hid⟩

/-- **The allowed steps keep the rows.** -/
theorem upKept_next {env : Env} {wd : World} (hk : wd.db.Keyed) (h : UpKept wd.hosts wd.db)
    {a : Step} (hok : StopStep wd a) : UpKept (wd.next env a).hosts (wd.next env a).db := by
  intro i hi hdes w hw hup
  rcases up_next env wd a hup with hold | ⟨j, hj, -, hjd, hji⟩
  · exact upKept_next_db hk h hok i hi hdes w hw hold
  · -- the row with this id is to run
    have hij : i = j := (keyed_next env wd a hk).eq_of_id hi hj hji.symm
    rw [hij, hjd] at hdes
    cases hdes

/-! ### The next Sync -/

/-- The state after a Sync of the worker and `n` moves of its batches. -/
def afterSync (env : Env) (wd : World) (w : Uuid) (now n : ℕ) : World :=
  exec (World.next env) wd (.sync w now :: List.replicate n (.applyNext w))

/-- Every row that is to stop and whose container runs is live, so that its GPU and
port are taken, and the next allowed Sync takes the container down. -/
def StopsReach (env : Env) (wd : World) : Prop :=
  ∀ i ∈ wd.db.instances, i.desiredState = .stopped → ∀ w, i.workerId = some w →
    ¬ (wd.hosts w).Down i.id →
      i.live = true ∧ ∀ now, Synced env wd w now → SyncKeepsUp wd w →
        ∃ n, ((afterSync env wd w now n).hosts w).batch = none ∧
          ((afterSync env wd w now n).hosts w).Down i.id

theorem hosts_replicate_applyNext (env : Env) (w : Uuid) : ∀ (n : ℕ) (wd : World),
    (exec (World.next env) wd (List.replicate n (.applyNext w))).hosts w =
      Host.applied env.hfToken n (wd.hosts w) := by
  intro n
  induction n with
  | zero => exact fun _ => rfl
  | succ n ih =>
    intro wd
    rw [List.replicate_succ, exec_cons, ih, Host.applied_succ]
    have hnext : (wd.next env (.applyNext w)).hosts w = ((wd.hosts w).applyNext env.hfToken).1 := by
      change Function.update wd.hosts w _ w = _
      rw [Function.update_self]
    rw [hnext]

/-- A running container is up. -/
theorem up_of_not_down {h : Host} {id : Uuid} (hdown : ¬ h.Down id) :
    h.up id = true ∧ ∃ c, h.containers.get? id = some c := by
  unfold Host.Down at hdown
  push Not at hdown
  obtain ⟨c, hc, hrun⟩ := hdown
  refine ⟨?_, c, hc⟩
  unfold Host.up
  rw [hc, Option.any_some, Bool.eq_true_of_not_eq_false hrun, Bool.true_or]

/-- The answer to an allowed Sync stops a row that is to stop and is up, and starts
it not. -/
theorem stopCommand_mem_sync (env : Env) {wd : World} (hk : wd.db.Keyed) {w : Uuid} (now : ℕ)
    (hsound : (wd.hosts w).Sound) (hsafe : SyncKeepsUp wd w) {i : Instance}
    (hi : i ∈ wd.db.instances) (hdes : i.desiredState = .stopped) (hw : i.workerId = some w)
    (hup : ¬ (wd.hosts w).Down i.id) :
    stopCommand i.id ∈
        buildCommands (storeReports wd.db (wd.syncRequest env w) w now) (wd.syncRequest env w) w ∧
      ∀ c ∈ buildCommands (storeReports wd.db (wd.syncRequest env w) w now)
        (wd.syncRequest env w) w, c.instanceId = i.id → c.action ≠ .start := by
  set req := wd.syncRequest env w
  have hid : (applyStatuses req w i).id = i.id :=
    applyStatuses_keeps (·.id) (fun _ _ => rfl) req w i
  have hi' : applyStatuses req w i ∈ (storeReports wd.db req w now).instances :=
    List.mem_map_of_mem hi
  have hdes' : (applyStatuses req w i).desiredState = .stopped := by
    rw [applyStatuses_keeps (·.desiredState) (fun _ _ => rfl)]
    exact hdes
  have hw' : (applyStatuses req w i).workerId = some w := by
    rw [applyStatuses_keeps (·.workerId) (fun _ _ => rfl)]
    exact hw
  constructor
  · -- the container is tracked, and reported starting or running
    obtain ⟨hisUp, k, hcont⟩ := up_of_not_down hup
    obtain ⟨t, ht⟩ := (hsound.tracked i.id).1 k hcont
    have hlive := hsafe i hi hw hdes hisUp
    rw [ht, Option.all_some] at hlive
    have hstate : t.state = .starting ∨ t.state = .running := by
      have hne := (hsound.tracked i.id).2 t ht
      revert hlive hne
      cases t.state <;> simp
    rw [← hid, stopCommand_mem_buildCommands hi' hw' hdes', hid, reported_syncRequest, ht]
    refine ⟨statusOf i.id t, rfl, ?_⟩
    rcases hstate with hstate | hstate
    · exact Or.inl (congrArg _ hstate)
    · exact Or.inr (congrArg _ hstate)
  · -- a start would be for a row that is to run
    intro c hc hcid hstart
    obtain ⟨j, hj, -, hjd, hjid, -⟩ := start_mem_buildCommands hc hstart
    have heq : applyStatuses req w i = j :=
      (keyed_storeReports hk req w now).eq_of_id hi' hj (by rw [hid, ← hcid, hjid])
    rw [← heq, hdes'] at hjd
    cases hjd

/-- What holds in every state of an allowed run. -/
structure StopInv (wd : World) : Prop where
  keyed : wd.db.Keyed
  kept : UpKept wd.hosts wd.db
  sound : ∀ w, (wd.hosts w).Sound

theorem stopInv_next {env : Env} (wd : World) (a : Step) (hinv : StopInv wd)
    (hok : StopStep wd a) : StopInv (wd.next env a) :=
  ⟨keyed_next env wd a hinv.keyed, upKept_next hinv.keyed hinv.kept hok,
    sound_next env wd a hinv.sound⟩

theorem World.Initial.stopInv {wd : World} (h : wd.Initial) : StopInv wd := by
  refine ⟨h.keyed, ?_, h.sound⟩
  intro i hi
  rw [h.instances] at hi
  exact absurd hi List.not_mem_nil

/-- The invariant gives the two halves. -/
theorem StopInv.reach {wd : World} (hinv : StopInv wd) (env : Env) : StopsReach env wd := by
  intro i hi hdes w hw hup
  refine ⟨hinv.kept i hi hdes w hw (up_of_not_down hup).1, ?_⟩
  intro now hsync hsafe
  obtain ⟨hmem, hno⟩ :=
    stopCommand_mem_sync env hinv.keyed now (hinv.sound w) hsafe hi hdes hw hup
  set commands := buildCommands (storeReports wd.db (wd.syncRequest env w) w now)
    (wd.syncRequest env w) w
  have hhost : (wd.next env (.sync w now)).hosts w = (wd.hosts w).reconcile commands := by
    rw [hsync.2, Function.update_self]
  have hs := Host.sound_reconcile (hinv.sound w) commands
  have hdoomed := Host.doomed_reconcile (hinv.sound w) ⟨_, hmem, rfl⟩ hno
  obtain ⟨n, hb, hp⟩ := Host.exists_drained env.hfToken hs
  refine ⟨n, ?_⟩
  unfold afterSync
  rw [exec_cons, hosts_replicate_applyNext, hhost]
  exact ⟨hb, (Host.doomed_applied env.hfToken n hs hdoomed).down hb hp⟩

/-- **When a stopped desire reaches the container.**  A Sync sends the stops it owes
exactly when every instance that is owed one was last reported starting or running.
In a run in which rows are stopped while they are live, or while nothing of them is
up, and no Sync reports a stopped row as down while something of it is up, every row
that is to stop keeps its GPU and port while its container runs, and the next Sync
takes the container down. -/
theorem stop_reaches_container (env : Env) (sha : String → String) :
    (∀ (db db' : Db) (req : SyncRequest) (now : ℕ) (w : Uuid)
      (commands : List Command), req.workerId = some w →
        syncWorker sha db req now = .ok (db', commands) →
          (StopsReported db req w commands ↔ LastReportedUp db req w)) ∧
    ∀ wd : World, wd.Initial → ∀ as : List Step,
      Conforms (World.next env) StopStep wd as → StopsReach env (exec (World.next env) wd as) := by
  constructor
  · intro db db' req now w commands hreq hsync
    exact stopsReported_iff hreq hsync
  · intro wd h0 as hok
    have hinv := invariant_of_conforms StopInv stopInv_next as wd h0.stopInv hok
    exact hinv.reach env

/-- The replica `3` serves and is told to stop. -/
def stopRun : List Step := sampleServe ++ [.stop 3]

/-- Its container runs, and the next Sync takes it down. -/
theorem stop_reaches_container_sample :
    sampleWorld.Initial ∧ Conforms (World.next sampleEnv) StopStep sampleWorld stopRun ∧
      (∃ i ∈ (exec (World.next sampleEnv) sampleWorld stopRun).db.instances,
        i.desiredState = .stopped ∧ i.workerId = some 1 ∧
          (((exec (World.next sampleEnv) sampleWorld stopRun).hosts 1).containers.get? i.id).any
            (·.running) = true) ∧
      StopsReach sampleEnv (exec (World.next sampleEnv) sampleWorld stopRun) :=
  ⟨sampleWorld_initial, by decide +kernel, by decide +kernel,
    (stop_reaches_container sampleEnv id).2 sampleWorld sampleWorld_initial stopRun
      (by decide +kernel)⟩

/-- The health probe of the replica `3` times out while its container runs; it is
reported as an error and then told to stop. -/
def erroredRun : List Step :=
  sampleJoin ++ [sampleDeploy, .sync 1 1, .applyNext 1, .applyNext 1, .probe 1 3 false, .sync 1 2,
    .applyNext 1, .stop 3]

/-- **The stop of an errored instance is lost**: the next Sync sends no stop for it,
and its container runs on while its GPU and port count as free. -/
theorem errored_stop_is_lost :
    (¬ ∀ (sha : String → String) (db db' : Db) (req : SyncRequest) (now : ℕ) (w : Uuid)
      (commands : List Command), req.workerId = some w →
        syncWorker sha db req now = .ok (db', commands) → StopsReported db req w commands) ∧
    let wd := exec (World.next sampleEnv) sampleWorld (erroredRun ++ [.sync 1 3, .applyNext 1])
    (wd.hosts 1).batch = none ∧ ((wd.hosts 1).containers.get? 3).any (·.running) = true ∧
      ∃ i ∈ wd.db.instances, i.id = 3 ∧ i.desiredState = .stopped ∧ i.live = false := by
  constructor
  · intro h
    set wd := exec (World.next sampleEnv) sampleWorld erroredRun with hwd
    have hok :
        (syncWorker sampleEnv.sha256Hex wd.db (wd.syncRequest sampleEnv 1) 3).toBool = true := by
      decide +kernel
    cases hsync : syncWorker sampleEnv.sha256Hex wd.db (wd.syncRequest sampleEnv 1) 3 with
    | error e => rw [hsync] at hok; cases hok
    | ok r =>
      obtain ⟨db', commands⟩ := r
      have hall := (stopsReported_iff rfl hsync).mp (h _ _ _ _ _ _ _ rfl hsync)
      have hrow : ∃ i ∈ wd.db.instances, i.id = 3 ∧ i.workerId = some 1 ∧
          i.desiredState = .stopped := by decide +kernel
      obtain ⟨i, hi, hid, hw, hdes⟩ := hrow
      have herr : ((wd.hosts 1).instances.get? 3).map (·.state) = some .error := by decide +kernel
      obtain ⟨t, ht, hstate⟩ := Option.map_eq_some_iff.mp herr
      -- the only report about the instance is the failed one
      have hown : ∃ st ∈ (wd.syncRequest sampleEnv 1).statusesOf i.id, st.state ≠ .of .stopped := by
        rw [statusesOf_of_statuses (h := wd.hosts 1) rfl, hid, ht]
        refine ⟨statusOf 3 t, List.mem_singleton.mpr rfl, ?_⟩
        change WireState.of t.state ≠ _
        rw [hstate]
        decide
      obtain ⟨st, hrep, hup⟩ := hall i hi hw hdes hown
      rw [reported_syncRequest, hid, ht] at hrep
      injection hrep with hrep
      rw [← hrep] at hup
      change WireState.of t.state = _ ∨ WireState.of t.state = _ at hup
      rw [hstate] at hup
      revert hup
      decide
  · decide +kernel

end Inferna
