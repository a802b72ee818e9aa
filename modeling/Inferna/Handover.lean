import Inferna.Ports

/-!
# The handover of host ports

The server frees a port as soon as its row is deleted, or stopped and not live;
the container goes down later, when a command of a Sync is applied.  A batch
applies its starts first.  So a start meets its port still held exactly when the
port was handed out while a worker held it without a reservation.

## Main definitions

* `holdsPort` — the footprint of a host port: a running container that publishes
  it, or a queued start that is going to.
* `heldPorts`, `HeldPortsReserved` — the ports held on a worker, and that the
  server knows of each of them.
* `HandoverStep` — the steps of the handover: a placement is made only while the
  server knows of every held port.

## Main results

* `no_start_refused` — **no start is refused** in a run of such steps.
* `delete_then_deploy_refused` — a deploy right after a delete can be refused.
-/

namespace Inferna

open Run

/-! ### Held ports -/

/-- Something on a worker that holds, or is going to hold, the host port `p`. -/
def holdsPort (p : ℕ) : Footprint where
  tracked _ := False
  container c := c.running = true ∧ c.published = some p
  command c := c.bindsPort = some p
  tracked_of_state := fun _ _ _ h => h
  container_of_down := fun _ h => absurd h.1 Bool.false_ne_true
  container_of_adopted := fun _ h => h.elim
  command_of_container := fun c config ok hact hcfg h => by
    unfold Command.bindsPort
    rw [hact, hcfg]
    exact h.2
  command_of_tracked := fun _ _ _ _ _ h => h.elim

/-- The host ports held on a worker. -/
def heldPorts (h : Host) : List ℕ :=
  (h.containers.entries.filterMap fun e => if e.2.running then e.2.published else none) ++
    h.queued.filterMap Command.bindsPort

theorem mem_heldPorts {h : Host} {id : Uuid} {p : ℕ} (hon : (holdsPort p).On h id) :
    p ∈ heldPorts h := by
  unfold heldPorts
  rw [List.mem_append]
  rcases hon with ⟨t, _, hf⟩ | ⟨c, hc, hrun, hpub⟩ | ⟨c, hc, _, hf⟩
  · exact hf.elim
  · left
    rw [← Dict.mem_entries_iff] at hc
    exact List.mem_filterMap.mpr ⟨(id, c), hc, by rw [if_pos hrun]; exact hpub⟩
  · exact Or.inr (List.mem_filterMap.mpr ⟨c, hc, hf⟩)

/-- A held port is the port of the command's config, and not `0`. -/
theorem bindsPort_eq {c : Command} {p : ℕ} (h : c.bindsPort = some p) :
    c.action = .start ∧ p ≠ 0 ∧ (c.config.map (·.port)).getD 0 = p := by
  unfold Command.bindsPort at h
  split at h
  · rename_i hact
    cases hcfg : c.config with
    | none => rw [hcfg] at h; cases h
    | some config =>
      rw [hcfg] at h
      change config.published = some p at h
      unfold EngineConfig.published at h
      split at h
      · cases h
      · rename_i hne
        injection h with h
        rw [not_or] at hne
        exact ⟨hact, h ▸ hne.2, h⟩
  · cases h

/-- On every worker, the server has each held port reserved. -/
def HeldPortsReserved (hosts : Uuid → Host) (db : Db) : Prop :=
  ∀ w ∈ db.workers, ∀ p ∈ heldPorts (hosts w.id), p ∈ usedPorts (portInstances db w.id)

/-- A held port of a row that is to run is held for that row. -/
def SoleHolder (hosts : Uuid → Host) (db : Db) : Prop :=
  ∀ w id p, (holdsPort p).On (hosts w) id → ∀ r ∈ db.instances, r.workerId = some w →
    r.desiredState = .running → r.port = some p → r.id = id

/-- One port is held for one instance. -/
def HeldOnce (hosts : Uuid → Host) : Prop :=
  ∀ w id id' p, (holdsPort p).On (hosts w) id → (holdsPort p).On (hosts w) id' → id = id'

/-! ### Server moves -/

/-- Every row of `db'` that is to run is one of `db` that was, on the same worker
and port. -/
def RunsFrom (db db' : Db) : Prop :=
  ∀ j ∈ db'.instances, j.desiredState = .running → ∃ i ∈ db.instances, i.id = j.id ∧
    i.workerId = j.workerId ∧ i.port = j.port ∧ i.desiredState = .running

theorem SoleHolder.of_runsFrom {hosts : Uuid → Host} {db db' : Db} (h : SoleHolder hosts db)
    (hruns : RunsFrom db db') : SoleHolder hosts db' := by
  intro w id p hon r hr hw hdes hp
  obtain ⟨i, hi, hid, hiw, hip, hides⟩ := hruns r hr hdes
  rw [← hid]
  exact h w id p hon i hi (hiw.trans hw) hides (hip.trans hp)

theorem runsFrom_of_subset {db db' : Db} (h : ∀ i ∈ db'.instances, i ∈ db.instances) :
    RunsFrom db db' :=
  fun j hj hdes => ⟨j, h j hj, rfl, rfl, rfl, hdes⟩

theorem runsFrom_stop (db : Db) (p : Instance → Bool) :
    RunsFrom db (db.updateWhere p Instance.stop) := by
  intro j hj hdes
  obtain ⟨i, hi, rfl⟩ := List.mem_map.mp hj
  split at hdes
  · cases hdes
  · rename_i hp
    rw [if_neg hp]
    exact ⟨i, hi, rfl, rfl, rfl, hdes⟩

theorem runsFrom_disconnect (db : Db) (now : ℕ) : RunsFrom db (markDisconnected db now) := by
  intro j hj hdes
  obtain ⟨i, hi, rfl⟩ := List.mem_map.mp hj
  refine ⟨i, hi, ?_⟩
  split at hdes
  · rename_i hl
    rw [if_pos hl]
    exact ⟨rfl, rfl, rfl, hdes⟩
  · rename_i hl
    rw [if_neg hl]
    exact ⟨rfl, rfl, rfl, hdes⟩

/-- A placement takes no port that is held, while the server knows of those. -/
theorem soleHolder_place {s : Settings} {hosts : Uuid → Host} {db db' : Db} {rows : List Instance}
    (h : SoleHolder hosts db) (hheld : HeldPortsReserved hosts db)
    (hplace : PlaceMove s db db' rows) : SoleHolder hosts db' ∧ HeldPortsReserved hosts db' := by
  constructor
  · intro w id p hon r hr hw hdes hp
    rw [hplace.inserted] at hr
    rcases List.mem_append.mp hr with hr | hr
    · exact h w id p hon r hr hw hdes hp
    · -- a new row on a held port: the allocator saw it reserved
      exfalso
      obtain ⟨vram, slots, hplaced, heq, -⟩ := hplace.new.placed
      have hmem : r.place ∈ slots.map Slot.place := heq ▸ List.mem_map_of_mem hr
      obtain ⟨sl, hsl, hslot⟩ := List.mem_map.mp hmem
      have hslw : sl.workerId = w := by
        have h1 : some sl.workerId = r.workerId := congrArg Prod.fst hslot
        rw [hw] at h1
        exact Option.some.inj h1
      have hslp : sl.port = some p := (congrArg (fun x => x.2.2) hslot).trans hp
      obtain ⟨v, hv, hvid⟩ := hplaced.known sl hsl
      have hused := hheld v hv p (hvid ▸ hslw ▸ mem_heldPorts hon)
      obtain ⟨i, hi, hip⟩ := List.mem_filterMap.mp hused
      rw [Option.filter_eq_some_iff] at hip
      have hzero := hplaced.unreserved sl hsl p hslp i (hvid ▸ hi) hip.1
      simp [hzero] at hip
  · intro v hv p hp
    rw [hplace.workers] at hv
    have hused := hheld v hv p hp
    obtain ⟨i, hi, hip⟩ := List.mem_filterMap.mp hused
    refine List.mem_filterMap.mpr ⟨i, ?_, hip⟩
    unfold portInstances at hi ⊢
    rw [hplace.inserted, List.filter_append]
    exact List.mem_append_left _ hi

theorem soleHolder_placements {s : Settings} {hosts : Uuid → Host} {db db' : Db}
    (hplaces : Placements s db db') (h : SoleHolder hosts db)
    (hheld : HeldPortsReserved hosts db) : SoleHolder hosts db' := by
  have hboth : SoleHolder hosts db' ∧ HeldPortsReserved hosts db' := by
    induction hplaces with
    | refl => exact ⟨h, hheld⟩
    | tail _ hplace ih =>
      obtain ⟨rows, hplace⟩ := hplace
      exact soleHolder_place ih.1 ih.2 hplace
  exact hboth.1

/-- The server knows of every held port when a scale-out places its units. -/
def ScaleHeldReserved (hosts : Uuid → Host) (db : Db) (d : Deployment) (replicas : ℕ) : Prop :=
  (capacityUnits d db).length < replicas →
    HeldPortsReserved hosts (stopUnits db (brokenUnits d db))

theorem soleHolder_scale {s : Settings} {hosts : Uuid → Host} {db db' : Db} {d : Deployment}
    {replicas now : ℕ} (hkeys : (db.workers.map (·.id)).Nodup) (h : SoleHolder hosts db)
    (hheld : ScaleHeldReserved hosts db d replicas)
    (hscale : scaleCandidate s db d.load replicas true now = .ok db') : SoleHolder hosts db' := by
  have hstopped : SoleHolder hosts (stopUnits db (brokenUnits d db)) :=
    h.of_runsFrom (runsFrom_stop db _)
  have hmoved : SoleHolder hosts (moveReplicas s d replicas now db).1 := by
    unfold moveReplicas
    simp only
    split
    · rename_i hlt
      exact soleHolder_placements (placements_scaleOut s d now _ _ _ hkeys) hstopped (hheld hlt)
    · exact hstopped.of_runsFrom (runsFrom_stop _ _)
  have hcall := scaleCandidate_ok hscale
  rcases applyScale_cases s d.load replicas true now db with ⟨e, -, heq⟩ | ⟨-, heq⟩
  · rw [heq] at hcall
    cases hcall
  · rw [heq] at hcall
    obtain rfl := congrArg Prod.fst hcall
    exact hmoved.of_runsFrom (runsFrom_of_subset fun _ hi => hi)

/-! ### Steps -/

/-- The steps of the handover.  A deploy, and a scale that has to place units, come
only while the server has every held port reserved; the steps that the handover
does not have are out. -/
def HandoverStep (wd : World) : Step → Prop
  | .deploy _ _ => HeldPortsReserved wd.hosts wd.db
  | .scale id body _ =>
    ∀ d ∈ wd.db.findDeployment id, ScaleHeldReserved wd.hosts wd.db d body.replicas
  | .restart _ | .setRange _ _ _ | .autoscaleTick _ _ _ => False
  | _ => True

instance (hosts : Uuid → Host) (db : Db) : Decidable (HeldPortsReserved hosts db) :=
  inferInstanceAs (Decidable (∀ w ∈ _, ∀ p ∈ _, _))

instance (hosts : Uuid → Host) (db : Db) (d : Deployment) (n : ℕ) :
    Decidable (ScaleHeldReserved hosts db d n) :=
  inferInstanceAs (Decidable (_ → _))

instance (wd : World) (a : Step) : Decidable (HandoverStep wd a) :=
  match a with
  | .deploy _ _ => inferInstanceAs (Decidable (HeldPortsReserved wd.hosts wd.db))
  | .scale id body _ => inferInstanceAs (Decidable (∀ d ∈ wd.db.findDeployment id,
      ScaleHeldReserved wd.hosts wd.db d body.replicas))
  | .restart _ | .setRange _ _ _ | .autoscaleTick _ _ _ => isFalse id
  | .stop _ | .deleteInstance _ | .deleteDeployment _ | .register _ _ _ | .sync _ _
  | .markDisconnected _ | .applyNext _ | .probe _ _ _ | .containerExit _ _
  | .restartWorker _ => isTrue trivial

/-- The invariant of the handover. -/
structure HandoverInv (wd : World) : Prop where
  ports : PortInv wd
  sole : SoleHolder wd.hosts wd.db
  once : HeldOnce wd.hosts

theorem portIndexOk_of_valid {db : Db} (h : db.violation = none) : db.PortIndexOk := by
  by_contra hne
  rw [(Db.violation_eq_workerPortActive_iff db).mpr hne] at h
  cases h

/-- What the index says of rows that are to run. -/
theorem Db.PortIndexOk.eq_of_running {db : Db} (h : db.PortIndexOk) {i j : Instance} {w : Uuid}
    {p : ℕ} (hi : i ∈ db.instances) (hj : j ∈ db.instances) (hiw : i.workerId = some w)
    (hjw : j.workerId = some w) (hid : i.desiredState = .running) (hjd : j.desiredState = .running)
    (hip : i.port = some p) (hjp : j.port = some p) : i = j := by
  by_contra hne
  have hsymm : Std.Symm fun i j : Instance => ¬ PortClash i j := by
    constructor
    rintro a b hab ⟨h1, h2, h3, h4, h5, h6⟩
    exact hab ⟨h2, h1, h3.symm, h3 ▸ h4, h5.symm, h5 ▸ h6⟩
  refine h.forall hi hj hne ⟨?_, ?_, hiw.trans hjw.symm, ?_, hip.trans hjp.symm, ?_⟩
  · unfold Instance.portReserved
    rw [hid]
    rfl
  · unfold Instance.portReserved
    rw [hjd]
    rfl
  · rw [hiw]
    exact Option.some_ne_none w
  · rw [hip]
    exact Option.some_ne_none p

theorem runsFrom_storeReports {wd : World} (hagree : PortsAgree wd) (env : Env) (w now : ℕ) :
    RunsFrom wd.db (storeReports wd.db (wd.syncRequest env w) w now) := by
  intro j hj hdes
  obtain ⟨i, hi, rfl⟩ := List.mem_map.mp hj
  rw [applyStatuses_keeps (·.desiredState) (fun _ _ => rfl)] at hdes
  exact ⟨i, hi, (applyStatuses_keeps (·.id) (fun _ _ => rfl) _ w i).symm,
    (applyStatuses_keeps (·.workerId) (fun _ _ => rfl) _ w i).symm,
    (port_applyStatuses hagree env w hi).symm, hdes⟩

/-- After the server's part of a step, the ports that were held are held for the
rows that are to run on them. -/
theorem soleHolder_next_db {env : Env} {wd : World} (hinv : HandoverInv wd) {a : Step}
    (hok : HandoverStep wd a) : SoleHolder wd.hosts (wd.next env a).db := by
  cases a with
  | deploy body now =>
    refine preserves_commitTo (SoleHolder wd.hosts) hinv.sole ?_
    intro db' hdb'
    obtain ⟨rows, hplace⟩ := placeMove_deploy hinv.ports.keyed.workers hdb'
    have hadded : SoleHolder wd.hosts (wd.db.addDeployment (deploymentRow body now wd.db.nextUuid)) :=
      hinv.sole
    exact (soleHolder_place hadded hok hplace).1
  | scale id body now =>
    refine preserves_commitTo (SoleHolder wd.hosts) hinv.sole ?_
    intro db' hdb'
    obtain ⟨d, hd, hcall⟩ := scaleDeployment_ok hdb'
    exact soleHolder_scale hinv.ports.keyed.workers hinv.sole (hok d hd) hcall
  | setRange id body now => exact False.elim hok
  | autoscaleTick m clock now => exact False.elim hok
  | restart id => exact False.elim hok
  | stop id =>
    refine preserves_commitTo (SoleHolder wd.hosts) hinv.sole ?_
    intro db' hdb'
    rcases stopInstance_ok hdb' with rfl | rfl
    · exact hinv.sole.of_runsFrom (runsFrom_stop wd.db _)
    · exact hinv.sole
  | deleteInstance id =>
    refine preserves_commitTo (SoleHolder wd.hosts) hinv.sole ?_
    intro db' hdb'
    exact hinv.sole.of_runsFrom (runsFrom_of_subset fun i hi => deleteInstance_subset hdb' hi)
  | deleteDeployment id =>
    refine preserves_commitTo (SoleHolder wd.hosts) hinv.sole ?_
    intro db' hdb'
    exact hinv.sole.of_runsFrom (runsFrom_of_subset fun i hi => deleteDeployment_subset hdb' hi)
  | markDisconnected now =>
    refine preserves_commitTo (SoleHolder wd.hosts) hinv.sole ?_
    intro db' hdb'
    injection hdb' with hdb'
    exact hdb' ▸ hinv.sole.of_runsFrom (runsFrom_disconnect wd.db now)
  | register req token now =>
    have hsame := (tables_register env wd req token now).1
    exact hinv.sole.of_runsFrom (runsFrom_of_subset fun i hi => hsame ▸ hi)
  | sync w now =>
    rcases sync_cases env wd w now with heq | hsync
    · rw [heq]
      exact hinv.sole
    · rw [hsync.1]
      exact hinv.sole.of_runsFrom (runsFrom_storeReports hinv.ports.agree env w now)
  | applyNext w => exact hinv.sole
  | probe w id ready => exact hinv.sole
  | containerExit w id => exact hinv.sole
  | restartWorker w => exact hinv.sole

/-- A port held after a step was held before it, or is the port of a row that is to
run and got its start command in this step. -/
theorem holdsPort_next (env : Env) (wd : World) (a : Step) {w id : Uuid} {p : ℕ}
    (hon : (holdsPort p).On ((wd.next env a).hosts w) id) :
    (holdsPort p).On (wd.hosts w) id ∨ ∃ i ∈ (wd.next env a).db.instances, i.workerId = some w ∧
      i.desiredState = .running ∧ i.port = some p ∧ i.id = id := by
  rcases Footprint.on_next env wd a w hon with hold | ⟨now, rfl, hsync, c, hc, hid, hcmd⟩
  · exact Or.inl hold
  · obtain ⟨hstart, hne, hport⟩ := bindsPort_eq hcmd
    obtain ⟨i, hi, hw, hdes, hci, hcfg⟩ := start_mem_buildCommands hc hstart
    rw [hcfg, Option.map_some, Option.getD_some, engineConfig_port] at hport
    rw [← hsync.1] at hi
    refine Or.inr ⟨i, hi, hw, hdes, ?_, hci.symm.trans hid⟩
    cases hip : i.port with
    | none => rw [hip] at hport; exact absurd hport.symm hne
    | some q => rw [hip] at hport; rw [← hport]; rfl

theorem handoverInv_next {env : Env} (wd : World) (a : Step) (hinv : HandoverInv wd)
    (hok : HandoverStep wd a) : HandoverInv (wd.next env a) := by
  have hindex : (wd.next env a).db.PortIndexOk := by
    rcases next_db_eq_or_valid env wd a with heq | hv
    · rw [heq]
      exact hinv.ports.index
    · exact portIndexOk_of_valid hv
  have hports : PortInv (wd.next env a) := ⟨keyed_next env wd a hinv.ports.keyed, hindex,
    portsAgree_next env wd a hinv.ports.keyed hinv.ports.agree⟩
  have hserver : SoleHolder wd.hosts (wd.next env a).db := soleHolder_next_db hinv hok
  refine ⟨hports, ?_, ?_⟩
  · intro w id p hon r hr hw hdes hp
    rcases holdsPort_next env wd a hon with hold | ⟨i, hi, hiw, hid, hip, rfl⟩
    · exact hserver w id p hold r hr hw hdes hp
    · -- the start of a row that is to run: no other such row has the port
      rw [hindex.eq_of_running hr hi hw hiw hdes hid hp hip]
  · intro w id id' p hon hon'
    rcases holdsPort_next env wd a hon with hold | ⟨i, hi, hiw, hid, hip, rfl⟩
    · rcases holdsPort_next env wd a hon' with hold' | ⟨j, hj, hjw, hjd, hjp, rfl⟩
      · exact hinv.once w id id' p hold hold'
      · exact (hserver w id p hold j hj hjw hjd hjp).symm
    · rcases holdsPort_next env wd a hon' with hold' | ⟨j, hj, hjw, hjd, hjp, rfl⟩
      · exact hserver w id' p hold' i hi hiw hid hip
      · rw [hindex.eq_of_running hi hj hiw hjw hid hjd hip hjp]

/-- While each port is held once, a batch meets no port of another instance. -/
theorem refused_eq_none {wd : World} (hinv : HandoverInv wd) (env : Env) (a : Step) :
    (wd.step env a).2.refused = none := by
  cases a with
  | applyNext w =>
    unfold World.step
    simp only
    unfold Host.applyNext
    split
    · rfl
    · rfl
    · rename_i c rest hbatch
      simp only
      by_cases href : refusesStart (wd.hosts w) c = true
      · -- the holder and the command are two instances on one port
        exfalso
        unfold refusesStart at href
        rw [Option.any_eq_true] at href
        obtain ⟨port, hport, hheld⟩ := href
        unfold Host.portHeld at hheld
        rw [List.any_eq_true] at hheld
        obtain ⟨⟨id, k⟩, he, hk⟩ := hheld
        rw [decide_eq_true_eq] at hk
        rw [Dict.mem_entries_iff] at he
        have hother : (holdsPort port).On (wd.hosts w) id :=
          Or.inr (Or.inl ⟨k, he, hk.2.1, hk.2.2⟩)
        have hmine : (holdsPort port).On (wd.hosts w) c.instanceId := by
          refine Or.inr (Or.inr ⟨c, ?_, rfl, hport⟩)
          simp [Host.queued, hbatch]
        exact hk.1 (hinv.once w id c.instanceId port hother hmine)
      · rw [Bool.not_eq_true] at href
        simp [href]
  | register req token now =>
    unfold World.step World.registerStep
    simp only
    split
    · rfl
    · split <;> rfl
  | sync w now =>
    unfold World.step World.syncStep
    simp only
    split
    · rfl
    · split <;> rfl
  | autoscaleTick m clock now => rfl
  | probe w id ready => rfl
  | containerExit w id => rfl
  | restartWorker w => rfl
  | deploy body now => rfl
  | scale id body now => rfl
  | setRange id body now => rfl
  | stop id => rfl
  | restart id => rfl
  | deleteInstance id => rfl
  | deleteDeployment id => rfl
  | markDisconnected now => rfl

/-! ### Runs -/

theorem World.Initial.handoverInv {wd : World} (h : wd.Initial) : HandoverInv wd where
  ports := h.portInv
  sole := by
    intro w id p hon
    rw [h.hosts w] at hon
    exact absurd hon (not_on_default _ id)
  once := by
    intro w id id' p hon
    rw [h.hosts w] at hon
    exact absurd hon (not_on_default _ id)

/-- **No start is refused for its port** in a run of the handover's steps: deploys
and scale-outs come while the server has every held port reserved, and stops,
deletes, Syncs and the workers' moves come in any order. -/
theorem no_start_refused (env : Env) (wd : World) (h0 : wd.Initial) (as : List Step)
    (hok : Conforms (World.next env) HandoverStep wd as) :
    ∀ (pre : List Step) (a : Step), pre ++ [a] <+: as →
      ((exec (World.next env) wd pre).step env a).2.refused = none := by
  rintro pre a ⟨rest, rfl⟩
  rw [conforms_append, conforms_append] at hok
  have hinv : HandoverInv (exec (World.next env) wd pre) :=
    invariant_of_conforms HandoverInv handoverInv_next pre wd h0.handoverInv hok.1.1
  exact refused_eq_none hinv env a

/-- A replica is served, stopped and deleted, its container goes down, and the next
deploy takes its port over. -/
def handoverRun : List Step :=
  sampleStopped ++ [.deleteInstance 3, .sync 1 5, .applyNext 1, .applyNext 1, sampleDeploy,
    .sync 1 6]

theorem no_start_refused_sample :
    sampleWorld.Initial ∧
      Conforms (World.next sampleEnv) HandoverStep sampleWorld (handoverRun ++ [.applyNext 1]) ∧
      ((exec (World.next sampleEnv) sampleWorld handoverRun).step sampleEnv
        (.applyNext 1)).2.refused = none :=
  ⟨sampleWorld_initial, by decide +kernel,
    no_start_refused sampleEnv sampleWorld sampleWorld_initial (handoverRun ++ [.applyNext 1])
      (by decide +kernel) handoverRun (.applyNext 1) (List.prefix_refl _)⟩

/-- A replica is deleted while its container runs, and a new one gets its port; the
next Sync answers with the start and the delete, and the start is applied first. -/
def deleteRun : List Step :=
  sampleServe ++ [.deleteInstance 3, sampleDeploy, .sync 1 3]

/-- **A start can be refused**: the port of a deleted instance is still held. -/
theorem delete_then_deploy_refused :
    ¬ ∀ (env : Env) (wd : World), wd.Initial → ∀ (pre : List Step) (a : Step),
      ((exec (World.next env) wd pre).step env a).2.refused = none := by
  intro h
  have hrun := h sampleEnv sampleWorld sampleWorld_initial deleteRun (.applyNext 1)
  revert hrun
  decide +kernel

end Inferna
