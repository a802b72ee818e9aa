import Inferna.Engines
import Inferna.Groups

/-!
# The command realises the topology

A group goes from the placement to the engines through a text `host:port` in its rows, the
messages of the config, and the options of the commands.  Server and worker each have their
own notion of the modes: for the server the pipeline is one stage deep in every mode but
`pp`, for the worker it spans the ranks in every mode but `tp`.

## Main definitions

* `PlacedGroup` — a group that a call inserts, with its placement.
* `GroupCall`, `GroupCall.result`, `GroupCall.groups` — the calls that insert groups.
* `Realises` — what the command of a rank is to say.

## Main results

* `mem_groups_of_new` — every new row of a group is of one of the groups of the call.
* `fromConfig_rankRow` — the spec of a rank is its row's, with the head's address.
* `realises_iff` — **the modes whose commands realise the topology.**
* `dp_pipeline_differs` — a group of mode `dp`.
-/

namespace Inferna

/-! ### Groups and the calls that insert them -/

/-- A group that a call inserts: for which deployment and when, in which tables, and where
its ranks are placed. -/
structure PlacedGroup where
  d : Deployment
  now : ℕ
  before : Db
  allocations : List ParallelAllocation

/-- The rows of the group. -/
def PlacedGroup.rows (g : PlacedGroup) : List Instance :=
  g.allocations.mapIdx fun k a =>
    rankRow g.d g.now g.before.nextUuid (rendezvousText g.allocations) (g.before.nextUuid + 1 + k) a

/-- The groups that `placeGroups` inserts. -/
def placements (s : Settings) (d : Deployment) (vramRequiredMb now : ℕ) :
    ℕ → Db → List Uuid → List PlacedGroup
  | 0, _, _ => []
  | n + 1, db, occupied =>
    match allocateParallelReplicas s db d.clusterId vramRequiredMb d.engine d.nodesPerReplica
        occupied with
    | .error _ => []
    | .ok allocations =>
      ⟨d, now, db, allocations⟩ :: placements s d vramRequiredMb now n
        (addGroup db d now allocations) (occupied ++ allocations.map (·.worker.id))

/-- The calls that insert groups. -/
inductive GroupCall
  | deploy (body : DeployRequest) (now : ℕ)
  | applyScale (obj : DeploymentObj) (replicas : ℕ) (setRange : Bool) (now : ℕ)

namespace GroupCall

/-- The tables as the call leaves them, whether it succeeds or not. -/
def result (s : Settings) (db : Db) : GroupCall → Db
  | .deploy body now =>
    match Inferna.deploy s db body now with
    | .error _ => db
    | .ok db' => db'
  | .applyScale obj replicas setRange now => (Inferna.applyScale s obj replicas setRange now db).1

/-- The groups the call inserts. -/
def groups (s : Settings) (db : Db) : GroupCall → List PlacedGroup
  | .deploy body now =>
    match deployGuard db body with
    | .error _ => []
    | .ok model =>
      if 1 < body.nodesPerReplica then
        match allocateParallelReplicas s db body.clusterId model.vramRequiredMb body.engine
            body.nodesPerReplica [] with
        | .error _ => []
        | .ok allocations =>
          let d := deploymentRow body now db.nextUuid
          [⟨d, now, db.addDeployment d, allocations⟩]
      else []
  | .applyScale obj replicas setRange now =>
    let d := obj.loaded
    let target := scaleTarget obj replicas setRange
    let capacity := (capacityUnits d db).length
    if capacity < target ∧ 1 < d.nodesPerReplica then
      placements s d (((db.findModel d.modelId).map (·.vramRequiredMb)).getD 0) now
        (target - capacity) (stopUnits db (brokenUnits d db)) (occupiedWorkers d db)
    else []

end GroupCall

theorem instances_placeGroups (s : Settings) (d : Deployment) (vram now : ℕ) (n : ℕ) :
    ∀ (db : Db) (occupied : List Uuid), (placeGroups s d vram now n db occupied).1.instances =
      db.instances ++ (placements s d vram now n db occupied).flatMap PlacedGroup.rows := by
  induction n with
  | zero => exact fun db _ => (List.append_nil _).symm
  | succ n ih =>
    intro db occupied
    unfold placeGroups placements
    cases allocateParallelReplicas s db d.clusterId vram d.engine d.nodesPerReplica occupied with
    | error e => exact (List.append_nil _).symm
    | ok allocations =>
      simp only
      rw [ih, List.flatMap_cons, ← List.append_assoc]
      rfl

/-- A row that a deploy inserts for a group is of the group it places. -/
theorem mem_groups_of_deploy {s : Settings} {db db' : Db} {body : DeployRequest} {now : ℕ}
    (h : deploy s db body now = .ok db') {r : Instance} (hr : r ∈ db'.instances)
    (hgroup : r.parallelGroupId ≠ none) :
    (∃ g ∈ (GroupCall.deploy body now).groups s db, r ∈ g.rows) ∨ r ∈ db.instances := by
  obtain ⟨model, hguard, hrows⟩ := deploy_ok h
  rcases hrows with ⟨hn, allocations, halloc, rfl⟩ | ⟨-, allocations, -, rfl⟩
  · rcases List.mem_append.mp hr with hold | hnew
    · exact Or.inr hold
    · left
      unfold GroupCall.groups
      simp only [hguard, if_pos hn, halloc]
      exact ⟨_, List.mem_singleton_self _, hnew⟩
  · rcases List.mem_append.mp hr with hold | hnew
    · exact Or.inr hold
    · obtain ⟨k, hk, rfl⟩ := List.mem_mapIdx.mp hnew
      exact absurd rfl hgroup

/-- The rows of stopped units are those of before. -/
theorem mem_of_mem_stopUnits {db : Db} {us : List (List Instance)} {r : Instance}
    (hr : r ∈ (stopUnits db us).instances) : ∃ i ∈ db.instances, i.id = r.id := by
  obtain ⟨i, hi, rfl⟩ := List.mem_map.mp hr
  refine ⟨i, hi, ?_⟩
  split <;> rfl

/-- A row that a scaling inserts for a group is of a group it places, also when it fails. -/
theorem mem_groups_of_applyScale (s : Settings) (db : Db) (obj : DeploymentObj) (replicas : ℕ)
    (setRange : Bool) (now : ℕ) {r : Instance}
    (hr : r ∈ (applyScale s obj replicas setRange now db).1.instances)
    (hgroup : r.parallelGroupId ≠ none) :
    (∃ g ∈ (GroupCall.applyScale obj replicas setRange now).groups s db, r ∈ g.rows) ∨
      ∃ i ∈ db.instances, i.id = r.id := by
  rw [applyScale_instances] at hr
  unfold moveReplicas scaleOut at hr
  unfold GroupCall.groups
  simp only at hr ⊢
  by_cases hlt : (capacityUnits obj.loaded db).length < scaleTarget obj replicas setRange
  · rw [if_pos hlt] at hr
    by_cases hn : 1 < obj.loaded.nodesPerReplica
    · rw [if_pos hn, instances_placeGroups] at hr
      rw [if_pos ⟨hlt, hn⟩]
      rcases List.mem_append.mp hr with hold | hnew
      · exact Or.inr (mem_of_mem_stopUnits hold)
      · exact Or.inl (List.mem_flatMap.mp hnew)
    · rw [if_neg hn] at hr
      right
      split at hr
      · exact mem_of_mem_stopUnits hr
      · rcases List.mem_append.mp hr with hold | hnew
        · exact mem_of_mem_stopUnits hold
        · obtain ⟨k, hk, rfl⟩ := List.mem_mapIdx.mp hnew
          exact absurd rfl hgroup
  · rw [if_neg hlt] at hr
    obtain ⟨i, hi, hid⟩ := mem_of_mem_stopUnits hr
    obtain ⟨j, hj, hji⟩ := mem_of_mem_stopUnits hi
    exact Or.inr ⟨j, hj, hji.trans hid⟩

/-- **Every row of a group that is not an old row is of a group of the call.** -/
theorem mem_groups_of_new (s : Settings) (db : Db) (call : GroupCall) {r : Instance}
    (hr : r ∈ (call.result s db).instances) (hgroup : r.parallelGroupId ≠ none) :
    (∃ g ∈ call.groups s db, r ∈ g.rows) ∨ ∃ i ∈ db.instances, i.id = r.id := by
  cases call with
  | deploy body now =>
    unfold GroupCall.result at hr
    simp only at hr
    split at hr
    · exact Or.inr ⟨r, hr, rfl⟩
    · rename_i db' hdeploy
      exact (mem_groups_of_deploy hdeploy hr hgroup).imp_right fun hold => ⟨r, hold, rfl⟩
  | applyScale obj replicas setRange now =>
    exact mem_groups_of_applyScale s db obj replicas setRange now hr hgroup

/-! ### What a placement is like -/

/-- One rank a node, one GPU a rank, and a port at the head. -/
structure PlacedGroup.Sound (g : PlacedGroup) : Prop where
  multi : 1 < g.d.nodesPerReplica
  ranks : g.allocations.map (·.nodeRank) = List.range g.d.nodesPerReplica
  gpus : ∀ a ∈ g.allocations, a.gpuIndexes.length = 1
  head : ∃ head rest port, g.allocations = head :: rest ∧ head.rendezvousPort = some port

theorem sound_allocateParallelReplicas {s : Settings} {db : Db} {clusterId : Uuid} {vram n : ℕ}
    {engine : Engine} {exclude : List Uuid} {g : PlacedGroup} (hn : 1 < n)
    (hd : g.d.nodesPerReplica = n) (hkeys : (db.workers.map (·.id)).Nodup)
    (h : allocateParallelReplicas s db clusterId vram engine n exclude = .ok g.allocations) :
    g.Sound := by
  have hranks := ranks_allocateParallelReplicas hkeys hn.le h
  obtain ⟨_, -, -, head, others, -, _, _, -, -, heq⟩ := allocateParallelReplicas_ok h
  refine ⟨hd ▸ hn, hd ▸ hranks, ?_, ?_⟩
  · intro a ha
    rw [heq] at ha
    rcases List.mem_cons.mp ha with rfl | ha
    · rfl
    · obtain ⟨k, hk, rfl⟩ := List.mem_mapIdx.mp ha
      rfl
  · exact ⟨_, _, _, heq, rfl⟩

theorem sound_placements (s : Settings) {d : Deployment} (hn : 1 < d.nodesPerReplica) (vram now : ℕ)
    (n : ℕ) : ∀ (db : Db) (occupied : List Uuid), (db.workers.map (·.id)).Nodup →
      ∀ g ∈ placements s d vram now n db occupied, g.Sound := by
  induction n with
  | zero => exact fun _ _ _ _ hg => absurd hg List.not_mem_nil
  | succ n ih =>
    intro db occupied hkeys g hg
    unfold placements at hg
    cases halloc : allocateParallelReplicas s db d.clusterId vram d.engine d.nodesPerReplica
      occupied with
    | error e =>
      rw [halloc] at hg
      exact absurd hg List.not_mem_nil
    | ok allocations =>
      rw [halloc] at hg
      rcases List.mem_cons.mp hg with rfl | hg
      · exact sound_allocateParallelReplicas hn rfl hkeys halloc
      · exact ih (addGroup db d now allocations) _ hkeys g hg

/-- **The groups of a call are sound.** -/
theorem sound_groups {s : Settings} {db : Db} (hkeys : (db.workers.map (·.id)).Nodup)
    {call : GroupCall} {g : PlacedGroup} (hg : g ∈ call.groups s db) : g.Sound := by
  unfold GroupCall.groups at hg
  cases call with
  | deploy body now =>
    simp only at hg
    split at hg
    · exact absurd hg List.not_mem_nil
    split at hg
    · rename_i hn
      split at hg
      · exact absurd hg List.not_mem_nil
      · rename_i allocations halloc
        rw [List.mem_singleton] at hg
        subst hg
        exact sound_allocateParallelReplicas hn rfl hkeys halloc
    · exact absurd hg List.not_mem_nil
  | applyScale obj replicas setRange now =>
    simp only at hg
    split at hg
    · rename_i hn
      exact sound_placements s hn.2 _ now _ (stopUnits db _) _ hkeys g hg
    · exact absurd hg List.not_mem_nil

/-- The ranks hold one GPU each. -/
theorem PlacedGroup.Sound.gpus_rows {g : PlacedGroup} (h : g.Sound) :
    (g.rows.map (·.gpuIndexes.length)).sum = g.d.nodesPerReplica := by
  have hlen : g.allocations.length = g.d.nodesPerReplica := by
    have := congrArg List.length h.ranks
    simpa using this
  have hones : g.rows.map (·.gpuIndexes.length) = List.replicate g.d.nodesPerReplica 1 := by
    rw [List.eq_replicate_iff]
    refine ⟨by simp [PlacedGroup.rows, hlen], ?_⟩
    intro n hn
    obtain ⟨r, hr, rfl⟩ := List.mem_map.mp hn
    obtain ⟨k, hk, rfl⟩ := List.mem_mapIdx.mp hr
    exact h.gpus _ (List.getElem_mem hk)
  rw [hones, List.sum_replicate, smul_eq_mul, mul_one]

/-! ### The messages -/

/-- The name of the model, as the config has it. -/
def configName (t : Db) (d : Deployment) : String := ((t.findModel d.modelId).map (·.name)).getD ""

section Rank

variable {g : PlacedGroup} {head : ParallelAllocation} {rest : List ParallelAllocation} {port : ℕ}

/-- Host and port come apart at the last colon, whatever the host is. -/
theorem rpartition_rendezvousText (hhead : g.allocations = head :: rest)
    (hport : head.rendezvousPort = some port) :
    Text.rpartition ':' (rendezvousText g.allocations).toList =
      some ((rendezvousHost head.worker.address head.worker.hostname).toList,
        (toString port).toList) := by
  have hcolon : ':' ∉ (toString port).toList :=
    fun h => absurd (Text.isDigit_of_mem_toString h) (by decide)
  have htext : (rendezvousText g.allocations).toList =
      (rendezvousHost head.worker.address head.worker.hostname).toList ++
        ':' :: (toString port).toList := by
    rw [hhead]
    simp [rendezvousText, hport]
  rw [htext, Text.rpartition_append _ hcolon]

/-- The messages of a rank: the server's notion of its mode, and the address of the head. -/
theorem engineConfig_rankRow (h : g.Sound) (hhead : g.allocations = head :: rest)
    (hport : head.rendezvousPort = some port) (t : Db) (id : Uuid) (a : ParallelAllocation) :
    let r := rankRow g.d g.now g.before.nextUuid (rendezvousText g.allocations) id a
    let config := engineConfig t r
    config.engine = g.d.engine ∧ config.modelName = configName t g.d ∧
      config.gpuIndexes = a.gpuIndexes ∧
      config.parallelism = some {
        mode := g.d.parallelMode.getD .single
        tensorParallel := a.gpuIndexes.length
        pipelineParallel := if g.d.parallelMode = some .pp then g.d.nodesPerReplica else 1
        worldSize := g.d.nodesPerReplica } ∧
      MultiNodeSpec.fromConfig config =
        if g.d.parallelMode.getD .single = .single then none
        else some {
          mode := g.d.parallelMode.getD .single
          worldSize := g.d.nodesPerReplica
          nodeRank := a.nodeRank
          masterHost := rendezvousHost head.worker.address head.worker.hostname
          masterPort := port } := by
  have hsplit := rpartition_rendezvousText hhead hport
  have hworld : (if g.d.nodesPerReplica = 0 then 1 else g.d.nodesPerReplica) =
      g.d.nodesPerReplica := if_neg (by have := h.multi; omega)
  have hmax : max 1 g.d.nodesPerReplica = g.d.nodesPerReplica := by
    have := h.multi
    omega
  simp only [engineConfig, applyParallelism, rankRow, hsplit, Option.getD_some, hworld,
    MultiNodeSpec.fromConfig, Text.isDigits_toString, Text.digitsValue_toString, if_true, hmax,
    Option.map_some, String.ofList_toList, configName, and_self]

end Rank

/-! ### The command of a rank -/

/-- The command that the worker builds for a row. -/
def rankCommand (t : Db) (r : Instance) (servePort : ℕ) : List String :=
  let config := engineConfig t r
  buildCommand config (MultiNodeSpec.fromConfig config) servePort

/-- What the command of a rank is to say, in the tables `t`. -/
structure Realises (t : Db) (g : PlacedGroup) (servePort : ℕ) (r : Instance) : Prop where
  pipeline : (engineConfig t r).parallelism.map (·.pipelineParallel) =
    some (sizeOption (rankCommand t r servePort) "--pipeline-parallel-size")
  product : r.parallelMode = some .tp ∨ r.parallelMode = some .pp →
    sizeOption (rankCommand t r servePort) (tpFlag r.engine) *
        sizeOption (rankCommand t r servePort) "--pipeline-parallel-size" =
      (g.rows.map (·.gpuIndexes.length)).sum
  rank : optionValue (rankCommand t r servePort) "--node-rank" = r.nodeRank.map toString
  count : optionValue (rankCommand t r servePort) "--nnodes" = r.worldSize.map toString
  master : ∃ head rest port, g.allocations = head :: rest ∧ head.rendezvousPort = some port ∧
    masterOf r.engine (rankCommand t r servePort) =
      some (rendezvousHost head.worker.address head.worker.hostname, toString port)

/-- The mode is one that server and worker agree on, and for a tensor-parallel group the model
does not have the name of the option. -/
def ModeAgreed (t : Db) (d : Deployment) : Prop :=
  d.parallelMode = some .pp ∨ (d.parallelMode = some .tp ∧ configName t d ≠ tpFlag d.engine)

instance (t : Db) (d : Deployment) : Decidable (ModeAgreed t d) :=
  inferInstanceAs (Decidable (_ ∨ _ ∧ _))

/-- The command of a single node says nothing of ranks. -/
theorem optionValue_single (config : EngineConfig) (servePort : ℕ) :
    optionValue (buildCommand config none servePort) "--nnodes" = none := by
  unfold buildCommand
  cases config.engine <;> cases config.profile <;>
    simp [optionValue, commandOptions, optionPairs, vllmBase, sglangBase, profileFlags]

section Command

variable {g : PlacedGroup} {head a : ParallelAllocation} {rest : List ParallelAllocation}
  {port servePort : ℕ} {mode : ParallelMode} {id : Uuid} {r : Instance} {t : Db}
  (h : g.Sound) (hhead : g.allocations = head :: rest) (hport : head.rendezvousPort = some port)
  (hmode : g.d.parallelMode = some mode)
  (hr : r = rankRow g.d g.now g.before.nextUuid (rendezvousText g.allocations) id a)

include h hhead hport hmode hr

/-- The command of a rank is built from its row and the address of the head. -/
theorem rankCommand_rankRow (hmulti : mode ≠ .single) :
    rankCommand t r servePort = buildCommand (engineConfig t r)
      (some ⟨mode, g.d.nodesPerReplica, a.nodeRank,
        rendezvousHost head.worker.address head.worker.hostname, port⟩) servePort := by
  subst hr
  obtain ⟨-, -, -, -, hspec⟩ := engineConfig_rankRow h hhead hport t id a
  rw [hmode, Option.getD_some, if_neg hmulti] at hspec
  rw [← hspec]
  rfl

/-- The server has a pipeline in mode `pp` alone. -/
theorem declared_rankRow : (engineConfig t r).parallelism.map (·.pipelineParallel) =
    some (if mode = .pp then g.d.nodesPerReplica else 1) := by
  subst hr
  obtain ⟨-, -, -, hpar, -⟩ := engineConfig_rankRow h hhead hport t id a
  rw [hpar, Option.map_some, hmode]
  simp only [Option.some.injEq]

/-- The worker has one in every mode but `tp`. -/
theorem pipelineSize_rankRow (hmulti : mode ≠ .single) :
    sizeOption (rankCommand t r servePort) "--pipeline-parallel-size" =
      if mode = .tp then 1 else g.d.nodesPerReplica := by
  have hn := h.multi
  rw [rankCommand_rankRow h hhead hport hmode hr hmulti, pipelineSize_buildCommand]
  simp only [show max 1 g.d.nodesPerReplica = g.d.nodesPerReplica by omega]

/-- The tensor-parallel size is the world's in mode `tp`, if the option is found. -/
theorem tensorSize_rankRow (hmulti : mode ≠ .single) (hgpu : a.gpuIndexes.length = 1)
    (hname : mode = .tp → configName t g.d ≠ tpFlag g.d.engine) :
    sizeOption (rankCommand t r servePort) (tpFlag r.engine) =
      if mode = .tp then g.d.nodesPerReplica else 1 := by
  have hn := h.multi
  rw [rankCommand_rankRow h hhead hport hmode hr hmulti]
  subst hr
  obtain ⟨hengine, hmodel, hgpus, -, -⟩ := engineConfig_rankRow h hhead hport t id a
  have hok : NameOk (engineConfig t (rankRow g.d g.now g.before.nextUuid
      (rendezvousText g.allocations) id a)) ⟨mode, g.d.nodesPerReplica, a.nodeRank,
        rendezvousHost head.worker.address head.worker.hostname, port⟩ := by
    unfold NameOk
    rw [hmodel, hengine]
    exact hname
  have hsize := @tensorSize_buildCommand _ _ servePort hok
  rw [hengine] at hsize
  refine hsize.trans ?_
  unfold tensorSize
  simp only [hgpus, hgpu, show max 1 g.d.nodesPerReplica = g.d.nodesPerReplica by omega, max_self,
    one_mul]

/-- When the name of the model is taken for the option, the size is not widened. -/
theorem tensorSize_rankRow_taken (htp : mode = .tp) (hgpu : a.gpuIndexes.length = 1)
    (hname : configName t g.d = tpFlag g.d.engine) :
    sizeOption (rankCommand t r servePort) (tpFlag r.engine) = 1 := by
  have hmulti : mode ≠ .single := by
    rw [htp]
    decide
  rw [rankCommand_rankRow h hhead hport hmode hr hmulti]
  subst hr
  obtain ⟨hengine, hmodel, hgpus, -, -⟩ := engineConfig_rankRow h hhead hport t id a
  have htaken : ¬ NameOk (engineConfig t (rankRow g.d g.now g.before.nextUuid
      (rendezvousText g.allocations) id a)) ⟨mode, g.d.nodesPerReplica, a.nodeRank,
        rendezvousHost head.worker.address head.worker.hostname, port⟩ := by
    unfold NameOk
    rw [hmodel, hengine]
    exact fun hok => hok htp hname
  have hsize := @tensorSize_taken _ _ servePort htaken (hgpus ▸ hgpu)
  rw [hengine] at hsize
  exact hsize

/-- A rank of a mode that both sides agree on realises the topology. -/
theorem realises_rankRow (hmulti : mode ≠ .single)
    (hpipe : (if mode = .pp then g.d.nodesPerReplica else 1) =
      if mode = .tp then 1 else g.d.nodesPerReplica)
    (hproduct : sizeOption (rankCommand t r servePort) (tpFlag r.engine) *
      (if mode = .tp then 1 else g.d.nodesPerReplica) = g.d.nodesPerReplica) :
    Realises t g servePort r := by
  have hn := h.multi
  have hcmd := @rankCommand_rankRow _ _ _ _ _ servePort _ _ _ t h hhead hport hmode hr hmulti
  have hsize := @pipelineSize_rankRow _ _ _ _ _ servePort _ _ _ t h hhead hport hmode hr hmulti
  refine ⟨?_, ?_, ?_, ?_, head, rest, port, hhead, hport, ?_⟩
  · rw [declared_rankRow h hhead hport hmode hr, hsize, hpipe]
  · intro _
    rw [hsize, hproduct, h.gpus_rows]
  · rw [hcmd, optionValue_nodeRank, hr]
    rfl
  · rw [hcmd, optionValue_nnodes, hr]
    simp only [show max 1 g.d.nodesPerReplica = g.d.nodesPerReplica by omega]
    rfl
  · rw [hcmd]
    have hengine : (engineConfig t r).engine = r.engine := by
      subst hr
      exact (engineConfig_rankRow h hhead hport t id a).1
    rw [← hengine]
    exact masterOf_buildCommand

end Command

/-- The command of a single node says nothing of the rank. -/
theorem PlacedGroup.Sound.not_realises_single {g : PlacedGroup} (h : g.Sound) (t : Db)
    (servePort : ℕ) {r : Instance} (hr : r ∈ g.rows)
    (hsingle : g.d.parallelMode.getD .single = .single) : ¬ Realises t g servePort r := by
  intro hreal
  have hcount := hreal.count
  obtain ⟨head, rest, port, hhead, hport⟩ := h.head
  obtain ⟨k, hk, hrow⟩ := List.mem_mapIdx.mp hr
  obtain ⟨-, -, -, -, hspec⟩ := engineConfig_rankRow h hhead hport t
    (g.before.nextUuid + 1 + k) g.allocations[k]
  rw [if_pos hsingle, hrow] at hspec
  unfold rankCommand at hcount
  simp only at hcount
  rw [hspec, optionValue_single, ← hrow] at hcount
  cases hcount

/-- **The modes whose commands realise the topology**, for every rank of a sound group. -/
theorem PlacedGroup.Sound.realises_iff {g : PlacedGroup} (h : g.Sound) (t : Db) (servePort : ℕ)
    {r : Instance} (hr : r ∈ g.rows) : Realises t g servePort r ↔ ModeAgreed t g.d := by
  obtain ⟨head, rest, port, hhead, hport⟩ := h.head
  obtain ⟨k, hk, hrow⟩ := List.mem_mapIdx.mp hr
  have hgpu : g.allocations[k].gpuIndexes.length = 1 := h.gpus _ (List.getElem_mem hk)
  have hn := h.multi
  by_cases hsingle : g.d.parallelMode.getD .single = .single
  · refine iff_of_false (h.not_realises_single t servePort hr hsingle) ?_
    rintro (hpp | ⟨htp, -⟩)
    · rw [hpp] at hsingle
      cases hsingle
    · rw [htp] at hsingle
      cases hsingle
  · obtain ⟨mode, hmode⟩ : ∃ mode, g.d.parallelMode = some mode := by
      cases hm : g.d.parallelMode with
      | none => exact absurd (by rw [hm]; rfl) hsingle
      | some mode => exact ⟨mode, rfl⟩
    have hmulti : mode ≠ .single := by
      rw [hmode] at hsingle
      exact hsingle
    have hrealises := @realises_rankRow _ _ _ _ _ servePort _ _ _ t h hhead hport hmode hrow.symm
      hmulti
    have hsize := @tensorSize_rankRow _ _ _ _ _ servePort _ _ _ t h hhead hport hmode hrow.symm
      hmulti hgpu
    have hpipe := @pipelineSize_rankRow _ _ _ _ _ servePort _ _ _ t h hhead hport hmode hrow.symm
      hmulti
    unfold ModeAgreed
    rw [hmode, Option.some.injEq, Option.some.injEq]
    by_cases hpp : mode = .pp
    · -- the pipeline spans the ranks on both sides
      have htp : mode ≠ .tp := by
        rw [hpp]
        decide
      refine iff_of_true (hrealises ?_ ?_) (Or.inl hpp)
      · rw [if_pos hpp, if_neg htp]
      · rw [hsize fun heq => absurd heq htp, if_neg htp, if_neg htp, one_mul]
    by_cases htp : mode = .tp
    · rw [or_iff_right hpp, and_iff_right htp]
      by_cases hname : configName t g.d = tpFlag g.d.engine
      · -- the size that is widened is not the option's
        refine iff_of_false (fun hreal => ?_) (fun hne => hne hname)
        have hparallel : r.parallelMode = some .tp := by
          rw [← hrow, ← htp]
          exact hmode
        have hproduct := hreal.product (Or.inl hparallel)
        rw [tensorSize_rankRow_taken h hhead hport hmode hrow.symm htp hgpu hname, hpipe,
          if_pos htp, h.gpus_rows] at hproduct
        omega
      · refine iff_of_true (hrealises ?_ ?_) hname
        · rw [if_neg hpp, if_pos htp]
        · rw [hsize fun _ => hname, if_pos htp, if_pos htp, mul_one]
    · -- `dp` and `pd`: only the worker has a pipeline
      refine iff_of_false (fun hreal => ?_) (fun hor => hor.elim hpp fun hand => htp hand.1)
      have hpipeline := hreal.pipeline
      rw [declared_rankRow h hhead hport hmode hrow.symm, hpipe, if_neg hpp, if_neg htp,
        Option.some.injEq] at hpipeline
      omega

/-- **When the commands realise the topology**: exactly for the groups of the modes `pp` and
`tp`, unless a model of a tensor-parallel group has the name of the option. -/
theorem topology_realised_iff (s : Settings) (db : Db) (hkeys : (db.workers.map (·.id)).Nodup)
    (call : GroupCall) {g : PlacedGroup} (hg : g ∈ call.groups s db) {r : Instance}
    (hr : r ∈ g.rows) (t : Db) (servePort : ℕ) :
    Realises t g servePort r ↔ ModeAgreed t g.d :=
  (sound_groups hkeys hg).realises_iff t servePort hr

/-! ### Two hosts -/

/-- Two hosts with a GPU each; the head will be the one with the longer address. -/
def twoHosts : Db where
  clusters := [⟨1, "default"⟩]
  workers := [{ id := 1, clusterId := 1, name := "a", hostname := "a", state := .connected,
                tokenHash := "a", address := some "http://[fd00::1]:9000",
                gpus := [⟨0, .nvidia, 10⟩] },
              { id := 2, clusterId := 1, name := "b", hostname := "b", state := .connected,
                tokenHash := "b", address := some "10.0.0.2", gpus := [⟨0, .nvidia, 10⟩] }]
  models := [{ id := 1, name := "org/model", category := "llm", vramRequiredMb := 10,
               supportedEngines := [.sglang] }]
  lastUuid := 2

/-- A deploy of one group over both hosts. -/
def groupCall (mode : ParallelMode) : GroupCall :=
  .deploy { modelId := 1, clusterId := 1, engine := .sglang, profile := .latency,
            nodesPerReplica := 2, parallelMode := mode, replicas_bounds := bounds_one,
            nodes_bounds := bounds_two } 7

/-- The group of mode `tp`. -/
def tpGroup : PlacedGroup := ((groupCall .tp).groups {} twoHosts).head (by decide +kernel)

/-- The group of mode `dp`. -/
def dpGroup : PlacedGroup := ((groupCall .dp).groups {} twoHosts).head (by decide +kernel)

/-- The head of the group of mode `tp`. -/
def tpHead : Instance := tpGroup.rows.head (by decide +kernel)

/-- The head of the group of mode `dp`. -/
def dpHead : Instance := dpGroup.rows.head (by decide +kernel)

/-- The command of the head of the group of mode `tp` realises the topology. -/
theorem topology_realised_sample :
    rankCommand twoHosts tpHead 8010 = ["python3", "-m", "sglang.launch_server", "--model-path",
        "org/model", "--port", "8010", "--tp", "2", "--mem-fraction-static", "0.85",
        "--max-running-requests", "32", "--nnodes", "2", "--node-rank", "0",
        "--dist-init-addr", "fd00::1:8110"] ∧
      Realises twoHosts tpGroup 8010 tpHead :=
  ⟨by decide +kernel,
    (topology_realised_iff {} twoHosts (by decide) (groupCall .tp) (List.head_mem _)
      (List.head_mem _) twoHosts 8010).mpr (by decide +kernel)⟩

/-- **A group of mode `dp`**: the server declares one stage, the command two. -/
theorem dp_pipeline_differs :
    ¬ ∀ (s : Settings) (db : Db) (call : GroupCall), (db.workers.map (·.id)).Nodup →
      ∀ g ∈ call.groups s db, ∀ r ∈ g.rows, ∀ (t : Db) (servePort : ℕ),
        Realises t g servePort r := by
  intro h
  have hpipeline := (h {} twoHosts (groupCall .dp) (by decide) dpGroup (List.head_mem _) dpHead
    (List.head_mem _) twoHosts 8010).pipeline
  revert hpipeline
  decide +kernel

end Inferna
