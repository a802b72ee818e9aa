import Inferna.Health

/-!
# One round between two Syncs

The commands of a Sync, row by row, and what a batch that applies them establishes for
each instance, however Docker answers, probes move and containers exit meanwhile.

## Main definitions

* `SyncRequest.sentBy`, `RowOf`, `NeedsStart` — a Sync and the worker's rows.
* `RoundEvent` — what happens between two Syncs.
* `RoundStable` — a property of one instance that the other moves keep.
* `UpToDate`, `NotUp`, `SettledStop` — what the commands establish.

## Main results

* `command_cases`, `built_buildCommands` — the kinds of commands of a Sync, and that they
  are well formed.
* `round_rule` — **what the commands of an instance establish holds at the end of the
  round.**
* `upToDate_startSync` — every way a start can end records its generation.
-/

namespace Inferna

open Run

/-- A request of the worker, with the statuses of this registry. -/
def SyncRequest.sentBy (req : SyncRequest) (h : Host) : SyncRequest :=
  { req with instances := h.statuses }

/-- The row is one of the worker's. -/
def RowOf (db : Db) (w : Uuid) (i : Instance) : Prop := i ∈ db.instances ∧ i.workerId = some w

/-- No batch runs, and nothing waits for one. -/
structure Quiet (h : Host) : Prop where
  batch : h.batch = none
  pending : h.pending = Dict.empty
  pendingProbes : h.pendingProbes = []

/-- What happens between two Syncs: the batch moves with any outcome of its calls, probes
move, and containers exit. -/
def RoundEvent : HostEvent → Prop
  | .reconcile _ | .crash | .restart _ => False
  | _ => True

/-! ### The commands of a Sync -/

/-- The last status about an instance is its entry. -/
theorem reported_sentBy (req : SyncRequest) (h : Host) (id : Uuid) :
    (req.sentBy h).reported id = (h.instances.get? id).map (statusOf id) :=
  reported_of_statuses rfl id

/-- What `sync_worker` asks a registry entry for, for a row that is to run. -/
def NeedsStart (h : Host) (i : Instance) : Prop :=
  ∀ t, h.instances.get? i.id = some t → t.generation < i.generation ∨ t.state = .stopped

/-- The command of a row. -/
theorem rowCommand_sentBy (db : Db) (req : SyncRequest) (h : Host) (i : Instance) (c : Command) :
    rowCommand db (req.sentBy h) i = some c ↔
      (i.desiredState = .running ∧ NeedsStart h i ∧
          c = ⟨i.id, .start, i.generation, some (engineConfig db i)⟩) ∨
        (i.desiredState = .stopped ∧ (h.reports i.id .starting ∨ h.reports i.id .running) ∧
          c = ⟨i.id, .stop, 0, none⟩) := by
  unfold rowCommand NeedsStart
  simp only [reported_sentBy, Host.reports_iff]
  cases i.desiredState with
  | running =>
    cases h.instances.get? i.id with
    | none => simp [eq_comm]
    | some t => simp [statusOf, eq_comm]
  | stopped =>
    cases h.instances.get? i.id with
    | none => simp
    | some t => simp [statusOf, eq_comm]

/-- A command is filed under the row it is for. -/
theorem rowCommand_id {db : Db} {req : SyncRequest} {h : Host} {i : Instance} {c : Command}
    (hrow : rowCommand db (req.sentBy h) i = some c) : c.instanceId = i.id := by
  rcases (rowCommand_sentBy db req h i c).mp hrow with ⟨-, -, rfl⟩ | ⟨-, -, rfl⟩ <;> rfl

/-- **The commands of a Sync**: those of the worker's rows, and a delete for every other
instance it tracks. -/
theorem command_cases {db : Db} {req : SyncRequest} {h : Host} {w : Uuid} {c : Command} :
    c ∈ buildCommands db (req.sentBy h) w ↔
      (∃ i, RowOf db w i ∧ rowCommand db (req.sentBy h) i = some c) ∨
        ∃ id t, h.instances.get? id = some t ∧ (∀ i, RowOf db w i → i.id ≠ id) ∧
          c = ⟨id, .delete, 0, none⟩ := by
  unfold buildCommands
  rw [List.mem_append, List.mem_filterMap]
  refine or_congr ?_ ?_
  · simp only [List.mem_filter, decide_eq_true_eq]
    rfl
  · simp only [List.mem_map, List.mem_filter, decide_eq_true_eq]
    constructor
    · rintro ⟨st, ⟨hst, hno⟩, rfl⟩
      obtain ⟨e, he, rfl⟩ := List.mem_map.mp hst
      refine ⟨e.1, e.2, (Dict.mem_entries_iff _ _ _).mp he, ?_, rfl⟩
      intro i hi hid
      refine hno (List.mem_map.mpr ⟨i, List.mem_filter.mpr ⟨hi.1, ?_⟩, hid⟩)
      exact decide_eq_true ⟨hi.2, List.mem_map.mpr ⟨_, hst, hid.symm⟩⟩
    · rintro ⟨id, t, ht, hno, rfl⟩
      have hmem : (id, t) ∈ h.instances.entries := (Dict.mem_entries_iff _ _ _).mpr ht
      refine ⟨_, ⟨List.mem_map_of_mem hmem, ?_⟩, rfl⟩
      intro hknown
      obtain ⟨i, hi, hid⟩ := List.mem_map.mp hknown
      rw [List.mem_filter, decide_eq_true_eq] at hi
      exact hno i ⟨hi.1, hi.2.1⟩ hid

/-- The command for an instance the worker tracks or the server wants, by its row. -/
theorem command_of_row {db : Db} (hids : (db.instances.map (·.id)).Nodup) {req : SyncRequest}
    {h : Host} {w : Uuid} {i : Instance} (hi : RowOf db w i) {c : Command}
    (hc : c ∈ buildCommands db (req.sentBy h) w) (hid : c.instanceId = i.id) :
    rowCommand db (req.sentBy h) i = some c := by
  rcases command_cases.mp hc with ⟨j, hj, hrow⟩ | ⟨id, t, -, hno, rfl⟩
  · obtain rfl : j = i :=
      List.inj_on_of_nodup_map hids hj.1 hi.1 ((rowCommand_id hrow).symm.trans hid)
    exact hrow
  · exact absurd hid.symm (hno i hi)

/-- The command for an instance that is none of the worker's. -/
theorem command_of_unknown {db : Db} {req : SyncRequest} {h : Host} {w id : Uuid}
    (hno : ∀ i, RowOf db w i → i.id ≠ id) {c : Command}
    (hc : c ∈ buildCommands db (req.sentBy h) w) (hid : c.instanceId = id) :
    c = ⟨id, .delete, 0, none⟩ := by
  rcases command_cases.mp hc with ⟨j, hj, hrow⟩ | ⟨id', t, -, -, rfl⟩
  · exact absurd ((rowCommand_id hrow).symm.trans hid) (hno j hj)
  · exact congrArg (fun k => (⟨k, .delete, 0, none⟩ : Command)) hid

/-- **The commands of a Sync are well formed**: one for an instance, and a start with its
config. -/
theorem built_buildCommands {db : Db} (hids : (db.instances.map (·.id)).Nodup) (req : SyncRequest)
    (h : Host) (w : Uuid) : Built (buildCommands db (req.sentBy h) w) := by
  have hrows : ∀ rows : List Instance,
      ((rows.filterMap (rowCommand db (req.sentBy h))).map (·.instanceId)).Sublist
        (rows.map (·.id)) := by
    intro rows
    induction rows with
    | nil => exact List.Sublist.refl _
    | cons i rows ih =>
      cases hrow : rowCommand db (req.sentBy h) i with
      | none =>
        rw [List.filterMap_cons_none hrow]
        exact ih.cons i.id
      | some c =>
        rw [List.filterMap_cons_some hrow, List.map_cons, List.map_cons, rowCommand_id hrow]
        exact ih.cons_cons i.id
  have hkeys : h.statuses.map (·.instanceId) = h.instances.entries.map Prod.fst := by
    unfold Host.statuses
    rw [List.map_map]
    rfl
  refine ⟨?_, fun c hc hstart => ?_⟩
  · unfold buildCommands
    rw [List.map_append, List.nodup_append, List.map_map]
    refine ⟨?_, ?_, fun a ha b hb => ?_⟩
    · exact (hrows _).nodup ((List.filter_sublist.map _).nodup hids)
    · refine (List.filter_sublist.map _).nodup ?_
      show (h.statuses.map (·.instanceId)).Nodup
      rw [hkeys]
      exact h.instances.nodup_keys
    · -- a row's instance is known, and what is deleted is not
      obtain ⟨c, hc, rfl⟩ := List.mem_map.mp ha
      obtain ⟨i, hi, hrow⟩ := List.mem_filterMap.mp hc
      obtain ⟨st, hst, rfl⟩ := List.mem_map.mp hb
      rw [List.mem_filter, decide_eq_true_eq] at hi hst
      rw [rowCommand_id hrow]
      intro heq
      refine hst.2 (List.mem_map.mpr ⟨i, List.mem_filter.mpr ⟨hi.1, ?_⟩, heq⟩)
      exact decide_eq_true ⟨hi.2, List.mem_map.mpr ⟨st, hst.1, heq.symm⟩⟩
  · rcases command_cases.mp hc with ⟨i, -, hrow⟩ | ⟨id, t, -, -, rfl⟩
    · rcases (rowCommand_sentBy db req h i c).mp hrow with ⟨-, -, rfl⟩ | ⟨-, -, rfl⟩
      · rfl
      · cases hstart
    · cases hstart

/-! ### A round -/

/-- What a round keeps: nothing new is queued, and probes are scheduled for the instances
it starts. -/
structure RoundInv (commands : List Command) (h : Host) : Prop where
  batch : ∀ c ∈ h.batch.getD [], c ∈ commands
  pending : h.pending = Dict.empty
  probes : ∀ p ∈ h.pendingProbes, ∃ c ∈ commands, c.action = .start ∧ c.instanceId = p.1

/-- A property of one instance that the other moves of a round keep. -/
structure RoundStable (hfToken : Bool) (commands : List Command) (id : Uuid) (Good : Host → Prop) :
    Prop where
  /-- The batch may forget its commands. -/
  batch : ∀ (h : Host) (b : Option (List Command)), Good h → Good { h with batch := b }
  apply : ∀ (h : Host) (o : CallOutcome) (c : Command), c.instanceId ≠ id → Good h →
    Good (h.applyCommand hfToken o c)
  finish : ∀ (h : Host) (o : SweepOutcome), RoundInv commands h → Good h → Good (h.endBatch o)
  inspect : ∀ (h : Host) (j : Uuid), Good h → Good (h.inspect j)
  probe : ∀ (h : Host) (j : Uuid) (ready : Bool), Good h → Good (h.probeResult j ready)
  exit : ∀ (h : Host) (j : Uuid), Good h → Good (h.containerExit j)

/-- A command schedules a probe for the instance it starts, or none. -/
theorem pendingProbes_applyCommand (hfToken : Bool) (o : CallOutcome) (h : Host) (c : Command) :
    (h.applyCommand hfToken o c).pendingProbes = h.pendingProbes ∨
      c.action = .start ∧ ∃ port,
        (h.applyCommand hfToken o c).pendingProbes = h.pendingProbes ++ [(c.instanceId, port)] := by
  unfold Host.applyCommand Host.applyDockerCommand
  split
  · rename_i config haction _
    rcases Host.startSync_cases hfToken (h.outcomeOn o c) h c.instanceId c.generation config with
      ⟨-, heq⟩ | ⟨-, ⟨hfail, -⟩ | ⟨hfail, -⟩ | hstart⟩
    · rw [heq]
      exact Or.inl rfl
    · exact Or.inl hfail.pendingProbes
    · exact Or.inl hfail.pendingProbes
    · exact Or.inr ⟨haction, config.port, hstart.pendingProbes⟩
  · exact Or.inl rfl
  · exact Or.inl rfl
  · exact Or.inl rfl

/-- An inspection and the end of a probe leave the queue alone. -/
theorem inspect_queue (h : Host) (id : Uuid) :
    (h.inspect id).batch = h.batch ∧ (h.inspect id).pending = h.pending ∧
      (h.inspect id).pendingProbes = h.pendingProbes := by
  unfold Host.inspect
  split <;> exact ⟨rfl, rfl, rfl⟩

theorem probeResult_queue (h : Host) (id : Uuid) (ready : Bool) :
    (h.probeResult id ready).batch = h.batch ∧ (h.probeResult id ready).pending = h.pending ∧
      (h.probeResult id ready).pendingProbes = h.pendingProbes := by
  unfold Host.probeResult
  split <;> exact ⟨rfl, rfl, rfl⟩

theorem RoundInv.of_queue {commands : List Command} {h h' : Host} (hr : RoundInv commands h)
    (hsame : h'.batch = h.batch ∧ h'.pending = h.pending ∧ h'.pendingProbes = h.pendingProbes) :
    RoundInv commands h' where
  batch := hsame.1 ▸ hr.batch
  pending := hsame.2.1.trans hr.pending
  probes := hsame.2.2 ▸ hr.probes

theorem roundInv_move {hfToken : Bool} {commands : List Command} {h : Host} {e : HostEvent}
    (he : RoundEvent e) (hr : RoundInv commands h) : RoundInv commands (h.move hfToken e) := by
  cases e with
  | reconcile cs => exact he.elim
  | crash => exact he.elim
  | restart listOk => exact he.elim
  | apply o =>
    rcases Host.move_apply_cases hfToken h o with heq | ⟨c, rest, hb, heq⟩
    · rw [heq]
      exact hr
    · rw [heq]
      have hbatch := hr.batch
      rw [hb] at hbatch
      have htouch := Host.touchesOnly_applyDockerCommand hfToken (h.outcomeOn o c) o.stopOk h c
      refine ⟨fun d hd => hbatch d (List.mem_cons_of_mem c hd), htouch.pending.trans hr.pending, ?_⟩
      intro p hp
      change p ∈ (h.applyCommand hfToken o c).pendingProbes at hp
      rcases pendingProbes_applyCommand hfToken o h c with hsame | ⟨hstart, port, hnew⟩
      · exact hr.probes p (hsame ▸ hp)
      · -- one more probe waits: that of the start just applied
        rw [hnew] at hp
        rcases List.mem_append.mp hp with hp | hp
        · exact hr.probes p hp
        · rw [List.mem_singleton.mp hp]
          exact ⟨c, hbatch c List.mem_cons_self, hstart, rfl⟩
  | finish o =>
    rcases Host.move_finish_cases hfToken h o with heq | ⟨-, heq⟩
    · rw [heq]
      exact hr
    · rw [heq]
      obtain ⟨hpend, hprobes, hqueue⟩ := endBatch_queue o h
      refine ⟨?_, hpend, fun p hp => ?_⟩
      · -- nothing is pending, so the next batch is empty if there is one
        rcases hqueue with hb | ⟨b, hb, hperm⟩
        · rw [hb]
          exact fun c hc => absurd hc List.not_mem_nil
        · rw [hr.pending] at hperm
          rw [hb, List.perm_nil.mp hperm]
          exact fun c hc => absurd hc List.not_mem_nil
      · rw [hprobes] at hp
        exact absurd hp List.not_mem_nil
  | inspect id => exact hr.of_queue (inspect_queue h id)
  | ready id => exact hr.of_queue (probeResult_queue h id true)
  | deadline id => exact hr.of_queue (probeResult_queue h id false)
  | exit id => exact ⟨hr.batch, hr.pending, hr.probes⟩

/-- A command of the instance is still in the batch, or what it establishes holds already. -/
def DueOrDone (id : Uuid) (Good : Host → Prop) (h : Host) : Prop :=
  (∃ c ∈ h.batch.getD [], c.instanceId = id) ∨ Good h

/-- A move of the round keeps what is due or done. -/
theorem dueOrDone_move {hfToken : Bool} {commands : List Command} {id : Uuid}
    {Good : Host → Prop} (hst : RoundStable hfToken commands id Good)
    (hest : ∀ (h : Host) (o : CallOutcome), ∀ c ∈ commands, c.instanceId = id →
      Good (h.applyCommand hfToken o c))
    {h : Host} {e : HostEvent} (hr : RoundInv commands h) (hdue : DueOrDone id Good h)
    (he : RoundEvent e) : DueOrDone id Good (h.move hfToken e) := by
  cases e with
  | reconcile cs => exact he.elim
  | crash => exact he.elim
  | restart listOk => exact he.elim
  | apply o =>
    rcases Host.move_apply_cases hfToken h o with heq | ⟨c, rest, hb, heq⟩
    · rw [heq]
      exact hdue
    · rw [heq]
      have hbatch := hr.batch
      unfold DueOrDone at hdue
      rw [hb] at hbatch hdue
      by_cases hid : c.instanceId = id
      · exact Or.inr (hst.batch _ _ (hest h o c (hbatch c List.mem_cons_self) hid))
      · -- a command of another instance keeps what is due or holds
        rcases hdue with ⟨d, hd, hdid⟩ | hgood
        · rcases List.mem_cons.mp hd with rfl | hd
          · exact absurd hdid hid
          · exact Or.inl ⟨d, hd, hdid⟩
        · exact Or.inr (hst.batch _ _ (hst.apply h o c hid hgood))
  | finish o =>
    rcases Host.move_finish_cases hfToken h o with heq | ⟨hb, heq⟩
    · rw [heq]
      exact hdue
    · rw [heq]
      unfold DueOrDone at hdue
      rw [hb] at hdue
      rcases hdue with ⟨c, hc, -⟩ | hgood
      · exact absurd hc List.not_mem_nil
      · exact Or.inr (hst.finish h o hr hgood)
  | inspect j =>
    refine hdue.imp (fun hdue => ?_) (hst.inspect h j)
    rw [Host.move, (inspect_queue h j).1]
    exact hdue
  | ready j =>
    refine hdue.imp (fun hdue => ?_) (hst.probe h j true)
    rw [Host.move, (probeResult_queue h j true).1]
    exact hdue
  | deadline j =>
    refine hdue.imp (fun hdue => ?_) (hst.probe h j false)
    rw [Host.move, (probeResult_queue h j false).1]
    exact hdue
  | exit j => exact hdue.imp_right (hst.exit h j)

/-- **What the commands of an instance establish holds at the end of the round**, if the
other moves keep it. -/
theorem round_rule {hfToken : Bool} {commands : List Command} {id : Uuid} {Good : Host → Prop}
    (hst : RoundStable hfToken commands id Good)
    (hest : ∀ (h : Host) (o : CallOutcome), ∀ c ∈ commands, c.instanceId = id →
      Good (h.applyCommand hfToken o c))
    {h : Host} (hr : RoundInv commands h)
    (hinit : (∃ c ∈ h.batch.getD [], c.instanceId = id) ∨ Good h) {as : List HostEvent}
    (has : Conforms (Host.move hfToken) (fun _ e => RoundEvent e) h as)
    (hend : (exec (Host.move hfToken) h as).batch = none) :
    Good (exec (Host.move hfToken) h as) := by
  have hstep : ∀ h e, RoundInv commands h ∧ DueOrDone id Good h → RoundEvent e →
      RoundInv commands (h.move hfToken e) ∧ DueOrDone id Good (h.move hfToken e) :=
    fun h e hinv he => ⟨roundInv_move he hinv.1, dueOrDone_move hst hest hinv.1 hinv.2 he⟩
  obtain ⟨-, hdue⟩ := invariant_of_conforms
    (fun h => RoundInv commands h ∧ DueOrDone id Good h) hstep as h ⟨hr, hinit⟩ has
  rcases hdue with ⟨c, hc, -⟩ | hgood
  · rw [hend] at hc
    exact absurd hc List.not_mem_nil
  · exact hgood

/-! ### What the three kinds of commands establish -/

/-- The entry after a probe has ended, or has not. -/
theorem probe_cases (h : Host) (j : Uuid) (ready : Bool) :
    h.probeResult j ready = h ∨ j ∈ h.probeTasks ∧ ∃ f : Tracked → Tracked,
      h.probeResult j ready = { h.cancelProbe j with instances := h.instances.modify j f } ∧
        ∀ t, (f t).generation = t.generation ∧ (f t).state ≠ .stopped := by
  unfold Host.probeResult
  split
  · rename_i hj
    refine Or.inr ⟨hj, _, rfl, fun t => ?_⟩
    cases ready <;> simp
  · exact Or.inl rfl

theorem inspect_cases (h : Host) (j : Uuid) :
    h.inspect j = h ∨ j ∈ h.probeTasks ∧ ∃ f : Tracked → Tracked,
      h.inspect j = { h.cancelProbe j with instances := h.instances.modify j f } ∧
        ∀ t, (f t).generation = t.generation ∧ (f t).state ≠ .stopped := by
  unfold Host.inspect
  split
  · rename_i hj
    exact Or.inr ⟨hj.1, _, rfl, fun t => ⟨rfl, by simp⟩⟩
  · exact Or.inl rfl

/-- A command of another instance leaves the entry alone, and starts no probe task. -/
theorem entry_applyCommand {hfToken : Bool} {o : CallOutcome} {h : Host} {c : Command} {id : Uuid}
    (hid : c.instanceId ≠ id) :
    (h.applyCommand hfToken o c).instances.get? id = h.instances.get? id ∧
      ∀ j ∈ (h.applyCommand hfToken o c).probeTasks, j ∈ h.probeTasks := by
  refine ⟨(Host.touchesOnly_applyDockerCommand hfToken (h.outcomeOn o c) o.stopOk h c).instances
    id hid, ?_⟩
  unfold Host.applyCommand Host.applyDockerCommand
  split
  · rename_i config _ _
    rcases Host.startSync_cases hfToken (h.outcomeOn o c) h c.instanceId c.generation config with
      ⟨-, heq⟩ | ⟨-, ⟨-, -, heq⟩ | ⟨-, -, heq⟩ | hstart⟩
    · rw [heq]
      exact fun j hj => hj
    · rw [heq]
      exact fun j hj => hj
    · rw [heq]
      exact fun j hj => List.mem_of_mem_filter hj
    · rw [hstart.probeTasks]
      exact fun j hj => List.mem_of_mem_filter hj
  · exact fun j hj => hj
  · exact fun j hj => List.mem_of_mem_filter hj
  · exact fun j hj => List.mem_of_mem_filter hj

/-- A property of the entry that a probe keeps is stable. -/
theorem roundStable_of_entry (hfToken : Bool) (commands : List Command) (id : Uuid)
    {P : Option Tracked → Prop} (hP : ∀ t t' : Tracked, P (some t) → t'.generation = t.generation →
      t'.state ≠ .stopped → P (some t')) :
    RoundStable hfToken commands id fun h => P (h.instances.get? id) := by
  have hmodify : ∀ (h : Host) (j : Uuid) (f : Tracked → Tracked),
      (∀ t, (f t).generation = t.generation ∧ (f t).state ≠ .stopped) →
      P (h.instances.get? id) → P ((h.instances.modify j f).get? id) := by
    intro h j f hf hgood
    rw [Dict.get?_modify]
    split
    · cases ht : h.instances.get? id with
      | none =>
        rw [ht] at hgood
        exact hgood
      | some t =>
        rw [ht] at hgood
        exact hP t (f t) hgood (hf t).1 (hf t).2
    · exact hgood
  refine ⟨fun h b hgood => hgood, fun h o c hid hgood => ?_, fun h o _ hgood => ?_,
    fun h j hgood => ?_, fun h j ready hgood => ?_, fun h j hgood => hgood⟩
  · rw [(entry_applyCommand hid).1]
    exact hgood
  · rw [Host.endBatch_instances]
    exact hgood
  · rcases inspect_cases h j with heq | ⟨-, f, heq, hf⟩
    · rw [heq]
      exact hgood
    · rw [heq]
      exact hmodify h j f hf hgood
  · rcases probe_cases h j ready with heq | ⟨-, f, heq, hf⟩
    · rw [heq]
      exact hgood
    · rw [heq]
      exact hmodify h j f hf hgood

/-- An entry that is as a row that is to run wants it. -/
def UpToDate (generation : ℕ) (entry : Option Tracked) : Prop :=
  ∃ t, entry = some t ∧ generation ≤ t.generation ∧ t.state ≠ .stopped

theorem upToDate_startSync (hfToken : Bool) (o : StartOutcome) (h : Host) (id : Uuid) (g : ℕ)
    (config : EngineConfig) :
    UpToDate g ((h.startSync hfToken o id g config).instances.get? id) := by
  rcases Host.startSync_cases hfToken o h id g config with
    ⟨happ, heq⟩ | ⟨-, ⟨hfail, -⟩ | ⟨hfail, -⟩ | hstart⟩
  · -- a start that has nothing to do finds the generation there
    rw [heq]
    cases ht : h.instances.get? id with
    | none =>
      rw [ht] at happ
      cases happ
    | some t =>
      rw [ht] at happ
      simp only [alreadyApplied, Option.any_some, decide_eq_true_eq] at happ
      refine ⟨t, rfl, happ.2, ?_⟩
      rcases happ.1 with hs | hs <;> simp [hs]
  · obtain ⟨port, detail, hinst⟩ := hfail.entry
    exact ⟨_, by rw [hinst, Dict.get?_set_self], le_rfl, by simp⟩
  · obtain ⟨port, detail, hinst⟩ := hfail.entry
    exact ⟨_, by rw [hinst, Dict.get?_set_self], le_rfl, by simp⟩
  · exact ⟨_, by rw [hstart.instances, Dict.get?_set_self], le_rfl, by simp⟩

/-- An entry that is as a row that is to stop wants it. -/
def NotUp (entry : Option Tracked) : Prop :=
  ∀ t, entry = some t → t.state ≠ .starting ∧ t.state ≠ .running

/-- Nothing of an instance that is to stop is up, and no probe can change that. -/
def SettledStop (id : Uuid) (h : Host) : Prop :=
  NotUp (h.instances.get? id) ∧ (id ∈ h.probeTasks → h.instances.get? id = none)

theorem roundStable_settledStop (hfToken : Bool) {commands : List Command} {id : Uuid}
    (hno : ∀ c ∈ commands, c.instanceId = id → c.action ≠ .start) :
    RoundStable hfToken commands id (SettledStop id) := by
  have hmodify : ∀ (h : Host) (j : Uuid) (f : Tracked → Tracked), j ∈ h.probeTasks →
      SettledStop id h →
        SettledStop id { h.cancelProbe j with instances := h.instances.modify j f } := by
    rintro h j f hj ⟨hdown, hprobe⟩
    -- a probe of this instance finds no entry
    have hsame : (h.instances.modify j f).get? id = h.instances.get? id := by
      rw [Dict.get?_modify]
      split
      · rename_i hid
        rw [hprobe (hid ▸ hj)]
        rfl
      · rfl
    refine ⟨fun t ht => hdown t (hsame.symm.trans ht), fun hid => hsame.trans (hprobe ?_)⟩
    exact List.mem_of_mem_filter hid
  refine ⟨fun h b hgood => hgood, fun h o c hid hgood => ?_, fun h o hr hgood => ?_,
    fun h j hgood => ?_, fun h j ready hgood => ?_, fun h j hgood => hgood⟩
  · obtain ⟨hentry, hprobes⟩ := @entry_applyCommand hfToken o h c id hid
    refine ⟨fun t ht => hgood.1 t (hentry ▸ ht), fun hmem => ?_⟩
    rw [hentry]
    exact hgood.2 (hprobes id hmem)
  · refine ⟨fun t ht => hgood.1 t ?_, fun hmem => ?_⟩
    · rw [Host.endBatch_instances] at ht
      exact ht
    · rw [Host.endBatch_instances]
      rcases mem_endBatch_probeTasks hmem with hmem | ⟨port, hp⟩
      · exact hgood.2 hmem
      · -- probes are scheduled for instances that were started
        obtain ⟨c, hc, hstart, hcid⟩ := hr.probes _ hp
        exact absurd hstart (hno c hc hcid)
  · rcases inspect_cases h j with heq | ⟨hj, f, heq, -⟩
    · rw [heq]
      exact hgood
    · rw [heq]
      exact hmodify h j f hj hgood
  · rcases probe_cases h j ready with heq | ⟨hj, f, heq, -⟩
    · rw [heq]
      exact hgood
    · rw [heq]
      exact hmodify h j f hj hgood

theorem settledStop_stopSync (ok : Bool) (h : Host) (id : Uuid) :
    SettledStop id (h.stopSync ok id) := by
  refine ⟨fun t ht => ?_, fun hid => ?_⟩
  · change (h.instances.modify id _).get? id = some t at ht
    rw [Dict.get?_modify, if_pos rfl] at ht
    obtain ⟨t', -, rfl⟩ := Option.map_eq_some_iff.mp ht
    simp
  · change id ∈ h.probeTasks.filter _ at hid
    simp at hid

end Inferna
