import Inferna.Footprint

/-!
# Batches run to their end

What a worker's batches do to one instance.  A batch with what has been coalesced
behind it ends after finitely many moves; and an instance whose last queued command
takes it down has no running container at that end.

## Main definitions

* `Host.Down` — the instance has no running container.
* `Host.Sound` — nothing is pending while no batch runs, the pending commands are
  filed under their instances, and every container is tracked.
* `Host.Doomed` — the commands queued for the instance leave it down.

## Main results

* `sound_next` — **the hosts stay sound in every step.**
* `doomed_reconcile`, `doomed_applyNext` — a stop dooms its instance, and the
  batches keep it doomed.
* `exists_drained` — **the batches end**, with nothing queued.
-/

namespace Inferna

namespace Host

/-! ### Sound hosts -/

/-- The instance has no running container. -/
def Down (h : Host) (id : Uuid) : Prop := ∀ c, h.containers.get? id = some c → c.running = false

/-- The container of the instance is tracked, and its entry is in a state a manager
reports. -/
def SoundAt (h : Host) (id : Uuid) : Prop :=
  (∀ c, h.containers.get? id = some c → ∃ t, h.instances.get? id = some t) ∧
    ∀ t, h.instances.get? id = some t → t.state ≠ .scheduled

/-- What holds of every worker between its moves. -/
structure Sound (h : Host) : Prop where
  idle : h.batch = none → h.pending = Dict.empty
  filed : ∀ k c, h.pending.get? k = some c → c.instanceId = k
  tracked : ∀ id, h.SoundAt id

theorem soundAt_of_entry {h : Host} {id : Uuid} {t : Tracked}
    (ht : h.instances.get? id = some t) (hs : t.state ≠ .scheduled) : h.SoundAt id := by
  refine ⟨fun _ _ => ⟨t, ht⟩, ?_⟩
  intro t' ht'
  rw [ht] at ht'
  injection ht' with ht'
  exact ht' ▸ hs

theorem soundAt_of_none {h : Host} {id : Uuid} (hi : h.instances.get? id = none)
    (hc : h.containers.get? id = none) : h.SoundAt id := by
  constructor
  · intro c h'
    rw [hc] at h'
    cases h'
  · intro t h'
    rw [hi] at h'
    cases h'

theorem soundAt_recordError (h : Host) (id : Uuid) (config : EngineConfig) (generation : ℕ)
    (detail : String) : (h.recordError id config generation detail).SoundAt id :=
  soundAt_of_entry (Dict.get?_set_self _ _ _) (by simp)

theorem soundAt_launch (h : Host) (id : Uuid) (config : EngineConfig) (generation : ℕ)
    (ok : Bool) : (h.launch id config generation ok).SoundAt id := by
  unfold launch
  simp only
  split
  · exact soundAt_of_entry (Dict.get?_set_self _ _ _) (by simp)
  · exact soundAt_recordError _ id config generation _

/-- A command leaves its instance sound. -/
theorem soundAt_applyDockerCommand {hfToken : Bool} {o : StartOutcome} {ok : Bool} {h : Host}
    {c : Command} (ho : o.removeOk = true) (hs : h.SoundAt c.instanceId) :
    (h.applyDockerCommand hfToken o ok c).SoundAt c.instanceId := by
  unfold applyDockerCommand
  split
  · unfold startSync
    simp only
    split_ifs
    · exact hs
    · exact soundAt_recordError _ _ _ _ _
    · exact soundAt_recordError _ _ _ _ _
    · exact soundAt_recordError _ _ _ _ _
    · exact soundAt_launch _ _ _ _ _
    · exact soundAt_recordError _ _ _ _ _
  · exact soundAt_of_entry (Dict.get?_set_self _ _ _) (by simp)
  · cases ht : h.instances.get? c.instanceId with
    | some t =>
      have hentry : (h.stopSync ok c.instanceId).instances.get? c.instanceId =
          some { t with state := .stopped, detail := "" } := by
        unfold stopSync cancelProbe
        rw [Dict.get?_modify, if_pos rfl, ht]
        rfl
      exact soundAt_of_entry hentry (by simp)
    | none =>
      -- an instance that is not tracked has no container
      have hnone : h.containers.get? c.instanceId = none := by
        cases hc : h.containers.get? c.instanceId with
        | none => rfl
        | some k =>
          obtain ⟨t, ht'⟩ := hs.1 k hc
          rw [ht] at ht'
          cases ht'
      refine soundAt_of_none ?_ ?_
      · unfold stopSync cancelProbe
        rw [Dict.get?_modify, if_pos rfl, ht]
        rfl
      · unfold stopSync cancelProbe
        simp only
        split
        · rw [Dict.get?_modify, if_pos rfl, hnone]
          rfl
        · exact hnone
  · refine soundAt_of_none (Dict.get?_erase_self _ _) ?_
    unfold deleteSync
    simp only
    rw [if_pos ho]
    exact Dict.get?_erase_self _ _

theorem sound_default : ({} : Host).Sound :=
  ⟨fun _ => rfl, fun _ _ h => (nomatch h), fun _ => soundAt_of_none rfl rfl⟩

theorem get?_removeStale (h : Host) (id : Uuid) (c : Container)
    (hc : h.removeStale.containers.get? id = some c) : h.containers.get? id = some c := by
  rw [← Dict.mem_entries_iff] at hc ⊢
  exact List.mem_of_mem_filter hc

/-- What is queued after a batch has ended: nothing, or what was pending. -/
theorem finishBatch_queue (h : Host) : h.finishBatch.pending = Dict.empty ∧
    ((h.pending = Dict.empty ∧ h.finishBatch.batch = none) ∨
      (h.pending ≠ Dict.empty ∧ ∃ b, h.finishBatch.batch = some b ∧ b.Perm h.pending.values)) := by
  unfold finishBatch
  simp only
  split
  · rename_i hempty
    have hp : h.pending = Dict.empty := Dict.eq_empty_of_isEmpty hempty
    exact ⟨hp, Or.inl ⟨hp, rfl⟩⟩
  · rename_i hne
    have hp : h.pending ≠ Dict.empty := fun hp => hne (congrArg Dict.isEmpty hp)
    exact ⟨rfl, Or.inr ⟨hp, _, rfl, List.perm_insertionSort _ _⟩⟩

theorem finishBatch_containers (h : Host) :
    h.finishBatch.containers = h.removeStale.containers := by
  unfold finishBatch
  simp only
  split <;> rfl

theorem finishBatch_instances (h : Host) : h.finishBatch.instances = h.instances := by
  unfold finishBatch
  simp only
  split <;> rfl

theorem sound_finishBatch {h : Host} (hs : h.Sound) : h.finishBatch.Sound := by
  refine ⟨fun _ => h.finishBatch_queue.1, ?_, ?_⟩
  · intro k c hc
    rw [h.finishBatch_queue.1] at hc
    cases hc
  · intro id
    unfold SoundAt
    rw [h.finishBatch_containers, h.finishBatch_instances]
    exact ⟨fun c hc => (hs.tracked id).1 c (h.get?_removeStale id c hc), (hs.tracked id).2⟩

/-- **The moves of a batch keep the host sound.** -/
theorem sound_applyNext (hfToken : Bool) {h : Host} (hs : h.Sound) :
    (h.applyNext hfToken).1.Sound := by
  unfold applyNext
  split
  · exact hs
  · exact sound_finishBatch hs
  · rename_i c rest _
    have htouch := touchesOnly_applyDockerCommand hfToken { startOk := !refusesStart h c } true h c
    refine ⟨fun hb => absurd hb (Option.some_ne_none _), ?_, ?_⟩
    · intro k c' hc'
      exact hs.filed k c' (htouch.pending ▸ hc')
    · intro id
      by_cases hid : c.instanceId = id
      · exact hid ▸ soundAt_applyDockerCommand rfl (hs.tracked c.instanceId)
      · -- another instance's container and entry are as they were
        refine ⟨fun k hk => ?_, fun t ht => ?_⟩
        · obtain ⟨t, ht⟩ := (hs.tracked id).1 k ((htouch.containers id hid).symm.trans hk)
          exact ⟨t, (htouch.instances id hid).trans ht⟩
        · exact (hs.tracked id).2 t ((htouch.instances id hid).symm.trans ht)

theorem sound_probeResult {h : Host} (hs : h.Sound) (i : Uuid) (ready : Bool) :
    (h.probeResult i ready).Sound := by
  unfold probeResult
  split
  · refine ⟨hs.idle, hs.filed, fun id => ?_⟩
    by_cases hid : i = id
    · subst hid
      cases ht : h.instances.get? i with
      | none =>
        refine ⟨fun c hc => ?_, fun t ht' => ?_⟩
        · obtain ⟨t, ht'⟩ := (hs.tracked i).1 c hc
          rw [ht] at ht'
          cases ht'
        · rw [Dict.get?_modify, if_pos rfl, ht] at ht'
          cases ht'
      | some t =>
        refine soundAt_of_entry (t := if ready then { t with state := .running, detail := "" }
          else { t with state := .error, detail := "health probe timed out" }) ?_ ?_
        · change (h.instances.modify i _).get? i = _
          rw [Dict.get?_modify, if_pos rfl, ht]
          rfl
        · cases ready <;> simp
    · refine ⟨fun c hc => ?_, fun t ht => ?_⟩
      · obtain ⟨t, ht⟩ := (hs.tracked id).1 c hc
        exact ⟨t, (Dict.get?_modify_of_ne _ _ hid).trans ht⟩
      · exact (hs.tracked id).2 t ((Dict.get?_modify_of_ne _ _ hid).symm.trans ht)
  · exact hs

theorem sound_containerExit {h : Host} (hs : h.Sound) (i : Uuid) : (h.containerExit i).Sound := by
  refine ⟨hs.idle, hs.filed, fun id => ⟨fun c hc => ?_, (hs.tracked id).2⟩⟩
  cases hold : h.containers.get? id with
  | some k => exact (hs.tracked id).1 k hold
  | none =>
    change (h.containers.modify i _).get? id = some c at hc
    rw [Dict.get?_modify, hold] at hc
    split at hc <;> cases hc

/-- A new process tracks every container it finds. -/
theorem sound_adoptExisting (h : Host) : h.adoptExisting.Sound := by
  refine ⟨fun _ => rfl, fun _ _ hc => (nomatch hc), fun id => ⟨fun c hc => ?_, fun t ht => ?_⟩⟩
  · refine ⟨adopted c, ?_⟩
    rw [← Dict.mem_entries_iff] at hc ⊢
    exact List.mem_map.mpr ⟨(id, c), hc, rfl⟩
  · rw [← Dict.mem_entries_iff] at ht
    obtain ⟨⟨j, c⟩, -, heq⟩ := List.mem_map.mp ht
    injection heq with _ heq
    rw [← heq]
    unfold adopted
    cases c.running <;> simp

/-- What is pending for an instance after commands are coalesced: the last of
them, or what was pending before. -/
theorem get?_coalesce (id : Uuid) : ∀ (cs : List Command) (p : Dict Uuid Command),
    ((∃ c ∈ cs, c.instanceId = id) ∧
      ∃ c ∈ cs, c.instanceId = id ∧
        (cs.foldl (fun p c => p.set c.instanceId c) p).get? id = some c) ∨
    ((∀ c ∈ cs, c.instanceId ≠ id) ∧
      (cs.foldl (fun p c => p.set c.instanceId c) p).get? id = p.get? id) := by
  intro cs
  induction cs with
  | nil => exact fun p => Or.inr ⟨fun _ hc => absurd hc List.not_mem_nil, rfl⟩
  | cons c cs ih =>
    intro p
    rw [List.foldl_cons]
    rcases ih (p.set c.instanceId c) with ⟨-, c', hc', hid', hget⟩ | ⟨hno, hget⟩
    · have hmem : c' ∈ c :: cs := List.mem_cons_of_mem _ hc'
      exact Or.inl ⟨⟨c', hmem, hid'⟩, c', hmem, hid', hget⟩
    · by_cases hid : c.instanceId = id
      · refine Or.inl ⟨⟨c, List.mem_cons_self, hid⟩, c, List.mem_cons_self, hid, ?_⟩
        rw [hget, Dict.get?_set, if_pos hid]
      · refine Or.inr ⟨?_, ?_⟩
        · intro c' hc'
          rcases List.mem_cons.mp hc' with rfl | hc'
          · exact hid
          · exact hno c' hc'
        · rw [hget, Dict.get?_set, if_neg hid]

theorem sound_reconcile {h : Host} (hs : h.Sound) (commands : List Command) :
    (h.reconcile commands).Sound := by
  unfold reconcile
  split
  · rename_i b hb
    refine ⟨fun hnone => ?_, fun k c hc => ?_, hs.tracked⟩
    · change h.batch = none at hnone
      rw [hb] at hnone
      cases hnone
    · rcases get?_coalesce k commands h.pending with ⟨-, c', -, hid, hget⟩ | ⟨-, hget⟩
      · change (commands.foldl (fun p c => p.set c.instanceId c) h.pending).get? k = some c at hc
        rw [hget] at hc
        injection hc with hc
        exact hc ▸ hid
      · exact hs.filed k c (hget.symm.trans hc)
  · exact ⟨fun hb => absurd hb (Option.some_ne_none _), hs.filed, hs.tracked⟩

end Host

/-- **The hosts stay sound in every step.** -/
theorem sound_next (env : Env) (wd : World) (a : Step) (h : ∀ w, (wd.hosts w).Sound) (w : Uuid) :
    ((wd.next env a).hosts w).Sound := by
  -- a step replaces one host or none
  have hset : ∀ (v : Uuid) (h' : Host), h'.Sound → (Function.update wd.hosts v h' w).Sound := by
    intro v h' hs
    by_cases hv : w = v
    · subst hv
      rw [Function.update_self]
      exact hs
    · rw [Function.update_of_ne hv]
      exact h w
  cases a with
  | sync v now =>
    rcases sync_cases env wd v now with heq | hsync
    · rw [heq]
      exact h w
    · rw [hsync.2]
      exact hset v _ (Host.sound_reconcile (h v) _)
  | register req token now =>
    rcases register_cases env wd req token now with heq | ⟨db', v, -, -, heq⟩
    · rw [heq]
      exact h w
    · rw [heq]
      exact h w
  | applyNext v => exact hset v _ (Host.sound_applyNext env.hfToken (h v))
  | probe v id ready => exact hset v _ (Host.sound_probeResult (h v) id ready)
  | containerExit v id => exact hset v _ (Host.sound_containerExit (h v) id)
  | restartWorker v => exact hset v _ (Host.sound_adoptExisting (wd.hosts v))
  | autoscaleTick m clock now => exact h w
  | deploy body now => exact h w
  | scale id body now => exact h w
  | setRange id body now => exact h w
  | stop id => exact h w
  | restart id => exact h w
  | deleteInstance id => exact h w
  | deleteDeployment id => exact h w
  | markDisconnected now => exact h w

theorem World.Initial.sound {wd : World} (h : wd.Initial) (w : Uuid) : (wd.hosts w).Sound := by
  rw [h.hosts w]
  exact Host.sound_default

/-! ### Doomed instances -/

namespace Host

/-- The commands queued for the instance leave it down: a stop or delete is
pending, or the running batch starts it no more and will have taken it down. -/
def Doomed (h : Host) (id : Uuid) : Prop :=
  match h.pending.get? id with
  | some c => c.action ≠ .start
  | none =>
    (∀ c ∈ h.batch.getD [], c.instanceId = id → c.action ≠ .start) ∧
      ((∃ c ∈ h.batch.getD [], c.instanceId = id) ∨ h.Down id)

theorem doomed_of_pending {h : Host} {id : Uuid} {c : Command}
    (hp : h.pending.get? id = some c) (hc : c.action ≠ .start) : h.Doomed id := by
  unfold Doomed
  rw [hp]
  exact hc

theorem doomed_of_batch {h : Host} {id : Uuid} {b : List Command}
    (hp : h.pending.get? id = none) (hb : h.batch = some b)
    (hno : ∀ c ∈ b, c.instanceId = id → c.action ≠ .start)
    (hdown : (∃ c ∈ b, c.instanceId = id) ∨ h.Down id) : h.Doomed id := by
  unfold Doomed
  rw [hp, hb]
  exact ⟨hno, hdown⟩

/-- A stop or a delete takes its instance down. -/
theorem down_applyDockerCommand {hfToken : Bool} {o : StartOutcome} {h : Host} {c : Command}
    (ho : o.removeOk = true) (hc : c.action ≠ .start) :
    (h.applyDockerCommand hfToken o true c).Down c.instanceId := by
  intro k hk
  unfold applyDockerCommand at hk
  split at hk
  · rename_i hstart _
    exact absurd hstart hc
  · rename_i hstart _
    exact absurd hstart hc
  · unfold stopSync at hk
    simp only [if_true] at hk
    rw [Dict.get?_modify, if_pos rfl] at hk
    obtain ⟨k', -, rfl⟩ := Option.map_eq_some_iff.mp hk
    rfl
  · unfold deleteSync at hk
    simp only at hk
    rw [if_pos ho, Dict.get?_erase_self] at hk
    cases hk

theorem mem_pending_values {h : Host} (hs : h.Sound) {c : Command} {id : Uuid}
    (hid : c.instanceId = id) : c ∈ h.pending.values ↔ h.pending.get? id = some c := by
  constructor
  · intro hc
    obtain ⟨⟨k, c'⟩, he, rfl⟩ := List.mem_map.mp hc
    rw [Dict.mem_entries_iff] at he
    rw [← hid, hs.filed k c' he]
    exact he
  · intro hget
    rw [← Dict.mem_entries_iff] at hget
    exact List.mem_map.mpr ⟨_, hget, rfl⟩

theorem doomed_finishBatch {h : Host} (hs : h.Sound) {id : Uuid} (hb : h.batch = some [])
    (hd : h.Doomed id) : h.finishBatch.Doomed id := by
  obtain ⟨hpend, hqueue⟩ := h.finishBatch_queue
  have hnone : h.finishBatch.pending.get? id = none := by rw [hpend]; rfl
  unfold Doomed at hd
  cases hp : h.pending.get? id with
  | some c =>
    rw [hp] at hd
    rcases hqueue with ⟨hempty, -⟩ | ⟨-, b, hb', hperm⟩
    · rw [hempty] at hp
      cases hp
    · -- the pending command is the one of the next batch
      have hcid := hs.filed id c hp
      refine doomed_of_batch hnone hb' ?_ (Or.inl ⟨c, ?_, hcid⟩)
      · intro c' hc' hid'
        have hget := (mem_pending_values hs hid').mp (hperm.mem_iff.mp hc')
        rw [hp] at hget
        injection hget with hget
        exact hget ▸ hd
      · exact hperm.mem_iff.mpr ((mem_pending_values hs hcid).mpr hp)
  | none =>
    rw [hp, hb] at hd
    have hdown : h.finishBatch.Down id := by
      intro c hc
      rw [h.finishBatch_containers] at hc
      rcases hd.2 with ⟨c', hc', -⟩ | hdown
      · exact absurd hc' List.not_mem_nil
      · exact hdown c (h.get?_removeStale id c hc)
    rcases hqueue with ⟨-, hb'⟩ | ⟨-, b, hb', hperm⟩
    · unfold Doomed
      rw [hnone, hb']
      exact ⟨fun c hc => absurd hc List.not_mem_nil, Or.inr hdown⟩
    · refine doomed_of_batch hnone hb' ?_ (Or.inr hdown)
      intro c hc hid
      have hget := (mem_pending_values hs hid).mp (hperm.mem_iff.mp hc)
      rw [hp] at hget
      cases hget

/-- **The moves of a batch keep an instance doomed.** -/
theorem doomed_applyNext (hfToken : Bool) {h : Host} (hs : h.Sound) {id : Uuid}
    (hd : h.Doomed id) : (h.applyNext hfToken).1.Doomed id := by
  unfold applyNext
  split
  · exact hd
  · rename_i hb
    exact doomed_finishBatch hs hb hd
  · rename_i c rest hb
    have htouch := touchesOnly_applyDockerCommand hfToken { startOk := !refusesStart h c } true h c
    unfold Doomed at hd
    cases hp : h.pending.get? id with
    | some c' =>
      rw [hp] at hd
      exact doomed_of_pending ((congrArg (Dict.get? · id) htouch.pending).trans hp) hd
    | none =>
      rw [hp, hb] at hd
      obtain ⟨hno, hdown⟩ := hd
      refine doomed_of_batch ((congrArg (Dict.get? · id) htouch.pending).trans hp) rfl ?_ ?_
      · exact fun c' hc' => hno c' (List.mem_cons_of_mem _ hc')
      by_cases hid : c.instanceId = id
      · -- the command that takes the instance down
        have hstop := hno c List.mem_cons_self hid
        exact Or.inr (hid ▸ down_applyDockerCommand rfl hstop)
      · rcases hdown with ⟨c', hc', hid'⟩ | hdown
        · rcases List.mem_cons.mp hc' with rfl | hc'
          · exact absurd hid' hid
          · exact Or.inl ⟨c', hc', hid'⟩
        · exact Or.inr fun k hk => hdown k ((htouch.containers id hid).symm.trans hk)

/-- **A stop dooms its instance**: the commands of the Sync name it and start it
not. -/
theorem doomed_reconcile {h : Host} (hs : h.Sound) {id : Uuid} {commands : List Command}
    (hmem : ∃ c ∈ commands, c.instanceId = id)
    (hno : ∀ c ∈ commands, c.instanceId = id → c.action ≠ .start) :
    (h.reconcile commands).Doomed id := by
  unfold reconcile
  split
  · rcases get?_coalesce id commands h.pending with ⟨-, c, hc, hid, hget⟩ | ⟨hnone, -⟩
    · exact doomed_of_pending hget (hno c hc hid)
    · obtain ⟨c, hc, hid⟩ := hmem
      exact absurd hid (hnone c hc)
  · rename_i hb
    have hperm := List.perm_insertionSort h.commandOrder commands
    refine doomed_of_batch (b := commands.insertionSort h.commandOrder) ?_ rfl ?_ ?_
    · change h.pending.get? id = none
      rw [hs.idle hb]
      rfl
    · exact fun c hc => hno c (hperm.mem_iff.mp hc)
    · obtain ⟨c, hc, hid⟩ := hmem
      exact Or.inl ⟨c, hperm.mem_iff.mpr hc, hid⟩

/-- An instance that is doomed and has nothing queued is down. -/
theorem Doomed.down {h : Host} {id : Uuid} (hd : h.Doomed id) (hb : h.batch = none)
    (hp : h.pending = Dict.empty) : h.Down id := by
  unfold Doomed at hd
  rw [hp, hb] at hd
  rcases hd.2 with ⟨c, hc, -⟩ | hdown
  · exact absurd hc List.not_mem_nil
  · exact hdown

/-! ### The end of the batches -/

/-- The host after `n` moves of its batches. -/
def applied (hfToken : Bool) (n : ℕ) (h : Host) : Host := (fun h => (h.applyNext hfToken).1)^[n] h

theorem applied_succ (hfToken : Bool) (n : ℕ) (h : Host) :
    applied hfToken (n + 1) h = applied hfToken n (h.applyNext hfToken).1 :=
  Function.iterate_succ_apply _ n h

/-- The commands of a batch are applied; what is pending stays. -/
theorem exists_applied (hfToken : Bool) : ∀ (b : List Command) (h : Host), h.batch = some b →
    ∃ n, (applied hfToken n h).batch = some [] ∧ (applied hfToken n h).pending = h.pending := by
  intro b
  induction b with
  | nil => exact fun h hb => ⟨0, hb, rfl⟩
  | cons c rest ih =>
    intro h hb
    have hnext : (h.applyNext hfToken).1.batch = some rest ∧
        (h.applyNext hfToken).1.pending = h.pending := by
      unfold applyNext
      rw [hb]
      exact ⟨rfl, (touchesOnly_applyDockerCommand hfToken _ true h c).pending⟩
    obtain ⟨n, hb', hp'⟩ := ih _ hnext.1
    refine ⟨n + 1, ?_⟩
    rw [applied_succ]
    exact ⟨hb', hp'.trans hnext.2⟩

theorem applied_add (hfToken : Bool) (m n : ℕ) (h : Host) :
    applied hfToken (m + n) h = applied hfToken m (applied hfToken n h) :=
  Function.iterate_add_apply _ m n h

/-- The running batch ends. -/
theorem exists_finished (hfToken : Bool) {h : Host} {b : List Command} (hb : h.batch = some b) :
    ∃ n h', applied hfToken n h = finishBatch h' ∧ h'.pending = h.pending := by
  obtain ⟨n, hb', hp'⟩ := exists_applied hfToken b h hb
  refine ⟨1 + n, applied hfToken n h, ?_, hp'⟩
  rw [applied_add]
  change ((applied hfToken n h).applyNext hfToken).1 = _
  unfold applyNext
  rw [hb']

/-- **The batches end**: after finitely many moves nothing is queued. -/
theorem exists_drained (hfToken : Bool) {h : Host} (hs : h.Sound) :
    ∃ n, (applied hfToken n h).batch = none ∧ (applied hfToken n h).pending = Dict.empty := by
  cases hb : h.batch with
  | none => exact ⟨0, hb, hs.idle hb⟩
  | some b =>
    obtain ⟨n, h', heq, -⟩ := exists_finished hfToken hb
    obtain ⟨hpend, ⟨-, hnone⟩ | ⟨-, b', hb', -⟩⟩ := h'.finishBatch_queue
    · exact ⟨n, by rw [heq]; exact hnone, by rw [heq]; exact hpend⟩
    · -- the batch of what was pending has nothing behind it
      obtain ⟨m, h'', heq', hp'⟩ := exists_finished hfToken hb'
      obtain ⟨hpend', ⟨-, hnone⟩ | ⟨hne, -⟩⟩ := h''.finishBatch_queue
      · refine ⟨m + n, ?_⟩
        rw [applied_add, heq, heq']
        exact ⟨hnone, hpend'⟩
      · exact absurd (hp'.trans hpend) hne

/-- A sound host stays sound, and its doomed instances stay doomed, while its
batches run. -/
theorem doomed_applied (hfToken : Bool) {id : Uuid} : ∀ (n : ℕ) {h : Host}, h.Sound →
    h.Doomed id → (applied hfToken n h).Doomed id := by
  intro n
  induction n with
  | zero => exact fun _ hd => hd
  | succ n ih =>
    intro h hs hd
    rw [applied_succ]
    exact ih (sound_applyNext hfToken hs) (doomed_applyNext hfToken hs hd)

end Host

end Inferna
