import Inferna.Docker

/-!
# Stopped means not running

What the worker reports as stopped gives its GPU and port away, so its container must not
run, and a container that runs must be tracked.  `_stop_sync` records a stop whatever
Docker answers, and the sweep ends at the first call that fails.

## Main definitions

* `Host.Settled` — what should hold after each batch.
* `StopsOk` — a stop goes through where a container runs, and a sweep gets to every
  container that runs untracked.

## Main results

* `stoppedDown_stop_iff`, `runningTracked_sweep_iff` — when a stop and a sweep do
  what they are for.
* `stopped_means_down` — **in every run with such calls every batch ends settled.**
* `swallowed_stop_runs` — a stop that fails is reported as stopped.
-/

namespace Inferna

open Run

namespace Host

/-- What is reported as stopped has no running container. -/
def StoppedDown (h : Host) : Prop := ∀ id, h.reports id .stopped → h.Down id

/-- A container that runs is tracked. -/
def RunningTracked (h : Host) : Prop :=
  ∀ id c, h.containers.get? id = some c → c.running = true → (h.instances.get? id).isSome

/-- What should hold after each batch. -/
structure Settled (h : Host) : Prop where
  stopped : h.StoppedDown
  tracked : h.RunningTracked

/-- The sweep gets to every container that runs untracked: the listing succeeds, and no
removal fails on the way to it. -/
def SweepsAll (h : Host) (o : SweepOutcome) : Prop :=
  ∀ pre e post, h.containers.entries = pre ++ e :: post → e.2.running = true →
    (h.instances.get? e.1).isNone → o.listOk = true ∧
      ∀ e' ∈ pre ++ [e], (h.instances.get? e'.1).isNone → o.removeOk e'.1 = true

end Host

/-- A stop goes through where a container runs, and a sweep gets to every container that
runs untracked. -/
def StopsOk (h : Host) : HostEvent → Prop
  | .apply o => ∀ c ∈ h.batch.bind (·.head?), c.action = .stop →
      (h.instances.get? c.instanceId).isSome → o.stopOk = true ∨ h.Down c.instanceId
  | .finish o => h.batch = some [] → h.SweepsAll o
  | _ => True

namespace Host

/-! ### One stop -/

/-- **A stop that is recorded took the container down**, if its calls went through or
nothing ran. -/
theorem stoppedDown_stop_iff {h : Host} (stopOk : Bool) {id : Uuid} {t : Tracked}
    (ht : h.instances.get? id = some t) (hdown : ∀ j, j ≠ id → h.reports j .stopped → h.Down j) :
    (h.stopSync stopOk id).StoppedDown ↔ stopOk = true ∨ h.Down id := by
  have hentry : (h.stopSync stopOk id).reports id .stopped := by
    rw [reports_iff]
    refine ⟨{ t with state := .stopped, detail := "" }, ?_, rfl⟩
    show (h.instances.modify id _).get? id = _
    rw [Dict.get?_modify, if_pos rfl, ht]
    rfl
  have hother : ∀ j, j ≠ id →
      (h.stopSync stopOk id).instances.get? j = h.instances.get? j ∧
        (h.stopSync stopOk id).containers.get? j = h.containers.get? j := by
    intro j hj
    have htouch := touchesOnly_applyDockerCommand false {} stopOk h ⟨id, .stop, 0, none⟩
    exact ⟨htouch.instances j (Ne.symm hj), htouch.containers j (Ne.symm hj)⟩
  have hcont : (h.stopSync stopOk id).Down id ↔ stopOk = true ∨ h.Down id := by
    cases stopOk with
    | true =>
      refine ⟨fun _ => Or.inl rfl, fun _ c hc => ?_⟩
      change (h.containers.modify id _).get? id = some c at hc
      rw [Dict.get?_modify, if_pos rfl] at hc
      obtain ⟨k, -, rfl⟩ := Option.map_eq_some_iff.mp hc
      rfl
    | false =>
      show h.Down id ↔ _
      simp
  constructor
  · exact fun h' => hcont.mp (h' id hentry)
  · intro hok j hj
    by_cases hid : j = id
    · rw [hid]
      exact hcont.mpr hok
    · obtain ⟨hinst, hconts⟩ := hother j hid
      rw [reports_iff, hinst, ← reports_iff] at hj
      intro c hc
      rw [hconts] at hc
      exact hdown j hid hj c hc

/-! ### One sweep -/

/-- A container is gone when no removal fails on the way to it. -/
theorem sweepLoop_reached {tracked : Dict Uuid Tracked} {removeOk : Uuid → Bool}
    {e : Uuid × Container} {post : List (Uuid × Container)} (he : (tracked.get? e.1).isNone) :
    ∀ (pre : List (Uuid × Container)) (cs : Dict Uuid Container),
      (∀ e' ∈ pre ++ [e], (tracked.get? e'.1).isNone → removeOk e'.1 = true) →
        (sweepLoop tracked removeOk (pre ++ e :: post) cs).get? e.1 = none := by
  have hno : (tracked.get? e.1).isSome = false := by simpa using he
  intro pre
  induction pre with
  | nil =>
    intro cs hok
    have hrem := hok e (List.mem_singleton_self e) he
    simp only [List.nil_append, sweepLoop, hno, hrem, if_true, Bool.false_eq_true, if_false]
    rcases sweepLoop_spec tracked removeOk e.1 post (cs.erase e.1) with heq | ⟨-, hnone⟩
    · rw [heq, Dict.get?_erase_self]
    · exact hnone
  | cons a pre ih =>
    intro cs hok
    have hok' := fun e' he' => hok e' (List.mem_cons_of_mem a he')
    rw [List.cons_append]
    unfold sweepLoop
    split
    · exact ih cs hok'
    · rename_i ha
      rw [if_pos (hok a List.mem_cons_self (by simpa using ha))]
      exact ih _ hok'

/-- A container is left alone when a removal fails on the way to it. -/
theorem sweepLoop_unreached {tracked : Dict Uuid Tracked} {removeOk : Uuid → Bool}
    {e : Uuid × Container} {post : List (Uuid × Container)} :
    ∀ (pre : List (Uuid × Container)) (cs : Dict Uuid Container),
      ((pre ++ e :: post).map Prod.fst).Nodup →
      (∃ e' ∈ pre ++ [e], (tracked.get? e'.1).isNone ∧ removeOk e'.1 = false) →
        (sweepLoop tracked removeOk (pre ++ e :: post) cs).get? e.1 = cs.get? e.1 := by
  intro pre
  induction pre with
  | nil =>
    rintro cs - ⟨e', he', hno, hrem⟩
    rw [List.nil_append, List.mem_singleton] at he'
    subst he'
    have hno : (tracked.get? e'.1).isSome = false := by simpa using hno
    simp [sweepLoop, hno, hrem]
  | cons a pre ih =>
    rintro cs hnd ⟨e', he', hno, hrem⟩
    rw [List.cons_append, List.map_cons, List.nodup_cons] at hnd
    have hne : a.1 ≠ e.1 := by
      intro heq
      refine hnd.1 (heq ▸ List.mem_map_of_mem ?_)
      exact List.mem_append_right _ List.mem_cons_self
    rw [List.cons_append] at he' ⊢
    unfold sweepLoop
    split
    · rename_i ha
      rcases List.mem_cons.mp he' with rfl | he'
      · rw [Option.isNone_iff_eq_none.mp hno] at ha
        cases ha
      · exact ih cs hnd.2 ⟨e', he', hno, hrem⟩
    split
    · rename_i ha
      rcases List.mem_cons.mp he' with rfl | he'
      · rw [hrem] at ha
        cases ha
      · rw [ih _ hnd.2 ⟨e', he', hno, hrem⟩, Dict.get?_erase_of_ne _ hne]
    · rfl

/-- **A sweep leaves no running container untracked** exactly when it gets to all of
them. -/
theorem runningTracked_sweep_iff (h : Host) (o : SweepOutcome) :
    (h.sweep o).RunningTracked ↔ h.SweepsAll o := by
  constructor
  · intro htr pre e post hentries hrun hno
    have hget : h.containers.get? e.1 = some e.2 := by
      rw [← Dict.mem_entries_iff, hentries]
      exact List.mem_append_right _ List.mem_cons_self
    -- a container that is left would have to be tracked
    have hgone : ¬ (h.sweep o).containers.get? e.1 = h.containers.get? e.1 := by
      intro heq
      have hsome := htr e.1 e.2 (heq.trans hget) hrun
      rw [sweep_instances, Option.isNone_iff_eq_none.mp hno] at hsome
      cases hsome
    have hlist : o.listOk = true := by
      by_contra hlist
      refine hgone ?_
      unfold sweep
      rw [if_neg hlist]
    refine ⟨hlist, fun e' he' hno' => ?_⟩
    by_contra hrem
    refine hgone ?_
    have hnd := h.containers.nodup_keys
    rw [hentries] at hnd
    unfold sweep
    rw [if_pos hlist]
    show (sweepLoop h.instances o.removeOk h.containers.entries h.containers).get? e.1 = _
    rw [hentries]
    exact sweepLoop_unreached pre _ hnd ⟨e', he', hno', by simpa using hrem⟩
  · intro hall id c hc hrun
    by_contra hno
    rw [sweep_instances] at hno
    have hno : (h.instances.get? id).isNone := by simpa using hno
    have hmem : (id, c) ∈ h.containers.entries :=
      (Dict.mem_entries_iff _ _ _).mpr (get?_sweep_subset hc)
    obtain ⟨pre, post, hentries⟩ := List.append_of_mem hmem
    obtain ⟨hlist, hrem⟩ := hall pre (id, c) post hentries hrun hno
    have hgone := @sweepLoop_reached _ _ (id, c) post hno pre h.containers hrem
    unfold sweep at hc
    rw [if_pos hlist] at hc
    change (sweepLoop h.instances o.removeOk h.containers.entries h.containers).get? id = some c at hc
    rw [hentries, hgone] at hc
    cases hc

/-! ### Every move -/

/-- Nothing new is reported as stopped, and nothing new runs. -/
theorem StoppedDown.of_sub {h h' : Host} (hs : h.StoppedDown)
    (hreports : ∀ id, h'.reports id .stopped → h.reports id .stopped)
    (hruns : ∀ id, h.Down id → h'.Down id) : h'.StoppedDown :=
  fun id hid => hruns id (hs id (hreports id hid))

/-- A start leaves its instance in another state than stopped. -/
theorem not_stopped_startSync (hfToken : Bool) (o : StartOutcome) (h : Host) (id : Uuid) (g : ℕ)
    (config : EngineConfig) : ¬ (h.startSync hfToken o id g config).reports id .stopped := by
  rw [reports_iff]
  rintro ⟨t, ht, hstate⟩
  have hentry : ∀ t', (h.startSync hfToken o id g config).instances = h.instances.set id t' →
      t' = t := by
    intro t' h'
    rw [h', Dict.get?_set_self] at ht
    exact Option.some.inj ht
  rcases startSync_cases hfToken o h id g config with
    ⟨happ, heq⟩ | ⟨-, ⟨hfail, -⟩ | ⟨hfail, -⟩ | hstart⟩
  · -- a generation that is there is starting or running
    rw [heq] at ht
    rw [ht] at happ
    simp [alreadyApplied, hstate] at happ
  · obtain ⟨port, detail, h'⟩ := hfail.entry
    rw [← hentry _ h'] at hstate
    cases hstate
  · obtain ⟨port, detail, h'⟩ := hfail.entry
    rw [← hentry _ h'] at hstate
    cases hstate
  · rw [← hentry _ hstart.instances] at hstate
    cases hstate

theorem stoppedDown_applyCommand {hfToken : Bool} {o : CallOutcome} {h : Host} {c : Command}
    (hs : h.StoppedDown) (hok : c.action = .stop → (h.instances.get? c.instanceId).isSome →
      o.stopOk = true ∨ h.Down c.instanceId) : (h.applyCommand hfToken o c).StoppedDown := by
  have htouch := touchesOnly_applyDockerCommand hfToken (h.outcomeOn o c) o.stopOk h c
  have hother : ∀ j, c.instanceId ≠ j → (h.applyCommand hfToken o c).reports j .stopped →
      (h.applyCommand hfToken o c).Down j := by
    intro j hj hrep
    rw [reports_iff, applyCommand, htouch.instances j hj, ← reports_iff] at hrep
    intro k hk
    rw [applyCommand, htouch.containers j hj] at hk
    exact hs j hrep k hk
  -- what is left is the instance of the command
  have hself : (h.applyCommand hfToken o c).reports c.instanceId .stopped →
      (h.applyCommand hfToken o c).Down c.instanceId := by
    intro hrep
    unfold applyCommand applyDockerCommand at hrep ⊢
    split at hrep
    · exact absurd hrep (not_stopped_startSync _ _ _ _ _ _)
    · rw [reports_iff] at hrep
      obtain ⟨t, ht, hstate⟩ := hrep
      rw [Dict.get?_set_self, Option.some.injEq] at ht
      rw [← ht] at hstate
      cases hstate
    · rename_i haction
      cases ht : h.instances.get? c.instanceId with
      | none =>
        obtain ⟨t, ht', -⟩ := reports_iff.mp hrep
        change (h.instances.modify c.instanceId _).get? c.instanceId = some t at ht'
        rw [Dict.get?_modify, if_pos rfl, ht] at ht'
        cases ht'
      | some t =>
        have hstop := hok haction (by rw [ht]; rfl)
        exact (stoppedDown_stop_iff o.stopOk ht fun j _ => hs j).mpr hstop _ hrep
    · exact absurd hrep not_reports_deleteSync
  intro j hrep
  by_cases hj : c.instanceId = j
  · subst hj
    exact hself hrep
  · exact hother j hj hrep

/-- An entry that is written with another state is not reported anew. -/
theorem reports_of_modify {h h' : Host} {id : Uuid} {f : Tracked → Tracked} {state : InstanceState}
    (hinst : h'.instances = h.instances.modify id f) (hf : ∀ t, (f t).state ≠ state) {j : Uuid}
    (hj : h'.reports j state) : h.reports j state := by
  rw [reports_iff] at hj ⊢
  obtain ⟨t, ht, hstate⟩ := hj
  rw [hinst, Dict.get?_modify] at ht
  split at ht
  · obtain ⟨t', -, rfl⟩ := Option.map_eq_some_iff.mp ht
    exact absurd hstate (hf t')
  · exact ⟨t, ht, hstate⟩

/-- An entry that a probe writes is not stopped. -/
theorem stoppedDown_modify {h h' : Host} (hs : h.StoppedDown) {id : Uuid} {f : Tracked → Tracked}
    (hinst : h'.instances = h.instances.modify id f) (hcont : h'.containers = h.containers)
    (hf : ∀ t, (f t).state ≠ .stopped) : h'.StoppedDown :=
  hs.of_sub (fun _ hj => reports_of_modify hinst hf hj) fun _ hj c hc => hj c (hcont ▸ hc)

theorem stoppedDown_probeResult {h : Host} (hs : h.StoppedDown) (id : Uuid) (ready : Bool) :
    (h.probeResult id ready).StoppedDown := by
  unfold probeResult
  split
  · refine stoppedDown_modify hs rfl rfl fun t => ?_
    cases ready <;> simp
  · exact hs

/-- A new process reports as stopped what does not run. -/
theorem stoppedDown_adoptExisting (h : Host) : h.adoptExisting.StoppedDown := by
  intro id hid c hc
  obtain ⟨t, ht, hstate⟩ := reports_iff.mp hid
  rw [← Dict.mem_entries_iff] at ht
  obtain ⟨⟨j, c'⟩, hmem, heq⟩ := List.mem_map.mp ht
  rw [Prod.mk.injEq] at heq
  obtain ⟨rfl, rfl⟩ := heq
  rw [Dict.mem_entries_iff] at hmem
  obtain rfl : c' = c := Option.some.inj (hmem.symm.trans hc)
  unfold adopted at hstate
  by_contra hrun
  simp [hrun] at hstate

/-- **The allowed moves report nothing as stopped that runs.** -/
theorem stoppedDown_move {hfToken : Bool} (h : Host) (e : HostEvent) (hs : h.StoppedDown)
    (hok : StopsOk h e) : (h.move hfToken e).StoppedDown := by
  cases e with
  | reconcile commands =>
    refine hs.of_sub (fun j hj => ?_) fun j hj c hc => hj c ?_
    · rw [reports_iff, move, reconcile_instances, ← reports_iff] at hj
      exact hj
    · rw [move, reconcile_containers] at hc
      exact hc
  | apply o =>
    rcases move_apply_cases hfToken h o with heq | ⟨c, rest, hb, heq⟩
    · rw [heq]
      exact hs
    · rw [heq]
      exact @stoppedDown_applyCommand hfToken o h c hs (hok c (by simp [hb]))
  | finish o =>
    rcases move_finish_cases hfToken h o with heq | ⟨-, heq⟩
    · rw [heq]
      exact hs
    · rw [heq]
      -- the sweep only takes containers away
      refine hs.of_sub (fun j hj => ?_) fun j hj c hc => ?_
      · rw [reports_iff, endBatch_instances, ← reports_iff] at hj
        exact hj
      · rw [endBatch_containers] at hc
        exact hj c (get?_sweep_subset hc)
  | inspect id =>
    show (h.inspect id).StoppedDown
    unfold inspect
    split
    · exact stoppedDown_modify hs rfl rfl fun t => by simp
    · exact hs
  | ready id => exact stoppedDown_probeResult hs id true
  | deadline id => exact stoppedDown_probeResult hs id false
  | exit id =>
    refine hs.of_sub (fun j hj => hj) fun j hj c hc => ?_
    change (h.containers.modify id _).get? j = some c at hc
    rw [Dict.get?_modify] at hc
    split at hc
    · obtain ⟨k, -, rfl⟩ := Option.map_eq_some_iff.mp hc
      rfl
    · exact hj c hc
  | crash =>
    -- an empty registry reports nothing
    intro id hid
    obtain ⟨t, ht, -⟩ := reports_iff.mp hid
    cases ht
  | restart listOk =>
    show (h.restart listOk).StoppedDown
    unfold restart
    split
    · exact stoppedDown_adoptExisting h
    · intro id hid
      obtain ⟨t, ht, -⟩ := reports_iff.mp hid
      cases ht

end Host

/-! ### Every run -/

/-- **When stopped means not running.**  In every run of a worker process on a host with
any containers, in which a stop goes through where a container runs and a sweep gets to
every container that runs untracked, every batch ends with nothing running that is reported
as stopped, and nothing running untracked. -/
theorem stopped_means_down (hfToken : Bool) (cs : Dict Uuid Container) (as : List HostEvent)
    (o : SweepOutcome)
    (hok : Conforms (Host.move hfToken) StopsOk { containers := cs } (as ++ [.finish o]))
    (hb : (exec (Host.move hfToken) { containers := cs } as).batch = some []) :
    (exec (Host.move hfToken) { containers := cs } (as ++ [.finish o])).Settled := by
  have hinit : ({ containers := cs } : Host).StoppedDown := by
    intro id hid
    obtain ⟨t, ht, -⟩ := Host.reports_iff.mp hid
    cases ht
  have hstopped := invariant_of_conforms Host.StoppedDown Host.stoppedDown_move _ _ hinit hok
  refine ⟨hstopped, ?_⟩
  rw [conforms_append] at hok
  have hsweep := hok.2.1 hb
  rw [exec_append]
  set h := exec (Host.move hfToken) { containers := cs } as
  have hend : exec (Host.move hfToken) h [.finish o] = h.endBatch o := by
    show h.move hfToken (.finish o) = _
    unfold Host.move
    simp only [hb]
  rw [hend]
  intro id c hc hrun
  rw [Host.endBatch_containers] at hc
  rw [Host.endBatch_instances]
  have htracked := (Host.runningTracked_sweep_iff h o).mpr hsweep id c hc hrun
  rw [Host.sweep_instances] at htracked
  exact htracked

/-- The instance `3` is started, and stopped by the next batch. -/
def stopBatch (o : CallOutcome) : List HostEvent :=
  [.reconcile [sampleStart 1], .apply {}, .finish {}, .reconcile [⟨3, .stop, 0, none⟩], .apply o]

/-- It is reported as stopped, and does not run. -/
theorem stopped_means_down_sample :
    (exec (Host.move false) {} (stopBatch {} ++ [.finish {}])).reports 3 .stopped ∧
      (exec (Host.move false) {} (stopBatch {} ++ [.finish {}])).Settled := by
  refine ⟨by decide +kernel, stopped_means_down false Dict.empty (stopBatch {}) {} ?_ rfl⟩
  have hsweep : ∀ h : Host, h.SweepsAll {} := fun h _ _ _ _ _ _ => ⟨rfl, fun _ _ _ => rfl⟩
  exact ⟨trivial, fun _ _ _ _ => Or.inl rfl, fun _ => hsweep _, trivial,
    fun _ _ _ _ => Or.inl rfl, fun _ => hsweep _, trivial⟩

/-- **A stop that Docker refuses is reported as stopped** while the container runs on. -/
theorem swallowed_stop_runs :
    ¬ ∀ (hfToken : Bool) (cs : Dict Uuid Container) (as : List HostEvent) (o : SweepOutcome),
      (exec (Host.move hfToken) { containers := cs } as).batch = some [] →
        (exec (Host.move hfToken) { containers := cs } (as ++ [.finish o])).Settled := by
  intro h
  have hsettled := h false Dict.empty (stopBatch { stopOk := false }) {} (by decide +kernel)
  have hrun : (((exec (Host.move false) { containers := Dict.empty }
      (stopBatch { stopOk := false } ++ [.finish {}])).containers.get? 3).map (·.running)) =
      some true := by decide +kernel
  obtain ⟨c, hc, hrun⟩ := Option.map_eq_some_iff.mp hrun
  have hdown := hsettled.stopped 3 (by decide +kernel) c hc
  rw [hrun] at hdown
  cases hdown

end Inferna
