import Inferna.Agreement
import Inferna.Listing

/-!
# An instance comes up

A row that is to run is started by the next Sync of its worker, unless the worker has its
generation already.  When Docker and the engine do their part, the probe of the new
container is answered, and the Sync after that writes `running` to the row.

The server never asks again for a generation that the worker has, in whatever state: an
instance that failed stays failed until a restart gives it a new generation.

## Main definitions

* `GoesThrough`, `FairMove` — Docker and the engine do their part.
* `Attended`, `OnTheWay` — what carries a start through a batch.
* `Accounted` — an entry has failed, stopped or runs, or it is starting and attended.
* `Wanted`, `Stuck` — a row wants the instance at a generation; the worker has the
  generation, it is not up, and nobody watches it.
* `FairRound` — a Sync against any tables that want the instance, and a batch with all its
  probes answered.

## Main results

* `onTheWay_move` — a fair move keeps a start on its way.
* `accounted_move`, `stuck_iff_failed` — to be stuck is to have failed.
* `running_round` — **an instance that is not stuck runs at the end of a fair round.**
* `stuck_round` — a stuck instance stays stuck, whatever Docker does.
* `fair_rounds_serve` — **after any number of fair rounds the row reads `running` exactly if
  the instance was not stuck before them.**
-/

namespace Inferna

open Run

/-! ### Docker and the engine do their part -/

/-- The calls of a start succeed, and the worker has the token that the model asks for. -/
structure GoesThrough (hfToken : Bool) (o : CallOutcome) (h : Host) (id : Uuid)
    (config : EngineConfig) : Prop where
  token : config.requiresHfToken = true → hfToken = true
  pull : config.engine ∈ h.pulledImages ∨ o.pullOk = true ∧ o.pullTimeout = false
  create : o.createOk = true
  name : h.nameFree id o.removeOk = true
  start : o.startOk = true

/-- A move of the round in which nothing goes wrong: starts go through, a probe finds its
container up and gets its answer in time. -/
def FairMove (hfToken : Bool) (h : Host) : HostEvent → Prop
  | .apply o => ∀ c ∈ h.batch.bind (·.head?), ∀ config ∈ c.config, c.action = .start →
      GoesThrough hfToken o h c.instanceId config
  | .inspect id => ∀ c ∈ h.containers.get? id, c.running = true
  | .finish _ | .ready _ | .exit _ => True
  | .deadline _ | .reconcile _ | .crash | .restart _ => False

instance (hfToken : Bool) (o : CallOutcome) (h : Host) (id : Uuid) (config : EngineConfig) :
    Decidable (GoesThrough hfToken o h id config) :=
  decidable_of_iff ((config.requiresHfToken = true → hfToken = true) ∧
      (config.engine ∈ h.pulledImages ∨ o.pullOk = true ∧ o.pullTimeout = false) ∧
      o.createOk = true ∧ h.nameFree id o.removeOk = true ∧ o.startOk = true)
    ⟨fun ⟨htoken, hpull, hcreate, hname, hstart⟩ => ⟨htoken, hpull, hcreate, hname, hstart⟩,
      fun hgo => ⟨hgo.token, hgo.pull, hgo.create, hgo.name, hgo.start⟩⟩

instance (hfToken : Bool) (h : Host) : ∀ e, Decidable (FairMove hfToken h e)
  | .apply o => inferInstanceAs (Decidable (∀ c ∈ h.batch.bind (·.head?), ∀ config ∈ c.config,
      c.action = .start → GoesThrough hfToken o h c.instanceId config))
  | .inspect id =>
    inferInstanceAs (Decidable (∀ c ∈ h.containers.get? id, c.running = true))
  | .finish _ | .ready _ | .exit _ => isTrue trivial
  | .deadline _ | .reconcile _ | .crash | .restart _ => isFalse id

theorem FairMove.roundEvent {hfToken : Bool} {h : Host} {e : HostEvent}
    (hfair : FairMove hfToken h e) : RoundEvent e := by
  cases e with
  | reconcile | crash | restart => exact hfair.elim
  | _ => trivial

/-- The probe of a start has something to ask: a port, or a follower's container. -/
def EngineConfig.Probed (config : EngineConfig) : Prop :=
  0 < config.port ∨ 0 < config.rank.getD 0

/-- **A start that nothing hinders goes through.** -/
theorem started_of_goesThrough {hfToken : Bool} {o : CallOutcome} {h : Host} {c : Command} {g : ℕ}
    {config : EngineConfig} (happ : alreadyApplied (h.instances.get? c.instanceId) g = false)
    (hgo : GoesThrough hfToken o h c.instanceId config) :
    h.Started (h.startSync hfToken (h.outcomeOn o c) c.instanceId g config) c.instanceId g
      config := by
  set d : StartOutcome := h.outcomeOn o c
  set h₁ := (h.removeOld c.instanceId d.removeOk).cancelProbe c.instanceId
  have hpulled : h₁.pulledImages = h.pulledImages :=
    (Host.removeOld_spec h c.instanceId d.removeOk).2.2.2.1
  -- none of the calls fails, so the entry is not an error
  have hentry : ((h.startSync hfToken d c.instanceId g config).instances.get? c.instanceId).map
      (·.state) = some .starting := by
    have htoken : ¬ (config.requiresHfToken = true ∧ ¬ hfToken = true) :=
      fun hno => hno.2 (hgo.token hno.1)
    have htimeout : ¬ (config.engine ∉ h₁.pulledImages ∧ d.pullTimeout = true) := by
      rintro ⟨hno, ht⟩
      rw [hpulled] at hno
      have hok : d.pullTimeout = false := (hgo.pull.resolve_left hno).2
      rw [hok] at ht
      cases ht
    have hpull : ¬ (config.engine ∉ h₁.pulledImages ∧ ¬ d.pullOk = true) := by
      rintro ⟨hno, hf⟩
      rw [hpulled] at hno
      exact hf (hgo.pull.resolve_left hno).1
    have hstart : d.startOk = true := hgo.start
    have hcreate : d.createOk = true := by
      show (o.createOk && h.nameFree c.instanceId o.removeOk) = true
      rw [hgo.create, hgo.name]
      rfl
    unfold Host.startSync
    simp only [happ, Bool.false_eq_true, if_false]
    rw [if_neg htoken, if_neg htimeout, if_neg hpull, if_pos hcreate]
    unfold Host.launch
    simp only
    rw [if_pos hstart, Dict.get?_set_self]
    rfl
  rcases Host.startSync_cases hfToken d h c.instanceId g config with
    ⟨happ', -⟩ | ⟨-, ⟨hfail, -⟩ | ⟨hfail, -⟩ | hstart⟩
  · rw [happ] at happ'
    cases happ'
  · obtain ⟨port, detail, hset⟩ := hfail.entry
    rw [hset, Dict.get?_set_self] at hentry
    cases hentry
  · obtain ⟨port, detail, hset⟩ := hfail.entry
    rw [hset, Dict.get?_set_self] at hentry
    cases hentry
  · exact hstart

/-! ### On the way up -/

/-- The probe of the entry runs, or will be scheduled at the end of the batch. -/
def Attended (h : Host) (id : Uuid) (t : Tracked) : Prop :=
  id ∈ h.probeTasks ∨
    ∃ port, (id, port) ∈ h.pendingProbes ∧ (0 < t.nodeRank.getD 0 ∨ 0 < port)

/-- What carries a start through a batch: its command is still due, and would not find its
generation starting; or the entry is there and is running or attended. -/
inductive OnTheWay (id : Uuid) (g : ℕ) (h : Host) : Prop
  | due (hdue : ∃ c ∈ h.batch.getD [], c.instanceId = id)
      (hentry : ∀ t, h.instances.get? id = some t → t.generation < g ∨ t.state ≠ .starting)
  | entered (t : Tracked) (ht : h.instances.get? id = some t) (hle : g ≤ t.generation)
      (hstate : t.state ≠ .stopped) (hup : t.state = .running ∨ Attended h id t)

/-- A command of another instance cancels no probe of this one. -/
theorem probes_applyCommand_other {hfToken : Bool} {o : CallOutcome} {h : Host} {c : Command}
    {id : Uuid} (hid : c.instanceId ≠ id) (hmem : id ∈ h.probeTasks) :
    id ∈ (h.applyCommand hfToken o c).probeTasks := by
  have hkept : id ∈ h.probeTasks.filter (· ≠ c.instanceId) :=
    List.mem_filter.mpr ⟨hmem, decide_eq_true hid.symm⟩
  unfold Host.applyCommand Host.applyDockerCommand
  split
  · rename_i config _ _
    rcases Host.startSync_cases hfToken (h.outcomeOn o c) h c.instanceId c.generation config with
      ⟨-, heq⟩ | ⟨-, ⟨-, -, heq⟩ | ⟨-, -, heq⟩ | hstart⟩
    · rw [heq]
      exact hmem
    · rw [heq]
      exact hmem
    · rw [heq]
      exact hkept
    · rw [hstart.probeTasks]
      exact hkept
  · exact hmem
  · exact hkept
  · exact hkept

/-- A command of another instance leaves the probes of this one alone. -/
theorem Attended.apply_other {hfToken : Bool} {o : CallOutcome} {h : Host} {c : Command}
    {id : Uuid} {t : Tracked} (hid : c.instanceId ≠ id) (hatt : Attended h id t) :
    Attended (h.applyCommand hfToken o c) id t := by
  rcases hatt with hmem | ⟨port, hp, hpos⟩
  · exact Or.inl (probes_applyCommand_other hid hmem)
  · refine Or.inr ⟨port, ?_, hpos⟩
    rcases pendingProbes_applyCommand hfToken o h c with heq | ⟨-, _, heq⟩
    · exact heq ▸ hp
    · exact heq ▸ List.mem_append_left _ hp

/-- The end of a batch schedules the probe of an attended entry. -/
theorem Attended.finish {h : Host} {id : Uuid} {t : Tracked} (ht : h.instances.get? id = some t)
    (hatt : Attended h id t) (o : SweepOutcome) : id ∈ (h.endBatch o).probeTasks := by
  have hsweep : (h.sweep o).probeTasks = h.probeTasks ∧
      (h.sweep o).pendingProbes = h.pendingProbes := by
    unfold Host.sweep
    split <;> exact ⟨rfl, rfl⟩
  have hsched : (h.endBatch o).probeTasks = ((h.sweep o).scheduleProbes).probeTasks := by
    unfold Host.endBatch
    simp only
    split <;> rfl
  rw [hsched, Host.scheduleProbes, List.mem_append, hsweep.1, hsweep.2]
  refine hatt.imp_right ?_
  rintro ⟨port, hp, hpos⟩
  have hrank : (h.sweep o).rankOf id = t.nodeRank.getD 0 := by
    unfold Host.rankOf
    rw [Host.sweep_instances, ht]
    rfl
  exact List.mem_map.mpr ⟨(id, port), List.mem_filter.mpr ⟨hp, by simpa [hrank] using hpos⟩, rfl⟩

theorem OnTheWay.apply_other {hfToken : Bool} {o : CallOutcome} {h : Host} {c : Command}
    {rest : List Command} {id : Uuid} {g : ℕ} (hb : h.batch = some (c :: rest))
    (hid : c.instanceId ≠ id) (hway : OnTheWay id g h) :
    OnTheWay id g { h.applyCommand hfToken o c with batch := some rest } := by
  have hentry := (@entry_applyCommand hfToken o h c id hid).1
  cases hway with
  | due hdue hno =>
    obtain ⟨d, hd, hdid⟩ := hdue
    rw [hb] at hd
    refine .due ⟨d, ?_, hdid⟩ fun t ht => hno t (hentry ▸ ht)
    exact (List.mem_cons.mp hd).resolve_left fun heq => hid (heq ▸ hdid)
  | entered t ht hle hstate hup =>
    exact .entered t (hentry.trans ht) hle hstate (hup.imp_right (Attended.apply_other hid))

/-- **The command of the instance is applied**: it is running under its generation, or it is
started and a probe is to be scheduled. -/
theorem OnTheWay.apply_self {hfToken : Bool} {o : CallOutcome} {h : Host} {id : Uuid} {g : ℕ}
    {config : EngineConfig} (hprobed : config.Probed) (hgo : GoesThrough hfToken o h id config)
    (hway : OnTheWay id g h) (b : Option (List Command)) :
    OnTheWay id g
      { h.applyCommand hfToken o ⟨id, .start, g, some config⟩ with batch := b } := by
  change OnTheWay id g { h.startSync hfToken (h.outcomeOn o ⟨id, .start, g, some config⟩) id g
    config with batch := b }
  cases happ : alreadyApplied (h.instances.get? id) g with
  | true =>
    have hsame : h.startSync hfToken (h.outcomeOn o ⟨id, .start, g, some config⟩) id g config =
        h := by
      unfold Host.startSync
      rw [if_pos happ]
    rw [hsame]
    obtain ⟨t, ht, hup⟩ := Option.any_eq_true _ _ |>.mp happ
    rw [decide_eq_true_eq] at hup
    cases hway with
    | due hdue hno =>
      -- the entry has the generation, so it is not starting
      have hrun : t.state = .running :=
        hup.1.resolve_left ((hno t ht).resolve_left hup.2.not_gt)
      exact .entered t ht hup.2 (by rw [hrun]; simp) (Or.inl hrun)
    | entered t' ht' hle hstate hup' => exact .entered t' ht' hle hstate hup'
  | false =>
    have hstart := started_of_goesThrough (c := ⟨id, .start, g, some config⟩) happ hgo
    refine .entered ⟨.starting, config.port, g, config.rank, ""⟩ ?_ le_rfl (by simp) ?_
    · show (h.startSync hfToken _ id g config).instances.get? id = _
      rw [hstart.instances, Dict.get?_set_self]
    · refine Or.inr (Or.inr ⟨config.port, ?_, hprobed.symm⟩)
      show _ ∈ (h.startSync hfToken _ id g config).pendingProbes
      rw [hstart.pendingProbes]
      exact List.mem_append_right _ (List.mem_singleton_self _)

/-- The end of a batch schedules the probes. -/
theorem OnTheWay.finish {h : Host} {id : Uuid} {g : ℕ} (hb : h.batch = some [])
    (hway : OnTheWay id g h) (o : SweepOutcome) : OnTheWay id g (h.endBatch o) := by
  cases hway with
  | due hdue _ =>
    obtain ⟨c, hc, -⟩ := hdue
    rw [hb] at hc
    exact absurd hc List.not_mem_nil
  | entered t ht hle hstate hup =>
    have hentry : (h.endBatch o).instances.get? id = some t := by
      rw [Host.endBatch_instances]
      exact ht
    exact .entered t hentry hle hstate (hup.imp_right fun hatt => Or.inl (hatt.finish ht o))

/-- An answer to a probe makes its instance run, and is nothing to the others. -/
theorem OnTheWay.ready {h : Host} {id : Uuid} {g : ℕ} (hway : OnTheWay id g h) (j : Uuid) :
    OnTheWay id g (h.probeResult j true) := by
  unfold Host.probeResult
  split
  · rename_i hj
    by_cases hid : j = id
    · subst hid
      have hget : ∀ u, h.instances.get? j = some u →
          (h.instances.modify j fun t => { t with state := .running, detail := "" }).get? j =
            some { u with state := .running, detail := "" } := by
        intro u hu
        rw [Dict.get?_modify, if_pos rfl, hu]
        rfl
      cases hway with
      | due hdue hno =>
        refine .due hdue fun t ht => Or.inr ?_
        change (h.instances.modify j _).get? j = some t at ht
        rw [Dict.get?_modify, if_pos rfl] at ht
        obtain ⟨u, -, rfl⟩ := Option.map_eq_some_iff.mp ht
        simp
      | entered t ht hle _ _ =>
        exact .entered _ (hget t ht) hle (by simp) (Or.inl rfl)
    · have hget : (h.instances.modify j fun t => { t with state := .running, detail := "" }).get? id
          = h.instances.get? id := Dict.get?_modify_of_ne _ _ hid
      cases hway with
      | due hdue hno => exact .due hdue fun t ht => hno t (hget ▸ ht)
      | entered t ht hle hstate hup =>
        refine .entered t (hget.trans ht) hle hstate (hup.imp_right ?_)
        exact Or.imp_left fun hmem =>
          List.mem_filter.mpr ⟨hmem, decide_eq_true fun heq => hid heq.symm⟩
  · exact hway

/-- Outside a batch no probe waits to be scheduled. -/
def Idle (h : Host) : Prop := h.batch = none → h.pendingProbes = []

theorem idle_move {hfToken : Bool} {h : Host} {e : HostEvent} (he : RoundEvent e) (hidle : Idle h) :
    Idle (h.move hfToken e) := by
  cases e with
  | reconcile | crash | restart => exact he.elim
  | apply o =>
    rcases Host.move_apply_cases hfToken h o with heq | ⟨c, rest, -, heq⟩
    · rw [heq]
      exact hidle
    · rw [heq]
      intro hnone
      cases hnone
  | finish o =>
    rcases Host.move_finish_cases hfToken h o with heq | ⟨-, heq⟩
    · rw [heq]
      exact hidle
    · rw [heq]
      exact fun _ => (endBatch_queue o h).2.1
  | inspect j =>
    obtain ⟨hb, -, hp⟩ := inspect_queue h j
    exact fun hnone => hp.trans (hidle (hb.symm.trans hnone))
  | ready j =>
    obtain ⟨hb, -, hp⟩ := probeResult_queue h j true
    exact fun hnone => hp.trans (hidle (hb.symm.trans hnone))
  | deadline j =>
    obtain ⟨hb, -, hp⟩ := probeResult_queue h j false
    exact fun hnone => hp.trans (hidle (hb.symm.trans hnone))
  | exit j => exact hidle

/-- **A fair move keeps a start on its way.** -/
theorem onTheWay_move {hfToken : Bool} {commands : List Command} {id : Uuid} {g : ℕ}
    (hall : ∀ c ∈ commands, c.instanceId = id → ∃ config : EngineConfig, config.Probed ∧
      c = ⟨id, .start, g, some config⟩)
    {h : Host} {e : HostEvent} (hround : RoundInv commands h) (hway : OnTheWay id g h)
    (hfair : FairMove hfToken h e) : OnTheWay id g (h.move hfToken e) := by
  cases e with
  | reconcile | crash | restart => exact hfair.elim
  | apply o =>
    rcases Host.move_apply_cases hfToken h o with heq | ⟨c, rest, hb, heq⟩
    · rw [heq]
      exact hway
    · rw [heq]
      by_cases hid : c.instanceId = id
      · have hmem : c ∈ commands := hround.batch c (by rw [hb]; exact List.mem_cons_self)
        obtain ⟨config, hprobed, rfl⟩ := hall c hmem hid
        exact hway.apply_self hprobed (hfair _ (by rw [hb]; rfl) config rfl rfl) (some rest)
      · exact hway.apply_other hb hid
  | finish o =>
    rcases Host.move_finish_cases hfToken h o with heq | ⟨hb, heq⟩
    · rw [heq]
      exact hway
    · rw [heq]
      exact hway.finish hb o
  | inspect j =>
    -- the container that is looked at runs
    have hsame : h.inspect j = h := by
      unfold Host.inspect
      rw [if_neg]
      rintro ⟨-, hexited⟩
      obtain ⟨c, hc, hdown⟩ := Option.any_eq_true _ _ |>.mp hexited
      rw [hfair c hc] at hdown
      cases hdown
    show OnTheWay id g (h.inspect j)
    rw [hsame]
    exact hway
  | ready j => exact hway.ready j
  | deadline j => exact hfair.elim
  | exit j =>
    cases hway with
    | due hdue hno => exact .due hdue hno
    | entered t ht hle hstate hup => exact .entered t ht hle hstate hup

/-! ### What a worker tracks -/

/-- An entry has failed, stopped or runs, or it is starting and attended, if its start had
something to probe. -/
def Accounted (h : Host) : Prop :=
  ∀ id t, h.instances.get? id = some t → t.state = .error ∨ t.state = .stopped ∨
    t.state = .running ∨ t.state = .starting ∧
      (0 < t.port ∨ 0 < t.nodeRank.getD 0 → Attended h id t)

theorem accounted_apply {hfToken : Bool} {h : Host} (hacc : Accounted h) (o : CallOutcome)
    (c : Command) (b : Option (List Command)) :
    Accounted { h.applyCommand hfToken o c with batch := b } := by
  intro id t ht
  change (h.applyCommand hfToken o c).instances.get? id = some t at ht
  by_cases hid : c.instanceId = id
  · subst hid
    unfold Host.applyCommand Host.applyDockerCommand at ht
    split at ht
    · rename_i config haction hconfig
      rcases Host.startSync_cases hfToken (h.outcomeOn o c) h c.instanceId c.generation config with
        ⟨happ, heq⟩ | ⟨-, ⟨hfail, -⟩ | ⟨hfail, -⟩ | hstart⟩
      · have hsame : h.applyCommand hfToken o c = h := by
          unfold Host.applyCommand Host.applyDockerCommand
          rw [haction, hconfig]
          exact heq
        rw [heq] at ht
        rw [hsame]
        exact hacc _ t ht
      · obtain ⟨port, detail, hset⟩ := hfail.entry
        rw [hset, Dict.get?_set_self, Option.some.injEq] at ht
        exact Or.inl (by rw [← ht])
      · obtain ⟨port, detail, hset⟩ := hfail.entry
        rw [hset, Dict.get?_set_self, Option.some.injEq] at ht
        exact Or.inl (by rw [← ht])
      · rw [hstart.instances, Dict.get?_set_self, Option.some.injEq] at ht
        subst ht
        refine Or.inr (Or.inr (Or.inr ⟨rfl, fun hpos => Or.inr ⟨config.port, ?_, hpos.symm⟩⟩))
        show _ ∈ (h.applyCommand hfToken o c).pendingProbes
        unfold Host.applyCommand Host.applyDockerCommand
        rw [haction, hconfig]
        show _ ∈ (h.startSync hfToken _ c.instanceId c.generation config).pendingProbes
        rw [hstart.pendingProbes]
        exact List.mem_append_right _ (List.mem_singleton_self _)
    · rw [Dict.get?_set_self, Option.some.injEq] at ht
      exact Or.inl (by rw [← ht])
    · have hrep : (h.stopSync o.stopOk c.instanceId).reports c.instanceId t.state :=
        Host.reports_iff.mpr ⟨t, ht, rfl⟩
      exact Or.inr (Or.inl (Host.eq_stopped_of_reports_stopSync hrep))
    · exact absurd (Host.reports_iff.mpr ⟨t, ht, rfl⟩) Host.not_reports_deleteSync
  · rw [(entry_applyCommand hid).1] at ht
    have hkept : Attended h id t → Attended { h.applyCommand hfToken o c with batch := b } id t :=
      Attended.apply_other hid
    exact (hacc id t ht).imp_right (.imp_right (.imp_right (.imp_right fun hatt hpos =>
      hkept (hatt hpos))))

/-- A probe that ends settles its own entry. -/
theorem accounted_probe {h : Host} (hacc : Accounted h) {j : Uuid} {f : Tracked → Tracked}
    (hf : ∀ t, (f t).state = .error ∨ (f t).state = .running) :
    Accounted { h.cancelProbe j with instances := h.instances.modify j f } := by
  intro id t ht
  change (h.instances.modify j f).get? id = some t at ht
  rw [Dict.get?_modify] at ht
  split at ht
  · obtain ⟨u, -, rfl⟩ := Option.map_eq_some_iff.mp ht
    exact (hf u).imp_right fun hrun => Or.inr (Or.inl hrun)
  · rename_i hid
    refine (hacc id t ht).imp_right (.imp_right (.imp_right (.imp_right fun hatt hpos => ?_)))
    exact (hatt hpos).imp_left fun hmem =>
      List.mem_filter.mpr ⟨hmem, decide_eq_true fun heq => hid heq.symm⟩

/-- **A worker accounts for what it tracks**, whatever happens to it. -/
theorem accounted_move (hfToken : Bool) (h : Host) (e : HostEvent) (hacc : Accounted h) :
    Accounted (h.move hfToken e) := by
  cases e with
  | reconcile cs =>
    intro id t ht
    change (h.reconcile cs).instances.get? id = some t at ht
    rw [Host.reconcile_instances] at ht
    show _ ∨ _ ∨ _ ∨ _ ∧ (_ → Attended (h.reconcile cs) id t)
    unfold Attended
    rw [Host.reconcile_probeTasks, Host.reconcile_pendingProbes]
    exact hacc id t ht
  | apply o =>
    rcases Host.move_apply_cases hfToken h o with heq | ⟨c, rest, -, heq⟩
    · rw [heq]
      exact hacc
    · rw [heq]
      exact accounted_apply hacc o c (some rest)
  | finish o =>
    rcases Host.move_finish_cases hfToken h o with heq | ⟨-, heq⟩
    · rw [heq]
      exact hacc
    · rw [heq]
      intro id t ht
      rw [Host.endBatch_instances] at ht
      exact (hacc id t ht).imp_right (.imp_right (.imp_right (.imp_right fun hatt hpos =>
        Or.inl ((hatt hpos).finish ht o))))
  | inspect j =>
    show Accounted (h.inspect j)
    unfold Host.inspect
    split
    · exact accounted_probe hacc fun _ => Or.inl rfl
    · exact hacc
  | ready j =>
    show Accounted (h.probeResult j true)
    unfold Host.probeResult
    split
    · exact accounted_probe hacc fun _ => Or.inr rfl
    · exact hacc
  | deadline j =>
    show Accounted (h.probeResult j false)
    unfold Host.probeResult
    split
    · exact accounted_probe hacc fun _ => Or.inl rfl
    · exact hacc
  | exit j => exact hacc
  | crash =>
    intro id t ht
    cases ht
  | restart listOk =>
    show Accounted (h.restart listOk)
    unfold Host.restart
    split
    · -- an adopted entry runs or is stopped
      intro id t ht
      obtain ⟨e, -, he⟩ := List.mem_map.mp ((Dict.mem_entries_iff _ _ _).mpr ht)
      obtain rfl : Host.adopted e.2 = t := congrArg Prod.snd he
      unfold Host.adopted
      cases e.2.running <;> simp
    · intro id t ht
      cases ht

/-! ### Rows that want an instance -/

/-- A row of the worker wants the instance to run, at a generation, and a start of it has
something to probe. -/
def Wanted (db : Db) (w id : Uuid) (g : ℕ) : Prop :=
  ∃ i, RowOf db w i ∧ i.id = id ∧ i.desiredState = .running ∧ i.generation = g ∧
    (engineConfig db i).Probed

/-- The worker has the generation, it is neither running nor stopped, and nobody watches
it. -/
def Stuck (id : Uuid) (g : ℕ) (h : Host) : Prop :=
  id ∉ h.probeTasks ∧ ∃ t, h.instances.get? id = some t ∧ g ≤ t.generation ∧
    t.state ≠ .running ∧ t.state ≠ .stopped

/-- **To be stuck is to have failed**: on a worker that has come from a fresh process by any
moves and runs no batch, a start with something to probe is stuck only as an error that
nobody watches. -/
theorem stuck_iff_failed (hfToken : Bool) (containers : Dict Uuid Container)
    (es : List HostEvent) {h : Host}
    (hh : h = exec (Host.move hfToken) { containers := containers } es) (hq : Quiet h) {id : Uuid}
    {g : ℕ} (hprobed : ∀ t, h.instances.get? id = some t → 0 < t.port ∨ 0 < t.nodeRank.getD 0) :
    Stuck id g h ↔ id ∉ h.probeTasks ∧
      ∃ t, h.instances.get? id = some t ∧ g ≤ t.generation ∧ t.state = .error := by
  have hacc : Accounted h := by
    rw [hh]
    exact invariant _ (fun h e => accounted_move hfToken h e) es _ fun id t ht => by cases ht
  refine and_congr_right fun hmem => exists_congr fun t => and_congr_right fun ht =>
    and_congr_right fun _ => ⟨?_, fun herr => by rw [herr]; simp⟩
  rintro ⟨hrun, hstop⟩
  rcases hacc id t ht with herr | hs | hs | ⟨-, hatt⟩
  · exact herr
  · exact absurd hs hstop
  · exact absurd hs hrun
  · -- a starting entry is attended, and without a batch that is a running probe
    rcases hatt (hprobed t ht) with hwatched | ⟨port, hp, -⟩
    · exact absurd hwatched hmem
    · rw [hq.pendingProbes] at hp
      exact absurd hp List.not_mem_nil

/-- The rank in a start depends on nothing that a report writes. -/
theorem engineConfig_rank (db : Db) (i : Instance) : (engineConfig db i).rank =
    if i.parallelGroupId.isSome ∧ i.rendezvous.isSome ∧ i.parallelMode.getD .single ≠ .single then
      some (i.nodeRank.getD 0)
    else none := by
  unfold engineConfig applyParallelism EngineConfig.rank EngineConfig.isMultiNode
  simp only
  cases i.parallelGroupId <;> cases i.rendezvous <;> simp

theorem probed_applyStatuses {db db' : Db} {req : SyncRequest} {w : Uuid} {i : Instance}
    (h : (engineConfig db i).Probed) : (engineConfig db' (applyStatuses req w i)).Probed := by
  unfold EngineConfig.Probed at h ⊢
  rw [engineConfig_port, engineConfig_rank] at h ⊢
  rw [applyStatuses_keeps (·.parallelGroupId) (fun _ _ => rfl) req w i,
    applyStatuses_keeps (·.rendezvous) (fun _ _ => rfl) req w i,
    applyStatuses_keeps (·.parallelMode) (fun _ _ => rfl) req w i,
    applyStatuses_keeps (·.nodeRank) (fun _ _ => rfl) req w i]
  refine h.imp_left fun hport => ?_
  -- a report writes a port, or leaves the one that is there
  have hfold : ∀ (sts : List InstanceStatus) (j : Instance), 0 < j.port.getD 0 →
      0 < (sts.foldl applyStatus j).port.getD 0 := by
    intro sts
    induction sts with
    | nil => exact fun j hj => hj
    | cons st sts ih =>
      refine fun j hj => ih _ ?_
      show 0 < (if st.port = 0 then j.port else some st.port).getD 0
      split
      · exact hj
      · rename_i hne
        exact Nat.pos_of_ne_zero hne
  unfold applyStatuses
  split
  · exact hfold _ i hport
  · exact hport

/-- A Sync leaves the wish as it is. -/
theorem Wanted.storeReports {db : Db} {w id : Uuid} {g : ℕ} (h : Wanted db w id g)
    (req : SyncRequest) (now : ℕ) : Wanted (storeReports db req w now) w id g := by
  obtain ⟨i, hi, hid, hdes, hgen, hprobed⟩ := h
  obtain ⟨hid', hdes', hgen'⟩ := applyStatuses_wants req w i
  exact ⟨applyStatuses req w i, rowOf_storeReports.mpr ⟨i, hi, rfl⟩, hid'.trans hid,
    hdes'.trans hdes, hgen'.trans hgen, probed_applyStatuses hprobed⟩

/-! ### A round -/

section Round

variable {sha256Hex : String → String} {hfToken : Bool} {db db' : Db} {req : SyncRequest}
  {w id : Uuid} {g now : ℕ} {commands : List Command} {h : Host} {as : List HostEvent}

/-- **What a Sync answers about a wanted instance**: a start at the generation of the row, if
the worker has not got it or has stopped it. -/
theorem commands_of_wanted (hids : (db.instances.map (·.id)).Nodup) (hreq : req.workerId = some w)
    (hwant : Wanted db w id g)
    (hsync : syncWorker sha256Hex db (req.sentBy h) now = .ok (db', commands)) :
    (∀ c ∈ commands, c.instanceId = id → ∃ config : EngineConfig, config.Probed ∧
      c = ⟨id, .start, g, some config⟩) ∧
    ((∃ c ∈ commands, c.instanceId = id) ↔
      ∀ t, h.instances.get? id = some t → t.generation < g ∨ t.state = .stopped) := by
  obtain ⟨rfl, hcommands, -⟩ := sync_spec hreq hsync
  obtain ⟨i, hi, rfl, hdes, rfl, hprobed⟩ := hwant.storeReports (req.sentBy h) now
  have hids' : ((storeReports db (req.sentBy h) w now).instances.map (·.id)).Nodup :=
    nodup_storeReports hids (req.sentBy h)
  subst hcommands
  have hrow : ∀ c ∈ buildCommands (storeReports db (req.sentBy h) w now) (req.sentBy h) w,
      c.instanceId = i.id → NeedsStart h i ∧ c = ⟨i.id, .start, i.generation,
        some (engineConfig (storeReports db (req.sentBy h) w now) i)⟩ := by
    intro c hc hid
    have hrow := command_of_row hids' hi hc hid
    rw [rowCommand_sentBy, hdes] at hrow
    rcases hrow with ⟨-, hneeds, hc⟩ | ⟨hdes', -⟩
    · exact ⟨hneeds, hc⟩
    · cases hdes'
  refine ⟨fun c hc hid => ⟨_, hprobed, (hrow c hc hid).2⟩, ?_, fun hneeds => ?_⟩
  · rintro ⟨c, hc, hid⟩
    exact (hrow c hc hid).1
  · have hsent := (rowCommand_sentBy (storeReports db (req.sentBy h) w now) req h i _).mpr
      (Or.inl ⟨hdes, hneeds, rfl⟩)
    exact ⟨_, command_cases.mpr (Or.inl ⟨i, hi, hsent⟩), rfl⟩

/-- A round starts and ends with nothing in the queue. -/
theorem quiet_round (hq : Quiet h)
    (has : Conforms (Host.move hfToken) (fun _ e => RoundEvent e) (h.reconcile commands) as)
    (hend : (exec (Host.move hfToken) (h.reconcile commands) as).batch = none) :
    Quiet (exec (Host.move hfToken) (h.reconcile commands) as) := by
  have hstep : ∀ h e, RoundInv commands h ∧ Idle h → RoundEvent e →
      RoundInv commands (h.move hfToken e) ∧ Idle (h.move hfToken e) :=
    fun h e hinv he => ⟨roundInv_move he hinv.1, idle_move he hinv.2⟩
  have hstart : Idle (h.reconcile commands) := by
    intro _
    rw [Host.reconcile_pendingProbes]
    exact hq.pendingProbes
  obtain ⟨hround, hidle⟩ := invariant_of_conforms _ hstep as _
    ⟨roundInv_reconcile hq commands, hstart⟩ has
  exact ⟨hend, hround.pending, hidle hend⟩

/-- **An instance that is wanted and not stuck runs at the end of a fair round.** -/
theorem running_round (hids : (db.instances.map (·.id)).Nodup) (hreq : req.workerId = some w)
    (hwant : Wanted db w id g)
    (hsync : syncWorker sha256Hex db (req.sentBy h) now = .ok (db', commands)) (hq : Quiet h)
    (hno : ¬ Stuck id g h)
    (has : Conforms (Host.move hfToken) (FairMove hfToken) (h.reconcile commands) as)
    (hend : (exec (Host.move hfToken) (h.reconcile commands) as).batch = none)
    (hprobes : (exec (Host.move hfToken) (h.reconcile commands) as).probeTasks = []) :
    ∃ t, (exec (Host.move hfToken) (h.reconcile commands) as).instances.get? id = some t ∧
      g ≤ t.generation ∧ t.state = .running := by
  obtain ⟨hall, hdue⟩ := commands_of_wanted hids hreq hwant hsync
  have hquiet := quiet_round hq (has.mono fun _ _ hfair => hfair.roundEvent) hend
  have hstart : OnTheWay id g (h.reconcile commands) := by
    by_cases hneeds : ∀ t, h.instances.get? id = some t → t.generation < g ∨ t.state = .stopped
    · refine .due (due_reconcile hq (hdue.mpr hneeds)) fun t ht => ?_
      rw [Host.reconcile_instances] at ht
      exact (hneeds t ht).imp_right fun hs => by rw [hs]; simp
    · push Not at hneeds
      obtain ⟨t, ht, hle, hstate⟩ := hneeds
      refine .entered t (by rw [Host.reconcile_instances]; exact ht) hle hstate ?_
      by_cases hmem : id ∈ h.probeTasks
      · exact Or.inr (Or.inl (by rw [Host.reconcile_probeTasks]; exact hmem))
      · -- nobody watches it, so it is running already
        by_contra hup
        exact hno ⟨hmem, t, ht, hle, fun hrun => hup (Or.inl hrun), hstate⟩
  have hstep : ∀ h e, RoundInv commands h ∧ OnTheWay id g h → FairMove hfToken h e →
      RoundInv commands (h.move hfToken e) ∧ OnTheWay id g (h.move hfToken e) :=
    fun h e hinv hfair =>
      ⟨roundInv_move hfair.roundEvent hinv.1, onTheWay_move hall hinv.1 hinv.2 hfair⟩
  obtain ⟨-, hway⟩ := invariant_of_conforms _ hstep as _ ⟨roundInv_reconcile hq commands, hstart⟩
    has
  cases hway with
  | due hdue _ =>
    obtain ⟨c, hc, -⟩ := hdue
    rw [hend] at hc
    exact absurd hc List.not_mem_nil
  | entered t ht hle _ hup =>
    refine ⟨t, ht, hle, hup.resolve_right ?_⟩
    rintro (hmem | ⟨port, hp, -⟩)
    · rw [hprobes] at hmem
      exact absurd hmem List.not_mem_nil
    · rw [hquiet.pendingProbes] at hp
      exact absurd hp List.not_mem_nil

/-- **A stuck instance stays stuck**, whatever Docker and the probes do. -/
theorem stuck_round (hids : (db.instances.map (·.id)).Nodup) (hreq : req.workerId = some w)
    (hwant : Wanted db w id g)
    (hsync : syncWorker sha256Hex db (req.sentBy h) now = .ok (db', commands)) (hq : Quiet h)
    (hstuck : Stuck id g h)
    (has : Conforms (Host.move hfToken) (fun _ e => RoundEvent e) (h.reconcile commands) as)
    (hend : (exec (Host.move hfToken) (h.reconcile commands) as).batch = none) :
    Stuck id g (exec (Host.move hfToken) (h.reconcile commands) as) := by
  obtain ⟨-, hdue⟩ := commands_of_wanted hids hreq hwant hsync
  -- the server does not ask for what the worker has
  have hnone : ∀ c ∈ commands, c.instanceId ≠ id := by
    intro c hc hid
    obtain ⟨-, t, ht, hle, hs⟩ := hstuck
    rcases hdue.mp ⟨c, hc, hid⟩ t ht with hlt | hstop
    · omega
    · exact hs.2 hstop
  have hother : ∀ (h : Host) (j : Uuid) (f : Tracked → Tracked), j ∈ h.probeTasks → Stuck id g h →
      Stuck id g { h.cancelProbe j with instances := h.instances.modify j f } := by
    rintro h j f hj ⟨hmem, t, ht, hle, hs⟩
    have hid : j ≠ id := fun heq => hmem (heq ▸ hj)
    refine ⟨fun hm => hmem (List.mem_of_mem_filter hm), t, ?_, hle, hs⟩
    exact (Dict.get?_modify_of_ne _ _ hid).trans ht
  have hstable : RoundStable hfToken commands id (Stuck id g) := by
    refine ⟨fun h b hgood => hgood, fun h o c hid hgood => ?_, fun h o hr hgood => ?_,
      fun h j hgood => ?_, fun h j ready hgood => ?_, fun h j hgood => hgood⟩
    · obtain ⟨hentry, hsub⟩ := @entry_applyCommand hfToken o h c id hid
      obtain ⟨hmem, t, ht, hle, hs⟩ := hgood
      exact ⟨fun hm => hmem (hsub id hm), t, hentry.trans ht, hle, hs⟩
    · obtain ⟨hmem, t, ht, hle, hs⟩ := hgood
      refine ⟨fun hm => ?_, t, (by rw [Host.endBatch_instances]; exact ht), hle, hs⟩
      rcases mem_endBatch_probeTasks hm with hm | ⟨port, hp⟩
      · exact hmem hm
      · obtain ⟨c, hc, -, hcid⟩ := hr.probes _ hp
        exact hnone c hc hcid
    · rcases inspect_cases h j with heq | ⟨hj, f, heq, -⟩
      · rw [heq]
        exact hgood
      · rw [heq]
        exact hother h j f hj hgood
    · rcases probe_cases h j ready with heq | ⟨hj, f, heq, -⟩
      · rw [heq]
        exact hgood
      · rw [heq]
        exact hother h j f hj hgood
  refine round_rule hstable (fun h o c hc hid => absurd hid (hnone c hc))
    (roundInv_reconcile hq commands) (Or.inr ?_) has hend
  unfold Stuck
  rw [Host.reconcile_probeTasks, Host.reconcile_instances]
  exact hstuck

end Round

/-! ### Rounds -/

/-- A round between two states of the worker: a Sync against any tables that want the
instance, and fair moves until the batch has ended and every probe has its answer. -/
inductive FairRound (sha256Hex : String → String) (hfToken : Bool) (w id : Uuid) (g : ℕ) (h : Host) :
    Host → Prop
  | mk {db db' : Db} {req : SyncRequest} {now : ℕ} {commands : List Command}
      {as : List HostEvent} (hids : (db.instances.map (·.id)).Nodup)
      (hreq : req.workerId = some w) (hwant : Wanted db w id g)
      (hsync : syncWorker sha256Hex db (req.sentBy h) now = .ok (db', commands))
      (hfair : Conforms (Host.move hfToken) (FairMove hfToken) (h.reconcile commands) as)
      (hend : (exec (Host.move hfToken) (h.reconcile commands) as).batch = none)
      (hprobes : (exec (Host.move hfToken) (h.reconcile commands) as).probeTasks = []) :
      FairRound sha256Hex hfToken w id g h (exec (Host.move hfToken) (h.reconcile commands) as)

/-- What any number of rounds leaves: a worker without a batch, whose instance runs or is
stuck as before. -/
structure RoundsInv (id : Uuid) (g : ℕ) (h h' : Host) : Prop where
  quiet : Quiet h'
  up : ¬ Stuck id g h → ∃ t, h'.instances.get? id = some t ∧ g ≤ t.generation ∧ t.state = .running
  stuck : Stuck id g h → Stuck id g h'

/-- What runs is not stuck. -/
theorem not_stuck_of_running {id : Uuid} {g : ℕ} {h : Host} {t : Tracked}
    (ht : h.instances.get? id = some t) (hrun : t.state = .running) : ¬ Stuck id g h := by
  rintro ⟨-, t', ht', -, hs, -⟩
  obtain rfl : t = t' := Option.some.inj (ht.symm.trans ht')
  exact hs hrun

theorem roundsInv_round {sha256Hex : String → String} {hfToken : Bool} {w id : Uuid} {g : ℕ}
    {h h' : Host} (hq : Quiet h) (hround : FairRound sha256Hex hfToken w id g h h') :
    RoundsInv id g h h' := by
  obtain ⟨hids, hreq, hwant, hsync, hfair, hend, hprobes⟩ := hround
  have hevents := hfair.mono fun _ _ hmove => hmove.roundEvent
  exact ⟨quiet_round hq hevents hend,
    fun hno => running_round hids hreq hwant hsync hq hno hfair hend hprobes,
    fun hstuck => stuck_round hids hreq hwant hsync hq hstuck hevents hend⟩

/-- **Rounds repeat what the first one has established.** -/
theorem roundsInv_of_rounds {sha256Hex : String → String} {hfToken : Bool} {w id : Uuid} {g : ℕ}
    {h h' : Host} (hq : Quiet h)
    (hrounds : Relation.TransGen (FairRound sha256Hex hfToken w id g) h h') :
    RoundsInv id g h h' := by
  induction hrounds with
  | single hround => exact roundsInv_round hq hround
  | tail _ hround ih =>
    have hlast := roundsInv_round ih.quiet hround
    refine ⟨hlast.quiet, fun hno => ?_, fun hstuck => hlast.stuck (ih.stuck hstuck)⟩
    obtain ⟨t, ht, -, hrun⟩ := ih.up hno
    exact hlast.up (not_stuck_of_running ht hrun)

/-- The state a Sync writes to the row of a tracked instance. -/
theorem state_applyStatuses_sentBy {req : SyncRequest} {h : Host} {w : Uuid} {i : Instance}
    {t : Tracked} (hw : i.workerId = some w) (ht : h.instances.get? i.id = some t) :
    (applyStatuses (req.sentBy h) w i).state = t.state := by
  unfold applyStatuses
  rw [if_pos hw, statusesOf_of_statuses (h := h) rfl, ht]
  rfl

/-- **An instance comes up, and stays up, unless its generation has failed before.**  Let a
worker without a batch go through any number of rounds, at least one: Syncs against tables
that may change in every way but for wanting the instance at this generation, each followed
by moves in which Docker and the engine do their part.  Then the next Sync has no command
for the instance, and its row reads `running` exactly if the instance was not stuck before
the first round.  If it has a port, its model is then among those the gateway lists. -/
theorem fair_rounds_serve (sha256Hex : String → String) (hfToken : Bool) (w id : Uuid) (g : ℕ)
    (h h' : Host) (hq : Quiet h)
    (hrounds : Relation.TransGen (FairRound sha256Hex hfToken w id g) h h')
    (db db' : Db) (req : SyncRequest) (now : ℕ) (commands : List Command)
    (hids : (db.instances.map (·.id)).Nodup) (hreq : req.workerId = some w)
    (hwant : Wanted db w id g)
    (hsync : syncWorker sha256Hex db (req.sentBy h') now = .ok (db', commands)) :
    (∀ c ∈ commands, c.instanceId ≠ id) ∧
    ∃ i, RowOf db' w i ∧ i.id = id ∧ (i.state = .running ↔ ¬ Stuck id g h) ∧
      ∀ (displayLe : Model → Model → Prop) [DecidableRel displayLe], ∀ m,
        ¬ Stuck id g h → i.port.isSome = true → db'.findModel i.modelId = some m →
          m.name ∈ (listModels displayLe db').map (·.id) := by
  have hinv := roundsInv_of_rounds hq hrounds
  obtain ⟨-, hdue⟩ := commands_of_wanted hids hreq hwant hsync
  -- the worker has the generation, running or stuck
  have hentry : ∃ t, h'.instances.get? id = some t ∧ g ≤ t.generation ∧ t.state ≠ .stopped ∧
      (t.state = .running ↔ ¬ Stuck id g h) := by
    by_cases hstuck : Stuck id g h
    · obtain ⟨-, t, ht, hle, hs, hstop⟩ := hinv.stuck hstuck
      exact ⟨t, ht, hle, hstop, fun hrun => absurd hrun hs, fun hno => absurd hstuck hno⟩
    · obtain ⟨t, ht, hle, hrun⟩ := hinv.up hstuck
      exact ⟨t, ht, hle, by rw [hrun]; simp, fun _ => hstuck, fun _ => hrun⟩
  obtain ⟨t, ht, hle, hstop, hiff⟩ := hentry
  refine ⟨fun c hc hid => ?_, ?_⟩
  · rcases hdue.mp ⟨c, hc, hid⟩ t ht with hlt | hs
    · omega
    · exact hstop hs
  obtain ⟨rfl, -, -⟩ := sync_spec hreq hsync
  obtain ⟨i, hi, rfl, -⟩ := hwant
  have hstate := @state_applyStatuses_sentBy req h' w i t hi.2 ht
  have hrow : RowOf (storeReports db (req.sentBy h') w now) w (applyStatuses (req.sentBy h') w i) :=
    rowOf_storeReports.mpr ⟨i, hi, rfl⟩
  refine ⟨_, hrow, (applyStatuses_wants (req.sentBy h') w i).1, by rw [hstate]; exact hiff, ?_⟩
  intro displayLe _ m hno hport hm
  refine (listed_iff _ m.name).mpr ⟨_, hrow.1, ?_, hport, m, hm, rfl⟩
  rw [hstate, hiff.mpr hno]
  rfl

/-- The tables of a server that has just deployed the instance `3`. -/
def deployedDb : Db := (exec (World.next sampleEnv) sampleWorld (sampleJoin ++ [sampleDeploy])).db

/-- What a fresh worker is told about it. -/
def deployedAnswer (h : Host) : Except ServerError (Db × List Command) :=
  syncWorker id deployedDb (sampleRequest.sentBy h) 7

/-- The worker after the start and its probe. -/
def startedHost : Host :=
  exec (Host.move false)
    (Host.reconcile {} [⟨3, .start, 1, some { sampleConfig with port := 8010 }⟩])
    [.apply {}, .finish {}, .ready 3]

theorem wanted_deployedDb : Wanted deployedDb 1 3 1 := by
  have hrow : ∃ i ∈ deployedDb.instances, i.workerId = some 1 ∧ i.id = 3 ∧
      i.desiredState = .running ∧ i.generation = 1 ∧ 0 < i.port.getD 0 := by decide +kernel
  obtain ⟨i, hi, hw, hid, hdes, hgen, hport⟩ := hrow
  refine ⟨i, ⟨hi, hw⟩, hid, hdes, hgen, Or.inl ?_⟩
  rw [engineConfig_port]
  exact hport

/-- A fresh worker is told to start the instance, and the Sync after that is silent and finds
it running. -/
theorem fair_rounds_serve_deployed : ∃ db', deployedAnswer startedHost = .ok (db', []) ∧
    ∃ i, RowOf db' 1 i ∧ i.id = 3 ∧ i.state = .running := by
  have hids : (deployedDb.instances.map (·.id)).Nodup := by decide +kernel
  have hq : Quiet {} := ⟨rfl, rfl, rfl⟩
  have hstart : (deployedAnswer {}).toOption.map (·.2) =
      some [⟨3, .start, 1, some { sampleConfig with port := 8010 }⟩] := by decide +kernel
  obtain ⟨db₁, hsync₁⟩ := exists_answer hstart
  have hround : FairRound id false 1 3 1 {} startedHost :=
    .mk hids rfl wanted_deployedDb hsync₁ (by decide +kernel) (by decide +kernel)
      (by decide +kernel)
  have hsilent : (deployedAnswer startedHost).toOption.map (·.2) = some [] := by decide +kernel
  obtain ⟨db', hsync⟩ := exists_answer hsilent
  obtain ⟨-, i, hi, hid, hstate, -⟩ := fair_rounds_serve id false 1 3 1 {} startedHost hq
    (.single hround) deployedDb db' sampleRequest 7 [] hids rfl wanted_deployedDb hsync
  refine ⟨db', hsync, i, hi, hid, hstate.mpr ?_⟩
  rintro ⟨-, t, ht, -⟩
  cases ht

end Inferna
