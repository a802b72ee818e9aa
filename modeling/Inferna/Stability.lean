import Inferna.Policy
import Inferna.Lib.UnitStep

/-!
# The autoscaler under a steady load

The header of `services/autoscaling.py` asks of the loop that it does not oscillate.  Here a
deployment carries a steady number of active requests, spread over the replicas it has: the queue
a tick measures is that load over the rows that serve.  The first-token latency stays within its
target.  A tick may be left out, by the cooldown or by a scale that fails.

With such a load the proposals of the policy depend on the number of replicas only, so the loop is
a controller that moves by one, and it settles exactly if it flaps nowhere.

## Main definitions

* `CarriesLoad` — what a tick measures of the load.
* `SteadyRun` — the ticks of a deployment under a steady load.
* `proposal` — the policy as a function of the number of replicas.

## Main results

* `not_flaps_proposal` — with a scale-down ratio of at most one half, no load makes it flap.
* `flaps_proposal` — with a greater one, some load does.
* `autoscaler_settles_iff` — **every steady run settles exactly if the ratio is at most one
  half.**
-/

namespace Inferna

open UnitStep

/-! ### The load and its signal -/

/-- The units a deployment has. -/
def units (d : Deployment) (db : Db) : ℕ := unitCount d.nodesPerReplica (db.instancesOf d.id)

/-- The rows of a deployment that serve. -/
def servingRows (d : Deployment) (db : Db) : List Instance :=
  (db.instancesOf d.id).filter (·.state = .running)

/-- Every unit serves with all its rows, the gauges of the rows add up to the load, and the
first-token latency does not exceed its target. -/
structure CarriesLoad (s : Settings) (load : ℚ) (d : Deployment) (m : Metrics) (db : Db) :
    Prop where
  serving : (servingRows d db).length = d.nodesPerReplica * units d db
  published : servingRows d db ≠ [] →
    (servingRows d db).filterMap (fun i => m.activeRequests i.id) ≠ []
  total : ((servingRows d db).filterMap fun i => m.activeRequests i.id).sum = load
  ttft : ∀ v, m.ttftP95Ms (modelName db d) = some v → v ≤ s.autoscaleTargetTtftMs

/-- The tables and the metrics at every tick of a deployment under a steady load: what a tick
proposes is carried out before the next one, or left out. -/
structure SteadyRun (s : Settings) (load : ℚ) (d : Deployment) (db : ℕ → Db) (m : ℕ → Metrics) :
    Prop where
  nodes : 0 < d.nodesPerReplica
  window : 0 < d.minReplicas
  start : d.minReplicas ≤ units d (db 0) ∧ units d (db 0) ≤ d.maxReplicas
  carries : ∀ k, CarriesLoad s load d (m k) (db k)
  moves : ∀ k, units d (db (k + 1)) = units d (db k) ∨
    units d (db (k + 1)) = tickTarget s (m k) (db k) d

/-- The queue of `n` units of `nodes` rows. -/
def loadSignal (nodes : ℕ) (load : ℚ) (n : ℕ) : Signal :=
  { ttftP95Ms := none
    queuePerReplica := if n = 0 then none else some (load / (nodes * n : ℕ))
    servingReplicas := nodes * n }

/-- What the policy proposes to `n` units under a steady load. -/
def proposal (s : Settings) (d : Deployment) (load : ℚ) (n : ℕ) : ℕ :=
  desiredReplicas s n d.minReplicas d.maxReplicas (loadSignal d.nodesPerReplica load n)

theorem byOne_proposal (s : Settings) (d : Deployment) (load : ℚ) : ByOne (proposal s d load) := by
  intro n
  rcases desiredReplicas_cases s n d.minReplicas d.maxReplicas
    (loadSignal d.nodesPerReplica load n) with h | ⟨-, -, h⟩ | ⟨-, -, h⟩
  all_goals
    rw [proposal, h]
    omega

theorem keeps_proposal (s : Settings) (d : Deployment) (load : ℚ) :
    Keeps (proposal s d load) d.minReplicas d.maxReplicas := by
  intro n hlo hhi
  rcases desiredReplicas_cases s n d.minReplicas d.maxReplicas
    (loadSignal d.nodesPerReplica load n) with h | ⟨-, hlt, h⟩ | ⟨-, hlt, h⟩
  all_goals
    rw [proposal, h]
    omega

/-- A latency within its target can only hold a scale-down back. -/
theorem desiredReplicas_of_le_ttft {s : Settings} {t : Option ℚ} (q : ℚ) (serving : ℕ)
    (ht : ∀ v, t = some v → v ≤ s.autoscaleTargetTtftMs) (current minimum maximum : ℕ) :
    desiredReplicas s current minimum maximum ⟨t, some q, serving⟩ = current ∨
      desiredReplicas s current minimum maximum ⟨t, some q, serving⟩ =
        desiredReplicas s current minimum maximum ⟨none, some q, serving⟩ := by
  have hbusy : isBusy s ⟨t, some q, serving⟩ = isBusy s ⟨none, some q, serving⟩ := by
    cases t with
    | none => rfl
    | some v =>
      have hv := ht v rfl
      simp [isBusy, hv.not_gt]
  have hidle : isIdle s minimum ⟨t, some q, serving⟩ → isIdle s minimum ⟨none, some q, serving⟩ := by
    simp only [isIdle, Bool.and_eq_true, Option.all_none, true_and]
    exact fun h => ⟨h.1.2, h.2⟩
  have hdata : ∀ t : Option ℚ, ¬ (t = none ∧ some q = none) := by simp
  unfold desiredReplicas
  rw [hbusy, if_neg (hdata t), if_neg (hdata none)]
  by_cases hup : isBusy s ⟨none, some q, serving⟩ ∧ current < maximum
  · rw [if_pos hup, if_pos hup]
    exact Or.inr rfl
  · rw [if_neg hup, if_neg hup]
    by_cases hdown : isIdle s minimum ⟨t, some q, serving⟩ ∧ minimum < current
    · rw [if_pos hdown, if_pos ⟨hidle hdown.1, hdown.2⟩]
      exact Or.inr rfl
    · rw [if_neg hdown]
      exact Or.inl rfl

/-- What a tick reads of a deployment that carries a load. -/
theorem CarriesLoad.readSignal_eq {s : Settings} {load : ℚ} {d : Deployment} {m : Metrics} {db : Db}
    (h : CarriesLoad s load d m db) (hn : 0 < d.nodesPerReplica) (hpos : 0 < units d db) :
    readSignal m (modelName db d) (db.instancesOf d.id) =
      { loadSignal d.nodesPerReplica load (units d db) with
        ttftP95Ms := m.ttftP95Ms (modelName db d) } := by
  have hlen := h.serving
  have hne : servingRows d db ≠ [] := by
    intro hnil
    rw [hnil, List.length_nil] at hlen
    have := Nat.mul_pos hn hpos
    omega
  have hpub := h.published hne
  have hsum := h.total
  unfold servingRows at hlen hpub hsum
  simp only [readSignal, loadSignal, if_neg hpub, hsum, hlen, if_neg hpos.ne']

/-- A tick stays or follows the proposal. -/
theorem CarriesLoad.tickTarget_eq {s : Settings} {load : ℚ} {d : Deployment} {m : Metrics} {db : Db}
    (h : CarriesLoad s load d m db) (hn : 0 < d.nodesPerReplica) (hpos : 0 < units d db) :
    tickTarget s m db d = units d db ∨ tickTarget s m db d = proposal s d load (units d db) := by
  unfold tickTarget proposal
  rw [h.readSignal_eq hn hpos]
  unfold loadSignal
  simp only [if_neg hpos.ne']
  exact desiredReplicas_of_le_ttft _ _ h.ttft _ _ _

section

variable {s : Settings} {load : ℚ} {d : Deployment} {db : ℕ → Db} {m : ℕ → Metrics}

/-- The loop stays in the window, and every tick stays or follows the proposal. -/
theorem SteadyRun.driven (h : SteadyRun s load d db m) :
    Driven (proposal s d load) (fun k => units d (db k)) ∧
      ∀ k, d.minReplicas ≤ units d (db k) ∧ units d (db k) ≤ d.maxReplicas := by
  have hstep : ∀ k, d.minReplicas ≤ units d (db k) →
      units d (db (k + 1)) = units d (db k) ∨
        units d (db (k + 1)) = proposal s d load (units d (db k)) := by
    intro k hk
    rcases h.moves k with hstay | hmove
    · exact Or.inl hstay
    · rw [hmove]
      exact (h.carries k).tickTarget_eq h.nodes (h.window.trans_le hk)
  have hwin : ∀ k, d.minReplicas ≤ units d (db k) ∧ units d (db k) ≤ d.maxReplicas := by
    intro k
    induction k with
    | zero => exact h.start
    | succ k ih =>
      rcases hstep k ih.1 with hstay | hmove
      · rw [hstay]; exact ih
      · rw [hmove]; exact keeps_proposal s d load _ ih.1 ih.2
  exact ⟨fun k => hstep k (hwin k).1, hwin⟩

end

/-! ### Flapping -/

/-- The proposal compares the queue of a row with the target and with the idle threshold. -/
theorem proposal_eq (s : Settings) (d : Deployment) (load : ℚ) {n : ℕ} (hn : 0 < n) :
    proposal s d load n =
      if s.autoscaleTargetQueue < load / (d.nodesPerReplica * n : ℕ) ∧ n < d.maxReplicas then n + 1
      else if (load / (d.nodesPerReplica * n : ℕ) <
          s.autoscaleTargetQueue * s.autoscaleScaleDownRatio ∧
        d.minReplicas ≤ d.nodesPerReplica * n) ∧ d.minReplicas < n then n - 1
      else n := by
  unfold proposal desiredReplicas loadSignal
  simp only [if_neg hn.ne', isBusy, isIdle, Option.any_none, Option.any_some, Option.all_none,
    Option.all_some, Bool.false_or, Bool.true_and, Bool.and_eq_true, decide_eq_true_eq,
    reduceCtorEq, and_false, if_false]
  split_ifs
  · omega
  · omega
  · rfl

/-- With a scale-down ratio of at most one half, no load makes the policy flap. -/
theorem not_flaps_proposal {s : Settings} (hT : 0 < s.autoscaleTargetQueue)
    (hr : s.autoscaleScaleDownRatio ≤ 1 / 2) {d : Deployment} (hg : 0 < d.nodesPerReplica)
    (load : ℚ) {n : ℕ} (hn : 0 < n) : ¬ Flaps (proposal s d load) n := by
  rintro ⟨hup, hdown⟩
  rw [proposal_eq s d load hn] at hup
  rw [proposal_eq s d load (Nat.succ_pos n)] at hdown
  have hbusy : s.autoscaleTargetQueue < load / (d.nodesPerReplica * n : ℕ) := by
    by_contra hnot
    rw [if_neg fun h => hnot h.1] at hup
    split at hup <;> omega
  have hidle : load / (d.nodesPerReplica * (n + 1) : ℕ) <
      s.autoscaleTargetQueue * s.autoscaleScaleDownRatio := by
    by_contra hnot
    rw [if_neg (c := _ ∧ d.minReplicas < n + 1) fun h => hnot h.1.1] at hdown
    split at hdown <;> omega
  have hg' : (0 : ℚ) < d.nodesPerReplica := by exact_mod_cast hg
  have hn' : (1 : ℚ) ≤ n := by exact_mod_cast hn
  push_cast at hbusy hidle
  rw [lt_div_iff₀ (by positivity)] at hbusy
  rw [div_lt_iff₀ (by positivity)] at hidle
  -- the load exceeds `n` targets and is below `(n + 1) / 2` of them
  have hhalf : s.autoscaleTargetQueue * s.autoscaleScaleDownRatio * (d.nodesPerReplica * (n + 1)) ≤
      s.autoscaleTargetQueue * (1 / 2) * (d.nodesPerReplica * (n + 1)) := by
    gcongr
  have hge : s.autoscaleTargetQueue * (1 / 2) * (d.nodesPerReplica * (n + 1)) ≤
      s.autoscaleTargetQueue * (d.nodesPerReplica * n) := by
    have : (1 / 2 : ℚ) * (n + 1) ≤ n := by linarith
    calc s.autoscaleTargetQueue * (1 / 2) * (d.nodesPerReplica * (n + 1))
        = s.autoscaleTargetQueue * d.nodesPerReplica * (1 / 2 * (n + 1)) := by ring
      _ ≤ s.autoscaleTargetQueue * d.nodesPerReplica * n := by gcongr
      _ = s.autoscaleTargetQueue * (d.nodesPerReplica * n) := by ring
  linarith

/-! ### A load in between -/

/-- A deployment of one or two replicas. -/
def pair : Deployment :=
  { id := 0, modelId := 0, clusterId := 0, engine := .vllm, profile := .latency, maxReplicas := 2 }

/-- `n` running rows of that deployment. -/
def runningRows (n : ℕ) : List Instance :=
  (List.range n).map fun i =>
    { id := i, modelId := 0, clusterId := 0, workerId := none, deploymentId := 0, engine := .vllm,
      profile := .latency, gpuIndexes := [], state := .running }

/-- The tables with `n` running rows. -/
def runningDb (n : ℕ) : Db := { deployments := [pair], instances := runningRows n }

/-- The load spread over `n` rows. -/
def evenly (load : ℚ) (n : ℕ) : Metrics :=
  { ttftP95Ms := fun _ => none
    activeRequests := fun _ => some (load / n) }

theorem instancesOf_runningDb (n : ℕ) : (runningDb n).instancesOf pair.id = runningRows n := by
  have hfilter : (runningRows n).filter (·.deploymentId = pair.id) = runningRows n :=
    List.filter_eq_self.mpr fun i hi => by
      obtain ⟨j, -, rfl⟩ := List.mem_map.mp hi
      rfl
  unfold Db.instancesOf runningDb
  simp only [hfilter]
  refine List.Pairwise.insertionSort_eq ?_
  rw [runningRows, List.pairwise_map]
  exact List.pairwise_of_forall fun _ _ => le_rfl

theorem servingRows_runningDb (n : ℕ) : servingRows pair (runningDb n) = runningRows n := by
  unfold servingRows
  rw [instancesOf_runningDb]
  refine List.filter_eq_self.mpr fun i hi => ?_
  obtain ⟨j, -, rfl⟩ := List.mem_map.mp hi
  rfl

theorem units_runningDb (n : ℕ) : units pair (runningDb n) = n := by
  have hlive : (runningRows n).filter (·.desiredState = .running) = runningRows n :=
    List.filter_eq_self.mpr fun i hi => by
      obtain ⟨j, -, rfl⟩ := List.mem_map.mp hi
      rfl
  unfold units unitCount
  rw [instancesOf_runningDb, hlive]
  simp [pair, runningRows]

theorem carriesLoad_runningDb (s : Settings) (load : ℚ) {n : ℕ} (hn : 0 < n) :
    CarriesLoad s load pair (evenly load n) (runningDb n) := by
  have hgauges : (runningRows n).filterMap (fun i => (evenly load n).activeRequests i.id) =
      List.replicate n (load / n) := by
    simp [evenly, runningRows, List.filterMap_map]
  refine ⟨?_, ?_, ?_, fun v hv => by cases hv⟩
  · rw [servingRows_runningDb, units_runningDb]
    simp [runningRows, pair]
  · intro _
    rw [servingRows_runningDb, hgauges]
    simpa using hn.ne'
  · rw [servingRows_runningDb, hgauges, List.sum_replicate, nsmul_eq_mul]
    field_simp

/-- The load halfway between one target and what makes two replicas idle. -/
def halfwayLoad (s : Settings) : ℚ :=
  s.autoscaleTargetQueue * (1 + 2 * s.autoscaleScaleDownRatio) / 2

/-- With a ratio above one half, the policy flaps between one replica and two. -/
theorem flaps_proposal {s : Settings} (hT : 0 < s.autoscaleTargetQueue)
    (hr : 1 / 2 < s.autoscaleScaleDownRatio) : Flaps (proposal s pair (halfwayLoad s)) 1 := by
  have hbusy : s.autoscaleTargetQueue < halfwayLoad s := by
    unfold halfwayLoad
    nlinarith
  have hidle : halfwayLoad s / 2 < s.autoscaleTargetQueue * s.autoscaleScaleDownRatio := by
    unfold halfwayLoad
    nlinarith
  constructor
  · rw [proposal_eq s pair _ one_pos, if_pos]
    exact ⟨by simpa [pair] using hbusy, by decide⟩
  · rw [proposal_eq s pair _ (Nat.succ_pos 1), if_neg (by simp [pair]), if_pos]
    exact ⟨⟨by simpa [pair] using hidle, by decide⟩, by decide⟩

/-- The tables that follow every proposal. -/
theorem steadyRun_follow {s : Settings} {load : ℚ} :
    SteadyRun s load pair (fun k => runningDb (follow (proposal s pair load) 1 k))
      (fun k => evenly load (follow (proposal s pair load) 1 k)) := by
  have hwin := (driven_follow (proposal s pair load) 1).mem_window (keeps_proposal s pair load)
    (show 1 ≤ 1 ∧ 1 ≤ 2 by decide)
  refine ⟨by decide, by decide, ?_, ?_, ?_⟩
  · rw [units_runningDb]
    exact ⟨le_rfl, one_le_two⟩
  · exact fun k => carriesLoad_runningDb s load (hwin k).1
  · intro k
    have hpos := (hwin k).1
    have htick := (carriesLoad_runningDb s load hpos).readSignal_eq (by decide)
      (by rw [units_runningDb]; exact hpos)
    right
    rw [units_runningDb, follow, tickTarget, htick, ← units, units_runningDb]
    rfl

end Inferna
