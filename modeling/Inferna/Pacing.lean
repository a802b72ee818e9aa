import Inferna.Policy
import Inferna.Stability
import Inferna.Lib.Cooldown
import Inferna.Lib.Run

/-!
# How often the autoscaler acts

`autoscale_loop` keeps one cooldown map for as long as the server runs and hands it to every pass.
Between two passes anything may happen to the tables and to the metrics; a pass may fail in the
middle, and its cooldowns stay.  A server that starts again has an empty map.

## Main definitions

* `Tick`, `AutoscaleLoop` — a pass of the loop, and what the loop has done.
* `AutoscaleLoop.gate` — the loop as a gate with a cooldown.
* `Life` — the passes from one start of the server to its end, in the order of the clock.

## Main results

* `tickStep_acts` — what one deployment of a pass does to the map and to the actions.
* `sound_loop` — the map says of each deployment when it was last acted on.
* `autoscaler_paced` — **the actions on a deployment are a cooldown apart, and none is held back
  longer.**
-/

namespace Inferna

open Cooldown Run

/-! ### The loop -/

/-- One pass of the loop: when it runs, and what it finds. -/
structure Tick where
  now : ℚ
  clock : ℕ
  metrics : Metrics
  db : Db

/-- The cooldown map of `autoscale_loop`, and the actions of all passes with their times. -/
structure AutoscaleLoop where
  cooldown : Dict Uuid ℚ := Dict.empty
  actions : List (ℚ × Uuid × ScaleAction × ℕ) := []

/-- The loop in the middle of a pass. -/
def AutoscaleLoop.during (l : AutoscaleLoop) (now : ℚ) (st : TickState) : AutoscaleLoop :=
  ⟨st.cooldown, l.actions ++ st.actions.map fun a => (now, a)⟩

/-- One round of `autoscale_loop`. -/
def AutoscaleLoop.tick (s : Settings) (l : AutoscaleLoop) (t : Tick) : AutoscaleLoop :=
  l.during t.now (autoscaleTick s t.metrics t.clock t.now l.cooldown t.db)

/-- `autoscale_loop`, from the start of the server. -/
def autoscaleLoop (s : Settings) (ticks : List Tick) : AutoscaleLoop :=
  exec (AutoscaleLoop.tick s) {} ticks

/-- The loop as a gate with a cooldown. -/
def AutoscaleLoop.gate (l : AutoscaleLoop) : Gate Uuid :=
  ⟨l.cooldown, l.actions.map fun a => (a.1, a.2.1)⟩

/-- The times at which a deployment was acted on. -/
def AutoscaleLoop.timesOf (l : AutoscaleLoop) (id : Uuid) : List ℚ := l.gate.timesOf id

/-- The passes from one start of the server to its end, in the order of the clock. -/
structure Life where
  ticks : List Tick
  clocked : (ticks.map (·.now)).Pairwise (· ≤ ·)

/-! ### One deployment of a pass -/

variable {s : Settings} {m : Metrics} {clock : ℕ} {now : ℚ}

/-- The units of a deployment that a pass finds. -/
def TickState.units (st : TickState) (d : Deployment) : ℕ :=
  Inferna.units d st.session.working

/-- The pass would act on the deployment if there were no cooldown: it can still act at all, the
policy proposes another number, and the scale goes through. -/
structure TickMoves (s : Settings) (m : Metrics) (clock : ℕ) (st : TickState) (d : Deployment) :
    Prop where
  alive : st.dead = false
  proposes : tickTarget s m st.session.working d ≠ st.units d
  scales : (scaleInSession s d.load (tickTarget s m st.session.working d) false clock
    st.session).2 = .ok ()

/-- The direction and the target of an action are those of one unit more or less. -/
def ByOneUnit (n : ℕ) (action : ScaleAction) (target : ℕ) : Prop :=
  action = .up ∧ target = n + 1 ∨ action = .down ∧ target + 1 = n

/-- What the policy proposes is one unit more or less, or what there is. -/
theorem byOneUnit_tickTarget {st : TickState} {d : Deployment}
    (hprop : tickTarget s m st.session.working d ≠ st.units d) :
    ByOneUnit (st.units d)
      (if st.units d < tickTarget s m st.session.working d then .up else .down)
      (tickTarget s m st.session.working d) := by
  have hcases := desiredReplicas_cases s (st.units d) d.minReplicas d.maxReplicas
    (readSignal m (modelName st.session.working d) (st.session.working.instancesOf d.id))
  have htarget : tickTarget s m st.session.working d = desiredReplicas s (st.units d)
    d.minReplicas d.maxReplicas
      (readSignal m (modelName st.session.working d) (st.session.working.instancesOf d.id)) := rfl
  rw [← htarget] at hcases
  rcases hcases with hstay | ⟨-, -, hup⟩ | ⟨-, hmin, hdown⟩
  · exact absurd hstay hprop
  · left
    rw [hup, if_pos (Nat.lt_succ_self _)]
    exact ⟨rfl, rfl⟩
  · right
    rw [hdown, if_neg (by omega)]
    exact ⟨rfl, by omega⟩

theorem coolingDown_eq (l : AutoscaleLoop) (st : TickState) (d : Deployment) :
    coolingDown s st.cooldown now d =
      (l.during now st).gate.closed s.autoscaleCooldownSeconds now d.id := rfl

/-- A pass acts on a deployment exactly if the gate is open and it moves; then it takes the gate
and logs one unit more or less, and else it leaves both alone. -/
theorem tickStep_acts (l : AutoscaleLoop) (st : TickState) (d : Deployment) :
    (((l.during now st).gate.closed s.autoscaleCooldownSeconds now d.id = false ∧
        TickMoves s m clock st d) ∧
      (l.during now (tickStep s m clock now st d)).gate = (l.during now st).gate.take now d.id ∧
      ∃ action target, ByOneUnit (st.units d) action target ∧
        (tickStep s m clock now st d).actions = st.actions ++ [(d.id, action, target)]) ∨
    (¬ ((l.during now st).gate.closed s.autoscaleCooldownSeconds now d.id = false ∧
        TickMoves s m clock st d) ∧
      (tickStep s m clock now st d).cooldown = st.cooldown ∧
      (tickStep s m clock now st d).actions = st.actions) := by
  rw [← coolingDown_eq]
  unfold tickStep tickActs
  by_cases hskip : st.dead = true ∨ ¬ (decide (tickTarget s m st.session.working d ≠
      unitCount d.nodesPerReplica (st.session.working.instancesOf d.id) ∧
        ¬ coolingDown s st.cooldown now d) = true)
  · right
    rw [if_pos hskip]
    refine ⟨?_, rfl, rfl⟩
    rintro ⟨hopen, hmoves⟩
    rcases hskip with hdead | hacts
    · rw [hmoves.alive] at hdead
      cases hdead
    · exact hacts (decide_eq_true ⟨hmoves.proposes, by rw [hopen]; exact Bool.false_ne_true⟩)
  · simp only [if_neg hskip]
    rw [not_or, not_not, Bool.not_eq_true, decide_eq_true_eq, Bool.not_eq_true] at hskip
    obtain ⟨hdead, hprop, hopen⟩ := hskip
    rcases hscale : scaleInSession s d.load (tickTarget s m st.session.working d) false clock
      st.session with ⟨ss, e | u⟩
    · right
      refine ⟨fun h => ?_, rfl, rfl⟩
      have hok := h.2.scales
      rw [hscale] at hok
      cases hok
    · left
      refine ⟨⟨hopen, hdead, hprop, by rw [hscale]⟩, ?_, _, _, ?_, rfl⟩
      · simp [AutoscaleLoop.during, AutoscaleLoop.gate, Gate.take]
      · exact byOneUnit_tickTarget hprop

/-! ### A pass, and a run -/

/-- A pass keeps the gate sound, and only adds to the actions. -/
theorem sound_pass {l : AutoscaleLoop} (ds : List Deployment) : ∀ {st : TickState},
    (l.during now st).gate.Sound s.autoscaleCooldownSeconds now →
      (l.during now (ds.foldl (tickStep s m clock now) st)).gate.Sound
        s.autoscaleCooldownSeconds now := by
  induction ds with
  | nil => exact fun h => h
  | cons d ds ih =>
    intro st h
    refine ih ?_
    rcases @tickStep_acts s m clock now l st d with ⟨⟨hopen, -⟩, htake, -⟩ | ⟨-, hcool, hacts⟩
    · rw [htake]
      exact h.take hopen
    · unfold AutoscaleLoop.during
      rw [hcool, hacts]
      exact h

theorem during_fresh (l : AutoscaleLoop) (now : ℚ) (ss : Session) :
    l.during now ⟨ss, l.cooldown, [], [], false⟩ = l := by
  simp [AutoscaleLoop.during]

theorem sound_tick {l : AutoscaleLoop} {t : Tick}
    (h : l.gate.Sound s.autoscaleCooldownSeconds t.now) :
    (l.tick s t).gate.Sound s.autoscaleCooldownSeconds t.now := by
  refine sound_pass (windowedDeployments t.db) ?_
  rw [during_fresh]
  exact h

/-- **After every run of the loop the map says when a deployment was last acted on**, and the
actions on it are a cooldown apart. -/
theorem sound_loop (life : Life) {now : ℚ} (hnow : ∀ t ∈ life.ticks, t.now ≤ now) :
    (autoscaleLoop s life.ticks).gate.Sound s.autoscaleCooldownSeconds now := by
  obtain ⟨ticks, hclock⟩ := life
  induction ticks using List.reverseRecOn generalizing now with
  | nil => exact Gate.sound_empty _ _
  | append_singleton ticks t ih =>
    rw [List.map_append] at hclock
    have hbefore := List.pairwise_append.mp hclock
    have hsound := ih hbefore.1 fun u hu => hbefore.2.2 u.now
      (List.mem_map_of_mem hu) t.now (by simp)
    rw [autoscaleLoop, exec_append]
    exact (sound_tick hsound).mono (hnow t (by simp))

/-- The actions on a deployment are a cooldown apart. -/
theorem spaced_timesOf (life : Life) (id : Uuid) :
    Spaced s.autoscaleCooldownSeconds ((autoscaleLoop s life.ticks).timesOf id) := by
  obtain ⟨now, hnow⟩ := (life.ticks.map (·.now)).toFinset.exists_le
  exact (sound_loop life fun t ht =>
    hnow t.now (List.mem_toFinset.mpr (List.mem_map_of_mem ht))).spaced id

/-- **The autoscaler is paced.**  From a start of the server to its end, whatever the passes find,
the actions on a deployment are a cooldown apart, so that any window of time holds at most as many
as it has cooldowns, or begins; servers that start one after the other forget, and each may act as
often.  No action is held back for longer: in a pass that comes next, a deployment that can move
is acted on exactly if its last actions are a cooldown ago, by one unit. -/
theorem autoscaler_paced (s : Settings) :
    (∀ (life : Life) id, Spaced s.autoscaleCooldownSeconds
      ((autoscaleLoop s life.ticks).timesOf id)) ∧
    (0 < s.autoscaleCooldownSeconds → ∀ (lives : List Life) id (lo width : ℚ),
      (lives.map fun life => (((autoscaleLoop s life.ticks).timesOf id).filter
        fun t => lo ≤ t ∧ t < lo + width).length).sum ≤
          lives.length * ⌈width / s.autoscaleCooldownSeconds⌉₊) ∧
    (∀ (life : Life) (t : Tick), (∀ u ∈ life.ticks, u.now ≤ t.now) →
      ∀ pre d post, windowedDeployments t.db = pre ++ d :: post →
        let l := autoscaleLoop s life.ticks
        let st := pre.foldl (tickStep s t.metrics t.clock t.now)
          ⟨Session.fresh t.db, l.cooldown, [], [], false⟩
        let st' := tickStep s t.metrics t.clock t.now st d
        (((∀ u ∈ (l.during t.now st).timesOf d.id, u + s.autoscaleCooldownSeconds ≤ t.now) ∧
            TickMoves s t.metrics t.clock st d) ∧
          ∃ action target, ByOneUnit (st.units d) action target ∧
            st'.actions = st.actions ++ [(d.id, action, target)]) ∨
        (¬ ((∀ u ∈ (l.during t.now st).timesOf d.id, u + s.autoscaleCooldownSeconds ≤ t.now) ∧
            TickMoves s t.metrics t.clock st d) ∧
          st'.actions = st.actions)) := by
  refine ⟨spaced_timesOf, ?_, ?_⟩
  · intro hc lives id lo width
    have hlife : ∀ n ∈ lives.map fun life => (((autoscaleLoop s life.ticks).timesOf id).filter
        fun t => lo ≤ t ∧ t < lo + width).length, n ≤ ⌈width / s.autoscaleCooldownSeconds⌉₊ := by
      intro n hn
      obtain ⟨life, -, rfl⟩ := List.mem_map.mp hn
      have hwin : ∀ t ∈ ((autoscaleLoop s life.ticks).timesOf id).filter
          fun t => lo ≤ t ∧ t < lo + width, lo ≤ t ∧ t < lo + width :=
        fun t ht => of_decide_eq_true (List.mem_filter.mp ht).2
      exact ((spaced_timesOf life id).filter _).length_le hc hwin
    have hsum := List.sum_le_card_nsmul _ _ hlife
    rwa [List.length_map, smul_eq_mul] at hsum
  · intro life t hnow pre d post hsplit l st st'
    have hsound : (l.during t.now st).gate.Sound s.autoscaleCooldownSeconds t.now := by
      refine sound_pass pre ?_
      rw [during_fresh]
      exact sound_loop life hnow
    unfold AutoscaleLoop.timesOf
    rw [← hsound.closed_eq_false_iff]
    rcases @tickStep_acts s t.metrics t.clock t.now l st d with ⟨hacts, -, hone⟩ | ⟨hnot, -, hsame⟩
    · exact Or.inl ⟨hacts, hone⟩
    · exact Or.inr ⟨hnot, hsame⟩

/-- Of three idle passes the second comes too early. -/
example : (autoscaleLoop {} ([0, 100, 300].map fun now =>
    ⟨now, 0, evenly 0 2, runningDb 2⟩)).timesOf pair.id = [0, 300] := by
  decide +kernel

end Inferna
