import Inferna.Instances

/-!
# The autoscaler

`services/autoscaling.py`: the load signal, the policy and one pass over the
deployments with a window.  The pass runs in one session; a deployment whose
scale fails is logged and skipped, and nothing is rolled back.

What the gateway's metrics registry answers is the parameter `Metrics`.

## Main definitions

* `Signal`, `readSignal` — the measured load of a deployment.
* `desiredReplicas` — the policy: one step per tick.
* `autoscaleTick` — `autoscale_tick`.
-/

namespace Inferna

/-- What the metrics registry answers. -/
structure Metrics where
  /-- `_ttft_p95_ms(model_name)`. -/
  ttftP95Ms : String → Option ℚ
  /-- The active-request gauge of an instance. -/
  activeRequests : Uuid → Option ℚ

/-- What the policy is allowed to look at for one deployment. -/
structure Signal where
  ttftP95Ms : Option ℚ
  queuePerReplica : Option ℚ
  servingReplicas : ℕ
  deriving DecidableEq, Repr, Inhabited

/-- `read_signal`. -/
def readSignal (m : Metrics) (modelName : String) (instances : List Instance) : Signal :=
  let serving := instances.filter (·.state = .running)
  let values := serving.filterMap fun i => m.activeRequests i.id
  { ttftP95Ms := m.ttftP95Ms modelName
    queuePerReplica := if values = [] then none else some (values.sum / serving.length)
    servingReplicas := serving.length }

/-- The load exceeds a target. -/
def isBusy (s : Settings) (sig : Signal) : Bool :=
  sig.ttftP95Ms.any (s.autoscaleTargetTtftMs < ·) || sig.queuePerReplica.any (s.autoscaleTargetQueue < ·)

/-- Every measured load is well under its target, and the minimum is serving. -/
def isIdle (s : Settings) (minimum : ℕ) (sig : Signal) : Bool :=
  sig.ttftP95Ms.all (· < s.autoscaleTargetTtftMs * s.autoscaleScaleDownRatio) &&
    sig.queuePerReplica.all (· < s.autoscaleTargetQueue * s.autoscaleScaleDownRatio) &&
      minimum ≤ sig.servingReplicas

/-- `desired_replicas`. -/
def desiredReplicas (s : Settings) (current minimum maximum : ℕ) (sig : Signal) : ℕ :=
  if sig.ttftP95Ms = none ∧ sig.queuePerReplica = none then current
  else if isBusy s sig ∧ current < maximum then min maximum (current + 1)
  else if isIdle s minimum sig ∧ minimum < current then max minimum (current - 1)
  else current

/-- `_unit_count`: the replica units currently desired. -/
def unitCount (nodesPerReplica : ℕ) (instances : List Instance) : ℕ :=
  let live := instances.filter (·.desiredState = .running)
  if nodesPerReplica ≤ 1 then live.length else (live.map (·.unitKey)).dedup.length

/-- The name of the deployment's model. -/
def modelName (db : Db) (d : Deployment) : String := ((db.findModel d.modelId).map (·.name)).getD ""

/-- The target the policy proposes for a deployment. -/
def tickTarget (s : Settings) (m : Metrics) (db : Db) (d : Deployment) : ℕ :=
  desiredReplicas s (unitCount d.nodesPerReplica (db.instancesOf d.id)) d.minReplicas d.maxReplicas
    (readSignal m (modelName db d) (db.instancesOf d.id))

/-- The deployment has scaled too recently. -/
def coolingDown (s : Settings) (cooldown : Dict Uuid ℚ) (now : ℚ) (d : Deployment) : Bool :=
  (cooldown.get? d.id).any fun last => now - last < s.autoscaleCooldownSeconds

/-- The pass acts on this deployment. -/
def tickActs (s : Settings) (m : Metrics) (cooldown : Dict Uuid ℚ) (now : ℚ) (db : Db)
    (d : Deployment) : Bool :=
  tickTarget s m db d ≠ unitCount d.nodesPerReplica (db.instancesOf d.id) ∧
    ¬ coolingDown s cooldown now d

/-- The direction of an action. -/
inductive ScaleAction
  | up
  | down
  deriving DecidableEq, Repr, Inhabited

/-- The state of a pass: the session it runs in, the cooldown map, the rows it
answers with, and the deployments whose scale raised. -/
structure TickState where
  session : Session
  cooldown : Dict Uuid ℚ
  actions : List (Uuid × ScaleAction × ℕ) := []
  failed : List (Uuid × ServerError) := []
  /-- A refused flush leaves a session in which nothing more can be done. -/
  dead : Bool := false

/-- One deployment of the pass. -/
def tickStep (s : Settings) (m : Metrics) (clock : ℕ) (now : ℚ) (st : TickState)
    (d : Deployment) : TickState :=
  let db := st.session.working
  if st.dead ∨ ¬ tickActs s m st.cooldown now db d then st
  else
    let target := tickTarget s m db d
    match scaleInSession s d.load target false clock st.session with
    | (ss, .error e) =>
      { st with
        session := ss
        failed := st.failed ++ [(d.id, e)]
        dead := match e with
          | .integrity _ => true
          | _ => false }
    | (ss, .ok ()) =>
      { st with
        session := ss
        cooldown := st.cooldown.set d.id now
        actions := st.actions ++ [(d.id,
          if unitCount d.nodesPerReplica (db.instancesOf d.id) < target then .up else .down,
          target)] }

/-- The deployments a pass looks at: those with a real window. -/
def windowedDeployments (db : Db) : List Deployment :=
  db.deployments.filter fun d => d.minReplicas < d.maxReplicas

/-- `autoscale_tick`. -/
def autoscaleTick (s : Settings) (m : Metrics) (clock : ℕ) (now : ℚ) (cooldown : Dict Uuid ℚ)
    (db : Db) : TickState :=
  (windowedDeployments db).foldl (tickStep s m clock now) ⟨Session.fresh db, cooldown, [], [], false⟩

end Inferna
