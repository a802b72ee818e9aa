import Inferna.ScaleTarget
import Inferna.Lib.Run
import Mathlib.Logic.Function.Basic

/-!
# The replica window under concurrency

`POST /scale`, `PUT /range` and a pass of the autoscaler each load the deployment
first and change it later, in the body of `apply_scale` under the row lock.  The
body reads the instances again, but the window and the count it works with are those
of the load, and a bound that is assigned the value it was loaded with is not
written.  So a body can move the count out of a window that was committed between
its load and its lock.

## Main definitions

* `Execution`, `PendingCall`, `Execution.load` — what an execution reads.
* `Racing`, `Race`, `Racing.next` — loads and bodies of any number of executions on
  one deployment, in any order.
* `InWindow`, `Pinned` — the property, and its form for `POST /scale`.
* `PendingCall.Current`, `PendingCall.Pins` — what must hold at the lock of a body.

## Main results

* `inWindow_body_iff` — a body that commits keeps the window exactly when its target
  fits the bounds it does not write.
* `window_survives` — **the window along every run of current bodies.**
* `stale_scale_breaks_window` — two concurrent `POST /scale`.
-/

namespace Inferna

open Run

/-! ### Executions -/

/-- One execution on the deployment. -/
inductive Execution
  /-- `POST /scale`. -/
  | scale (body : ScaleRequest)
  /-- `PUT /range`. -/
  | setRange (body : RangeRequest)
  /-- The deployment's turn in a pass of the autoscaler. -/
  | tick (m : Metrics) (cooldown : Dict Uuid ℚ) (now : ℚ)

/-- A call of `apply_scale` that has loaded its deployment and waits for the lock. -/
structure PendingCall where
  obj : DeploymentObj
  replicas : ℕ
  setRange : Bool

/-- What an execution reads before the lock, and the call it makes; `none` when there
is no such deployment or the autoscaler does not act. -/
def Execution.load (s : Settings) (id : Uuid) (db : Db) : Execution → Option PendingCall
  | .scale body => (db.findDeployment id).map fun d => ⟨d.load, body.replicas, true⟩
  | .setRange body =>
    (db.findDeployment id).map fun d =>
      ⟨rangeObj d body, rangeTarget d (db.instancesOf id) body, false⟩
  | .tick m cooldown now =>
    (db.findDeployment id).bind fun d =>
      if d.minReplicas < d.maxReplicas ∧ tickActs s m cooldown now db d then
        some ⟨d.load, tickTarget s m db d, false⟩
      else none

/-- The committed tables, the calls that wait for the lock, and how many calls have
committed. -/
structure Racing where
  db : Db
  waiting : ℕ → Option PendingCall
  commits : ℕ := 0

/-- One move of the race. -/
inductive Race
  /-- The execution `r` loads the deployment. -/
  | load (r : ℕ) (x : Execution)
  /-- The execution `r` has the lock: the body of `apply_scale` runs and commits or
  fails. -/
  | body (r : ℕ) (clock : ℕ)

/-- The state after a move. -/
def Racing.next (s : Settings) (id : Uuid) (c : Racing) : Race → Racing
  | .load r x => { c with waiting := Function.update c.waiting r (x.load s id c.db) }
  | .body r clock =>
    match c.waiting r with
    | none => c
    | some call =>
      let res := scaleInSession s call.obj call.replicas call.setRange clock (Session.fresh c.db)
      { db := res.1.committed
        waiting := Function.update c.waiting r none
        commits := if res.2.toBool then c.commits + 1 else c.commits }

theorem Racing.next_body_none (s : Settings) (id : Uuid) {c : Racing} {r : ℕ}
    (h : c.waiting r = none) (clock : ℕ) : c.next s id (.body r clock) = c := by
  simp only [Racing.next, h]

theorem Racing.next_body_some (s : Settings) (id : Uuid) {c : Racing} {r : ℕ} {call : PendingCall}
    (h : c.waiting r = some call) (clock : ℕ) :
    c.next s id (.body r clock) =
      let res := scaleInSession s call.obj call.replicas call.setRange clock (Session.fresh c.db)
      { db := res.1.committed
        waiting := Function.update c.waiting r none
        commits := if res.2.toBool then c.commits + 1 else c.commits } := by
  simp only [Racing.next, h]

/-! ### The property and its condition -/

/-- The replica units of the deployment with a rank that is to run. -/
def liveCount (db : Db) (d : Deployment) : ℕ := runningUnits d.nodesPerReplica (db.instancesOf d.id)

/-- The count lies within the committed window. -/
def InWindow (id : Uuid) (db : Db) : Prop :=
  ∃ d ∈ db.findDeployment id, d.minReplicas ≤ liveCount db d ∧ liveCount db d ≤ d.maxReplicas

/-- The window is the count. -/
def Pinned (id : Uuid) (db : Db) : Prop :=
  ∃ d ∈ db.findDeployment id, d.minReplicas = liveCount db d ∧ d.maxReplicas = liveCount db d

namespace PendingCall

/-- The count the call will establish. -/
def target (call : PendingCall) : ℕ := scaleTarget call.obj call.replicas call.setRange

/-- The window the call assigns. -/
def assigned (call : PendingCall) : DeploymentObj := pinWindow call.obj call.target call.setRange

/-- The target fits each bound of the row that the call leaves as it is. -/
def Current (call : PendingCall) (row : Deployment) : Prop :=
  (call.assigned.minReplicas = call.obj.loaded.minReplicas → row.minReplicas ≤ call.target) ∧
    (call.assigned.maxReplicas = call.obj.loaded.maxReplicas → call.target ≤ row.maxReplicas)

/-- Each bound of the row that the call leaves as it is is the target. -/
def Pins (call : PendingCall) (row : Deployment) : Prop :=
  (call.assigned.minReplicas = call.obj.loaded.minReplicas → row.minReplicas = call.target) ∧
    (call.assigned.maxReplicas = call.obj.loaded.maxReplicas → row.maxReplicas = call.target)

instance (call : PendingCall) (row : Deployment) : Decidable (call.Current row) :=
  inferInstanceAs (Decidable (_ ∧ _))

instance (call : PendingCall) (row : Deployment) : Decidable (call.Pins row) :=
  inferInstanceAs (Decidable (_ ∧ _))

end PendingCall

/-- What holds of a body at its lock. -/
def AtLock (P : PendingCall → Deployment → Prop) (id : Uuid) (c : Racing) : Race → Prop
  | .load _ _ => True
  | .body r _ => ∀ call ∈ c.waiting r, ∀ row ∈ c.db.findDeployment id, P call row

/-- Only `POST /scale` executes. -/
def Race.isPost : Race → Bool
  | .load _ (.scale _) => true
  | .load _ _ => false
  | .body _ _ => true

instance (id : Uuid) (c : Racing) (e : Race) : Decidable (AtLock PendingCall.Current id c e) :=
  match e with
  | .load _ _ => isTrue trivial
  | .body r _ => inferInstanceAs (Decidable (∀ call ∈ c.waiting r, ∀ row ∈ _, _))

/-! ### What a body does -/

/-- What is known of a state of the race. -/
structure WindowInv (id : Uuid) (c : Racing) (d : Deployment) : Prop where
  ids : (c.db.instances.map (·.id)).Nodup
  deployments : (c.db.deployments.map (·.id)).Nodup
  row : c.db.findDeployment id = some d
  /-- Every live unit is serving or pending. -/
  ready : ∀ u ∈ liveUnits d c.db, unitServing u = true ∨ unitPending u = true
  /-- The waiting calls were loaded from this deployment. -/
  waiting : ∀ r call, c.waiting r = some call → call.obj.loaded.id = id ∧
    call.obj.loaded.nodesPerReplica = d.nodesPerReplica ∧
    (call.setRange = false → call.obj.minReplicas ≤ call.obj.maxReplicas)

theorem findDeployment_id {db : Db} {id : Uuid} {d : Deployment}
    (h : db.findDeployment id = some d) : d.id = id := by
  have hsat := List.find?_some h
  simpa using hsat

/-- The row that a call writes. -/
theorem findDeployment_writeDeployment_self (db : Db) (obj : DeploymentObj) (now : ℕ) :
    (db.writeDeployment obj now).findDeployment obj.loaded.id =
      (db.findDeployment obj.loaded.id).map (flushDeployment obj now) := by
  unfold Db.findDeployment Db.writeDeployment
  simp only
  induction db.deployments with
  | nil => rfl
  | cons row rows ih =>
    rw [List.map_cons, List.find?_cons, List.find?_cons]
    by_cases hk : row.id = obj.loaded.id
    · have hkey : (flushDeployment obj now row).id = obj.loaded.id := hk
      simp [hk, hkey]
    · simp [hk, ih]

/-- A call that fails leaves what was committed. -/
theorem scaleInSession_error {s : Settings} {obj : DeploymentObj} {replicas : ℕ} {setRange : Bool}
    {now : ℕ} {ss : Session} (h : (scaleInSession s obj replicas setRange now ss).2 ≠ .ok ()) :
    (scaleInSession s obj replicas setRange now ss).1.committed = ss.committed := by
  unfold scaleInSession at h ⊢
  rcases happ : applyScale s obj replicas setRange now ss.working with ⟨db', e | u⟩
  · rfl
  · rw [happ] at h
    simp only [Session.commit] at h ⊢
    cases hv : db'.violation with
    | none => rw [hv] at h; exact absurd rfl h
    | some c => rfl

theorem PendingCall.assigned_loaded (call : PendingCall) :
    call.assigned.loaded = call.obj.loaded := by
  unfold PendingCall.assigned pinWindow
  split <;> rfl

/-- The target lies within the window the call assigns. -/
theorem PendingCall.target_mem_assigned (call : PendingCall)
    (hbounds : call.setRange = false → call.obj.minReplicas ≤ call.obj.maxReplicas) :
    call.assigned.minReplicas ≤ call.target ∧ call.target ≤ call.assigned.maxReplicas := by
  unfold PendingCall.assigned pinWindow
  cases hset : call.setRange with
  | true => exact ⟨le_rfl, le_rfl⟩
  | false =>
    have hle := hbounds hset
    have htarget : call.target = clampReplicas call.obj.minReplicas call.obj.maxReplicas
        call.replicas := by
      unfold PendingCall.target scaleTarget
      rw [hset]
      rfl
    rw [htarget]
    unfold clampReplicas
    exact ⟨le_max_left _ _, max_le hle (min_le_left _ _)⟩

/-- What a successful body leaves of the deployment: the flushed row, and the target
as its count. -/
structure BodyDone (id : Uuid) (call : PendingCall) (clock : ℕ) (d : Deployment) (db' : Db) :
    Prop where
  ids : (db'.instances.map (·.id)).Nodup
  deployments : (db'.deployments.map (·.id)).Nodup
  row : db'.findDeployment id = some (flushDeployment call.assigned clock d)
  count : liveCount db' d = call.target
  ready : ∀ u ∈ liveUnits d db', unitServing u = true ∨ unitPending u = true

/-- Units depend on the id and the nodes per replica only. -/
theorem liveUnits_congr {d e : Deployment} (hid : d.id = e.id)
    (hnodes : d.nodesPerReplica = e.nodesPerReplica) (db : Db) :
    liveUnits d db = liveUnits e db := by
  unfold liveUnits
  rw [hid, hnodes]

/-- **The body of `apply_scale`**, in a state where all live units count as
capacity. -/
theorem bodyDone {s : Settings} {id : Uuid} {c : Racing} {d : Deployment} (hinv : WindowInv id c d)
    {r : ℕ} {call : PendingCall} (hcall : c.waiting r = some call) {clock : ℕ}
    (hok : (scaleInSession s call.obj call.replicas call.setRange clock
      (Session.fresh c.db)).2 = .ok ()) :
    BodyDone id call clock d (scaleInSession s call.obj call.replicas call.setRange clock
      (Session.fresh c.db)).1.committed := by
  obtain ⟨hlid, hnodes, -⟩ := hinv.waiting r call hcall
  have hdid : d.id = id := findDeployment_id hinv.row
  have hunits : ∀ db, liveUnits d db = liveUnits call.obj.loaded db :=
    liveUnits_congr (hdid.trans hlid.symm) hnodes.symm
  obtain ⟨db', happ, hss⟩ := scaleInSession_ok hok
  obtain ⟨hmove, rfl⟩ := applyScale_ok happ
  rw [hss]
  obtain ⟨rows, hrows, hadd, hnd, hcard⟩ :=
    moveReplicas_rows s call.obj.loaded call.target clock hinv.ids
  have htables := (moveReplicas_tables s call.obj.loaded call.target clock c.db).1
  have hready : ∀ u ∈ liveUnits call.obj.loaded c.db, ∀ i ∈ u, i.state.isLive = true := by
    intro u hu
    rw [← hunits] at hu
    exact capacity_iff.mp (hinv.ready u hu)
  refine ⟨nodup_ids_call hinv.ids hrows hadd hnd, ?_, ?_, ?_, ?_⟩
  · change ((Db.writeDeployment _ _ _).deployments.map (·.id)).Nodup
    rw [ids_writeDeployment]
    exact htables.symm ▸ hinv.deployments
  · change (Db.writeDeployment (moveReplicas s call.obj.loaded call.target clock c.db).1
      call.assigned clock).findDeployment id = _
    rw [← hlid, ← call.assigned_loaded, findDeployment_writeDeployment_self, call.assigned_loaded,
      hlid]
    unfold Db.findDeployment
    rw [htables]
    exact congrArg (Option.map _) hinv.row
  · -- no live unit is left out of the count
    have hzero : ((liveUnits call.obj.loaded c.db).filter Unclassified).length = 0 := by
      rw [List.length_eq_zero_iff, List.filter_eq_nil_iff]
      intro u hu
      have hcap := capacity_iff.mpr (hready u hu)
      unfold Unclassified
      rcases hcap with hcap | hcap <;> simp [hcap]
    have hcount := length_liveUnits_call hinv.ids hrows hadd hnd (hcard hmove)
    change (liveUnits d (moveReplicas s call.obj.loaded call.target clock c.db).1).length =
      call.target
    rw [hunits]
    change (liveUnits call.obj.loaded (moveReplicas s call.obj.loaded call.target clock
      c.db).1).length = call.target + _ at hcount
    omega
  · intro u hu
    change u ∈ liveUnits d (moveReplicas s call.obj.loaded call.target clock c.db).1 at hu
    rw [hunits] at hu
    exact capacity_iff.mpr (ready_call hinv.ids hrows hadd hnd hready u hu)

theorem liveCount_flush (db : Db) (obj : DeploymentObj) (clock : ℕ) (d : Deployment) :
    liveCount db (flushDeployment obj clock d) = liveCount db d := rfl

/-- **A body that commits keeps the window exactly when its target fits the bounds it
does not write.** -/
theorem BodyDone.inWindow_iff {id : Uuid} {call : PendingCall} {clock : ℕ} {d : Deployment}
    {db' : Db} (h : BodyDone id call clock d db')
    (hbounds : call.setRange = false → call.obj.minReplicas ≤ call.obj.maxReplicas) :
    InWindow id db' ↔ call.Current d := by
  obtain ⟨hlo, hhi⟩ := call.target_mem_assigned hbounds
  have hrow : InWindow id db' ↔
      (flushDeployment call.assigned clock d).minReplicas ≤ call.target ∧
        call.target ≤ (flushDeployment call.assigned clock d).maxReplicas := by
    unfold InWindow
    rw [h.row]
    simp only [Option.mem_def, Option.some.injEq, exists_eq_left', liveCount_flush, h.count]
  rw [hrow]
  unfold flushDeployment flushColumn PendingCall.Current
  rw [call.assigned_loaded]
  simp only
  constructor
  · rintro ⟨hmin, hmax⟩
    exact ⟨fun heq => by rwa [if_pos heq] at hmin, fun heq => by rwa [if_pos heq] at hmax⟩
  · rintro ⟨hmin, hmax⟩
    constructor
    · split
      · rename_i heq
        exact hmin heq
      · exact hlo
    · split
      · rename_i heq
        exact hmax heq
      · exact hhi

/-- A `POST /scale` that commits pins the window when the bounds it does not write are
its target. -/
theorem BodyDone.pinned {id : Uuid} {call : PendingCall} {clock : ℕ} {d : Deployment} {db' : Db}
    (h : BodyDone id call clock d db') (hpost : call.setRange = true) (hpins : call.Pins d) :
    Pinned id db' := by
  have hassigned : call.assigned.minReplicas = call.target ∧
      call.assigned.maxReplicas = call.target := by
    unfold PendingCall.assigned pinWindow
    rw [hpost]
    exact ⟨rfl, rfl⟩
  refine ⟨_, h.row, ?_⟩
  rw [liveCount_flush, h.count]
  unfold flushDeployment flushColumn
  rw [call.assigned_loaded]
  simp only
  constructor
  · split
    · rename_i heq
      exact hpins.1 heq
    · exact hassigned.1
  · split
    · rename_i heq
      exact hpins.2 heq
    · exact hassigned.2

/-! ### Runs -/

/-- The row of the deployment keeps its nodes per replica; the rest of the invariant
goes with the row. -/
def RaceInv (id : Uuid) (c : Racing) : Prop := ∃ d, WindowInv id c d

/-- What an execution loads fits the invariant. -/
theorem load_fits {s : Settings} {id : Uuid} {db : Db} {d : Deployment}
    (hrow : db.findDeployment id = some d) {x : Execution} {call : PendingCall}
    (h : x.load s id db = some call) :
    call.obj.loaded = d ∧
      (call.setRange = false → call.obj.minReplicas ≤ call.obj.maxReplicas) := by
  cases x with
  | scale body =>
    unfold Execution.load at h
    rw [hrow] at h
    injection h with h
    subst h
    exact ⟨rfl, fun h => by cases h⟩
  | setRange body =>
    unfold Execution.load at h
    rw [hrow] at h
    injection h with h
    subst h
    exact ⟨rfl, fun _ => body.bounds.2.1⟩
  | tick m cooldown now =>
    simp only [Execution.load, hrow, Option.bind_some] at h
    split at h
    · rename_i hacts
      injection h with h
      subst h
      exact ⟨rfl, fun _ => hacts.1.le⟩
    · cases h

/-- A body fails and changes nothing, or it is done. -/
theorem body_cases (s : Settings) {id : Uuid} {c : Racing} {d : Deployment}
    (hinv : WindowInv id c d) {r : ℕ} {call : PendingCall} (hcall : c.waiting r = some call)
    (clock : ℕ) :
    ((c.next s id (.body r clock)).db = c.db ∧
      (c.next s id (.body r clock)).commits = c.commits) ∨
    (BodyDone id call clock d (c.next s id (.body r clock)).db ∧
      (c.next s id (.body r clock)).commits = c.commits + 1) := by
  rw [Racing.next_body_some s id hcall clock]
  simp only
  by_cases hok : (scaleInSession s call.obj call.replicas call.setRange clock
      (Session.fresh c.db)).2 = .ok ()
  · refine Or.inr ⟨bodyDone hinv hcall hok, ?_⟩
    rw [hok]
    rfl
  · refine Or.inl ⟨scaleInSession_error hok, ?_⟩
    cases hres : (scaleInSession s call.obj call.replicas call.setRange clock
      (Session.fresh c.db)).2 with
    | error e => rfl
    | ok u => exact absurd hres hok

/-- Every move keeps the invariant. -/
theorem raceInv_next (s : Settings) (id : Uuid) (c : Racing) (e : Race) (hinv : RaceInv id c) :
    RaceInv id (c.next s id e) := by
  obtain ⟨d, hinv⟩ := hinv
  cases e with
  | load r x =>
    refine ⟨d, hinv.ids, hinv.deployments, hinv.row, hinv.ready, ?_⟩
    intro r' call hcall
    change Function.update c.waiting r (x.load s id c.db) r' = some call at hcall
    by_cases hr : r' = r
    · subst hr
      rw [Function.update_self] at hcall
      obtain ⟨hloaded, hbounds⟩ := load_fits hinv.row hcall
      rw [hloaded]
      exact ⟨findDeployment_id hinv.row, rfl, hbounds⟩
    · rw [Function.update_of_ne hr] at hcall
      exact hinv.waiting r' call hcall
  | body r clock =>
    cases hcall : c.waiting r with
    | none =>
      rw [Racing.next_body_none s id hcall]
      exact ⟨d, hinv⟩
    | some call =>
      -- the calls that still wait were waiting before
      have hwait : ∀ r' call', (c.next s id (.body r clock)).waiting r' = some call' →
          c.waiting r' = some call' := by
        intro r' call' hcall'
        rw [Racing.next_body_some s id hcall] at hcall'
        change Function.update c.waiting r none r' = some call' at hcall'
        by_cases hr : r' = r
        · subst hr
          rw [Function.update_self] at hcall'
          cases hcall'
        · rwa [Function.update_of_ne hr] at hcall'
      rcases body_cases s hinv hcall clock with ⟨hdb, -⟩ | ⟨hdone, -⟩
      · refine ⟨d, ?_, ?_, ?_, ?_, fun r' call' h' => hinv.waiting r' call' (hwait r' call' h')⟩
        · rw [hdb]; exact hinv.ids
        · rw [hdb]; exact hinv.deployments
        · rw [hdb]; exact hinv.row
        · rw [hdb]; exact hinv.ready
      · exact ⟨_, hdone.ids, hdone.deployments, hdone.row, hdone.ready,
          fun r' call' h' => hinv.waiting r' call' (hwait r' call' h')⟩

theorem inWindow_next {s : Settings} {id : Uuid} (c : Racing) (e : Race)
    (h : RaceInv id c ∧ InWindow id c.db) (hok : AtLock PendingCall.Current id c e) :
    RaceInv id (c.next s id e) ∧ InWindow id (c.next s id e).db := by
  refine ⟨raceInv_next s id c e h.1, ?_⟩
  obtain ⟨⟨d, hinv⟩, hwin⟩ := h
  cases e with
  | load r x => exact hwin
  | body r clock =>
    cases hcall : c.waiting r with
    | none =>
      rw [Racing.next_body_none s id hcall]
      exact hwin
    | some call =>
      rcases body_cases s hinv hcall clock with ⟨hdb, -⟩ | ⟨hdone, -⟩
      · rw [hdb]
        exact hwin
      · exact (hdone.inWindow_iff (hinv.waiting r call hcall).2.2).mpr
          (hok call hcall d hinv.row)

/-- What is known of a run of `POST /scale` requests only; `p` says that the window
was pinned at its start. -/
structure PostInv (id : Uuid) (p : Prop) (c : Racing) : Prop where
  race : RaceInv id c
  posts : ∀ r call, c.waiting r = some call → call.setRange = true
  pinned : 0 < c.commits ∨ p → Pinned id c.db

theorem postInv_next {s : Settings} {id : Uuid} {p : Prop} (c : Racing) (e : Race)
    (h : PostInv id p c) (hok : e.isPost = true ∧ AtLock PendingCall.Pins id c e) :
    PostInv id p (c.next s id e) := by
  refine ⟨raceInv_next s id c e h.race, ?_, ?_⟩
  · intro r call hcall
    cases e with
    | load r' x =>
      cases x with
      | scale body =>
        change Function.update c.waiting r' _ r = some call at hcall
        by_cases hr : r = r'
        · subst hr
          rw [Function.update_self] at hcall
          obtain ⟨d, -, rfl⟩ := Option.map_eq_some_iff.mp hcall
          rfl
        · rw [Function.update_of_ne hr] at hcall
          exact h.posts r call hcall
      | setRange body => cases hok.1
      | tick m cooldown now => cases hok.1
    | body r' clock =>
      cases hcall' : c.waiting r' with
      | none =>
        rw [Racing.next_body_none s id hcall'] at hcall
        exact h.posts r call hcall
      | some call' =>
        rw [Racing.next_body_some s id hcall'] at hcall
        change Function.update c.waiting r' none r = some call at hcall
        by_cases hr : r = r'
        · subst hr
          rw [Function.update_self] at hcall
          cases hcall
        · rw [Function.update_of_ne hr] at hcall
          exact h.posts r call hcall
  · obtain ⟨d, hinv⟩ := h.race
    cases e with
    | load r x => exact h.pinned
    | body r clock =>
      cases hcall : c.waiting r with
      | none =>
        rw [Racing.next_body_none s id hcall]
        exact h.pinned
      | some call =>
        rcases body_cases s hinv hcall clock with ⟨hdb, hcommits⟩ | ⟨hdone, -⟩
        · rw [hdb, hcommits]
          exact h.pinned
        · intro _
          exact hdone.pinned (h.posts r call hcall) (hok.2 call hcall d hinv.row)

/-- The state a race starts from: the count is within the window, every live unit is
serving or pending, and nothing has been loaded. -/
structure RaceStart (id : Uuid) (c : Racing) : Prop where
  ids : (c.db.instances.map (·.id)).Nodup
  deployments : (c.db.deployments.map (·.id)).Nodup
  window : InWindow id c.db
  ready : ∀ d ∈ c.db.findDeployment id, ∀ u ∈ liveUnits d c.db,
    unitServing u = true ∨ unitPending u = true
  waiting : ∀ r, c.waiting r = none
  commits : c.commits = 0

theorem RaceStart.race {id : Uuid} {c : Racing} (h : RaceStart id c) : RaceInv id c := by
  obtain ⟨d, hd, -⟩ := h.window
  refine ⟨d, h.ids, h.deployments, hd, h.ready d hd, ?_⟩
  intro r call hcall
  rw [h.waiting r] at hcall
  cases hcall

/-- **When the window survives.**  In every run in which each body finds its target
within the bounds it does not write, the count is within the committed window in
every state; a further body that commits keeps it there exactly when that holds at
its lock.  In a run of `POST /scale` requests only in which the bounds a body does
not write are its target, the window is the count once a request has committed. -/
theorem window_survives (s : Settings) (id : Uuid) (c : Racing) (h0 : RaceStart id c)
    (es : List Race) :
    (Conforms (Racing.next s id) (AtLock PendingCall.Current id) c es →
      InWindow id (exec (Racing.next s id) c es).db ∧
      ∀ (r clock : ℕ) (call : PendingCall) (row : Deployment),
        (exec (Racing.next s id) c es).waiting r = some call →
        (exec (Racing.next s id) c es).db.findDeployment id = some row →
        (exec (Racing.next s id) c es).commits <
          ((exec (Racing.next s id) c es).next s id (.body r clock)).commits →
        (InWindow id ((exec (Racing.next s id) c es).next s id (.body r clock)).db ↔
          call.Current row)) ∧
    (Conforms (Racing.next s id)
        (fun c e => e.isPost = true ∧ AtLock PendingCall.Pins id c e) c es →
      0 < (exec (Racing.next s id) c es).commits ∨ Pinned id c.db →
        Pinned id (exec (Racing.next s id) c es).db) := by
  constructor
  · intro hok
    obtain ⟨⟨d, hinv⟩, hwin⟩ := invariant_of_conforms (fun c => RaceInv id c ∧ InWindow id c.db)
      inWindow_next es c ⟨h0.race, h0.window⟩ hok
    refine ⟨hwin, ?_⟩
    intro r clock call row hcall hrow hcommits
    have hd : row = d := Option.some.inj (hrow.symm.trans hinv.row)
    subst hd
    rcases body_cases s hinv hcall clock with ⟨-, hsame⟩ | ⟨hdone, -⟩
    · omega
    · exact hdone.inWindow_iff (hinv.waiting r call hcall).2.2
  · intro hok
    have hstart : PostInv id (Pinned id c.db) c := by
      refine ⟨h0.race, ?_, ?_⟩
      · intro r call hcall
        rw [h0.waiting r] at hcall
        cases hcall
      · rw [h0.commits]
        rintro (h | h)
        · exact absurd h (lt_irrefl 0)
        · exact h
    exact (invariant_of_conforms (PostInv id (Pinned id c.db)) postInv_next es c hstart hok).pinned

/-! ### Two requests at once -/

/-- A deployment pinned to one replica, on a worker with three GPUs. -/
def raceStart : Racing where
  db := {
    clusters := [⟨1, "default"⟩]
    workers := [{ id := 1, clusterId := 1, name := "node", hostname := "node", state := .connected,
                  tokenHash := "token",
                  gpus := [⟨0, .nvidia, 10⟩, ⟨1, .nvidia, 10⟩, ⟨2, .nvidia, 10⟩] }]
    models := [{ id := 1, name := "llama", category := "llm", vramRequiredMb := 10,
                 supportedEngines := [.vllm] }]
    deployments := [{ id := 1, modelId := 1, clusterId := 1, engine := .vllm, profile := .latency }]
    instances := [{ id := 2, modelId := 1, clusterId := 1, workerId := some 1, deploymentId := 1,
                    engine := .vllm, profile := .latency, gpuIndexes := [0], state := .running,
                    port := some 8010 }]
    lastUuid := 2 }
  waiting := fun _ => none

theorem raceStart_ready : RaceStart 1 raceStart where
  ids := by decide
  deployments := by decide
  window := by unfold InWindow; decide +kernel
  ready := by decide +kernel
  waiting _ := rfl
  commits := rfl

/-- A request for three replicas and one for two, one after the other. -/
def orderlyRace : List Race :=
  [.load 1 (.scale ⟨3, bounds_three⟩), .body 1 5, .load 2 (.scale ⟨2, bounds_two⟩), .body 2 6]

theorem window_survives_orderly :
    RaceStart 1 raceStart ∧
      Conforms (Racing.next {} 1) (AtLock PendingCall.Current 1) raceStart orderlyRace ∧
      (exec (Racing.next {} 1) raceStart orderlyRace).commits = 2 ∧
      InWindow 1 (exec (Racing.next {} 1) raceStart orderlyRace).db :=
  ⟨raceStart_ready, by decide +kernel, by decide +kernel,
    ((window_survives {} 1 raceStart raceStart_ready orderlyRace).1 (by decide +kernel)).1⟩

/-- A request for one replica loads the deployment, then one for three runs, then the
first gets the lock.  One is what it loaded, so it leaves the window at three. -/
def staleRace : List Race :=
  [.load 2 (.scale ⟨1, bounds_one⟩), .load 1 (.scale ⟨3, bounds_three⟩), .body 1 5, .body 2 6]

/-- **Two concurrent `POST /scale` break the window.** -/
theorem stale_scale_breaks_window :
    ¬ ∀ (s : Settings) (id : Uuid) (c : Racing), RaceStart id c → ∀ es : List Race,
      (∀ e ∈ es, e.isPost = true) → InWindow id (exec (Racing.next s id) c es).db := by
  intro h
  have hrun := h {} 1 raceStart raceStart_ready staleRace (by decide)
  unfold InWindow at hrun
  revert hrun
  decide +kernel

end Inferna
