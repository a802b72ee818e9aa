import Inferna.TickRollback
import Inferna.Window

/-!
# One step per autoscaler tick

The tick counts the units that are to run and proposes one more or one less.  The scale it
calls clamps the proposal to the window and counts again, by the states of the ranks.  A
unit that is to run and is neither serving, nor pending, nor broken is in the first count
only; then the report is not what has been committed.  A scale that raises leaves what it
has changed to the next commit of the pass.

## Main definitions

* `OneStep` — what a tick is to do with a deployment.
* `ghostCount` — the live units that `apply_scale` does not see.
* `CommitsIn` — some scale commits in the rest of a pass.
* `ScaleFits`, `LeftoverFits`, `TickFits` — the condition.

## Main results

* `unitCount_eq` — `_unit_count` is the number of live units.
* `tickTarget_cases` — the policy stays, or goes one up or one down.
* `liveCount_call` — what a call does to the count, whether it succeeds or not.
* `oneStep_iff` — **a tick makes one step of a deployment exactly when the step fits.**
* `ghost_unit_steps_twice` — a tick that leaves the window.
-/

namespace Inferna

/-! ### Counts -/

theorem liveCount_congr {db db' : Db} {d : Deployment}
    (h : db'.instancesOf d.id = db.instancesOf d.id) : liveCount db' d = liveCount db d := by
  unfold liveCount
  rw [h]

/-- `_unit_count` is the number of live units. -/
theorem unitCount_eq {db : Db} (hids : (db.instances.map (·.id)).Nodup) (d : Deployment) :
    unitCount d.nodesPerReplica (db.instancesOf d.id) = liveCount db d := by
  set n := d.nodesPerReplica
  have hids' := nodup_instancesOf hids d.id
  have hcard := card_unitKeys hids' (nodup_liveUnits hids d) liveUnits_subset
  change _ = liveCount db d at hcard
  have hkeys : unitKeys n (liveUnits d db) =
      (((db.instancesOf d.id).filter (·.desiredState = .running)).map (keyOf n)).toFinset := by
    ext k
    rw [mem_unitKeys_liveUnits hids, List.mem_toFinset, List.mem_map]
    simp only [List.mem_filter, decide_eq_true_eq, and_assoc]
    rfl
  rw [← hcard, hkeys]
  unfold unitCount keyOf
  split
  · have hnd : (((db.instancesOf d.id).filter (·.desiredState = .running)).map (·.id)).Nodup :=
      (List.filter_sublist.map _).nodup hids'
    rw [List.toFinset_card_of_nodup hnd, List.length_map]
  · rw [List.card_toFinset]

/-- The policy stays, or goes one up or one down. -/
theorem tickTarget_cases {s : Settings} (m : Metrics) {db : Db}
    (hids : (db.instances.map (·.id)).Nodup) (d : Deployment) :
    tickTarget s m db d = liveCount db d ∨
      (liveCount db d < d.maxReplicas ∧ tickTarget s m db d = liveCount db d + 1) ∨
      (d.minReplicas < liveCount db d ∧ tickTarget s m db d + 1 = liveCount db d) := by
  unfold tickTarget
  rw [unitCount_eq hids]
  unfold desiredReplicas
  split
  · exact Or.inl rfl
  split
  · rename_i h
    right; left
    omega
  split
  · rename_i h
    right; right
    omega
  · exact Or.inl rfl

/-- The live units that are neither serving, nor pending, nor broken. -/
def ghostCount (d : Deployment) (db : Db) : ℕ := ((liveUnits d db).filter Unclassified).length

section Call

variable {s : Settings} {d : Deployment} {target clock : ℕ} {db : Db}

/-- **What a call does to the count**: the stopped units go and the inserted ones come. -/
theorem liveCount_call (hids : (db.instances.map (·.id)).Nodup) :
    liveCount (applyScale s d.load target false clock db).1 d +
        (stoppedUnits d db (clampReplicas d.minReplicas d.maxReplicas target)).length =
      liveCount db d +
        addedUnits s d (clampReplicas d.minReplicas d.maxReplicas target) clock db := by
  obtain ⟨rows, hrows, hadd, hnd, hcard⟩ :=
    moveReplicas_added s d (clampReplicas d.minReplicas d.maxReplicas target) clock hids
  have hinst := applyScale_instances s d.load target false clock db
  rw [← hcard]
  exact length_liveUnits_rows hids (hinst.trans hrows) hadd hnd

/-- A call that succeeds ends with the clamped target and the ghosts. -/
theorem liveCount_ok (hids : (db.instances.map (·.id)).Nodup)
    (hok : (applyScale s d.load target false clock db).2.toBool = true) :
    liveCount (applyScale s d.load target false clock db).1 d =
      clampReplicas d.minReplicas d.maxReplicas target + ghostCount d db := by
  have hmove : (moveReplicas s d (scaleTarget d.load target false) clock db).2 = .ok () := by
    rcases happ : applyScale s d.load target false clock db with ⟨db', e | u⟩
    · rw [happ] at hok
      cases hok
    · exact (applyScale_ok happ).1
  obtain ⟨rows, hrows, hadd, hnd, hcard⟩ :=
    moveReplicas_rows s d (scaleTarget d.load target false) clock hids
  have hinst := applyScale_instances s d.load target false clock db
  exact length_liveUnits_call hids (hinst.trans hrows) hadd hnd (hcard hmove)

/-- A call that raises has stopped the broken units and inserted what found room. -/
theorem liveCount_raised (hids : (db.instances.map (·.id)).Nodup)
    (herr : (applyScale s d.load target false clock db).2.toBool = false) :
    liveCount (applyScale s d.load target false clock db).1 d =
      liveCount db d - (brokenUnits d db).length +
        addedUnits s d (clampReplicas d.minReplicas d.maxReplicas target) clock db := by
  have hcall := @liveCount_call s d target clock db hids
  have hlt : (capacityUnits d db).length < clampReplicas d.minReplicas d.maxReplicas target := by
    by_contra hge
    have hmove : moveReplicas s d (scaleTarget d.load target false) clock db =
        (_, .ok ()) := if_neg hge
    rcases applyScale_cases s d.load target false clock db with ⟨e, hraised, -⟩ | ⟨-, heq⟩
    · rw [show d.load.loaded = d from rfl, hmove] at hraised
      cases hraised
    · rw [heq] at herr
      cases herr
  have hle : (brokenUnits d db).length ≤ liveCount db d := by
    show _ ≤ (liveUnits d db).length
    exact List.length_filter_le _ _
  rw [length_stoppedUnits] at hcall
  omega

end Call

/-! ### The step and its condition -/

/-- What a tick is to do with the deployment `d` of the tables `db`. -/
structure OneStep (db : Db) (t : TickState) (d : Deployment) : Prop where
  up : ∀ n, (d.id, .up, n) ∈ t.actions →
    liveCount t.session.committed d = liveCount db d + 1 ∧ liveCount t.session.committed d = n
  down : ∀ n, (d.id, .down, n) ∈ t.actions →
    liveCount t.session.committed d + 1 = liveCount db d ∧ liveCount t.session.committed d = n
  quiet : d.id ∉ t.actions.map (·.1) → d.id ∉ t.failed.map (·.1) →
    t.session.committed.rowsOf d.id = db.rowsOf d.id
  window : d.minReplicas ≤ liveCount db d → liveCount db d ≤ d.maxReplicas →
    d.minReplicas ≤ liveCount t.session.committed d ∧
      liveCount t.session.committed d ≤ d.maxReplicas

section Tick

variable (s : Settings) (m : Metrics) (clock : ℕ) (now : ℚ)

/-- Some scale commits in the rest of a pass. -/
def CommitsIn : TickState → List Deployment → Prop
  | _, [] => False
  | st, d :: ds => TickCommits s m clock now st d ∨ CommitsIn (tickStep s m clock now st d) ds

/-- The call raises. -/
def TickRaises (st : TickState) (d : Deployment) : Prop :=
  TickCalls s m now st d ∧ (tickCall s m clock st d).2.toBool = false

/-- The proposal is not below the window, and the ghosts make up for what it is above it. -/
def ScaleFits (st : TickState) (d : Deployment) : Prop :=
  d.minReplicas ≤ tickTarget s m st.session.working d ∧
    ghostCount d st.session.working = tickTarget s m st.session.working d - d.maxReplicas

/-- What is left of a window's units when the broken ones are stopped and those that find
room are inserted is in the window. -/
def LeftoverFits (st : TickState) (d : Deployment) : Prop :=
  let db := st.session.working
  let left := liveCount db d - (brokenUnits d db).length + addedUnits s d
    (clampReplicas d.minReplicas d.maxReplicas (tickTarget s m db d)) clock db
  d.minReplicas ≤ liveCount db d → liveCount db d ≤ d.maxReplicas →
    d.minReplicas ≤ left ∧ left ≤ d.maxReplicas

/-- The scale fits, or its call raises and what it leaves fits or is never committed. -/
def VisitFits (st : TickState) (d : Deployment) (rest : List Deployment) : Prop :=
  (TickCommits s m clock now st d → ScaleFits s m st d) ∧
    (TickRaises s m clock now st d → CommitsIn s m clock now (tickStep s m clock now st d) rest →
      LeftoverFits s m clock st d)

/-- The condition, at the visit of the deployment. -/
def FitsFrom (id : Uuid) : TickState → List Deployment → Prop
  | _, [] => True
  | st, d :: ds =>
    if d.id = id then VisitFits s m clock now st d ds
    else FitsFrom id (tickStep s m clock now st d) ds

/-- **The step fits**: a scale that commits proposes a target within the window and there is
no ghost, or as many as the target is above it; what a scale that raises leaves stays in the
window, unless no scale commits after it. -/
def TickFits (cooldown : Dict Uuid ℚ) (db : Db) (id : Uuid) : Prop :=
  FitsFrom s m clock now id ⟨Session.fresh db, cooldown, [], [], false⟩ (windowedDeployments db)

instance decidableCommitsIn : ∀ (st : TickState) (ds : List Deployment),
    Decidable (CommitsIn s m clock now st ds)
  | _, [] => isFalse id
  | st, d :: ds =>
    haveI := decidableCommitsIn (tickStep s m clock now st d) ds
    inferInstanceAs (Decidable (_ ∨ _))

instance (st : TickState) (d : Deployment) : Decidable (TickRaises s m clock now st d) :=
  inferInstanceAs (Decidable (_ ∧ _))

instance (st : TickState) (d : Deployment) : Decidable (ScaleFits s m st d) :=
  inferInstanceAs (Decidable (_ ∧ _))

instance (st : TickState) (d : Deployment) : Decidable (LeftoverFits s m clock st d) :=
  inferInstanceAs (Decidable (_ → _ → _ ∧ _))

instance (st : TickState) (d : Deployment) (rest : List Deployment) :
    Decidable (VisitFits s m clock now st d rest) :=
  inferInstanceAs (Decidable ((_ → _) ∧ (_ → _ → _)))

instance decidableFitsFrom (id : Uuid) : ∀ (st : TickState) (ds : List Deployment),
    Decidable (FitsFrom s m clock now id st ds)
  | _, [] => isTrue trivial
  | st, d :: ds =>
    haveI := decidableFitsFrom id (tickStep s m clock now st d) ds
    inferInstanceAs (Decidable (if d.id = id then VisitFits s m clock now st d ds
      else FitsFrom s m clock now id (tickStep s m clock now st d) ds))

instance (cooldown : Dict Uuid ℚ) (db : Db) (id : Uuid) :
    Decidable (TickFits s m clock now cooldown db id) :=
  inferInstanceAs (Decidable (FitsFrom s m clock now id _ _))

variable {s m clock now}

theorem not_tickRaises_of_ok {st : TickState} {d : Deployment}
    (hok : (tickCall s m clock st d).2.toBool = true) : ¬ TickRaises s m clock now st d := by
  rintro ⟨-, herr⟩
  rw [hok] at herr
  cases herr

/-- What a scale that commits adds to the report. -/
def tickRow (s : Settings) (m : Metrics) (st : TickState) (d : Deployment) :
    Uuid × ScaleAction × ℕ :=
  (d.id,
    if unitCount d.nodesPerReplica (st.session.working.instancesOf d.id) <
      tickTarget s m st.session.working d then .up else .down,
    tickTarget s m st.session.working d)

theorem actions_tickStep (st : TickState) (d : Deployment) :
    (TickCommits s m clock now st d →
      (tickStep s m clock now st d).actions = st.actions ++ [tickRow s m st d]) ∧
    (¬ TickCommits s m clock now st d → (tickStep s m clock now st d).actions = st.actions) := by
  by_cases hcalls : TickCalls s m now st d
  · have hcall : ¬ (st.dead = true ∨
        ¬ tickActs s m st.cooldown now st.session.working d = true) := by
      rw [not_or, not_not, Bool.not_eq_true]
      exact hcalls
    unfold TickCommits tickStep
    simp only [if_neg hcall]
    unfold scaleInSession
    rcases happ : tickCall s m clock st d with ⟨db', e | u⟩
    · unfold tickCall at happ
      rw [happ]
      exact ⟨fun h => absurd h.2.1 Bool.false_ne_true, fun _ => rfl⟩
    · unfold tickCall at happ
      rw [happ]
      simp only [Session.commit]
      cases hv : db'.violation with
      | none => exact ⟨fun _ => rfl, fun h => absurd ⟨hcalls, rfl, rfl⟩ h⟩
      | some c => exact ⟨fun h => absurd h.2.2 (Option.some_ne_none c), fun _ => rfl⟩
  · have hno : ¬ TickCommits s m clock now st d := fun h => hcalls h.1
    refine ⟨fun h => absurd h hno, fun _ => ?_⟩
    rcases @tickStep_cases s m clock now st d with
      ⟨-, heq⟩ | ⟨h, -⟩ | ⟨h, -⟩ | ⟨h, -⟩
    · rw [heq]
    · exact absurd h hcalls
    · exact absurd h hno
    · exact absurd h hcalls

/-! ### The rest of a pass -/

/-- A dead session commits nothing. -/
theorem not_commitsIn_of_dead (ds : List Deployment) :
    ∀ st : TickState, st.dead = true → ¬ CommitsIn s m clock now st ds := by
  induction ds with
  | nil => exact fun _ _ h => h
  | cons d ds ih =>
    intro st hdead h
    have hno : ¬ TickCalls s m now st d := by
      rintro ⟨hlive, -⟩
      rw [hdead] at hlive
      cases hlive
    rcases @tickStep_cases s m clock now st d with
      ⟨-, heq⟩ | ⟨hc, -⟩ | ⟨hc, -⟩ | ⟨hc, -⟩
    · rcases h with hcommit | hrest
      · exact hno hcommit.1
      · rw [heq] at hrest
        exact ih st hdead hrest
    · exact hno hc
    · exact hno hc.1
    · exact hno hc

/-- **The rows of a deployment that is not visited any more** are stored by the next commit,
as the session has them. -/
theorem rowsOf_rest {k : Uuid} (ds : List Deployment) :
    ∀ st : TickState, k ∉ ds.map (·.id) → (st.session.committed.instances.map (·.id)).Nodup →
      (st.session.working.instances.map (·.id)).Nodup →
      (ds.foldl (tickStep s m clock now) st).session.committed.rowsOf k =
        if CommitsIn s m clock now st ds then st.session.working.rowsOf k
        else st.session.committed.rowsOf k := by
  induction ds with
  | nil => exact fun st _ _ _ => rfl
  | cons d ds ih =>
    intro st hk hcom hwork
    rw [List.map_cons, List.mem_cons, not_or] at hk
    have hcall : (tickCall s m clock st d).1.rowsOf k = st.session.working.rowsOf k :=
      rowsOf_applyScale_of_ne hwork hk.1
    have hnodup : ((tickCall s m clock st d).1.instances.map (·.id)).Nodup :=
      nodup_applyScale hwork
    have hor : CommitsIn s m clock now st (d :: ds) ↔ TickCommits s m clock now st d ∨
        CommitsIn s m clock now (tickStep s m clock now st d) ds := Iff.rfl
    rw [List.foldl_cons]
    rcases @tickStep_cases s m clock now st d with
      ⟨hno, heq⟩ | ⟨hcalls, e, herr, hsession, -⟩ | ⟨hcommit, hsession, -⟩ |
      ⟨hcalls, hok, hno, c, hsession, -, hdead⟩
    · -- skipped
      have hiff : CommitsIn s m clock now st (d :: ds) ↔ CommitsIn s m clock now st ds := by
        rw [hor, heq, or_iff_right fun h => hno h.1]
      rw [heq, ih st hk.2 hcom hwork]
      simp only [hiff]
    · -- raised
      rw [or_iff_right (not_tickCommits_of_error herr)] at hor
      rw [ih _ hk.2 (by rw [hsession]; exact hcom) (by rw [hsession]; exact hnodup)]
      simp only [hor, hsession, hcall]
    · -- committed
      rw [ih _ hk.2 (by rw [hsession]; exact hnodup) (by rw [hsession]; exact hnodup),
        if_pos (hor.mpr (Or.inl hcommit))]
      simp only [hsession, hcall, ite_self]
    · -- refused
      have hrest := @not_commitsIn_of_dead s m clock now ds _ hdead
      rw [ih _ hk.2 (by rw [hsession]; exact hcom) (by rw [hsession]; exact hcom), if_neg hrest,
        if_neg fun h => (hor.mp h).elim hno hrest, hsession]

/-- What the report and the failures say of it stays as well. -/
theorem report_rest {k : Uuid} (ds : List Deployment) : ∀ st : TickState, k ∉ ds.map (·.id) →
    (∀ x : ScaleAction × ℕ, (k, x) ∈ (ds.foldl (tickStep s m clock now) st).actions ↔
      (k, x) ∈ st.actions) ∧
    (k ∈ (ds.foldl (tickStep s m clock now) st).failed.map (·.1) ↔ k ∈ st.failed.map (·.1)) := by
  induction ds with
  | nil => exact fun _ _ => ⟨fun _ => Iff.rfl, Iff.rfl⟩
  | cons d ds ih =>
    intro st hk
    rw [List.map_cons, List.mem_cons, not_or] at hk
    obtain ⟨hact, hfail⟩ := ih (tickStep s m clock now st d) hk.2
    rw [List.foldl_cons]
    have hrow : ∀ x : ScaleAction × ℕ, (k, x) ∈ (tickStep s m clock now st d).actions ↔
        (k, x) ∈ st.actions := by
      intro x
      obtain ⟨hyes, hno⟩ := @actions_tickStep s m clock now st d
      by_cases hc : TickCommits s m clock now st d
      · rw [hyes hc, List.mem_append, List.mem_singleton]
        refine or_iff_left fun heq => hk.1 (congrArg Prod.fst heq)
      · rw [hno hc]
    have hfails : k ∈ (tickStep s m clock now st d).failed.map (·.1) ↔ k ∈ st.failed.map (·.1) := by
      rcases @tickStep_cases s m clock now st d with
        ⟨-, heq⟩ | ⟨-, e, -, -, heq, -⟩ | ⟨-, -, heq⟩ | ⟨-, -, -, c, -, heq, -⟩
      · rw [heq]
      · rw [heq, List.map_append, List.mem_append, List.map_singleton, List.mem_singleton]
        exact or_iff_left hk.1
      · rw [heq]
      · rw [heq, List.map_append, List.mem_append, List.map_singleton, List.mem_singleton]
        exact or_iff_left hk.1
    exact ⟨fun x => (hact x).trans (hrow x), hfail.trans hfails⟩

/-! ### The visit of a deployment -/

/-- The deployment has not been visited. -/
structure Unvisited (db : Db) (st : TickState) (id : Uuid) : Prop where
  committed : (st.session.committed.instances.map (·.id)).Nodup
  working : (st.session.working.instances.map (·.id)).Nodup
  rows : st.session.committed.rowsOf id = db.rowsOf id ∧ st.session.working.rowsOf id = db.rowsOf id
  actions : ∀ x : ScaleAction × ℕ, (id, x) ∉ st.actions
  failed : id ∉ st.failed.map (·.1)

theorem Unvisited.step {db : Db} {st : TickState} {id : Uuid} (h : Unvisited db st id)
    {d : Deployment} (hne : id ≠ d.id) : Unvisited db (tickStep s m clock now st d) id := by
  have hkeep := @preserves_tickStep s m clock now
    (fun t => (t.instances.map (·.id)).Nodup ∧ t.rowsOf id = db.rowsOf id) d
    (fun t target ht => ⟨nodup_applyScale ht.1, (rowsOf_applyScale_of_ne ht.1 hne).trans ht.2⟩) st
    ⟨⟨h.committed, h.rows.1⟩, h.working, h.rows.2⟩
  have hreport := @report_rest s m clock now id [d] st (by simpa using hne)
  exact ⟨hkeep.1.1, hkeep.2.1, ⟨hkeep.1.2, hkeep.2.2⟩,
    fun x hx => h.actions x ((hreport.1 x).mp hx), fun hx => h.failed (hreport.2.mp hx)⟩

/-- A deployment without an entry in the report and with the rows it had. -/
theorem OneStep.of_rows {db : Db} {t : TickState} {d : Deployment}
    (hactions : ∀ x : ScaleAction × ℕ, (d.id, x) ∉ t.actions)
    (hrows : t.session.committed.rowsOf d.id = db.rowsOf d.id) : OneStep db t d := by
  have hcount := liveCount_congr (congrArg Prod.fst hrows)
  refine ⟨fun n hn => absurd hn (hactions _), fun n hn => absurd hn (hactions _),
    fun _ _ => hrows, fun hlo hhi => ?_⟩
  rw [hcount]
  exact ⟨hlo, hhi⟩

/-- The report of a scale that commits is what was done exactly when the scale fits. -/
theorem oneStep_committed {db : Db} {t st : TickState} {d : Deployment} (h : Unvisited db st d.id)
    (hwin : d.minReplicas < d.maxReplicas) (hcommit : TickCommits s m clock now st d)
    (hactions : ∀ x : ScaleAction × ℕ, (d.id, x) ∈ t.actions ↔ (d.id, x) = tickRow s m st d)
    (hrows : t.session.committed.rowsOf d.id = (tickCall s m clock st d).1.rowsOf d.id) :
    OneStep db t d ↔ ScaleFits s m st d := by
  have hbefore : liveCount st.session.working d = liveCount db d :=
    liveCount_congr (congrArg Prod.fst h.rows.2)
  have hafter : liveCount t.session.committed d =
      clampReplicas d.minReplicas d.maxReplicas (tickTarget s m st.session.working d) +
        ghostCount d st.session.working :=
    (liveCount_congr (congrArg Prod.fst hrows)).trans (liveCount_ok h.working hcommit.2.1)
  have hacts := hcommit.1.2
  unfold tickActs at hacts
  rw [unitCount_eq h.working, decide_eq_true_eq] at hacts
  have hcases := tickTarget_cases (s := s) m h.working d
  unfold ScaleFits
  unfold tickRow at hactions
  rw [unitCount_eq h.working] at hactions
  set target := tickTarget s m st.session.working d
  unfold clampReplicas at hafter
  have hmem : ∀ a n, (d.id, a, n) ∈ t.actions ↔
      a = (if liveCount st.session.working d < target then ScaleAction.up else .down) ∧
        n = target := by
    intro a n
    rw [hactions]
    simp
  have hfits : liveCount t.session.committed d = target ↔
      d.minReplicas ≤ target ∧ ghostCount d st.session.working = target - d.maxReplicas := by
    omega
  rw [← hfits]
  constructor
  · intro hone
    by_cases hlt : liveCount st.session.working d < target
    · exact (hone.up target ((hmem _ _).mpr ⟨(if_pos hlt).symm, rfl⟩)).2
    · exact (hone.down target ((hmem _ _).mpr ⟨(if_neg hlt).symm, rfl⟩)).2
  · intro heq
    refine ⟨?_, ?_, ?_, ?_⟩
    · intro n hn
      obtain ⟨hup, rfl⟩ := (hmem _ _).mp hn
      have hlt : liveCount st.session.working d < target := by
        by_contra hge
        rw [if_neg hge] at hup
        cases hup
      omega
    · intro n hn
      obtain ⟨hdown, rfl⟩ := (hmem _ _).mp hn
      have hge : ¬ liveCount st.session.working d < target := by
        intro hlt
        rw [if_pos hlt] at hdown
        cases hdown
      omega
    · intro hno _
      refine absurd (List.mem_map.mpr ⟨_, (hmem _ _).mpr ⟨rfl, rfl⟩, rfl⟩) hno
    · intro hlo hhi
      omega

/-- What a scale that raises leaves, once a later scale commits it, is one step exactly when it
fits. -/
theorem oneStep_raised {db : Db} {t st : TickState} {d : Deployment} (h : Unvisited db st d.id)
    (hraises : TickRaises s m clock now st d)
    (hactions : ∀ x : ScaleAction × ℕ, (d.id, x) ∉ t.actions) (hfail : d.id ∈ t.failed.map (·.1))
    (hrows : t.session.committed.rowsOf d.id = (tickCall s m clock st d).1.rowsOf d.id) :
    OneStep db t d ↔ LeftoverFits s m clock st d := by
  have hbefore : liveCount st.session.working d = liveCount db d :=
    liveCount_congr (congrArg Prod.fst h.rows.2)
  have hafter := (liveCount_congr (congrArg Prod.fst hrows)).trans
    (liveCount_raised h.working hraises.2)
  have hleft : LeftoverFits s m clock st d ↔ (d.minReplicas ≤ liveCount db d →
      liveCount db d ≤ d.maxReplicas → d.minReplicas ≤ liveCount t.session.committed d ∧
        liveCount t.session.committed d ≤ d.maxReplicas) := by
    rw [hafter, ← hbefore]
    rfl
  rw [hleft]
  refine ⟨OneStep.window, fun hwindow => ?_⟩
  exact ⟨fun n hn => absurd hn (hactions _), fun n hn => absurd hn (hactions _),
    fun _ hnot => absurd hfail hnot, hwindow⟩

/-- **The visit decides**, for the rest of the pass leaves the deployment alone. -/
theorem oneStep_visit {db : Db} {st : TickState} {d : Deployment} {rest : List Deployment}
    (h : Unvisited db st d.id) (hwin : d.minReplicas < d.maxReplicas)
    (hrest : d.id ∉ rest.map (·.id)) :
    OneStep db (rest.foldl (tickStep s m clock now) (tickStep s m clock now st d)) d ↔
      VisitFits s m clock now st d rest := by
  have hkeep := @preserves_tickStep s m clock now (fun t => (t.instances.map (·.id)).Nodup) d
    (fun t target ht => nodup_applyScale ht) st ⟨h.committed, h.working⟩
  obtain ⟨hreport, hfails⟩ :=
    @report_rest s m clock now d.id rest (tickStep s m clock now st d) hrest
  have hrows :=
    @rowsOf_rest s m clock now d.id rest (tickStep s m clock now st d) hrest hkeep.1 hkeep.2
  obtain ⟨hyes, hno⟩ := @actions_tickStep s m clock now st d
  set t := rest.foldl (tickStep s m clock now) (tickStep s m clock now st d)
  unfold VisitFits
  rcases @tickStep_cases s m clock now st d with
    ⟨hskip, heq⟩ | ⟨hcalls, e, herr, hsession, hfailed, -⟩ | ⟨hcommit, hsession, -⟩ |
    ⟨hcalls, hok, hnc, c, hsession, -, -⟩
  · -- skipped
    have hnc : ¬ TickCommits s m clock now st d := fun hc => hskip hc.1
    refine iff_of_true (OneStep.of_rows ?_ ?_)
      ⟨fun hc => absurd hc hnc, fun hr => absurd hr.1 hskip⟩
    · intro x hx
      rw [hreport, hno hnc] at hx
      exact h.actions x hx
    · rw [hrows, heq, h.rows.1, h.rows.2, ite_self]
  · -- raised: what it leaves is committed or not
    have hnc : ¬ TickCommits s m clock now st d := not_tickCommits_of_error herr
    have hraises : TickRaises s m clock now st d := ⟨hcalls, by rw [herr]; rfl⟩
    have hactions : ∀ x : ScaleAction × ℕ, (d.id, x) ∉ t.actions := by
      intro x hx
      rw [hreport, hno hnc] at hx
      exact h.actions x hx
    by_cases hlater : CommitsIn s m clock now (tickStep s m clock now st d) rest
    · rw [if_pos hlater, hsession] at hrows
      have hfail : d.id ∈ t.failed.map (·.1) := by
        rw [hfails, hfailed, List.map_append, List.mem_append]
        exact Or.inr (List.mem_singleton_self _)
      rw [oneStep_raised h hraises hactions hfail hrows]
      exact ⟨fun hleft => ⟨fun hc => absurd hc hnc, fun _ _ => hleft⟩,
        fun hfits => hfits.2 hraises hlater⟩
    · refine iff_of_true (OneStep.of_rows hactions ?_)
        ⟨fun hc => absurd hc hnc, fun _ hc => absurd hc hlater⟩
      rw [hrows, if_neg hlater, hsession]
      exact h.rows.1
  · -- committed
    have hnr : ¬ TickRaises s m clock now st d := not_tickRaises_of_ok hcommit.2.1
    have hiff : OneStep db t d ↔ ScaleFits s m st d := by
      refine oneStep_committed h hwin hcommit ?_ ?_
      · intro x
        rw [hreport, hyes hcommit, List.mem_append, List.mem_singleton]
        exact or_iff_right (h.actions x)
      · rw [hrows, hsession, ite_self]
    exact hiff.trans ⟨fun hf => ⟨fun _ => hf, fun hr => absurd hr hnr⟩, fun hf => hf.1 hcommit⟩
  · -- refused
    have hnr : ¬ TickRaises s m clock now st d := not_tickRaises_of_ok (by rw [hok]; rfl)
    refine iff_of_true (OneStep.of_rows ?_ ?_) ⟨fun hc => absurd hc hnc, fun hr => absurd hr hnr⟩
    · intro x hx
      rw [hreport, hno hnc] at hx
      exact h.actions x hx
    · rw [hrows, hsession, h.rows.1, ite_self]

/-- A deployment that is ahead, from any point of a pass. -/
theorem oneStep_pass {db : Db} {d : Deployment} (hwin : d.minReplicas < d.maxReplicas)
    (ds : List Deployment) : ∀ st : TickState,
    (ds.map (·.id)).Nodup → d ∈ ds → Unvisited db st d.id →
      (OneStep db (ds.foldl (tickStep s m clock now) st) d ↔
        FitsFrom s m clock now d.id st ds) := by
  induction ds with
  | nil => exact fun _ _ hd => absurd hd List.not_mem_nil
  | cons e ds ih =>
    intro st hnd hd h
    rw [List.map_cons, List.nodup_cons] at hnd
    unfold FitsFrom
    rw [List.foldl_cons]
    rcases List.mem_cons.mp hd with rfl | hmem
    · rw [if_pos rfl]
      exact oneStep_visit h hwin hnd.1
    · have hne : e.id ≠ d.id := fun heq => hnd.1 (heq ▸ List.mem_map_of_mem hmem)
      rw [if_neg hne]
      exact ih _ hnd.2 hmem (h.step hne.symm)

theorem fitsFrom_of_notMem {id : Uuid} (ds : List Deployment) :
    ∀ st : TickState, id ∉ ds.map (·.id) → FitsFrom s m clock now id st ds := by
  induction ds with
  | nil => exact fun _ _ => trivial
  | cons e ds ih =>
    intro st h
    rw [List.map_cons, List.mem_cons, not_or] at h
    unfold FitsFrom
    rw [if_neg fun heq => h.1 heq.symm]
    exact ih _ h.2

/-- **When a tick makes one step of a deployment**: exactly when the step fits. -/
theorem oneStep_iff (s : Settings) (m : Metrics) (clock : ℕ) (now : ℚ) (cooldown : Dict Uuid ℚ)
    {db : Db} (hids : (db.instances.map (·.id)).Nodup) (hdeps : (db.deployments.map (·.id)).Nodup)
    {d : Deployment} (hd : d ∈ db.deployments) :
    OneStep db (autoscaleTick s m clock now cooldown db) d ↔
      TickFits s m clock now cooldown db d.id := by
  have hstart : Unvisited db ⟨Session.fresh db, cooldown, [], [], false⟩ d.id :=
    ⟨hids, hids, ⟨rfl, rfl⟩, fun _ => List.not_mem_nil, List.not_mem_nil⟩
  by_cases hmem : d ∈ windowedDeployments db
  · have hnd : ((windowedDeployments db).map (·.id)).Nodup :=
      (List.filter_sublist.map _).nodup hdeps
    have hwin : d.minReplicas < d.maxReplicas := by
      simpa [windowedDeployments] using (List.mem_filter.mp hmem).2
    exact oneStep_pass hwin (windowedDeployments db) _ hnd hmem hstart
  · -- the pass does not look at it
    have hnot : d.id ∉ (windowedDeployments db).map (·.id) := by
      rw [List.mem_map]
      rintro ⟨e, he, heq⟩
      obtain rfl := List.inj_on_of_nodup_map hdeps (List.mem_of_mem_filter he) hd heq
      exact hmem he
    refine iff_of_true (OneStep.of_rows ?_ ?_) (fitsFrom_of_notMem _ _ hnot)
    · intro x hx
      exact List.not_mem_nil (((report_rest _ _ hnot).1 x).mp hx)
    · exact (rowsOf_rest _ _ hnot hids hids).trans (ite_self _)

end Tick

/-! ### A restarted row -/

/-- The deployment `1` serves with one row; another was restarted and has not come up. -/
def ghostDb : Db :=
  { passDb .running with instances := [passReplica 3 1 0 .running, passReplica 4 1 1 .stopped] }

/-- The deployment of the model `model` in the samples. -/
def passDeployment (model : ℕ) : Deployment where
  id := model
  modelId := model
  clusterId := 1
  engine := .vllm
  profile := .latency
  minReplicas := 1
  maxReplicas := 3

/-- The idle deployment is scaled in by one. -/
theorem oneStep_sample :
    (autoscaleTick {} sampleMetrics 7 0 Dict.empty (passDb .running)).actions = [(2, .down, 1)] ∧
      OneStep (passDb .running) (autoscaleTick {} sampleMetrics 7 0 Dict.empty (passDb .running))
        (passDeployment 2) :=
  ⟨by decide +kernel,
    (oneStep_iff {} sampleMetrics 7 0 Dict.empty (by decide) (by decide)
      (d := passDeployment 2) (by decide)).mpr (by decide +kernel)⟩

/-- **A restarted row makes the tick take two steps**: it counts two units and proposes
three, and the scale finds one and places two. -/
theorem ghost_unit_steps_twice :
    ¬ ∀ (s : Settings) (m : Metrics) (clock : ℕ) (now : ℚ) (cooldown : Dict Uuid ℚ) (db : Db),
      (db.instances.map (·.id)).Nodup → (db.deployments.map (·.id)).Nodup →
        ∀ d ∈ db.deployments, OneStep db (autoscaleTick s m clock now cooldown db) d := by
  intro h
  have hone := h {} sampleMetrics 7 0 Dict.empty ghostDb (by decide) (by decide)
    (passDeployment 1) (by decide)
  have hwindow := (hone.window (by decide) (by decide)).2
  revert hwindow
  decide +kernel

end Inferna
