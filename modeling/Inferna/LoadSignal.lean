import Inferna.Autoscaling

/-!
# The load signal of parallel groups

The unit of scaling is a replica unit: a row of a single-node deployment, a whole group of a
multi-node one.  The gateway's gauge is about rows, and only the head of a group gets requests.
`read_signal` counts rows where the policy, and the window it works in, counts units.

## Main definitions

* `PerUnit` — the signal of a list of rows, taken over its units.
* `RunsAs` — a group in place of a replica, with the load at its head.

## Main results

* `readSignal_perUnit_iff` — **the signal is per unit exactly when a unit with a running row
  has no other row.**
* `readSignal_runsAs` — groups of `n` ranks are counted `n` times each, and their load is divided
  by `n`.
-/

namespace Inferna

/-! ### Units and their signal -/

/-- The units all of whose rows are running. -/
def servingUnits (n : ℕ) (instances : List Instance) : List (List Instance) :=
  (replicaUnits n instances).filter unitServing

/-- The gauges of some rows. -/
def Metrics.gauges (m : Metrics) (rows : List Instance) : List ℚ :=
  rows.filterMap fun i => m.activeRequests i.id

/-- The signal is taken over the units: how many are serving, and the requests over them for each
of them. -/
structure PerUnit (m : Metrics) (n : ℕ) (instances : List Instance) (sig : Signal) : Prop where
  serving : sig.servingReplicas = (servingUnits n instances).length
  queue : sig.queuePerReplica =
    if m.gauges (servingUnits n instances).flatten = [] then none
    else some ((m.gauges (servingUnits n instances).flatten).sum / (servingUnits n instances).length)

/-! ### Rows against units -/

variable {α : Type*} {p : α → Bool}

/-- A list has one hit when it is full of them, and none otherwise, exactly when a hit is all there
is to it. -/
theorem countP_eq_all_iff {l : List α} (hne : l ≠ []) :
    l.countP p = (if l.all p then 1 else 0) ↔ ((∃ a ∈ l, p a = true) → l.length = 1) := by
  have hlen := List.length_pos_of_ne_nil hne
  by_cases hall : ∀ a ∈ l, p a = true
  · rw [if_pos (List.all_eq_true.mpr hall), List.countP_eq_length.mpr hall]
    obtain ⟨a, ha⟩ := List.exists_mem_of_ne_nil l hne
    exact ⟨fun h _ => h, fun h => h ⟨a, ha, hall a ha⟩⟩
  · rw [if_neg fun h => hall (List.all_eq_true.mp h), List.countP_eq_zero]
    constructor
    · rintro hnone ⟨a, ha, hp⟩
      exact absurd hp (hnone a ha)
    · intro h a ha hp
      obtain ⟨b, rfl⟩ := List.length_eq_one_iff.mp (h ⟨a, ha, hp⟩)
      refine hall fun c hc => ?_
      rw [List.mem_singleton.mp hc, ← List.mem_singleton.mp ha, hp]

/-- Full lists have a hit each. -/
theorem all_le_countP {l : List α} (hne : l ≠ []) : (if l.all p then 1 else 0) ≤ l.countP p := by
  split
  · rename_i hall
    rw [List.countP_eq_length.mpr (List.all_eq_true.mp hall)]
    exact List.length_pos_of_ne_nil hne
  · exact Nat.zero_le _

/-- There are as many hits as full lists exactly when a hit is all there is to its list. -/
theorem countP_flatten_eq_iff {us : List (List α)} : (∀ u ∈ us, u ≠ []) →
    us.countP (·.all p) ≤ us.flatten.countP p ∧
    (us.flatten.countP p = us.countP (·.all p) ↔
      ∀ u ∈ us, (∃ a ∈ u, p a = true) → u.length = 1) := by
  induction us with
  | nil => simp
  | cons u us ih =>
    intro hne
    rw [List.forall_mem_cons] at hne
    obtain ⟨hle, hiff⟩ := ih hne.2
    rw [List.flatten_cons, List.countP_append, List.countP_cons, List.forall_mem_cons, ← hiff,
      ← countP_eq_all_iff hne.1]
    have hle' := all_le_countP (p := p) hne.1
    omega

/-- Then the hits are the full lists. -/
theorem filter_flatten_eq {us : List (List α)} :
    (∀ u ∈ us, (∃ a ∈ u, p a = true) → u.length = 1) →
      us.flatten.filter p = (us.filter (·.all p)).flatten := by
  induction us with
  | nil => exact fun _ => rfl
  | cons u us ih =>
    intro h
    rw [List.forall_mem_cons] at h
    rw [List.flatten_cons, List.filter_append, ih h.2, List.filter_cons]
    by_cases hany : ∃ a ∈ u, p a = true
    · -- a list with a hit is that hit
      obtain ⟨a, rfl⟩ := List.length_eq_one_iff.mp (h.1 hany)
      obtain ⟨b, hb, hp⟩ := hany
      rw [List.mem_singleton.mp hb] at hp
      simp [hp]
    · have hnil : u.filter p = [] :=
        List.filter_eq_nil_iff.mpr fun a ha hp => hany ⟨a, ha, hp⟩
      rw [hnil, List.nil_append]
      split
      · rename_i hall
        rw [List.all_eq_true] at hall
        cases u with
        | nil => rfl
        | cons a u => exact absurd ⟨a, List.mem_cons_self, hall a List.mem_cons_self⟩ hany
      · rfl

/-! ### The signal of a list of rows -/

/-- The signal, with the gauges of the running rows. -/
theorem readSignal_eq (m : Metrics) (name : String) (instances : List Instance) :
    readSignal m name instances =
      ⟨m.ttftP95Ms name,
        if m.gauges (instances.filter (·.state = .running)) = [] then none
        else some ((m.gauges (instances.filter (·.state = .running))).sum /
          (instances.countP (·.state = .running) : ℕ)),
        instances.countP (·.state = .running)⟩ := by
  rw [List.countP_eq_length_filter]
  rfl

/-- **The signal is per unit exactly when a unit with a running row has no other row.** -/
theorem perUnit_iff (m : Metrics) (name : String) (n : ℕ) (instances : List Instance) :
    PerUnit m n instances (readSignal m name instances) ↔
      ∀ u ∈ replicaUnits n instances, (∃ i ∈ u, i.state = .running) → u.length = 1 := by
  have hperm := flatten_replicaUnits_perm n instances
  have hcount : (readSignal m name instances).servingReplicas =
      (replicaUnits n instances).flatten.countP (·.state = .running) := by
    rw [readSignal_eq, hperm.countP_eq]
  have hunits : (servingUnits n instances).length =
      (replicaUnits n instances).countP (·.all (·.state = .running)) :=
    List.countP_eq_length_filter.symm
  have hne : ∀ u ∈ replicaUnits n instances, u ≠ [] := fun u => ne_nil_of_mem_replicaUnits
  have hiff := (countP_flatten_eq_iff (p := fun i : Instance => decide (i.state = .running)) hne).2
  simp only [decide_eq_true_eq] at hiff
  rw [← hiff, ← hcount, ← hunits]
  refine ⟨PerUnit.serving, fun h => ⟨h, ?_⟩⟩
  -- the running rows are the rows of the serving units
  have hrows : (instances.filter (·.state = .running)).Perm (servingUnits n instances).flatten := by
    have heq := @filter_flatten_eq _ (fun i : Instance => decide (i.state = .running))
      (replicaUnits n instances)
    simp only [decide_eq_true_eq] at heq
    rw [hcount, hunits, hiff] at h
    unfold servingUnits unitServing
    rw [← heq h]
    exact hperm.symm.filter _
  have hgauges : (m.gauges (instances.filter (·.state = .running))).Perm
      (m.gauges (servingUnits n instances).flatten) := hrows.filterMap _
  rw [← h, readSignal_eq]
  simp only [hgauges.sum_eq, ← List.length_eq_zero_iff, hgauges.length_eq]

/-! ### Groups in place of replicas -/

/-- The rows are a group of `n` ranks in place of a replica: they are in its state, the head has its
load, and the followers get no requests. -/
structure RunsAs (m : Metrics) (n : ℕ) (i : Instance) (rows : List Instance) : Prop where
  group : ∃ g, ∀ r ∈ rows, r.parallelGroupId = some g
  ranks : rows.map (·.nodeRank) = (List.range n).map some
  states : ∀ r ∈ rows, r.state = i.state
  load : ∃ head followers, rows = head :: followers ∧
    m.activeRequests head.id = m.activeRequests i.id ∧
    ∀ f ∈ followers, m.activeRequests f.id = none

variable {m : Metrics} {n : ℕ}

theorem RunsAs.length {i : Instance} {rows : List Instance} (h : RunsAs m n i rows) :
    rows.length = n := by
  have hlen := congrArg List.length h.ranks
  simpa only [List.length_map, List.length_range] using hlen

/-- The group has the gauge of the replica. -/
theorem RunsAs.gauges {i : Instance} {rows : List Instance} (h : RunsAs m n i rows) :
    m.gauges rows = m.gauges [i] := by
  obtain ⟨head, followers, rfl, hhead, hnone⟩ := h.load
  have hnil : m.gauges followers = [] := List.filterMap_eq_nil_iff.mpr hnone
  unfold Metrics.gauges at hnil ⊢
  rw [List.filterMap_cons, List.filterMap_cons, hnil, hhead, List.filterMap_nil]

/-- All rows of the group are running, or none. -/
theorem RunsAs.filter {i : Instance} {rows : List Instance} (h : RunsAs m n i rows) :
    rows.filter (·.state = .running) = if i.state = .running then rows else [] := by
  split
  · rename_i hi
    exact List.filter_eq_self.mpr fun r hr => decide_eq_true ((h.states r hr).trans hi)
  · rename_i hi
    exact List.filter_eq_nil_iff.mpr fun r hr hrun =>
      hi ((h.states r hr).symm.trans (of_decide_eq_true hrun))

/-- The running rows of the groups: `n` for each running replica, with its gauge. -/
theorem runsAs_rows {singles : List Instance} {groups : List (List Instance)}
    (h : List.Forall₂ (RunsAs m n) singles groups) :
    groups.flatten.countP (·.state = .running) = n * singles.countP (·.state = .running) ∧
      m.gauges (groups.flatten.filter (·.state = .running)) =
        m.gauges (singles.filter (·.state = .running)) := by
  induction h with
  | nil => exact ⟨rfl, rfl⟩
  | cons hg _ ih =>
    rename_i i rows singles groups _
    obtain ⟨hcount, hgauges⟩ := ih
    have happ : ∀ xs ys, m.gauges (xs ++ ys) = m.gauges xs ++ m.gauges ys := fun _ _ =>
      List.filterMap_append
    rw [List.flatten_cons, List.countP_append, hcount, List.filter_append, happ, hgauges,
      List.countP_eq_length_filter, hg.filter, List.countP_cons, List.filter_cons]
    by_cases hi : i.state = .running
    · -- all ranks run, and the gauge is that of the replica
      simp only [hi, if_true, decide_true, hg.length, hg.gauges]
      refine ⟨by ring, ?_⟩
      rw [← happ]
      rfl
    · simp only [hi, if_false, decide_false, List.length_nil, Bool.false_eq_true]
      exact ⟨by ring, rfl⟩

/-- **Groups of `n` ranks count `n` times, and their load is divided by `n`.** -/
theorem readSignal_runsAs (name : String) {singles : List Instance} {groups : List (List Instance)}
    (h : List.Forall₂ (RunsAs m n) singles groups) :
    readSignal m name groups.flatten =
      ⟨m.ttftP95Ms name, (readSignal m name singles).queuePerReplica.map (· / n),
        n * (readSignal m name singles).servingReplicas⟩ := by
  obtain ⟨hcount, hgauges⟩ := runsAs_rows h
  rw [readSignal_eq, readSignal_eq, hcount, hgauges]
  simp only [Signal.mk.injEq, true_and, and_true]
  split
  · rfl
  · rw [Option.map_some, Nat.cast_mul, div_div, mul_comm]

/-- **The signal is per unit exactly when a unit with a running row has no other row**, and groups
in place of replicas leave it as it was exactly when they have one rank, or nothing is running. -/
theorem readSignal_perUnit_iff (m : Metrics) (name : String) (n : ℕ) (instances : List Instance) :
    (PerUnit m n instances (readSignal m name instances) ↔
      ∀ u ∈ replicaUnits n instances, (∃ i ∈ u, i.state = .running) → u.length = 1) ∧
    ∀ (ranks : ℕ) (groups : List (List Instance)),
      List.Forall₂ (RunsAs m ranks) instances groups →
        (readSignal m name groups.flatten = readSignal m name instances ↔
          ranks = 1 ∨ ∀ i ∈ instances, i.state ≠ .running) := by
  refine ⟨perUnit_iff m name n instances, fun ranks groups h => ?_⟩
  rw [readSignal_runsAs name h, readSignal_eq]
  simp only [Signal.mk.injEq, true_and]
  constructor
  · rintro ⟨-, hcount⟩
    rcases Nat.eq_zero_or_pos (instances.countP (·.state = .running)) with hzero | hpos
    · exact Or.inr fun i hi hrun =>
        List.countP_eq_zero.mp hzero i hi (decide_eq_true hrun)
    · exact Or.inl (Nat.eq_of_mul_eq_mul_right hpos (hcount.trans (one_mul _).symm))
  · rintro (rfl | hnone)
    · -- a group of one rank is a replica
      refine ⟨?_, one_mul _⟩
      split
      · rfl
      · rw [Option.map_some, Nat.cast_one, div_one]
    · have hnil : instances.filter (·.state = .running) = [] :=
        List.filter_eq_nil_iff.mpr fun i hi hrun => hnone i hi (of_decide_eq_true hrun)
      rw [List.countP_eq_length_filter, hnil]
      exact ⟨rfl, mul_zero _⟩

/-- A replica with six active requests. -/
def busyReplica : Instance where
  id := 1
  modelId := 1
  clusterId := 1
  workerId := some 1
  deploymentId := 1
  engine := .vllm
  profile := .latency
  gpuIndexes := [0]
  state := .running

/-- The same load at the head of a group of two. -/
def busyPair : List Instance :=
  [{ busyReplica with parallelGroupId := some 3, nodeRank := some 0 },
    { busyReplica with
      id := 2
      workerId := some 2
      parallelGroupId := some 3
      nodeRank := some 1 }]

/-- Six active requests at the head. -/
def headLoad : Metrics := ⟨fun _ => none, fun id => if id = 1 then some 6 else none⟩

theorem busyPair_runsAs : RunsAs headLoad 2 busyReplica busyPair where
  group := ⟨3, by simp [busyPair]⟩
  ranks := rfl
  states := by simp [busyPair, busyReplica]
  load := ⟨_, _, rfl, rfl, by simp [busyReplica, headLoad]⟩

/-- The lone replica is read per unit, and a group in its place is not read the same. -/
theorem readSignal_busyReplica :
    PerUnit headLoad 1 [busyReplica] (readSignal headLoad "m" [busyReplica]) ∧
      readSignal headLoad "m" busyPair ≠ readSignal headLoad "m" [busyReplica] := by
  obtain ⟨hunit, hgroups⟩ := readSignal_perUnit_iff headLoad "m" 1 [busyReplica]
  refine ⟨hunit.mpr ?_, ?_⟩
  · intro u hu _
    rw [List.mem_singleton.mp hu]
    rfl
  · intro h
    rcases (hgroups 2 [busyPair] (.cons busyPair_runsAs .nil)).mp h with h | h
    · cases h
    · exact h busyReplica List.mem_cons_self rfl

/-- A replica that would be doubled stays alone when it is a group of two. -/
theorem busyPair_misread :
    ¬ PerUnit headLoad 2 busyPair (readSignal headLoad "m" busyPair) ∧
      desiredReplicas {} 1 1 2 (readSignal headLoad "m" [busyReplica]) = 2 ∧
      desiredReplicas {} 1 1 2 (readSignal headLoad "m" busyPair) = 1 := by
  refine ⟨fun h => ?_, by decide +kernel, by decide +kernel⟩
  have hserving := h.serving
  revert hserving
  decide +kernel

end Inferna
