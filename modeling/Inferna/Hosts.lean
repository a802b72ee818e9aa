import Inferna.Groups

/-!
# The hosts and the ports of a parallel group

A group takes the fitting hosts with the most free memory, the head first, and the head the lowest
free port of each of two ranges.  The two allocators look at the rows of the head's worker
differently: the instance port is kept clear of the rows' instance ports only, the rendezvous port
of both kinds, and neither of the port that the other has just handed out.

## Main definitions

* `fits`, `fittingHosts` — the workers with a fitting GPU, and the candidates on them.
* `IsHead` — the addressable candidate that comes first.
* `PortsClear` — the rows and the ranges on which the two allocators do not collide.
* `GroupPlacement` — a group is placed whenever it can be, and as it should be.

## Main results

* `allocateParallelReplicas_isOk_iff` — when a group is placed.
* `groupPlacement_iff` — **a placement is right exactly when the ports of its head are clear.**
-/

namespace Inferna

/-! ### Hosts that fit -/

/-- A GPU of a supported vendor has the memory free. -/
def fits (db : Db) (engine : Engine) (vram : ℕ) (w : Worker) : Bool :=
  (supportedGpus engine w).any fun g => (vram : ℤ) ≤ freeVram db Dict.empty w g

/-- The workers a group may use. -/
def freeHosts (db : Db) (clusterId : Uuid) (exclude : List Uuid) : List Worker :=
  (connectedWorkers db clusterId).filter (·.id ∉ exclude)

/-- The candidates on them, one for each that fits. -/
def fittingHosts (db : Db) (clusterId : Uuid) (vram : ℕ) (engine : Engine) (exclude : List Uuid) :
    List Candidate :=
  (freeHosts db clusterId exclude).filterMap (bestFittingGpu db engine vram)

/-- The candidates on one worker. -/
theorem mem_fittingCandidates_singleton {db : Db} {engine : Engine} {vram : ℕ} {w : Worker}
    {c : Candidate} :
    c ∈ fittingCandidates db engine vram Dict.empty [w] (fun _ _ => true) ↔
      ∃ g ∈ supportedGpus engine w, (vram : ℤ) ≤ freeVram db Dict.empty w g ∧
        c = ⟨freeVram db Dict.empty w g, w, g.index⟩ := by
  unfold fittingCandidates
  rw [List.flatMap_singleton, List.mem_filterMap]
  constructor
  · rintro ⟨g, hg, hc⟩
    split at hc
    · rename_i hfit
      exact ⟨g, hg, hfit.2, (Option.some.inj hc).symm⟩
    · cases hc
  · rintro ⟨g, hg, hfit, rfl⟩
    exact ⟨g, hg, if_pos ⟨rfl, hfit⟩⟩

theorem fits_iff {db : Db} {engine : Engine} {vram : ℕ} {w : Worker} :
    fits db engine vram w = true ↔
      ∃ g ∈ supportedGpus engine w, (vram : ℤ) ≤ freeVram db Dict.empty w g := by
  unfold fits
  rw [List.any_eq_true]
  simp only [decide_eq_true_eq]

/-- **The best GPU of a worker**: it fits, and no other has more free memory. -/
theorem bestFittingGpu_eq_some {db : Db} {engine : Engine} {vram : ℕ} {w : Worker} {c : Candidate}
    (h : bestFittingGpu db engine vram w = some c) :
    c.worker = w ∧ (∃ g ∈ supportedGpus engine w, g.index = c.gpuIndex ∧
      c.free = freeVram db Dict.empty w g ∧ (vram : ℤ) ≤ c.free) ∧
    ∀ g ∈ supportedGpus engine w, freeVram db Dict.empty w g ≤ c.free := by
  obtain ⟨g, hg, hfit, rfl⟩ := mem_fittingCandidates_singleton.mp (List.argmax_mem h)
  refine ⟨rfl, ⟨g, hg, rfl, rfl, hfit⟩, fun g' hg' => ?_⟩
  by_cases hfit' : (vram : ℤ) ≤ freeVram db Dict.empty w g'
  · have hmem : (⟨freeVram db Dict.empty w g', w, g'.index⟩ : Candidate) ∈
        fittingCandidates db engine vram Dict.empty [w] (fun _ _ => true) :=
      mem_fittingCandidates_singleton.mpr ⟨g', hg', hfit', rfl⟩
    exact not_lt.mp (List.not_lt_of_mem_argmax hmem h)
  · exact ((not_le.mp hfit').trans_le hfit).le

theorem isSome_bestFittingGpu (db : Db) (engine : Engine) (vram : ℕ) (w : Worker) :
    (bestFittingGpu db engine vram w).isSome = fits db engine vram w := by
  rw [Bool.eq_iff_iff, fits_iff, Option.isSome_iff_ne_none, Ne, bestFittingGpu, List.argmax_eq_none]
  constructor
  · intro hne
    obtain ⟨c, hc⟩ := List.exists_mem_of_ne_nil _ hne
    obtain ⟨g, hg, hfit, -⟩ := mem_fittingCandidates_singleton.mp hc
    exact ⟨g, hg, hfit⟩
  · rintro ⟨g, hg, hfit⟩
    exact List.ne_nil_of_mem (mem_fittingCandidates_singleton.mpr ⟨g, hg, hfit, rfl⟩)

section Hosts

variable {db : Db} {clusterId : Uuid} {vram : ℕ} {engine : Engine} {exclude : List Uuid}

theorem mem_fittingHosts {c : Candidate} : c ∈ fittingHosts db clusterId vram engine exclude ↔
    c.worker ∈ freeHosts db clusterId exclude ∧ bestFittingGpu db engine vram c.worker = some c := by
  unfold fittingHosts
  rw [List.mem_filterMap]
  constructor
  · rintro ⟨w, hw, hbest⟩
    rw [(bestFittingGpu_eq_some hbest).1]
    exact ⟨hw, hbest⟩
  · rintro ⟨hw, hbest⟩
    exact ⟨c.worker, hw, hbest⟩

/-- There is a candidate on each host that fits. -/
theorem length_fittingHosts : (fittingHosts db clusterId vram engine exclude).length =
    (freeHosts db clusterId exclude).countP (fits db engine vram) := by
  unfold fittingHosts
  rw [List.length_filterMap_eq_countP]
  exact List.countP_congr fun w _ => by rw [isSome_bestFittingGpu]

theorem nodup_freeHosts (hkeys : (db.workers.map (·.id)).Nodup) :
    ((freeHosts db clusterId exclude).map (·.id)).Nodup :=
  (List.Sublist.map _ List.filter_sublist).nodup (nodup_connectedWorkers hkeys)

theorem nodup_fittingHosts (hkeys : (db.workers.map (·.id)).Nodup) :
    ((fittingHosts db clusterId vram engine exclude).map (·.worker.id)).Nodup :=
  nodup_filterMap_bestFittingGpu db engine vram (nodup_freeHosts hkeys)

end Hosts

/-! ### The head -/

theorem rankOrder_total (a b : Candidate) : rankOrder a b ∨ rankOrder b a := by
  unfold rankOrder
  rcases lt_trichotomy a.free b.free with h | h | h
  · exact Or.inr (Or.inl h)
  · rcases String.le_total a.worker.name b.worker.name with hn | hn
    · exact Or.inl (Or.inr ⟨h, hn⟩)
    · exact Or.inr (Or.inr ⟨h.symm, hn⟩)
  · exact Or.inl (Or.inl h)

theorem rankOrder_trans {a b c : Candidate} (hab : rankOrder a b) (hbc : rankOrder b c) :
    rankOrder a c := by
  unfold rankOrder at *
  rcases hab with hab | ⟨hab, hn⟩
  · rcases hbc with hbc | ⟨hbc, -⟩
    · exact Or.inl (hbc.trans hab)
    · exact Or.inl (hbc ▸ hab)
  · rcases hbc with hbc | ⟨hbc, hn'⟩
    · exact Or.inl (hab ▸ hbc)
    · exact Or.inr ⟨hab.trans hbc, String.le_trans hn hn'⟩

theorem name_eq_of_rankOrder {a b : Candidate} (hab : rankOrder a b) (hba : rankOrder b a) :
    a.worker.name = b.worker.name := by
  unfold rankOrder at *
  rcases hab with hab | ⟨heq, hn⟩
  · rcases hba with hba | ⟨heq, -⟩
    · exact absurd hab hba.asymm
    · exact absurd heq hab.ne
  · rcases hba with hba | ⟨-, hn'⟩
    · exact absurd heq hba.ne
    · exact String.le_antisymm hn hn'

instance : Std.Total rankOrder := ⟨rankOrder_total⟩

instance : IsTrans Candidate rankOrder := ⟨fun _ _ _ => rankOrder_trans⟩

/-- The candidate is on an addressable host, and comes first of those. -/
def IsHead (fitting : List Candidate) (c : Candidate) : Prop :=
  c ∈ fitting ∧ c.worker.hasAddress = true ∧
    ∀ c' ∈ fitting, c'.worker.hasAddress = true → rankOrder c c'

theorem chooseHosts_eq_nil_iff {fitting : List Candidate} {n : ℕ} :
    chooseHosts fitting n = [] ↔ ∀ c ∈ fitting, c.worker.hasAddress = false := by
  have hnil : (fitting.filter (·.worker.hasAddress)).insertionSort rankOrder = [] ↔
      ∀ c ∈ fitting, c.worker.hasAddress = false := by
    rw [← List.length_eq_zero_iff, List.length_insertionSort, List.length_eq_zero_iff,
      List.filter_eq_nil_iff]
    simp only [Bool.not_eq_true]
  rw [← hnil]
  unfold chooseHosts
  split
  · rename_i h
    exact iff_of_true rfl h
  · rename_i h
    exact iff_of_false (List.cons_ne_nil _ _) (by rw [h]; exact List.cons_ne_nil _ _)

/-- **The head of the hosts comes first.** -/
theorem isHead_of_chooseHosts {fitting : List Candidate} {n : ℕ} {head : Candidate}
    {others : List Candidate} (h : chooseHosts fitting n = head :: others) : IsHead fitting head := by
  unfold chooseHosts at h
  split at h
  · cases h
  rename_i head' rest hsort
  obtain ⟨rfl, -⟩ := List.cons.inj h
  have hperm := List.perm_insertionSort rankOrder (fitting.filter (·.worker.hasAddress))
  have hsorted := List.pairwise_insertionSort rankOrder (fitting.filter (·.worker.hasAddress))
  rw [hsort] at hperm hsorted
  have hmem : ∀ c, c ∈ head' :: rest ↔ c ∈ fitting ∧ c.worker.hasAddress = true := fun c => by
    rw [hperm.mem_iff, List.mem_filter]
  obtain ⟨hfit, haddr⟩ := (hmem head').mp List.mem_cons_self
  refine ⟨hfit, haddr, fun c hc hca => ?_⟩
  rcases List.mem_cons.mp ((hmem c).mpr ⟨hc, hca⟩) with rfl | hrest
  · exact (rankOrder_total c c).elim id id
  · exact (List.pairwise_cons.mp hsorted).1 c hrest

/-- Workers of a cluster have different names. -/
theorem worker_eq_of_name {db : Db} (hnames : db.NamesOk) {clusterId : Uuid} {v w : Worker}
    (hv : v ∈ connectedWorkers db clusterId) (hw : w ∈ connectedWorkers db clusterId)
    (h : v.name = w.name) : v = w := by
  rw [mem_connectedWorkers] at hv hw
  by_contra hne
  have : Std.Symm fun v w : Worker => ¬ (v.clusterId = w.clusterId ∧ v.name = w.name) :=
    ⟨fun _ _ hvw hwv => hvw ⟨hwv.1.symm, hwv.2.symm⟩⟩
  exact hnames.forall hv.1 hw.1 hne ⟨hv.2.1.trans hw.2.1.symm, h⟩

/-- There is one head, names being unique in a cluster. -/
theorem IsHead.unique {db : Db} (hnames : db.NamesOk) {clusterId : Uuid} {vram : ℕ}
    {engine : Engine} {exclude : List Uuid} {c c' : Candidate}
    (h : IsHead (fittingHosts db clusterId vram engine exclude) c)
    (h' : IsHead (fittingHosts db clusterId vram engine exclude) c') : c = c' := by
  obtain ⟨hmem, haddr, hfirst⟩ := h
  obtain ⟨hmem', haddr', hfirst'⟩ := h'
  have hname := name_eq_of_rankOrder (hfirst c' hmem' haddr') (hfirst' c hmem haddr)
  obtain ⟨hw, hbest⟩ := mem_fittingHosts.mp hmem
  obtain ⟨hw', hbest'⟩ := mem_fittingHosts.mp hmem'
  have hsame := worker_eq_of_name hnames (List.mem_of_mem_filter hw) (List.mem_of_mem_filter hw')
    hname
  rw [hsame, hbest'] at hbest
  exact (Option.some.inj hbest).symm

/-! ### The two ports -/

/-- The rendezvous ports that the rows carry. -/
def rendezvousPorts (rows : List Instance) : List ℕ :=
  rows.filterMap fun i => i.rendezvous.bind rendezvousPortOf

/-- The port is neither an instance port nor a rendezvous port of the rows. -/
def Unreserved (rows : List Instance) (p : ℕ) : Prop :=
  (∀ i ∈ rows, i.port ≠ some p) ∧ p ∉ rendezvousPorts rows

/-- The lowest port of a range outside a list. -/
def Lowest (range used : List ℕ) (p : ℕ) : Prop :=
  p ∈ range ∧ p ∉ used ∧ ∀ q ∈ range, q < p → q ∈ used

theorem Lowest.unique {range used : List ℕ} {p q : ℕ} (hp : Lowest range used p)
    (hq : Lowest range used q) : p = q := by
  rcases lt_trichotomy p q with h | h | h
  · exact absurd (hq.2.2 p hp.1 h) hp.2.1
  · exact h
  · exact absurd (hp.2.2 q hq.1 h) hq.2.1

theorem mem_usedPorts {rows : List Instance} {p : ℕ} :
    p ∈ usedPorts rows ↔ p ≠ 0 ∧ ∃ i ∈ rows, i.port = some p := by
  unfold usedPorts
  rw [List.mem_filterMap]
  constructor
  · rintro ⟨i, hi, hp⟩
    obtain ⟨hport, hne⟩ := Option.filter_eq_some_iff.mp hp
    exact ⟨of_decide_eq_true hne, i, hi, hport⟩
  · rintro ⟨hne, i, hi, hport⟩
    exact ⟨i, hi, Option.filter_eq_some_iff.mpr ⟨hport, decide_eq_true hne⟩⟩

theorem find?_portRange {first last : ℕ} {used : List ℕ} {p : ℕ} :
    (Settings.portRange first last).find? (fun p => p ∉ used) = some p ↔
      Lowest (Settings.portRange first last) used p := by
  unfold Settings.portRange Lowest
  rw [List.find?_range'_eq_some, decide_eq_true_eq, and_left_comm]
  refine and_congr_right fun hp => and_congr_right fun _ => ?_
  rw [List.mem_range'_1] at hp
  constructor
  · intro h q hq hlt
    have := h q (List.mem_range'_1.mp hq).1 hlt
    simpa using this
  · intro h q hle hlt
    have := h q (List.mem_range'_1.mpr ⟨hle, by omega⟩) hlt
    simpa using this

/-- **The instance port**: the lowest that no row has as its instance port. -/
theorem allocPort_eq_ok_iff {s : Settings} {rows : List Instance} {p : ℕ} :
    allocPort s rows [] = .ok p ↔ Lowest s.instancePortRange (usedPorts rows) p := by
  unfold Settings.instancePortRange
  rw [← find?_portRange]
  unfold allocPort Settings.instancePortRange
  simp only [List.not_mem_nil, not_false_eq_true, and_true]
  cases (Settings.portRange s.instancePortRangeStart s.instancePortRangeEnd).find? _ <;> simp

/-- **The rendezvous port**: the lowest that no row has as either port. -/
theorem allocRendezvousPort_eq_ok_iff {s : Settings} {rows : List Instance} {p : ℕ} :
    allocRendezvousPort s rows = .ok p ↔
      Lowest s.rendezvousPortRange (usedPorts rows ++ rendezvousPorts rows) p := by
  unfold Settings.rendezvousPortRange
  rw [← find?_portRange]
  unfold allocRendezvousPort Settings.rendezvousPortRange rendezvousPorts
  simp only
  cases (Settings.portRange s.rendezvousPortRangeStart s.rendezvousPortRangeEnd).find? _ <;> simp

/-- There is a lowest port as soon as there is one. -/
theorem exists_lowest {first last : ℕ} {used : List ℕ} :
    (∃ p, Lowest (Settings.portRange first last) used p) ↔
      ∃ p ∈ Settings.portRange first last, p ∉ used := by
  constructor
  · rintro ⟨p, hp, hfree, -⟩
    exact ⟨p, hp, hfree⟩
  · rintro ⟨p, hp, hfree⟩
    simp only [← find?_portRange]
    rw [← Option.isSome_iff_exists, List.find?_isSome]
    exact ⟨p, hp, decide_eq_true hfree⟩

/-- Each allocator finds a port. -/
def HasPorts (s : Settings) (rows : List Instance) : Prop :=
  (∃ p ∈ s.instancePortRange, p ∉ usedPorts rows) ∧
    ∃ p ∈ s.rendezvousPortRange, p ∉ usedPorts rows ++ rendezvousPorts rows

/-- The rows and the ranges on which the two ports do not collide, neither with each other nor with
those of the rows. -/
structure PortsClear (s : Settings) (rows : List Instance) : Prop where
  /-- A rendezvous port of the rows in the instance range has an unused port below it there. -/
  rendezvous : ∀ p ∈ s.instancePortRange, p ∈ rendezvousPorts rows → p ∉ usedPorts rows →
    ∃ q ∈ s.instancePortRange, q < p ∧ q ∉ usedPorts rows
  /-- A free port in both ranges has a free port below it in one of them. -/
  overlap : ∀ p ∈ s.instancePortRange, p ∈ s.rendezvousPortRange → p ∉ usedPorts rows →
    p ∉ rendezvousPorts rows → (∃ q ∈ s.instancePortRange, q < p ∧ q ∉ usedPorts rows) ∨
      ∃ q ∈ s.rendezvousPortRange, q < p ∧ q ∉ usedPorts rows ++ rendezvousPorts rows
  /-- The port `0`, which is handed out whether a row has it or not. -/
  zero : (∃ i ∈ rows, i.port = some 0) → 0 ∉ s.instancePortRange ∧
    (0 ∈ s.rendezvousPortRange → 0 ∈ rendezvousPorts rows)

theorem zero_notMem_usedPorts (rows : List Instance) : 0 ∉ usedPorts rows :=
  fun h => (mem_usedPorts.mp h).1 rfl

/-- A port outside the used ones is no instance port of the rows, unless it is `0`. -/
theorem port_ne_of_notMem {rows : List Instance} {p : ℕ} (hp : p ∉ usedPorts rows)
    (hzero : p = 0 → ¬ ∃ i ∈ rows, i.port = some 0) : ∀ i ∈ rows, i.port ≠ some p := by
  intro i hi hport
  by_cases h : p = 0
  · exact hzero h ⟨i, hi, h ▸ hport⟩
  · exact hp (mem_usedPorts.mpr ⟨h, i, hi, hport⟩)

/-- A port that no row reserves is in no list of the allocators. -/
theorem Unreserved.notMem {rows : List Instance} {p : ℕ} (h : Unreserved rows p) :
    p ∉ usedPorts rows ++ rendezvousPorts rows := by
  rw [List.mem_append, not_or]
  refine ⟨fun hp => ?_, h.2⟩
  obtain ⟨-, i, hi, hport⟩ := mem_usedPorts.mp hp
  exact h.1 i hi hport

/-- **The two ports are apart and unreserved exactly when the ports are clear.** -/
theorem portsClear_iff {s : Settings} {rows : List Instance} {p r : ℕ}
    (hp : Lowest s.instancePortRange (usedPorts rows) p)
    (hr : Lowest s.rendezvousPortRange (usedPorts rows ++ rendezvousPorts rows) r) :
    PortsClear s rows ↔ p ≠ r ∧ Unreserved rows p ∧ Unreserved rows r := by
  have hrfree := hr.2.1
  rw [List.mem_append, not_or] at hrfree
  constructor
  · intro h
    have hlow : ¬ ∃ q ∈ s.instancePortRange, q < p ∧ q ∉ usedPorts rows := by
      rintro ⟨q, hq, hlt, hfree⟩
      exact hfree (hp.2.2 q hq hlt)
    -- the instance port is the lowest unused one, so it is no rendezvous port of the rows
    have hprdv : p ∉ rendezvousPorts rows := fun hmem =>
      hlow (h.rendezvous p hp.1 hmem hp.2.1)
    refine ⟨?_, ⟨?_, hprdv⟩, ?_, hrfree.2⟩
    · rintro rfl
      rcases h.overlap p hp.1 hr.1 hp.2.1 hprdv with hq | ⟨q, hq, hlt, hfree⟩
      · exact hlow hq
      · exact hfree (hr.2.2 q hq hlt)
    · exact port_ne_of_notMem hp.2.1 fun h0 hrow => (h.zero hrow).1 (h0 ▸ hp.1)
    · exact port_ne_of_notMem hrfree.1 fun h0 hrow =>
        hrfree.2 (h0 ▸ (h.zero hrow).2 (h0 ▸ hr.1))
  · rintro ⟨hne, hpfree, hrfree'⟩
    refine ⟨?_, ?_, ?_⟩
    · -- a rendezvous port without one below it would be the instance port
      intro q hq hmem hfree
      by_contra hno
      have hlow : Lowest s.instancePortRange (usedPorts rows) q :=
        ⟨hq, hfree, fun x hx hlt => by_contra fun hx' => hno ⟨x, hx, hlt, hx'⟩⟩
      exact hpfree.2 (hp.unique hlow ▸ hmem)
    · -- a common port without one below it would be both
      intro q hq hq' hfree hfree'
      by_contra hno
      rw [not_or] at hno
      have hlow : Lowest s.instancePortRange (usedPorts rows) q :=
        ⟨hq, hfree, fun x hx hlt => by_contra fun hx' => hno.1 ⟨x, hx, hlt, hx'⟩⟩
      have hlow' : Lowest s.rendezvousPortRange (usedPorts rows ++ rendezvousPorts rows) q :=
        ⟨hq', by rw [List.mem_append, not_or]; exact ⟨hfree, hfree'⟩,
          fun x hx hlt => by_contra fun hx' => hno.2 ⟨x, hx, hlt, hx'⟩⟩
      exact hne ((hp.unique hlow).trans (hlow'.unique hr))
    · -- the port `0` is the lowest of its range, and used by no row as the allocators see it
      rintro ⟨i, hi, hport⟩
      refine ⟨fun h0 => ?_, fun h0 => by_contra fun hrdv => ?_⟩
      · have hlow : Lowest s.instancePortRange (usedPorts rows) 0 :=
          ⟨h0, zero_notMem_usedPorts rows, fun x _ hlt => absurd hlt (Nat.not_lt_zero x)⟩
        exact hpfree.1 i hi (hp.unique hlow ▸ hport)
      · have hlow : Lowest s.rendezvousPortRange (usedPorts rows ++ rendezvousPorts rows) 0 :=
          ⟨h0, by rw [List.mem_append, not_or]; exact ⟨zero_notMem_usedPorts rows, hrdv⟩,
            fun x _ hlt => absurd hlt (Nat.not_lt_zero x)⟩
        exact hrfree'.1 i hi (hr.unique hlow ▸ hport)

/-! ### When a group is placed -/

/-- The allocators find a port each. -/
theorem hasPorts_iff {s : Settings} {rows : List Instance} : HasPorts s rows ↔
    ∃ p r, Lowest s.instancePortRange (usedPorts rows) p ∧
      Lowest s.rendezvousPortRange (usedPorts rows ++ rendezvousPorts rows) r := by
  unfold HasPorts Settings.instancePortRange Settings.rendezvousPortRange
  rw [← exists_lowest, ← exists_lowest]
  constructor
  · rintro ⟨⟨p, hp⟩, r, hr⟩
    exact ⟨p, r, hp, hr⟩
  · rintro ⟨p, r, hp, hr⟩
    exact ⟨⟨p, hp⟩, r, hr⟩

/-- **A group is placed exactly when** enough hosts fit, one of them has an address, and the head
has the two ports. -/
theorem allocateParallelReplicas_isOk_iff {s : Settings} {db : Db} (hnames : db.NamesOk)
    {clusterId : Uuid} {vram : ℕ} {engine : Engine} {n : ℕ} {exclude : List Uuid} :
    (∃ as, allocateParallelReplicas s db clusterId vram engine n exclude = .ok as) ↔
      n ≤ (freeHosts db clusterId exclude).countP (fits db engine vram) ∧
        ∃ c, IsHead (fittingHosts db clusterId vram engine exclude) c ∧
          HasPorts s (portInstances db c.worker.id) := by
  rw [← length_fittingHosts]
  constructor
  · rintro ⟨as, h⟩
    obtain ⟨_, rfl, hlen, head, others, hhosts, p, r, hp, hr, -⟩ := allocateParallelReplicas_ok h
    exact ⟨hlen, head, isHead_of_chooseHosts hhosts, hasPorts_iff.mpr
      ⟨p, r, allocPort_eq_ok_iff.mp hp, allocRendezvousPort_eq_ok_iff.mp hr⟩⟩
  · rintro ⟨hlen, c, hhead, hports⟩
    obtain ⟨p, r, hp, hr⟩ := hasPorts_iff.mp hports
    rw [← allocPort_eq_ok_iff] at hp
    rw [← allocRendezvousPort_eq_ok_iff] at hr
    have hfree : freeHosts db clusterId exclude ≠ [] :=
      List.ne_nil_of_mem (mem_fittingHosts.mp hhead.1).1
    have hconnected : connectedWorkers db clusterId ≠ [] := by
      intro hnil
      rw [freeHosts, hnil] at hfree
      exact hfree rfl
    cases hchoose : chooseHosts (fittingHosts db clusterId vram engine exclude) n with
    | nil =>
      have := chooseHosts_eq_nil_iff.mp hchoose c hhead.1
      rw [hhead.2.1] at this
      cases this
    | cons head others =>
      -- the head that is chosen is the one whose host has the ports
      obtain rfl := (isHead_of_chooseHosts hchoose).unique hnames hhead
      refine ⟨⟨head.worker, [head.gpuIndex], 0, some p, some r⟩ ::
        others.mapIdx fun k c => ⟨c.worker, [c.gpuIndex], k + 1, none, none⟩, ?_⟩
      unfold fittingHosts freeHosts at hchoose hlen
      unfold freeHosts at hfree
      unfold allocateParallelReplicas
      simp only [if_neg hconnected, if_neg hfree, hchoose, if_neg (not_lt.mpr hlen), hp, hr]

/-! ### Whether it is placed well -/

/-- A GPU of a supported vendor that has the memory free, with the index that is recorded. -/
def FittingGpu (db : Db) (engine : Engine) (vram : ℕ) (a : ParallelAllocation) (g : Gpu) : Prop :=
  g ∈ supportedGpus engine a.worker ∧ a.gpuIndexes = [g.index] ∧
    (vram : ℤ) ≤ freeVram db Dict.empty a.worker g

/-- What a placed group of `n` ranks should be. -/
structure GroupPlaced (db : Db) (clusterId : Uuid) (vram : ℕ) (engine : Engine) (n : ℕ)
    (exclude : List Uuid) (allocations : List ParallelAllocation) : Prop where
  ranks : allocations.map (·.nodeRank) = List.range n
  distinct : (allocations.map (·.worker.id)).Nodup
  hosts : ∀ a ∈ allocations, a.worker ∈ freeHosts db clusterId exclude
  gpus : ∀ a ∈ allocations, ∃ g, FittingGpu db engine vram a g
  /-- The head has an address, and no addressable host has more memory free. -/
  head : ∀ a ∈ allocations, a.nodeRank = 0 → a.worker.hasAddress = true ∧
    ∃ g, FittingGpu db engine vram a g ∧
      ∀ w ∈ freeHosts db clusterId exclude, w.hasAddress = true → ∀ g' ∈ supportedGpus engine w,
        freeVram db Dict.empty w g' ≤ freeVram db Dict.empty a.worker g
  /-- Its ports are apart, and no row of its worker reserves them. -/
  ports : ∀ a ∈ allocations, a.nodeRank = 0 → ∃ p r, a.instancePort = some p ∧
    a.rendezvousPort = some r ∧ p ≠ r ∧ Unreserved (portInstances db a.worker.id) p ∧
    Unreserved (portInstances db a.worker.id) r
  followers : ∀ a ∈ allocations, a.nodeRank ≠ 0 → a.instancePort = none ∧ a.rendezvousPort = none

/-- A group is placed exactly when enough hosts fit, one of them has an address, and the head has a
free port of each range; and it is placed as it should be. -/
def GroupPlacement (s : Settings) (db : Db) (clusterId : Uuid) (vram : ℕ) (engine : Engine) (n : ℕ)
    (exclude : List Uuid) : Prop :=
  ((∃ as, allocateParallelReplicas s db clusterId vram engine n exclude = .ok as) ↔
    n ≤ (freeHosts db clusterId exclude).countP (fits db engine vram) ∧
      (∃ w ∈ freeHosts db clusterId exclude, fits db engine vram w = true ∧
        w.hasAddress = true) ∧
      ∀ c, IsHead (fittingHosts db clusterId vram engine exclude) c →
        (∃ p ∈ s.instancePortRange, Unreserved (portInstances db c.worker.id) p) ∧
          ∃ r ∈ s.rendezvousPortRange, Unreserved (portInstances db c.worker.id) r) ∧
    ∀ as, allocateParallelReplicas s db clusterId vram engine n exclude = .ok as →
      GroupPlaced db clusterId vram engine n exclude as

section Placement

variable {s : Settings} {db : Db} {clusterId : Uuid} {vram : ℕ} {engine : Engine} {n : ℕ}
  {exclude : List Uuid} {as : List ParallelAllocation}

/-- Free ports are ports that the allocators find. -/
theorem HasPorts.of_unreserved {rows : List Instance}
    (h : (∃ p ∈ s.instancePortRange, Unreserved rows p) ∧
      ∃ r ∈ s.rendezvousPortRange, Unreserved rows r) : HasPorts s rows := by
  obtain ⟨⟨p, hp, hpfree⟩, r, hr, hrfree⟩ := h
  exact ⟨⟨p, hp, fun hmem => hpfree.notMem (List.mem_append_left _ hmem)⟩, r, hr, hrfree.notMem⟩

/-- There is a head as soon as a host that fits has an address. -/
theorem exists_isHead (haddr : ∃ w ∈ freeHosts db clusterId exclude, fits db engine vram w = true ∧
    w.hasAddress = true) : ∃ c, IsHead (fittingHosts db clusterId vram engine exclude) c := by
  obtain ⟨w, hw, hfit, ha⟩ := haddr
  rw [← isSome_bestFittingGpu, Option.isSome_iff_exists] at hfit
  obtain ⟨c, hc⟩ := hfit
  have hcw := (bestFittingGpu_eq_some hc).1
  have hmem : c ∈ fittingHosts db clusterId vram engine exclude :=
    mem_fittingHosts.mpr ⟨hcw ▸ hw, by rw [hcw]; exact hc⟩
  cases hchoose : chooseHosts (fittingHosts db clusterId vram engine exclude) 1 with
  | nil =>
    have := chooseHosts_eq_nil_iff.mp hchoose c hmem
    rw [hcw, ha] at this
    cases this
  | cons head others => exact ⟨head, isHead_of_chooseHosts hchoose⟩

/-- The candidate of a worker has the GPU that it is recorded with. -/
theorem fittingGpu_of_mem {c : Candidate}
    (hc : c ∈ fittingHosts db clusterId vram engine exclude) {a : ParallelAllocation}
    (hworker : a.worker = c.worker) (hgpus : a.gpuIndexes = [c.gpuIndex]) :
    ∃ g, FittingGpu db engine vram a g ∧ freeVram db Dict.empty a.worker g = c.free := by
  obtain ⟨-, ⟨g, hg, hidx, hfree, hle⟩, -⟩ := bestFittingGpu_eq_some (mem_fittingHosts.mp hc).2
  refine ⟨g, ⟨?_, ?_, ?_⟩, ?_⟩
  · rw [hworker]
    exact hg
  · rw [hgpus, hidx]
  · rw [hworker, ← hfree]
    exact hle
  · rw [hworker, ← hfree]

/-- No addressable host has a GPU with more free memory than that of the head. -/
theorem IsHead.freeVram_le {c : Candidate}
    (h : IsHead (fittingHosts db clusterId vram engine exclude) c) {w : Worker}
    (hw : w ∈ freeHosts db clusterId exclude) (haddr : w.hasAddress = true) {g : Gpu}
    (hg : g ∈ supportedGpus engine w) : freeVram db Dict.empty w g ≤ c.free := by
  obtain ⟨-, ⟨-, -, -, -, hle⟩, -⟩ := bestFittingGpu_eq_some (mem_fittingHosts.mp h.1).2
  by_cases hfit : (vram : ℤ) ≤ freeVram db Dict.empty w g
  · have hsome : (bestFittingGpu db engine vram w).isSome = true := by
      rw [isSome_bestFittingGpu, fits_iff]
      exact ⟨g, hg, hfit⟩
    obtain ⟨c', hc'⟩ := Option.isSome_iff_exists.mp hsome
    obtain ⟨hcw, -, hmax⟩ := bestFittingGpu_eq_some hc'
    have hmem : c' ∈ fittingHosts db clusterId vram engine exclude :=
      mem_fittingHosts.mpr ⟨hcw ▸ hw, by rw [hcw]; exact hc'⟩
    have horder := h.2.2 c' hmem (by rw [hcw]; exact haddr)
    refine (hmax g hg).trans ?_
    rcases horder with hlt | ⟨heq, -⟩
    · exact hlt.le
    · exact heq.ge
  · exact ((not_le.mp hfit).trans_le hle).le

/-- The ranks of a group: the head with its ports, then the others. -/
def groupRanks (head : Candidate) (others : List Candidate) (p r : ℕ) : List ParallelAllocation :=
  ⟨head.worker, [head.gpuIndex], 0, some p, some r⟩ ::
    others.mapIdx fun k c => ⟨c.worker, [c.gpuIndex], k + 1, none, none⟩

/-- A rank is that of the head, or a later one on another host. -/
theorem mem_groupRanks {head : Candidate} {others : List Candidate} {p r : ℕ}
    {a : ParallelAllocation} (ha : a ∈ groupRanks head others p r) :
    a = ⟨head.worker, [head.gpuIndex], 0, some p, some r⟩ ∨
      ∃ c ∈ others, ∃ k, a = ⟨c.worker, [c.gpuIndex], k + 1, none, none⟩ := by
  rcases List.mem_cons.mp ha with rfl | ha
  · exact Or.inl rfl
  · obtain ⟨k, hk, rfl⟩ := List.mem_mapIdx.mp ha
    exact Or.inr ⟨others[k], List.getElem_mem hk, k, rfl⟩

/-- The rank `0` is that of the head. -/
theorem eq_head_of_rank {head : Candidate} {others : List Candidate} {p r : ℕ}
    {a : ParallelAllocation} (ha : a ∈ groupRanks head others p r) (hrank : a.nodeRank = 0) :
    a = ⟨head.worker, [head.gpuIndex], 0, some p, some r⟩ := by
  rcases mem_groupRanks ha with rfl | ⟨c, -, k, rfl⟩
  · rfl
  · exact absurd hrank (Nat.succ_ne_zero k)

theorem workers_groupRanks (head : Candidate) (others : List Candidate) (p r : ℕ) :
    (groupRanks head others p r).map (·.worker.id) =
      (head :: others).map (·.worker.id) := by
  have hmap : (others.mapIdx (fun k c =>
      (⟨c.worker, [c.gpuIndex], k + 1, none, none⟩ : ParallelAllocation))).map (·.worker.id) =
      others.map (·.worker.id) := by
    refine List.ext_getElem (by simp) fun k hk hk' => ?_
    simp
  rw [groupRanks, List.map_cons, hmap, List.map_cons]

/-- A placed group, in terms of its hosts. -/
theorem allocateParallelReplicas_eq_ok
    (h : allocateParallelReplicas s db clusterId vram engine n exclude = .ok as) :
    ∃ head others p r, chooseHosts (fittingHosts db clusterId vram engine exclude) n =
        head :: others ∧
      Lowest s.instancePortRange (usedPorts (portInstances db head.worker.id)) p ∧
      Lowest s.rendezvousPortRange (usedPorts (portInstances db head.worker.id) ++
        rendezvousPorts (portInstances db head.worker.id)) r ∧
      as = groupRanks head others p r := by
  obtain ⟨_, rfl, -, head, others, hhosts, p, r, hp, hr, rfl⟩ := allocateParallelReplicas_ok h
  exact ⟨head, others, p, r, hhosts, allocPort_eq_ok_iff.mp hp,
    allocRendezvousPort_eq_ok_iff.mp hr, rfl⟩

/-- **The hosts of a placed group**: one for each rank, all different, each with a fitting GPU. -/
theorem hosts_allocateParallelReplicas (hkeys : (db.workers.map (·.id)).Nodup)
    (h : allocateParallelReplicas s db clusterId vram engine n exclude = .ok as) :
    (as.map (·.worker.id)).Nodup ∧
      ∀ a ∈ as, a.worker ∈ freeHosts db clusterId exclude ∧ ∃ g, FittingGpu db engine vram a g := by
  obtain ⟨head, others, p, r, hhosts, -, -, rfl⟩ := allocateParallelReplicas_eq_ok h
  constructor
  · rw [workers_groupRanks, ← hhosts]
    exact nodup_chooseHosts (nodup_fittingHosts hkeys) n
  · intro a ha
    -- each rank is on a candidate
    obtain ⟨c, hc, hworker, hgpus⟩ : ∃ c ∈ fittingHosts db clusterId vram engine exclude,
        a.worker = c.worker ∧ a.gpuIndexes = [c.gpuIndex] := by
      rcases mem_groupRanks ha with rfl | ⟨c, hc, k, rfl⟩
      · exact ⟨head, (isHead_of_chooseHosts hhosts).1, rfl, rfl⟩
      · exact ⟨c, mem_of_mem_chooseHosts (hhosts ▸ List.mem_cons_of_mem _ hc), rfl, rfl⟩
    obtain ⟨g, hg, -⟩ := fittingGpu_of_mem hc hworker hgpus
    rw [hworker]
    exact ⟨(mem_fittingHosts.mp hc).1, g, hg⟩

/-- **A placed group is as it should be exactly when the ports of its head are clear.** -/
theorem groupPlaced_iff (hkeys : (db.workers.map (·.id)).Nodup) (hn : 1 ≤ n)
    (h : allocateParallelReplicas s db clusterId vram engine n exclude = .ok as) :
    ∃ c, IsHead (fittingHosts db clusterId vram engine exclude) c ∧
      HasPorts s (portInstances db c.worker.id) ∧
      (GroupPlaced db clusterId vram engine n exclude as ↔
        PortsClear s (portInstances db c.worker.id)) := by
  have hranks := ranks_allocateParallelReplicas hkeys hn h
  obtain ⟨hdistinct, hworkers⟩ := hosts_allocateParallelReplicas hkeys h
  obtain ⟨head, others, p, r, hhosts, hp, hr, rfl⟩ := allocateParallelReplicas_eq_ok h
  have hhead := isHead_of_chooseHosts hhosts
  refine ⟨head, hhead, hasPorts_iff.mpr ⟨p, r, hp, hr⟩, ?_⟩
  rw [portsClear_iff hp hr]
  constructor
  · intro hplaced
    obtain ⟨p', r', hp', hr', hclear⟩ := hplaced.ports _ List.mem_cons_self rfl
    obtain rfl := Option.some.inj hp'
    obtain rfl := Option.some.inj hr'
    exact hclear
  · intro hclear
    refine ⟨hranks, hdistinct, fun a ha => (hworkers a ha).1, fun a ha => (hworkers a ha).2,
      ?_, ?_, ?_⟩
    · intro a ha hrank
      obtain rfl := eq_head_of_rank ha hrank
      obtain ⟨g, hg, hfree⟩ := fittingGpu_of_mem hhead.1
        (a := ⟨head.worker, [head.gpuIndex], 0, some p, some r⟩) rfl rfl
      refine ⟨hhead.2.1, g, hg, fun w hw haddr g' hg' => ?_⟩
      rw [hfree]
      exact hhead.freeVram_le hw haddr hg'
    · intro a ha hrank
      obtain rfl := eq_head_of_rank ha hrank
      exact ⟨p, r, rfl, rfl, hclear⟩
    · intro a ha hrank
      rcases mem_groupRanks ha with rfl | ⟨c, -, k, rfl⟩
      · exact absurd rfl hrank
      · exact ⟨rfl, rfl⟩

/-- **Groups are placed right exactly when** the ports of the head are clear, if so many hosts fit
and the allocators find its ports. -/
theorem groupPlacement_iff (hkeys : (db.workers.map (·.id)).Nodup) (hnames : db.NamesOk)
    (hn : 1 ≤ n) : GroupPlacement s db clusterId vram engine n exclude ↔
      (n ≤ (freeHosts db clusterId exclude).countP (fits db engine vram) →
        ∀ c, IsHead (fittingHosts db clusterId vram engine exclude) c →
          HasPorts s (portInstances db c.worker.id) →
            PortsClear s (portInstances db c.worker.id)) := by
  have hok : (∃ as, allocateParallelReplicas s db clusterId vram engine n exclude = .ok as) ↔ _ :=
    allocateParallelReplicas_isOk_iff hnames
  constructor
  · -- a call with hosts and ports succeeds, and its placement shows the ports
    rintro ⟨-, hplaced⟩ hlen c hc hports
    obtain ⟨as, h⟩ := hok.mpr ⟨hlen, c, hc, hports⟩
    obtain ⟨c', hc', -, hiff⟩ := groupPlaced_iff hkeys hn h
    rw [hc.unique hnames hc']
    exact hiff.mp (hplaced as h)
  · intro hclear
    constructor
    · constructor
      · intro h
        obtain ⟨hlen, c, hc, hports⟩ := hok.mp h
        obtain ⟨p, r, hp, hr⟩ := hasPorts_iff.mp hports
        obtain ⟨-, hpfree, hrfree⟩ := (portsClear_iff hp hr).mp (hclear hlen c hc hports)
        obtain ⟨hw, hbest⟩ := mem_fittingHosts.mp hc.1
        refine ⟨hlen, ⟨c.worker, hw, ?_, hc.2.1⟩, fun c' hc' => ?_⟩
        · rw [← isSome_bestFittingGpu, hbest]
          rfl
        · rw [hc'.unique hnames hc]
          exact ⟨⟨p, hp.1, hpfree⟩, r, hr.1, hrfree⟩
      · rintro ⟨hlen, haddr, hports⟩
        obtain ⟨c, hc⟩ := exists_isHead haddr
        exact hok.mpr ⟨hlen, c, hc, HasPorts.of_unreserved (hports c hc)⟩
    · intro as h
      obtain ⟨hlen, -⟩ := hok.mp ⟨as, h⟩
      obtain ⟨c, hc, hports, hiff⟩ := groupPlaced_iff hkeys hn h
      exact hiff.mpr (hclear hlen c hc hports)

end Placement

/-- The tables of the two hosts of `groupRun`, before the group. -/
def pairedHosts : Db := (Run.exec (World.next sampleEnv) sampleWorld groupRun.dropLast).db

/-- On hosts without rows the default ranges, being apart, are clear. -/
theorem groupPlacement_pairedHosts : GroupPlacement {} pairedHosts 1 10 .vllm 2 [] := by
  have hrows : pairedHosts.instances = [] := by decide +kernel
  refine (groupPlacement_iff (by decide +kernel) (by decide +kernel) (by decide)).mpr ?_
  intro _ c _ _
  have hnone : portInstances pairedHosts c.worker.id = [] := by
    unfold portInstances
    rw [hrows, List.filter_nil]
  rw [hnone]
  refine ⟨fun p _ hp => absurd hp List.not_mem_nil, fun p hp hp' => ?_,
    fun h => absurd h (by simp)⟩
  simp only [Settings.instancePortRange, Settings.rendezvousPortRange, Settings.portRange,
    List.mem_range'_1] at hp hp'
  omega

/-- Settings whose two ranges are one. -/
def oneRange : Settings := { rendezvousPortRangeStart := 8010, rendezvousPortRangeEnd := 8100 }

/-- **With one range the head gets one port twice.** -/
theorem oneRange_collides : ¬ ∀ (s : Settings) (db : Db) (clusterId : Uuid) (vram : ℕ)
    (engine : Engine) (n : ℕ) (exclude : List Uuid), (db.workers.map (·.id)).Nodup → db.NamesOk →
      2 ≤ n → GroupPlacement s db clusterId vram engine n exclude := by
  intro h
  obtain ⟨-, hplaced⟩ := h oneRange pairedHosts 1 10 .vllm 2 [] (by decide +kernel)
    (by decide +kernel) le_rfl
  have hout : (allocateParallelReplicas oneRange pairedHosts 1 10 .vllm 2 []).toOption.map
      (·.map fun a => (a.nodeRank, a.instancePort, a.rendezvousPort)) =
        some [(0, some 8010, some 8010), (1, none, none)] := by
    decide +kernel
  cases has : allocateParallelReplicas oneRange pairedHosts 1 10 .vllm 2 [] with
  | error e =>
    rw [has] at hout
    cases hout
  | ok as =>
    rw [has] at hout
    have hmap : as.map (fun a => (a.nodeRank, a.instancePort, a.rendezvousPort)) =
        [(0, some 8010, some 8010), (1, none, none)] := Option.some.inj hout
    have hmem : (0, some 8010, some 8010) ∈
        as.map fun a => (a.nodeRank, a.instancePort, a.rendezvousPort) := by
      rw [hmap]
      exact List.mem_cons_self
    obtain ⟨a, ha, heq⟩ := List.mem_map.mp hmem
    obtain ⟨hrank, hports⟩ := Prod.mk.inj heq
    obtain ⟨hp, hr⟩ := Prod.mk.inj hports
    obtain ⟨p, r, hp', hr', hne, -⟩ := (hplaced as has).ports a ha hrank
    exact hne (Option.some.inj (hp'.symm.trans (hp.trans (hr.symm.trans hr'))))

end Inferna
