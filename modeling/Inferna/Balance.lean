import Inferna.Slots
import Inferna.Lib.RoundRobin

/-!
# Least-loaded routing is balanced and fair

The two sections of `_active_lock` select and reserve, and release.  A history is a list of them in
the order in which the lock was taken.  It leaves in the counters how many slots of an instance are
held and when the instance was last selected, and the selection among rows without a prefix overlap
is the choice of `RoundRobin.leastLoaded` from these two.

The instances of a model are then taken in turn, as long as no slot is given back or every slot is
given back before the next selection.

## Main definitions

* `RoutingEvent`, `RoutingHistory` — the sections of the lock, and what has come of them.
* `NoOverlap` — no row has a part of the prompt.
* `Routable` — the rows of a model, each with its worker.

## Main results

* `agrees_exec` — the counters are what the history says.
* `selectRow_eq` — **the selection is the choice of the least loaded.**
* `gateway_history` — the counters of every run of the gateway are those of a history.
* `routing_fair` — **balance, rotation, and the least loaded in every history.**
-/

namespace Inferna

open RoundRobin

/-- A section of `_active_lock`. -/
inductive RoutingEvent
  | select (rows : List RoutingRow) (overlap : Uuid → ℕ)
  | release (id : Uuid)

/-- The counters with their history: the instances whose slots are held, and all that were
selected.  The newest comes first. -/
structure RoutingHistory where
  routing : Routing := {}
  held : List Uuid := []
  picks : List Uuid := []

/-- One section of the lock. -/
def RoutingHistory.step (h : RoutingHistory) : RoutingEvent → RoutingHistory
  | .select rows overlap =>
    match selectRow h.routing overlap rows with
    | none => h
    | some (inst, _) => ⟨h.routing.reserve inst.id, inst.id :: h.held, inst.id :: h.picks⟩
  | .release id => ⟨h.routing.releaseInstance id, h.held.erase id, h.picks⟩

/-- What has come of a list of sections. -/
def routed (evs : List RoutingEvent) : RoutingHistory := Run.exec RoutingHistory.step {} evs

/-- No row has a part of the prompt. -/
def NoOverlap (rows : List RoutingRow) (overlap : Uuid → ℕ) : Prop :=
  ∀ r ∈ rows, overlap r.inst.id = 0

/-- Every row has its worker. -/
def HaveWorkers (rows : List RoutingRow) : Prop := ∀ r ∈ rows, r.worker.isSome = true

instance (rows : List RoutingRow) : Decidable (HaveWorkers rows) :=
  inferInstanceAs (Decidable (∀ r ∈ rows, r.worker.isSome = true))

/-! ### The counters -/

/-- The counters are what the history says. -/
structure RoutingHistory.Agrees (h : RoutingHistory) : Prop where
  active : ∀ i, h.routing.activeByInstance.get? i = slotEntry (h.held.count i)
  last : ∀ i, h.routing.lastAssigned.getD i 0 = lastIndex i h.picks
  seq : h.routing.assignSeq = h.picks.length + 1

theorem agrees_init : RoutingHistory.Agrees {} := ⟨fun _ => rfl, fun _ => rfl, rfl⟩

/-- A release takes one slot off, if there is one. -/
theorem get?_releaseInstance_count {s : Routing} {held : List Uuid} {i : Uuid}
    (h : s.activeByInstance.get? i = slotEntry (held.count i)) (id : Uuid) :
    (s.releaseInstance id).activeByInstance.get? i = slotEntry ((held.erase id).count i) := by
  rw [List.count_erase]
  by_cases hzero : id = i ∧ held.count i = 0
  · -- nothing is held, and the entry is removed once more
    obtain ⟨rfl, hzero⟩ := hzero
    have hget : s.activeByInstance.getD id 1 = 1 := by
      unfold Dict.getD
      rw [h, hzero]
      rfl
    show (if s.activeByInstance.getD id 1 - 1 ≤ 0 then s.activeByInstance.erase id
      else s.activeByInstance.set id (s.activeByInstance.getD id 1 - 1)).get? id = _
    rw [hget, if_pos (by norm_num), Dict.get?_erase_self, hzero, Nat.zero_sub]
    rfl
  · rw [get?_releaseInstance h (fun hid => Nat.pos_of_ne_zero fun hz => hzero ⟨hid, hz⟩)]
    by_cases hid : id = i
    · subst hid
      simp
    · have hid' : ¬ (id == i) = true := by simpa using hid
      rw [if_neg hid, if_neg hid']

/-- A selection reserves for its instance, stamps it, and counts on. -/
theorem agrees_reserve {h : RoutingHistory} (ha : h.Agrees) (id : Uuid) :
    RoutingHistory.Agrees ⟨h.routing.reserve id, id :: h.held, id :: h.picks⟩ := by
  refine ⟨fun i => ?_, fun i => ?_, ?_⟩
  · rw [get?_reserve (ha.active i) id, List.count_cons]
    simp only [beq_iff_eq]
  · show ((h.routing.lastAssigned.set id h.routing.assignSeq).get? i).getD 0 = _
    rw [Dict.get?_set, lastIndex_cons, ha.seq]
    split
    · rfl
    · exact ha.last i
  · show h.routing.assignSeq + 1 = _
    rw [ha.seq, List.length_cons]

theorem agrees_step {h : RoutingHistory} (ha : h.Agrees) (ev : RoutingEvent) :
    (h.step ev).Agrees := by
  cases ev with
  | select rows overlap =>
    simp only [RoutingHistory.step]
    split
    · exact ha
    · exact agrees_reserve ha _
  | release id => exact ⟨fun i => get?_releaseInstance_count (ha.active i) id, ha.last, ha.seq⟩

theorem agrees_exec (evs : List RoutingEvent) : ∀ {h : RoutingHistory}, h.Agrees →
    (Run.exec RoutingHistory.step h evs).Agrees := by
  induction evs with
  | nil => exact id
  | cons ev evs ih => exact fun ha => ih (agrees_step ha ev)

/-- **The counters are what the history says.** -/
theorem agrees_routed (evs : List RoutingEvent) : (routed evs).Agrees := agrees_exec evs agrees_init

/-! ### The selection -/

/-- What the selection compares, from the history. -/
def RoutingHistory.load (h : RoutingHistory) (r : RoutingRow) : ℕ ×ₗ ℕ :=
  toLex (h.held.count r.inst.id, lastIndex r.inst.id h.picks)

theorem RoutingHistory.Agrees.before_iff {h : RoutingHistory} (ha : h.Agrees) (a b : RoutingRow) :
    RoutingRow.Before h.routing a b ↔ h.load a < h.load b := by
  unfold RoutingRow.Before RoutingHistory.load
  rw [getD_of_slotEntry (ha.active a.inst.id), getD_of_slotEntry (ha.active b.inst.id),
    ha.last, ha.last, Prod.Lex.toLex_lt_toLex, Nat.cast_lt, Nat.cast_inj]

theorem bestOverlap_of_noOverlap {rows : List RoutingRow} {overlap : Uuid → ℕ}
    (h : NoOverlap rows overlap) : bestOverlap overlap rows = 0 := by
  unfold bestOverlap
  induction rows with
  | nil => rfl
  | cons r rows ih =>
    rw [List.map_cons, List.foldr_cons, h r List.mem_cons_self,
      ih fun r hr => h r (List.mem_cons_of_mem _ hr), max_self]

theorem foldl_argAux_eq_argmin {α β : Type} [LinearOrder β] {r : α → α → Prop} [DecidableRel r]
    {f : α → β} (h : ∀ a b, r a b ↔ f a < f b) (l : List α) :
    l.foldl (List.argAux r) none = l.argmin f := by
  have haux : List.argAux r = List.argAux fun a b => f a < f b := by
    funext o b
    cases o with
    | none => rfl
    | some a => simp only [List.argAux, h]
  rw [haux]
  rfl

/-- **The selection is the choice of the least loaded**, when no row has a part of the prompt. -/
theorem selectRow_eq {h : RoutingHistory} (ha : h.Agrees) {rows : List RoutingRow}
    {overlap : Uuid → ℕ} (hno : NoOverlap rows overlap) (hw : HaveWorkers rows) :
    (selectRow h.routing overlap rows).map (·.1.id) =
      leastLoaded h.held h.picks (rows.map (·.inst.id)) := by
  have hfold : (routingPool overlap rows).foldl (List.argAux (RoutingRow.Before h.routing)) none =
      rows.argmin h.load := by
    rw [routingPool, if_pos (bestOverlap_of_noOverlap hno)]
    exact foldl_argAux_eq_argmin ha.before_iff rows
  unfold selectRow leastLoaded
  rw [hfold, argmin_map]
  cases hrow : rows.argmin h.load with
  | none => exact (congrArg (Option.map _) hrow).symm
  | some row =>
    obtain ⟨worker, hworker⟩ := Option.isSome_iff_exists.mp (hw row (List.argmin_mem hrow))
    have hrow' : rows.argmin (fun r => toLex (h.held.count r.inst.id,
        lastIndex r.inst.id h.picks)) = some row := hrow
    simp [hworker, hrow', Function.comp_def]

/-- A selection among rows without an overlap takes the choice of the least loaded. -/
theorem step_select {h : RoutingHistory} (ha : h.Agrees) {rows : List RoutingRow}
    {overlap : Uuid → ℕ} (hno : NoOverlap rows overlap) (hw : HaveWorkers rows) {id : Uuid}
    (hid : leastLoaded h.held h.picks (rows.map (·.inst.id)) = some id) :
    (h.step (.select rows overlap)).held = id :: h.held ∧
      (h.step (.select rows overlap)).picks = id :: h.picks := by
  have hsel := selectRow_eq ha hno hw
  rw [hid, Option.map_eq_some_iff] at hsel
  obtain ⟨⟨inst, worker⟩, hrow, rfl⟩ := hsel
  simp only [RoutingHistory.step, hrow]
  exact ⟨trivial, trivial⟩

/-- **In every history a selection takes an instance with the fewest held slots, and among those
the least recently selected.** -/
theorem select_least (evs : List RoutingEvent) {rows : List RoutingRow} (hne : rows ≠ [])
    {overlap : Uuid → ℕ} (hno : NoOverlap rows overlap) (hw : HaveWorkers rows) :
    ∃ inst worker, selectRow (routed evs).routing overlap rows = some (inst, worker) ∧
      inst.id ∈ rows.map (·.inst.id) ∧
      ∀ r ∈ rows, (routed evs).held.count inst.id ≤ (routed evs).held.count r.inst.id ∧
        ((routed evs).held.count r.inst.id = (routed evs).held.count inst.id →
          lastIndex inst.id (routed evs).picks ≤ lastIndex r.inst.id (routed evs).picks) := by
  have hsel := selectRow_eq (agrees_routed evs) hno hw
  obtain ⟨id, hid⟩ := leastLoaded_isSome (routed evs).held (routed evs).picks
    (show rows.map (·.inst.id) ≠ [] from fun h => hne (List.map_eq_nil_iff.mp h))
  rw [hid, Option.map_eq_some_iff] at hsel
  obtain ⟨⟨inst, worker⟩, hrow, rfl⟩ := hsel
  obtain ⟨hmem, hleast⟩ := leastLoaded_spec hid
  exact ⟨inst, worker, hrow, hmem, fun r hr => hleast _ (List.mem_map.mpr ⟨r, hr, rfl⟩)⟩

/-! ### Rotation -/

/-- A section that selects. -/
def RoutingEvent.isSelect : RoutingEvent → Bool
  | .select _ _ => true
  | .release _ => false

/-- A selection among these rows, without an overlap. -/
def RoutingEvent.SelectsFrom (rows : List RoutingRow) : RoutingEvent → Prop
  | .select rows' overlap => rows' = rows ∧ NoOverlap rows overlap
  | .release _ => False

/-- A release, or such a selection while no slot is held. -/
def RoutingEvent.ServedIdle (rows : List RoutingRow) (h : RoutingHistory) : RoutingEvent → Prop
  | .select rows' overlap => rows' = rows ∧ NoOverlap rows overlap ∧ h.held = []
  | .release _ => True

/-- The rows of a rotation: each has its worker, and an id of its own. -/
structure Rotating (rows : List RoutingRow) : Prop where
  nonempty : rows ≠ []
  workers : HaveWorkers rows
  ids : (rows.map (·.inst.id)).Nodup

theorem Rotating.pos {rows : List RoutingRow} (hr : Rotating rows) :
    0 < (rows.map (·.inst.id)).length := by
  rw [List.length_map]
  exact List.length_pos_iff.mpr hr.nonempty

/-- After a rotation of which nothing, or everything, was given back, a selection goes on with
it. -/
theorem step_rotation {rows : List RoutingRow} (hr : Rotating rows) {h : RoutingHistory}
    (ha : h.Agrees) {overlap : Uuid → ℕ} (hno : NoOverlap rows overlap) {n : ℕ}
    (hpicks : h.picks = RoundRobin.rotation (rows.map (·.inst.id)) n)
    (hheld : h.held = h.picks ∨ h.held = []) :
    (h.step (.select rows overlap)).picks = RoundRobin.rotation (rows.map (·.inst.id)) (n + 1) ∧
      (h.held = h.picks → (h.step (.select rows overlap)).held =
        (h.step (.select rows overlap)).picks) := by
  have hnext := leastLoaded_rotation hr.ids n (hpicks ▸ hheld)
  rw [List.getElem?_eq_getElem (Nat.mod_lt n hr.pos), ← hpicks] at hnext
  obtain ⟨hheld', hpicks'⟩ := step_select ha hno hr.workers hnext
  refine ⟨?_, fun heq => by rw [hheld', hpicks', heq]⟩
  rw [hpicks', hpicks, RoundRobin.rotation, List.getElem?_eq_getElem (Nat.mod_lt n hr.pos)]
  rfl

/-- Without a release the slots held are those of a rotation. -/
theorem held_of_selects {rows : List RoutingRow} (hr : Rotating rows) {evs : List RoutingEvent}
    (hevs : ∀ ev ∈ evs, ev.SelectsFrom rows) :
    (routed evs).picks = RoundRobin.rotation (rows.map (·.inst.id)) evs.length ∧
      (routed evs).held = (routed evs).picks := by
  induction evs using List.reverseRecOn with
  | nil => exact ⟨rfl, rfl⟩
  | append_singleton evs ev ih =>
    obtain ⟨hpicks, hheld⟩ := ih fun ev hev => hevs ev (List.mem_append_left _ hev)
    have hev := hevs ev (List.mem_append_right _ (List.mem_singleton.mpr rfl))
    cases ev with
    | release id => exact hev.elim
    | select rows' overlap =>
      obtain ⟨rfl, hno⟩ := hev
      obtain ⟨hpicks', hheld'⟩ := step_rotation hr (agrees_routed evs) hno hpicks (Or.inl hheld)
      rw [routed, Run.exec_append, List.length_append, List.length_singleton]
      exact ⟨hpicks', hheld' hheld⟩

/-- If nothing is held when an instance is selected, the selections are a rotation. -/
theorem picks_of_servedIdle {rows : List RoutingRow} (hr : Rotating rows)
    (evs : List RoutingEvent) :
    ∀ {h : RoutingHistory} {n : ℕ}, h.Agrees →
      h.picks = RoundRobin.rotation (rows.map (·.inst.id)) n →
      Run.Conforms RoutingHistory.step (fun h ev => ev.ServedIdle rows h) h evs →
      (Run.exec RoutingHistory.step h evs).picks =
        RoundRobin.rotation (rows.map (·.inst.id)) (n + evs.countP (·.isSelect)) := by
  induction evs with
  | nil => exact fun _ hpicks _ => hpicks
  | cons ev evs ih =>
    rintro h n ha hpicks ⟨hev, hevs⟩
    cases ev with
    | release id => exact ih (agrees_step ha _) hpicks hevs
    | select rows' overlap =>
      obtain ⟨rfl, hno, hheld⟩ := hev
      have hpicks' := (step_rotation hr ha hno hpicks (Or.inr hheld)).1
      rw [Run.exec_cons, ih (agrees_step ha _) hpicks' hevs, List.countP_cons_of_pos rfl,
        Nat.add_right_comm, Nat.add_assoc]

/-! ### The gateway -/

/-- Two routing states count the same. -/
structure Routing.SameCounters (s s' : Routing) : Prop where
  active : s.activeByInstance = s'.activeByInstance
  last : s.lastAssigned = s'.lastAssigned
  seq : s.assignSeq = s'.assignSeq

theorem Routing.SameCounters.trans {s s' s'' : Routing} (h : s.SameCounters s')
    (h' : s'.SameCounters s'') : s.SameCounters s'' :=
  ⟨h.active.trans h'.active, h.last.trans h'.last, h.seq.trans h'.seq⟩

theorem Routing.SameCounters.reserve {s s' : Routing} (h : s.SameCounters s') (id : Uuid) :
    (s.reserve id).SameCounters (s'.reserve id) := by
  refine ⟨?_, ?_, ?_⟩ <;> simp only [Routing.reserve, Routing.locked, h.active, h.last, h.seq]

theorem Routing.SameCounters.releaseInstance {s s' : Routing} (h : s.SameCounters s') (id : Uuid) :
    (s.releaseInstance id).SameCounters (s'.releaseInstance id) := by
  refine ⟨?_, h.last, h.seq⟩
  simp only [Routing.releaseInstance, Routing.locked, h.active]

/-- The selection looks at the counters only. -/
theorem selectRow_congr {s s' : Routing} (h : s.SameCounters s') (overlap : Uuid → ℕ)
    (rows : List RoutingRow) : selectRow s overlap rows = selectRow s' overlap rows := by
  have haux : List.argAux (RoutingRow.Before s) = List.argAux (RoutingRow.Before s') := by
    funext o b
    cases o with
    | none => rfl
    | some a => simp only [List.argAux, RoutingRow.Before, h.active, h.last]
  unfold selectRow
  rw [haux]

/-- The counters `s` are reached from a history. -/
def RoutingHistory.Reaches (h : RoutingHistory) (s : Routing) : Prop :=
  ∃ evs, s.SameCounters (Run.exec RoutingHistory.step h evs).routing

section Gateway

variable {u : Unicode} {settings : GuardSettings} {h : RoutingHistory} {s s' : Routing}

theorem RoutingHistory.Reaches.keep (hs : s.SameCounters h.routing) (hs' : s'.SameCounters s) :
    h.Reaches s' := ⟨[], hs'.trans hs⟩

theorem endRequest_counters (s : Routing) (q : Request) (ending : Ending) :
    (endRequest s q ending).1.SameCounters s := by
  unfold endRequest
  split
  · split <;> exact ⟨rfl, rfl, rfl⟩
  · exact ⟨rfl, rfl, rfl⟩

theorem releaseAndEnd_reaches (hs : s.SameCounters h.routing) (q : Request) (id : Uuid)
    (ending : Ending) : h.Reaches (releaseAndEnd s q id ending).1 := by
  unfold releaseAndEnd
  split
  · exact .keep hs ⟨rfl, rfl, rfl⟩
  · exact ⟨[.release id], (endRequest_counters _ _ _).trans (hs.releaseInstance id)⟩

theorem selectInstance_reaches (hs : s.SameCounters h.routing) (q : Request) (overlap : Uuid → ℕ)
    (rows : List RoutingRow) : h.Reaches (selectInstance s q overlap rows).1 := by
  unfold selectInstance
  split
  · exact .keep hs (endRequest_counters _ _ _)
  · rename_i inst worker hrow
    refine ⟨[.select rows overlap], ?_⟩
    rw [selectRow_congr hs] at hrow
    simp only [Run.exec_cons, Run.exec_nil, RoutingHistory.step, hrow]
    exact hs.reserve inst.id

theorem sendFailed_reaches (hs : s.SameCounters h.routing) (q : Request) (inst : Instance)
    (e : Exc) : h.Reaches (sendFailed s q inst e).1 := by
  have hcount : (s.countRequest q.modelName 502).SameCounters h.routing :=
    ⟨hs.active, hs.last, hs.seq⟩
  unfold sendFailed
  split
  · exact releaseAndEnd_reaches hcount _ _ _
  · exact releaseAndEnd_reaches hcount _ _ _
  · exact releaseAndEnd_reaches hs _ _ _

theorem validateTarget_reaches (hs : s.SameCounters h.routing) (q : Request) (inst : Instance)
    (worker : Worker) (answer : DnsAnswer) :
    h.Reaches (validateTarget u settings s q inst worker answer).1 := by
  have hcount : (s.countRequest q.modelName 502).SameCounters h.routing :=
    ⟨hs.active, hs.last, hs.seq⟩
  unfold validateTarget
  split
  · exact releaseAndEnd_reaches hcount _ _ _
  split
  · exact releaseAndEnd_reaches hs _ _ _
  · exact .keep hs ⟨rfl, rfl, rfl⟩

theorem buildRequest_reaches (hs : s.SameCounters h.routing) (q : Request) (inst : Instance)
    (worker : Worker) (target : List Char) (exceeded : Option (ℕ × ℕ)) (build : Option Exc) :
    h.Reaches (buildRequest u s q inst worker target exceeded build).1 := by
  unfold buildRequest
  split
  · exact releaseAndEnd_reaches hs _ _ _
  split
  · exact releaseAndEnd_reaches hs _ _ _
  split
  · exact sendFailed_reaches hs _ _ _
  · exact .keep hs ⟨rfl, rfl, rfl⟩

theorem endBody_counters (s : Routing) (q : Request) (inst : Instance) (status : ℕ)
    (body : BodyEnd) : (endBody s q inst status body).1.SameCounters s := by
  unfold endBody
  split
  · exact ⟨rfl, rfl, rfl⟩
  · exact ⟨rfl, rfl, rfl⟩
  · exact endRequest_counters _ _ _

theorem finishRelay_counters (s : Routing) (q : Request) (inst : Instance) (status : ℕ)
    (how : RelayEnd) (accounting : Option Exc) :
    (finishRelay s q inst status how accounting).1.SameCounters s := by
  unfold finishRelay
  split
  · exact endBody_counters _ _ _ _ _
  · exact ⟨rfl, rfl, rfl⟩

/-- A step of a request takes at most one section of the lock. -/
theorem resume_reaches (hs : s.SameCounters h.routing) (q : Request) (o : Awaited) :
    h.Reaches (resume u settings s q o).1 := by
  have hstay : s.SameCounters s := ⟨rfl, rfl, rfl⟩
  unfold resume
  split
  case h_1 =>
    split
    · exact .keep hs (endRequest_counters _ _ _)
    · exact .keep hs hstay
  case h_2 => exact .keep hs (endRequest_counters _ _ _)
  case h_3 =>
    split
    · exact .keep hs hstay
    · exact selectInstance_reaches hs _ _ _
  case h_4 => exact .keep hs (endRequest_counters _ _ _)
  case h_5 =>
    split
    · exact .keep hs hstay
    · exact selectInstance_reaches hs _ _ _
  case h_6 => exact .keep hs (endRequest_counters _ _ _)
  case h_7 => exact validateTarget_reaches hs _ _ _ _
  case h_8 => exact releaseAndEnd_reaches hs _ _ _
  case h_9 => exact buildRequest_reaches hs _ _ _ _ _ _
  case h_10 => exact releaseAndEnd_reaches hs _ _ _
  case h_11 => exact .keep hs ⟨rfl, rfl, rfl⟩
  case h_12 => exact sendFailed_reaches hs _ _ _
  case h_13 => exact .keep hs (finishRelay_counters _ _ _ _ _ _)
  case h_14 => exact .keep hs (finishRelay_counters _ _ _ _ _ _)
  case h_15 => exact .keep hs (endBody_counters _ _ _ _ _)
  case h_16 => exact .keep hs (endBody_counters _ _ _ _ _)
  case h_17 => exact releaseAndEnd_reaches hs _ _ _
  case h_18 => exact releaseAndEnd_reaches hs _ _ _
  case h_19 => exact .keep hs (endRequest_counters _ _ _)
  case h_20 => exact .keep hs hstay

/-- **The counters of every run of the gateway are those of a history.** -/
theorem gateway_history (gevs : List GatewayEvent) :
    RoutingHistory.Reaches {} (Run.exec (Gateway.step u settings) {} gevs).routing := by
  induction gevs using List.reverseRecOn with
  | nil => exact ⟨[], rfl, rfl, rfl⟩
  | append_singleton gevs gev ih =>
    obtain ⟨evs, hevs⟩ := ih
    rw [Run.exec_append, Run.exec_cons, Run.exec_nil]
    cases gev with
    | arrive modelName path query => exact ⟨evs, hevs⟩
    | resume r o =>
      simp only [Gateway.step]
      split
      · exact ⟨evs, hevs⟩
      · rename_i q hq
        obtain ⟨more, hmore⟩ := @resume_reaches u settings _ _ hevs q o
        exact ⟨evs ++ more, by rw [Run.exec_append]; exact hmore⟩

end Gateway

/-! ### A model's instances -/

/-- A model has routable rows, each with its worker, and no two of one age.  The ids are the
primary key of the table. -/
structure Routable (db : Db) (modelId : Uuid) : Prop where
  nonempty : routingRows db modelId ≠ []
  workers : HaveWorkers (routingRows db modelId)
  ages : ((routingRows db modelId).map (·.inst.createdAt)).Nodup
  ids : (db.instances.map (·.id)).Nodup

theorem Routable.rotating {db : Db} {modelId : Uuid} (h : Routable db modelId) :
    Rotating (routingRows db modelId) := by
  refine ⟨h.nonempty, h.workers, ?_⟩
  have hids : (routingRows db modelId).map (·.inst.id) = ((db.instances.filter fun i =>
      i.modelId = modelId ∧ i.state.isLive = true ∧ i.port.isSome = true ∧
        (i.parallelGroupId = none ∨ i.nodeRank = some 0)).insertionSort
          fun a b => a.createdAt ≤ b.createdAt).map (·.id) := by
    rw [routingRows, List.map_map]
    rfl
  rw [hids, ((List.perm_insertionSort _ _).map _).nodup_iff]
  exact h.ids.sublist (List.filter_sublist.map _)

/-- The rows come in the order of their age. -/
theorem Routable.sorted {db : Db} {modelId : Uuid} (h : Routable db modelId) :
    (routingRows db modelId).Pairwise fun a b => a.inst.createdAt < b.inst.createdAt := by
  have hle : (routingRows db modelId).Pairwise fun a b => a.inst.createdAt ≤ b.inst.createdAt := by
    have htotal : Std.Total fun a b : Instance => a.createdAt ≤ b.createdAt :=
      ⟨fun a b => Nat.le_total _ _⟩
    have htrans : IsTrans Instance fun a b => a.createdAt ≤ b.createdAt :=
      ⟨fun _ _ _ hab hbc => hab.trans hbc⟩
    exact List.pairwise_map.mpr (List.pairwise_insertionSort _ _)
  exact hle.imp₂ (fun _ _ hle hne => lt_of_le_of_ne hle hne) (List.pairwise_map.mp h.ages)

/-- **Balance, rotation, and the least loaded in every history.**  With `k` routable rows, in the
order of their age: the counters are what the history says; `m` selections without a release leave
`⌊m / k⌋` or `⌈m / k⌉` slots held on each; selections while nothing is held take them in turn; and
after every history a selection takes one with the fewest held slots, and among those the least
recently selected. -/
theorem routing_fair {db : Db} {modelId : Uuid} (h : Routable db modelId) :
    (routingRows db modelId).Pairwise (fun a b => a.inst.createdAt < b.inst.createdAt) ∧
    (∀ evs i, (routed evs).routing.activeByInstance.getD i 0 = (routed evs).held.count i ∧
      (routed evs).routing.lastAssigned.getD i 0 = lastIndex i (routed evs).picks) ∧
    (∀ evs : List RoutingEvent, (∀ ev ∈ evs, ev.SelectsFrom (routingRows db modelId)) →
      ∀ r ∈ routingRows db modelId,
        (routed evs).held.count r.inst.id = evs.length / (routingRows db modelId).length ∨
          (routed evs).held.count r.inst.id = evs.length ⌈/⌉ (routingRows db modelId).length) ∧
    (∀ evs : List RoutingEvent, Run.Conforms RoutingHistory.step
        (fun h ev => ev.ServedIdle (routingRows db modelId) h) {} evs →
      (routed evs).picks.length = evs.countP (·.isSelect) ∧
        ∀ j < (routed evs).picks.length, (routed evs).picks.reverse[j]? =
          ((routingRows db modelId)[j % (routingRows db modelId).length]?).map (·.inst.id)) ∧
    (∀ (evs : List RoutingEvent) (overlap : Uuid → ℕ), NoOverlap (routingRows db modelId) overlap →
      ∃ inst worker, selectRow (routed evs).routing overlap (routingRows db modelId) =
          some (inst, worker) ∧
        inst.id ∈ (routingRows db modelId).map (·.inst.id) ∧
        ∀ r ∈ routingRows db modelId,
          (routed evs).held.count inst.id ≤ (routed evs).held.count r.inst.id ∧
            ((routed evs).held.count r.inst.id = (routed evs).held.count inst.id →
              lastIndex inst.id (routed evs).picks ≤ lastIndex r.inst.id (routed evs).picks)) := by
  have hr := h.rotating
  have hne : (routingRows db modelId).map (·.inst.id) ≠ [] := List.ne_nil_of_length_pos hr.pos
  refine ⟨h.sorted, fun evs i => ?_, fun evs hevs r hrow => ?_, fun evs hevs => ?_,
    fun evs overlap hno => select_least evs h.nonempty hno h.workers⟩
  · have ha := agrees_routed evs
    exact ⟨getD_of_slotEntry (ha.active i), ha.last i⟩
  · obtain ⟨hpicks, hheld⟩ := held_of_selects hr hevs
    have hcount := count_rotation_eq hr.ids (List.mem_map.mpr ⟨r, hrow, rfl⟩) evs.length
    rw [hheld, hpicks]
    rwa [List.length_map] at hcount
  · have hpicks : (routed evs).picks = _ := picks_of_servedIdle hr evs agrees_init
      (show ({} : RoutingHistory).picks = RoundRobin.rotation _ 0 from rfl) hevs
    rw [Nat.zero_add] at hpicks
    have hlen : (routed evs).picks.length = evs.countP (·.isSelect) := by
      rw [hpicks, length_rotation hne]
    refine ⟨hlen, fun j hj => ?_⟩
    rw [hlen] at hj
    rw [hpicks, getElem?_reverse_rotation hne hj, List.length_map, List.getElem?_map]

/-- Two instances of one model on one worker; the younger row comes first in the table. -/
def twoReplicas : Db where
  workers := [⟨1, 0, "w", "10.0.0.5", .connected, "", none, none, none, []⟩]
  models := [⟨2, "m", "llm", 0, false, [.vllm]⟩]
  instances := [
    { id := 5
      modelId := 2
      clusterId := 0
      workerId := some 1
      deploymentId := 4
      engine := .vllm
      profile := .latency
      gpuIndexes := [1]
      state := .running
      port := some 8002
      createdAt := 7 },
    { id := 3
      modelId := 2
      clusterId := 0
      workerId := some 1
      deploymentId := 4
      engine := .vllm
      profile := .latency
      gpuIndexes := [0]
      state := .running
      port := some 8001
      createdAt := 6 }]

/-- Five selections without a release leave two or three slots held on each of two instances. -/
theorem routing_fair_twoReplicas :
    (routed (List.replicate 5 (.select (routingRows twoReplicas 2) fun _ => 0))).held.count 3 = 2 ∨
      (routed (List.replicate 5 (.select (routingRows twoReplicas 2) fun _ => 0))).held.count 3 =
        3 := by
  have hroutable : Routable twoReplicas 2 :=
    ⟨by decide +kernel, by decide +kernel, by decide +kernel, by decide +kernel⟩
  refine (routing_fair hroutable).2.2.1 _ ?_ ⟨twoReplicas.instances[1], twoReplicas.workers[0]⟩
    (by decide +kernel)
  intro ev hev
  rw [List.eq_of_mem_replicate hev]
  exact ⟨rfl, fun _ _ => rfl⟩

end Inferna
