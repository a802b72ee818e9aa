import Inferna.Gateway

/-!
# The routing slots are accounted for

`_resolve_target` reserves a slot on the instance it selects, and hands it to `_proxy`,
which hands it to the background task of the response.  Every way out of the first two
gives the slot back.  The third does not run when the body of the response raises, and
`_relay` lets every exception through that it does not name.

## Main definitions

* `SlotState`, `Request.slot` — what a request has to do with a slot.
* `SlotsAccounted` — the counters are the open reservations.
* `leaksSlot`, `RelaysOrderly` — an exception that leaves `_relay`, and steps without one.
* `SlotMove` — what one step of a request can do to the slots.

## Main results

* `resume_slotMove` — **every other step of a request is a `SlotMove`.**
* `slots_accounted` — **the counters are right after every run in which no exception
  leaves a relay.**
* `telemetry_leaks_slot` — a chunk that the telemetry does not expect leaks the slot.
-/

namespace Inferna

variable {u : Unicode} {settings : GuardSettings} {s : Routing} {q : Request}

/-! ### Slots -/

/-- What a request has to do with a slot. -/
inductive SlotState
  | none
  | held (id : Uuid)
  | gone
  deriving DecidableEq, Repr

/-- The slot a request answers for where it waits. -/
def Phase.slot : Phase → SlotState
  | .model | .rows _ | .select _ => .none
  | .validate inst _ | .quota inst _ _ | .send inst _ | .relay inst _ | .close inst _ _
  | .background inst _ => .held inst.id
  | .release id _ => .held id
  | .ended _ => .gone

/-- The slot of a request. -/
def Request.slot (q : Request) : SlotState := q.phase.slot

/-- The requests that have reserved a slot on an instance and have not ended. -/
def Gateway.openRequests (g : Gateway) (i : Uuid) : ℕ :=
  g.requests.countP fun q => q.slot ≠ .gone ∧ i ∈ q.reserved

/-- The counters are the open reservations, an instance without any is absent, and
each reservation is given back once: at the end of its request. -/
structure SlotsAccounted (g : Gateway) : Prop where
  count : ∀ i, g.routing.activeByInstance.getD i 0 = g.openRequests i
  nonneg : ∀ i n, g.routing.activeByInstance.get? i = some n → 0 ≤ n
  absent : ∀ i, g.openRequests i = 0 → g.routing.activeByInstance.get? i = none
  pending : ∀ q ∈ g.requests, q.slot ≠ .gone → q.released = []
  once : ∀ q ∈ g.requests, q.slot = .gone → q.released = q.reserved

/-! ### The condition -/

/-- The loop of `_relay` ends by an exception that it does not handle. -/
def RelayEnd.uncaught : RelayEnd → Bool
  | .raised e => !e.endsStream
  | _ => false

/-- An exception, or the cancellation of the task, leaves `_relay`. -/
def leaksSlot : Phase → Awaited → Bool
  | .relay _ _, .relayed how accounting => how.uncaught || accounting.isSome
  | .relay _ _, .failed e => !e.endsStream
  | .close _ _ _, .failed _ => true
  | _, _ => false

/-- No exception leaves a relay in this step. -/
def RelaysOrderly (g : Gateway) : GatewayEvent → Prop
  | .arrive _ _ _ => True
  | .resume r o => ∀ q ∈ g.requests[r]?, leaksSlot q.phase o = false

instance (g : Gateway) : ∀ ev, Decidable (RelaysOrderly g ev)
  | .arrive _ _ _ => isTrue trivial
  | .resume r _ => Option.decidableForallMem g.requests[r]?

/-! ### What a step does to the slots -/

/-- The request does not wait for the lock to give a slot back, and is not about to
pass on an exception. -/
def Phase.Orderly : Phase → Prop
  | .release _ _ => False
  | .close _ _ (.raised _) => False
  | _ => True

/-- What one step of a request can do to the slots: nothing, end a request without
one, reserve one, or give the one it has back and end. -/
inductive SlotMove (s : Routing) (q : Request) (s' : Routing) (q' : Request) : Prop
  | keep (hs : s'.activeByInstance = s.activeByInstance) (hslot : q'.slot = q.slot)
      (hres : q'.reserved = q.reserved) (hrel : q'.released = q.released)
  | quit (hs : s'.activeByInstance = s.activeByInstance) (hslot : q.slot = .none)
      (hslot' : q'.slot = .gone) (hres : q'.reserved = q.reserved) (hrel : q'.released = q.released)
  | reserve (id : Uuid) (hs : s'.activeByInstance = (s.reserve id).activeByInstance)
      (hslot : q.slot = .none) (hslot' : q'.slot = .held id)
      (hres : q'.reserved = q.reserved ++ [id]) (hrel : q'.released = q.released)
  | release (id : Uuid) (hs : s'.activeByInstance = (s.releaseInstance id).activeByInstance)
      (hslot : q.slot = .held id) (hslot' : q'.slot = .gone)
      (hres : q'.reserved = q.reserved) (hrel : q'.released = q.released ++ [id])

/-- The step is a `SlotMove`, leaves the lock free, and leaves the request orderly. -/
structure OrderlyMove (s : Routing) (q : Request) (r : Routing × Request) : Prop where
  move : SlotMove s q r.1 r.2
  free : r.1.activeLock = false
  orderly : r.2.phase.Orderly

theorem endRequest_routing (s : Routing) (q : Request) (ending : Ending) :
    (endRequest s q ending).1.activeByInstance = s.activeByInstance ∧
      (endRequest s q ending).1.activeLock = s.activeLock := by
  unfold endRequest
  split
  · split <;> exact ⟨rfl, rfl⟩
  · exact ⟨rfl, rfl⟩

theorem endRequest_request (s : Routing) (q : Request) (ending : Ending) :
    (endRequest s q ending).2 = { q with phase := .ended ending } := by
  unfold endRequest
  split <;> rfl

/-- A request that has no slot ends. -/
theorem endRequest_move (hfree : s.activeLock = false) (hslot : q.slot = .none) (ending : Ending) :
    OrderlyMove s q (endRequest s q ending) := by
  have hrout := endRequest_routing s q ending
  have hreq := endRequest_request s q ending
  refine ⟨.quit hrout.1 hslot ?_ ?_ ?_, hrout.2.trans hfree, ?_⟩
  · rw [hreq]; rfl
  · rw [hreq]
  · rw [hreq]
  · rw [hreq]; trivial

/-- A request gives its slot back and ends, whatever was counted before. -/
theorem releaseAndEnd_move {s' : Routing} {id : Uuid}
    (hactive : s'.activeByInstance = s.activeByInstance) (hfree : s'.activeLock = false)
    (hslot : q.slot = .held id) (ending : Ending) :
    OrderlyMove s q (releaseAndEnd s' q id ending) := by
  unfold releaseAndEnd
  rw [hfree, if_neg Bool.false_ne_true]
  have hrout := endRequest_routing (s'.releaseInstance id) { q with released := q.released ++ [id] }
    ending
  have hreq := endRequest_request (s'.releaseInstance id) { q with released := q.released ++ [id] }
    ending
  have hrel : (s'.releaseInstance id).activeByInstance = (s.releaseInstance id).activeByInstance := by
    simp only [Routing.releaseInstance, Routing.locked, hactive]
  refine ⟨.release id (hrout.1.trans hrel) hslot ?_ ?_ ?_, hrout.2, ?_⟩
  · rw [hreq]; rfl
  · rw [hreq]
  · rw [hreq]
  · rw [hreq]; trivial

/-- A request that only goes on to wait elsewhere. -/
theorem wait_move {s' : Routing} {phase : Phase}
    (hactive : s'.activeByInstance = s.activeByInstance) (hfree : s'.activeLock = false)
    (hslot : phase.slot = q.slot) (hphase : phase.Orderly) :
    OrderlyMove s q (s', { q with phase := phase }) :=
  ⟨.keep hactive hslot rfl rfl, hfree, hphase⟩

theorem selectInstance_move (hfree : s.activeLock = false) (hslot : q.slot = .none)
    (overlap : Uuid → ℕ) (rows : List RoutingRow) :
    OrderlyMove s q (selectInstance s q overlap rows) := by
  unfold selectInstance
  split
  · exact endRequest_move hfree hslot _
  · exact ⟨.reserve _ rfl hslot rfl rfl rfl, rfl, trivial⟩

theorem validateTarget_move {inst : Instance} {worker : Worker} (hfree : s.activeLock = false)
    (hslot : q.slot = .held inst.id) (answer : DnsAnswer) :
    OrderlyMove s q (validateTarget u settings s q inst worker answer) := by
  unfold validateTarget
  split
  · exact @releaseAndEnd_move s q (s.countRequest _ _) _ rfl hfree hslot _
  split
  · exact releaseAndEnd_move rfl hfree hslot _
  · exact wait_move rfl hfree hslot.symm trivial

theorem sendFailed_move {inst : Instance} (hfree : s.activeLock = false)
    (hslot : q.slot = .held inst.id) (e : Exc) : OrderlyMove s q (sendFailed s q inst e) := by
  unfold sendFailed
  split
  · exact @releaseAndEnd_move s q (s.countRequest _ _) _ rfl hfree hslot _
  · exact @releaseAndEnd_move s q (s.countRequest _ _) _ rfl hfree hslot _
  · exact releaseAndEnd_move rfl hfree hslot _

theorem buildRequest_move {inst : Instance} {worker : Worker} (hfree : s.activeLock = false)
    (hslot : q.slot = .held inst.id) (target : List Char) (exceeded : Option (ℕ × ℕ))
    (build : Option Exc) :
    OrderlyMove s q (buildRequest u s q inst worker target exceeded build) := by
  unfold buildRequest
  split
  · exact releaseAndEnd_move rfl hfree hslot _
  split
  · exact releaseAndEnd_move rfl hfree hslot _
  split
  · exact sendFailed_move hfree hslot _
  · exact wait_move rfl hfree hslot.symm trivial

theorem orderly_bodyEnd {how : RelayEnd} (h : how.uncaught = false) (inst : Instance) (status : ℕ) :
    (Phase.close inst status how.bodyEnd).Orderly := by
  cases how with
  | exhausted => trivial
  | disconnected => trivial
  | raised e =>
    have he : e.endsStream = true := by simpa [RelayEnd.uncaught] using h
    simp only [RelayEnd.bodyEnd, he, if_pos]
    trivial

theorem finishRelay_move {inst : Instance} {status : ℕ} (hfree : s.activeLock = false)
    (hslot : q.slot = .held inst.id) {how : RelayEnd} (hhow : how.uncaught = false) :
    OrderlyMove s q (finishRelay s q inst status how none) :=
  wait_move rfl hfree hslot.symm (orderly_bodyEnd hhow inst status)

/-- **Every step that lets no exception out of a relay is a `SlotMove`.** -/
theorem resume_slotMove (hfree : s.activeLock = false) (hq : q.phase.Orderly) {o : Awaited}
    (hleak : leaksSlot q.phase o = false) : OrderlyMove s q (resume u settings s q o) := by
  have hstay : OrderlyMove s q (s, q) := ⟨.keep rfl rfl rfl rfl, hfree, hq⟩
  unfold resume
  -- one case for each place at which a request waits and what it gets there
  split
  case h_1 db _ hphase =>
    have hslot : q.slot = .none := congrArg Phase.slot hphase
    split
    · exact endRequest_move hfree hslot _
    · exact wait_move rfl hfree hslot.symm trivial
  case h_2 e hphase => exact endRequest_move hfree (congrArg Phase.slot hphase) _
  case h_3 m db overlap hphase =>
    rw [hfree, if_neg Bool.false_ne_true]
    exact selectInstance_move hfree (congrArg Phase.slot hphase) _ _
  case h_4 m e hphase => exact endRequest_move hfree (congrArg Phase.slot hphase) _
  case h_5 rows overlap hphase =>
    rw [hfree, if_neg Bool.false_ne_true]
    exact selectInstance_move hfree (congrArg Phase.slot hphase) _ _
  case h_6 rows e hphase => exact endRequest_move hfree (congrArg Phase.slot hphase) _
  case h_7 inst worker answer hphase =>
    exact validateTarget_move hfree (congrArg Phase.slot hphase) _
  case h_8 inst worker e hphase =>
    exact releaseAndEnd_move rfl hfree (congrArg Phase.slot hphase) _
  case h_9 inst worker target exceeded build hphase =>
    exact buildRequest_move hfree (congrArg Phase.slot hphase) _ _ _
  case h_10 inst worker target e hphase =>
    exact releaseAndEnd_move rfl hfree (congrArg Phase.slot hphase) _
  case h_11 inst target status hphase =>
    have hslot : q.slot = .held inst.id := congrArg Phase.slot hphase
    exact wait_move rfl hfree hslot.symm trivial
  case h_12 inst target e hphase =>
    exact sendFailed_move hfree (congrArg Phase.slot hphase) _
  case h_13 inst status how accounting hphase =>
    rw [hphase] at hleak
    obtain ⟨hhow, hacc⟩ := Bool.or_eq_false_iff.mp hleak
    cases accounting with
    | none => exact finishRelay_move hfree (congrArg Phase.slot hphase) hhow
    | some e =>
      -- an exception of the accounting would leak the slot
      cases hacc
  case h_14 inst status e hphase =>
    rw [hphase] at hleak
    exact finishRelay_move hfree (congrArg Phase.slot hphase) hleak
  case h_15 inst status body hphase =>
    have hslot : q.slot = .held inst.id := congrArg Phase.slot hphase
    rw [hphase] at hq
    cases body with
    | normal => exact wait_move rfl hfree hslot.symm trivial
    | disconnected => exact wait_move rfl hfree hslot.symm trivial
    | raised e => exact hq.elim
  case h_16 inst status body e hphase =>
    rw [hphase] at hleak
    cases hleak
  case h_17 inst status hphase =>
    exact releaseAndEnd_move rfl hfree (congrArg Phase.slot hphase) _
  case h_18 id ending _ hphase =>
    -- no request waits for the lock when the lock is free wherever they wait
    rw [hphase] at hq
    exact hq.elim
  case h_19 id ending e hphase =>
    rw [hphase] at hq
    exact hq.elim
  case h_20 => exact hstay

/-! ### Runs -/

/-- What a request has reserved and given back, by its slot. -/
def Request.Settled (q : Request) : Prop :=
  match q.slot with
  | .none => q.reserved = [] ∧ q.released = []
  | .held id => q.reserved = [id] ∧ q.released = []
  | .gone => q.released = q.reserved

theorem SlotMove.settled {s' : Routing} {q' : Request} (h : SlotMove s q s' q') (hq : q.Settled) :
    q'.Settled := by
  unfold Request.Settled at hq ⊢
  cases h with
  | keep hs hslot hres hrel => rw [hslot, hres, hrel]; exact hq
  | quit hs hslot hslot' hres hrel =>
    rw [hslot] at hq
    rw [hslot', hres, hrel, hq.1, hq.2]
  | reserve id hs hslot hslot' hres hrel =>
    rw [hslot] at hq
    rw [hslot', hres, hrel, hq.1, hq.2]
    exact ⟨rfl, rfl⟩
  | release id hs hslot hslot' hres hrel =>
    rw [hslot] at hq
    rw [hslot', hres, hrel, hq.1, hq.2]
    rfl

/-- The entry of a counter that stands for `n` slots. -/
def slotEntry (n : ℕ) : Option ℤ := if n = 0 then none else some n

theorem getD_of_slotEntry {i : Uuid} {n : ℕ} (h : s.activeByInstance.get? i = slotEntry n) :
    s.activeByInstance.getD i 0 = n := by
  unfold Dict.getD
  rw [h, slotEntry]
  split
  · rename_i hn
    rw [hn]
    rfl
  · rfl

/-- A reservation adds one to the counter of its instance. -/
theorem get?_reserve {i : Uuid} {n : ℕ} (h : s.activeByInstance.get? i = slotEntry n) (id : Uuid) :
    (s.reserve id).activeByInstance.get? i = slotEntry (n + if id = i then 1 else 0) := by
  show (s.activeByInstance.set id _).get? i = _
  by_cases hid : id = i
  · subst hid
    rw [Dict.get?_set_self, getD_of_slotEntry h, if_pos rfl, slotEntry, if_neg (by omega)]
    push_cast
    rfl
  · rw [Dict.get?_set_of_ne _ _ hid, h, if_neg hid]
    rfl

/-- A release takes one off. -/
theorem get?_releaseInstance {i : Uuid} {n : ℕ} (h : s.activeByInstance.get? i = slotEntry n)
    {id : Uuid} (hpos : id = i → 0 < n) :
    (s.releaseInstance id).activeByInstance.get? i = slotEntry (n - if id = i then 1 else 0) := by
  show (if s.activeByInstance.getD id 1 - 1 ≤ 0 then s.activeByInstance.erase id
    else s.activeByInstance.set id (s.activeByInstance.getD id 1 - 1)).get? i = _
  by_cases hid : id = i
  · subst hid
    have hn := hpos rfl
    have hget : s.activeByInstance.getD id 1 = n := by
      unfold Dict.getD
      rw [h, slotEntry, if_neg (by omega)]
      rfl
    rw [hget, if_pos rfl]
    split
    · rename_i hle
      rw [Dict.get?_erase_self, slotEntry, if_pos (by omega)]
    · rename_i hlt
      rw [Dict.get?_set_self, slotEntry, if_neg (by omega)]
      congr 1
      omega
  · rw [if_neg hid, Nat.sub_zero, ← h]
    split
    · exact Dict.get?_erase_of_ne _ hid
    · exact Dict.get?_set_of_ne _ _ hid

/-- The requests that answer for a slot on an instance. -/
def Gateway.holders (g : Gateway) (i : Uuid) : ℕ := g.requests.countP fun q => q.slot = .held i

/-- The invariant: the lock is free wherever all requests wait, every request is
settled, and the counters are the slots that requests answer for. -/
structure SlotInv (g : Gateway) : Prop where
  free : g.routing.activeLock = false
  orderly : ∀ q ∈ g.requests, q.phase.Orderly
  settled : ∀ q ∈ g.requests, q.Settled
  active : ∀ i, g.routing.activeByInstance.get? i = slotEntry (g.holders i)

/-- A move of one request keeps the counters. -/
theorem SlotMove.active {g : Gateway} {s' : Routing} {q' : Request} {r : ℕ}
    (h : SlotMove g.routing q s' q') (hr : g.requests[r]? = some q)
    (hactive : ∀ i, g.routing.activeByInstance.get? i = slotEntry (g.holders i)) (i : Uuid) :
    s'.activeByInstance.get? i = slotEntry (Gateway.holders ⟨s', g.requests.set r q'⟩ i) := by
  obtain ⟨hlt, hq⟩ := List.getElem?_eq_some_iff.mp hr
  have hold := hactive i
  have hcount : Gateway.holders ⟨s', g.requests.set r q'⟩ i =
      g.holders i - (if q.slot = .held i then 1 else 0) + if q'.slot = .held i then 1 else 0 := by
    unfold Gateway.holders
    rw [List.countP_set hlt, hq]
    simp only [decide_eq_true_eq]
  have hpos : q.slot = .held i → 0 < g.holders i := by
    intro hslot
    refine List.countP_pos_iff.mpr ⟨q, List.mem_of_getElem? hr, ?_⟩
    simpa using hslot
  rw [hcount]
  cases h with
  | keep hs hslot hres hrel =>
    rw [hs, hslot, hold]
    congr 1
    split
    · rename_i hheld
      have := hpos hheld
      omega
    · omega
  | quit hs hslot hslot' hres hrel =>
    rw [hs, hslot, hslot', hold]
    rfl
  | reserve id hs hslot hslot' hres hrel =>
    rw [hs, hslot, hslot', get?_reserve hold]
    simp only [SlotState.held.injEq, reduceCtorEq, if_false, Nat.sub_zero]
  | release id hs hslot hslot' hres hrel =>
    have hid : id = i → 0 < g.holders i := fun hid => hpos (by rw [hslot, hid])
    rw [hs, hslot, hslot', get?_releaseInstance hold hid]
    simp only [SlotState.held.injEq, reduceCtorEq, if_false, Nat.add_zero]

theorem slotInv_step {g : Gateway} (h : SlotInv g) {ev : GatewayEvent}
    (hok : RelaysOrderly g ev) : SlotInv (g.step u settings ev) := by
  cases ev with
  | arrive modelName path query =>
    refine ⟨h.free, ?_, ?_, fun i => ?_⟩
    · intro q hq
      rcases List.mem_append.mp hq with hq | hq
      · exact h.orderly q hq
      · rw [List.mem_singleton.mp hq]
        trivial
    · intro q hq
      rcases List.mem_append.mp hq with hq | hq
      · exact h.settled q hq
      · rw [List.mem_singleton.mp hq]
        exact ⟨rfl, rfl⟩
    · have hnew : Gateway.holders (g.step u settings (.arrive modelName path query)) i =
          g.holders i := by
        unfold Gateway.holders
        show (g.requests ++ [_]).countP _ = _
        rw [List.countP_append]
        rfl
      rw [hnew]
      exact h.active i
  | resume r o =>
    simp only [Gateway.step]
    split
    · exact h
    · rename_i q hr
      have hmem := List.mem_of_getElem? hr
      have hmove := @resume_slotMove u settings _ _ h.free (h.orderly q hmem) o (hok q hr)
      refine ⟨hmove.free, ?_, ?_, hmove.move.active hr h.active⟩
      · intro q' hq'
        rcases List.mem_or_eq_of_mem_set hq' with hq' | rfl
        · exact h.orderly q' hq'
        · exact hmove.orderly
      · intro q' hq'
        rcases List.mem_or_eq_of_mem_set hq' with hq' | rfl
        · exact h.settled q' hq'
        · exact hmove.move.settled (h.settled q hmem)

/-- What a request answers for is what it has reserved and not ended with. -/
theorem Request.Settled.held_iff (h : q.Settled) (i : Uuid) :
    q.slot = .held i ↔ q.slot ≠ .gone ∧ i ∈ q.reserved := by
  unfold Request.Settled at h
  cases hslot : q.slot with
  | none =>
    rw [hslot] at h
    simp [h.1]
  | held id =>
    rw [hslot] at h
    simp [h.1, eq_comm]
  | gone => simp

theorem SlotInv.accounted {g : Gateway} (h : SlotInv g) : SlotsAccounted g := by
  have hopen : ∀ i, g.openRequests i = g.holders i := by
    intro i
    refine List.countP_congr fun q hq => ?_
    simp only [decide_eq_true_eq]
    exact ((h.settled q hq).held_iff i).symm
  refine ⟨fun i => ?_, fun i n hn => ?_, fun i hzero => ?_, fun q hq hslot => ?_,
    fun q hq hslot => ?_⟩
  · rw [hopen, getD_of_slotEntry (h.active i)]
  · rw [h.active i, slotEntry] at hn
    split at hn
    · cases hn
    · injection hn with hn
      omega
  · rw [h.active i, ← hopen, hzero]
    rfl
  · have hset := h.settled q hq
    unfold Request.Settled at hset
    cases hstate : q.slot with
    | none => rw [hstate] at hset; exact hset.2
    | held id => rw [hstate] at hset; exact hset.2
    | gone => exact (hslot hstate).elim
  · have hset := h.settled q hq
    unfold Request.Settled at hset
    rw [hslot] at hset
    exact hset

/-- **The counters are the open reservations after every run in which no exception
leaves a relay, and each reservation is given back once.** -/
theorem slots_accounted (u : Unicode) (settings : GuardSettings) (evs : List GatewayEvent)
    (h : Run.Conforms (Gateway.step u settings) RelaysOrderly {} evs) :
    SlotsAccounted (Run.exec (Gateway.step u settings) {} evs) := by
  have hinit : SlotInv {} := by
    refine ⟨rfl, fun q hq => ?_, fun q hq => ?_, fun i => rfl⟩
    · cases hq
    · cases hq
  have hinv := Run.invariant_of_conforms SlotInv (fun g ev hg hok => slotInv_step hg hok) evs {}
    hinit h
  exact hinv.accounted

/-! ### Runs on one instance -/

/-- One model, served by one instance on one worker. -/
def servedDb : Db where
  workers := [⟨1, 0, "w", "10.0.0.5", .connected, "", none, none, none, []⟩]
  models := [⟨2, "m", "llm", 0, false, [.vllm]⟩]
  instances := [
    { id := 3
      modelId := 2
      clusterId := 0
      workerId := some 1
      deploymentId := 4
      engine := .vllm
      profile := .latency
      gpuIndexes := [0]
      state := .running
      port := some 8001 }]

/-- A request up to the response of the upstream. -/
def servedRun : List GatewayEvent :=
  [.arrive "m" "/v1/chat/completions".toList [], .resume 0 (.db servedDb fun _ => 0),
    .resume 0 (.db servedDb fun _ => 0), .resume 0 (.resolved .failure),
    .resume 0 (.checked none none), .resume 0 (.responded 200)]

/-- The client of one request hangs up while another one is refused. -/
def disconnectRun : List GatewayEvent :=
  servedRun ++ [.arrive "m" "/v1/embeddings".toList [], .resume 1 (.db servedDb fun _ => 0),
    .resume 0 (.relayed .disconnected none), .resume 1 (.db servedDb fun _ => 0),
    .resume 0 .closed, .resume 1 (.failed .cancelled), .resume 0 .background]

theorem slots_accounted_disconnect :
    (Run.exec (Gateway.step Unicode.ascii {}) {} (disconnectRun.take 10)).openRequests 3 = 2 ∧
    SlotsAccounted (Run.exec (Gateway.step Unicode.ascii {}) {} disconnectRun) := by
  exact ⟨by decide +kernel, slots_accounted Unicode.ascii {} disconnectRun (by decide +kernel)⟩

/-- The upstream sends a chunk whose `choices` cannot be iterated. -/
def leakRun : List GatewayEvent :=
  servedRun ++ [.resume 0 (.relayed (.raised (.other "TypeError")) none), .resume 0 .closed]

/-- **A chunk that the telemetry does not expect leaks the slot.** -/
theorem telemetry_leaks_slot :
    ¬ ∀ evs, SlotsAccounted (Run.exec (Gateway.step Unicode.ascii {}) {} evs) := by
  intro h
  have hopen : (Run.exec (Gateway.step Unicode.ascii {}) {} leakRun).openRequests 3 = 0 := by
    decide +kernel
  have hcount := (h leakRun).count 3
  rw [hopen] at hcount
  revert hcount
  decide +kernel

end Inferna
