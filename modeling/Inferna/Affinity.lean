import Inferna.Listing
import Inferna.Balance
import Inferna.PrefixCache
import Inferna.Lib.Run

/-!
# A conversation stays on its replica

`_resolve_target` asks the prefix index about every routable row and prefers the rows with the
longest overlap; `_relay` records the digests of a request when its response has ended, however it
ended.  Here the gateway runs with its index, so that what a selection is told is what the index
holds at that time.

An agent sends one long text again and again, each time a little longer.  The first whole blocks
of that text are the opening of the conversation, and a request belongs to the conversation if its
text begins with them.

The lookups of one selection happen without an await and read the clock as one.

## Main definitions

* `PrefixGateway`, `PrefixGateway.step` — the gateway with its index, interleaved.
* `Speaks` — a text belongs to a conversation.
* `Warm` — a replica is routable, and a prompt of the conversation is still in its ring.
* `StaysWarm` — the next request of the conversation finds its replica warm.

## Main results

* `exists_gateway_run` — every run is a run of the gateway for some answers of the index.
* `lt_overlap_iff` — what the index says after a run.
* `conversation_sticks` — **a conversation that stays warm stays on one replica.**
-/

namespace Inferna

open HashChain TimedRing Run

/-! ### The gateway with its index -/

/-- The gateway, its index, the text whose digests each request carries, and all calls of the
index so far. -/
structure PrefixGateway where
  gateway : Gateway := {}
  seen : PrefixIndex := Dict.empty
  texts : List (List ℕ) := []
  calls : List (ℚ × PrefixCall) := []

/-- What happens next. -/
inductive PrefixEvent
  /-- A request comes to `_proxy`, with the text that its digests are made of. -/
  | arrive (modelName : String) (path query : List Char) (text : List ℕ)
  /-- The request at an index goes on.  If the accounting of a relay raises, `recorded` says
  whether the prefix has been recorded before. -/
  | resume (r : ℕ) (o : Awaited) (recorded : Bool)

/-- The text that comes with an event. -/
def PrefixEvent.text : PrefixEvent → Option (List ℕ)
  | .arrive _ _ _ text => some text
  | .resume _ _ _ => none

/-- The answer of the index put in its place. -/
def Awaited.withOverlap (overlap : Uuid → ℕ) : Awaited → Awaited
  | .db tables _ => .db tables overlap
  | .granted _ => .granted overlap
  | o => o

/-- The rows a request selects from in this step, if it does. -/
def Request.selects (s : Routing) (q : Request) (o : Awaited) : Option (List RoutingRow) :=
  match q.phase, o with
  | .rows m, .db db _ => if s.activeLock then none else some (routingRows db m.id)
  | .select rows, .granted _ => if s.activeLock then none else some rows
  | _, _ => none

/-- The instance whose response ends in this step, with its prefix recorded. -/
def Request.records (q : Request) (o : Awaited) (recorded : Bool) : Option Uuid :=
  match q.phase, o with
  | .relay inst _, .relayed _ none => some inst.id
  | .relay inst _, .relayed _ (some _) => if recorded then some inst.id else none
  | .relay inst _, .failed _ => some inst.id
  | _, _ => none

section

variable (hash : BlockHash) (ttlSeconds : ℚ) (maxPerInstance blockChars : ℕ)

/-- `overlaps` of a selection, and the index after these lookups. -/
def overlapsOf (now : ℚ) (digests : List Digest) (rows : List RoutingRow) (seen : PrefixIndex) :
    Dict Uuid ℕ × PrefixIndex :=
  rows.foldl (fun acc row =>
    let found := acc.2.overlap ttlSeconds now row.inst.id digests
    (acc.1.set row.inst.id found.1, found.2)) (Dict.empty, seen)

/-- One step.  A text without digests fails before `_resolve_target`. -/
def PrefixGateway.step (u : Unicode) (settings : GuardSettings) (g : PrefixGateway) :
    ℚ × PrefixEvent → PrefixGateway
  | (_, .arrive modelName path query text) =>
    match blocks hash blockChars text with
    | none => g
    | some _ =>
      { g with
        gateway := g.gateway.step u settings (.arrive modelName path query)
        texts := g.texts ++ [text] }
  | (now, .resume r o recorded) =>
    match g.gateway.requests[r]?, g.texts[r]? with
    | some q, some text =>
      let digests := digestsOf hash blockChars text
      match q.selects g.gateway.routing o with
      | some rows =>
        let found := overlapsOf ttlSeconds now digests rows g.seen
        { g with
          gateway := g.gateway.step u settings
            (.resume r (o.withOverlap fun id => found.1.getD id 0))
          seen := found.2
          calls := g.calls ++ rows.map fun row => (now, .overlap row.inst.id text) }
      | none =>
        match q.records o recorded with
        | some id =>
          { g with
            gateway := g.gateway.step u settings (.resume r o)
            seen := g.seen.record maxPerInstance now id digests
            calls := g.calls ++ [(now, .record id text)] }
        | none => { g with gateway := g.gateway.step u settings (.resume r o) }
    | _, _ => g

end

/-! ### Conversations -/

/-- A text belongs to the conversation with this opening. -/
def Speaks (opening text : List ℕ) : Prop := opening <+: text

instance (opening text : List ℕ) : Decidable (Speaks opening text) :=
  inferInstanceAs (Decidable (opening <+: text))

/-- The request at an index has been given this instance. -/
def Gateway.Given (g : Gateway) (r : ℕ) (id : Uuid) : Prop :=
  ∃ q, g.requests[r]? = some q ∧ id ∈ q.reserved

/-- A request of the conversation has been given this instance. -/
def PrefixGateway.Served (opening : List ℕ) (g : PrefixGateway) (id : Uuid) : Prop :=
  ∃ r text, g.texts[r]? = some text ∧ Speaks opening text ∧ g.gateway.Given r id

/-- The instances that the conversation has been given. -/
def PrefixGateway.served (opening : List ℕ) (g : PrefixGateway) : List Uuid :=
  ((g.texts.zip g.gateway.requests).filter fun p => Speaks opening p.1).flatMap (·.2.reserved)

theorem served_iff {opening : List ℕ} {g : PrefixGateway} {id : Uuid} :
    g.Served opening id ↔ id ∈ g.served opening := by
  unfold PrefixGateway.served
  rw [List.mem_flatMap]
  constructor
  · rintro ⟨r, text, ht, hs, q, hq, hid⟩
    refine ⟨(text, q), List.mem_filter.mpr ⟨?_, decide_eq_true hs⟩, hid⟩
    exact List.mem_of_getElem? (List.getElem?_zip_eq_some.mpr ⟨ht, hq⟩)
  · rintro ⟨⟨text, q⟩, hp, hid⟩
    obtain ⟨hp, hs⟩ := List.mem_filter.mp hp
    obtain ⟨r, hr⟩ := List.mem_iff_getElem?.mp hp
    obtain ⟨ht, hq⟩ := List.getElem?_zip_eq_some.mp hr
    exact ⟨r, text, ht, of_decide_eq_true hs, q, hq, hid⟩

/-- The instance is among the rows with a worker, and a prompt of the conversation is in its ring
and has not expired. -/
structure Warm (ttlSeconds : ℚ) (maxPerInstance : ℕ) (opening : List ℕ) (g : PrefixGateway)
    (now : ℚ) (rows : List RoutingRow) (id : Uuid) : Prop where
  routable : ∃ row ∈ rows, row.inst.id = id
  worker : ∀ row ∈ rows, row.inst.id = id → row.worker.isSome
  resident : ∃ p ∈ (recorded id g.calls).rtake maxPerInstance,
    now - p.1 ≤ ttlSeconds ∧ Speaks opening p.2

instance (ttlSeconds : ℚ) (maxPerInstance : ℕ) (opening : List ℕ) (g : PrefixGateway) (now : ℚ)
    (rows : List RoutingRow) (id : Uuid) :
    Decidable (Warm ttlSeconds maxPerInstance opening g now rows id) :=
  decidable_of_iff ((∃ row ∈ rows, row.inst.id = id) ∧
      (∀ row ∈ rows, row.inst.id = id → row.worker.isSome) ∧
      ∃ p ∈ (recorded id g.calls).rtake maxPerInstance, now - p.1 ≤ ttlSeconds ∧ Speaks opening p.2)
    ⟨fun h => ⟨h.1, h.2.1, h.2.2⟩, fun h => ⟨h.routable, h.worker, h.resident⟩⟩

/-- A request of the conversation that selects finds every instance warm that the conversation
has been given before. -/
def StaysWarm (ttlSeconds : ℚ) (maxPerInstance : ℕ) (opening : List ℕ) (g : PrefixGateway) :
    ℚ × PrefixEvent → Prop
  | (_, .arrive _ _ _ _) => True
  | (now, .resume r o _) => ∀ q text rows, g.gateway.requests[r]? = some q →
      g.texts[r]? = some text → Speaks opening text → q.selects g.gateway.routing o = some rows →
        ∀ id, g.Served opening id → Warm ttlSeconds maxPerInstance opening g now rows id

instance (ttlSeconds : ℚ) (maxPerInstance : ℕ) (opening : List ℕ) (g : PrefixGateway) :
    ∀ a, Decidable (StaysWarm ttlSeconds maxPerInstance opening g a)
  | (_, .arrive _ _ _ _) => isTrue trivial
  | (now, .resume r o _) =>
    decidable_of_iff (∀ q ∈ g.gateway.requests[r]?, ∀ text ∈ g.texts[r]?, Speaks opening text →
        ∀ rows ∈ q.selects g.gateway.routing o, ∀ id ∈ g.served opening,
          Warm ttlSeconds maxPerInstance opening g now rows id) (by
      simp only [StaysWarm, Option.mem_def, ← served_iff]
      exact ⟨fun h q text rows hq ht hs hsel => h q hq text ht hs rows hsel,
        fun h q hq text ht hs rows hsel => h q text rows hq ht hs hsel⟩)

/-! ### Lookups -/

section

variable {hash : BlockHash} {ttlSeconds now : ℚ} {maxPerInstance blockChars : ℕ}

/-- What `overlap` answers depends on the ring of its instance. -/
theorem overlap_fst (id : Uuid) (ds : List Digest) (seen : PrefixIndex) :
    (seen.overlap ttlSeconds now id ds).1 = if ds = [] then 0
      else PrefixIndex.bestShared ds 0 (expire (now - ttlSeconds) (seen.getD id [])) := by
  unfold PrefixIndex.overlap
  by_cases hds : ds = []
  · rw [if_pos hds, if_pos hds]
  · rw [if_neg hds, if_neg hds]
    unfold Dict.getD
    split
    · rename_i hget
      rw [hget]
      rfl
    · rename_i hget
      rw [hget]
      rfl
    · rename_i hget
      rw [hget]
      rfl

theorem expire_expire {τ ε : Type*} [LinearOrder τ] (cutoff : τ) (ring : List (τ × ε)) :
    expire cutoff (expire cutoff ring) = expire cutoff ring := by
  unfold expire
  exact List.dropWhile_idempotent _ _

/-- A lookup changes the answer of no other. -/
theorem overlap_overlap (id id' : Uuid) (ds : List Digest) (seen : PrefixIndex) :
    ((seen.overlap ttlSeconds now id' ds).2.overlap ttlSeconds now id ds).1 =
      (seen.overlap ttlSeconds now id ds).1 := by
  rw [overlap_fst, overlap_fst]
  rcases @getD_overlap ttlSeconds now id' id ds seen with heq | heq
  · rw [heq]
  · rw [heq, expire_expire]

/-- The overlaps of a selection are those of the index as it is before. -/
theorem getD_overlapsOf (ds : List Digest) (rows : List RoutingRow) (seen : PrefixIndex) (id : Uuid)
    (hid : id ∈ rows.map (·.inst.id)) :
    (overlapsOf ttlSeconds now ds rows seen).1.getD id 0 =
      (seen.overlap ttlSeconds now id ds).1 := by
  -- of the same instance every lookup answers the same
  have hfold : ∀ (rows : List RoutingRow) (acc : Dict Uuid ℕ × PrefixIndex),
      (rows.foldl (fun acc row =>
        (acc.1.set row.inst.id (acc.2.overlap ttlSeconds now row.inst.id ds).1,
          (acc.2.overlap ttlSeconds now row.inst.id ds).2)) acc).1.get? id =
        if id ∈ rows.map (·.inst.id) then some (acc.2.overlap ttlSeconds now id ds).1
        else acc.1.get? id := by
    intro rows
    induction rows with
    | nil => exact fun acc => rfl
    | cons row rows ih =>
      intro acc
      rw [List.foldl_cons, ih, Dict.get?_set, overlap_overlap]
      simp only [List.map_cons, List.mem_cons]
      by_cases hrest : id ∈ rows.map (·.inst.id)
      · rw [if_pos hrest, if_pos (Or.inr hrest)]
      · rw [if_neg hrest]
        by_cases hrow : row.inst.id = id
        · rw [if_pos hrow, if_pos (Or.inl hrow.symm), hrow]
        · rw [if_neg hrow, if_neg fun h => h.elim (fun h => hrow h.symm) hrest]
  unfold Dict.getD overlapsOf
  rw [hfold, if_pos hid]
  rfl

theorem overlapsOf_snd {text : List ℕ} {ds : List Digest}
    (hds : blocks hash blockChars text = some ds) (rows : List RoutingRow) (seen : PrefixIndex) :
    (overlapsOf ttlSeconds now ds rows seen).2 =
      (rows.map fun row => (now, PrefixCall.overlap row.inst.id text)).foldl
        (PrefixIndex.call hash ttlSeconds maxPerInstance blockChars) seen := by
  have hfold : ∀ (rows : List RoutingRow) (acc : Dict Uuid ℕ × PrefixIndex),
      (rows.foldl (fun acc row =>
        (acc.1.set row.inst.id (acc.2.overlap ttlSeconds now row.inst.id ds).1,
          (acc.2.overlap ttlSeconds now row.inst.id ds).2)) acc).2 =
        (rows.map fun row => (now, PrefixCall.overlap row.inst.id text)).foldl
          (PrefixIndex.call hash ttlSeconds maxPerInstance blockChars) acc.2 := by
    intro rows
    induction rows with
    | nil => exact fun acc => rfl
    | cons row rows ih =>
      intro acc
      rw [List.foldl_cons, ih, List.map_cons, List.foldl_cons, PrefixIndex.call, hds]
      rfl
  exact hfold rows _

/-! ### What the index says -/

theorem getElem?_textChunks (hpos : 0 < blockChars) (text : List ℕ) (j : ℕ) :
    (textChunks blockChars text)[j]? =
      if j * blockChars < text.length then some ((text.drop (j * blockChars)).take blockChars)
      else none := by
  have hlt : j < (text.length + blockChars - 1) / blockChars ↔ j * blockChars < text.length := by
    rw [← Nat.succ_le_iff, Nat.le_div_iff_mul_le hpos, Nat.succ_mul]
    omega
  unfold textChunks
  rw [List.getElem?_map]
  split
  · rename_i h
    rw [List.getElem?_range (hlt.mpr h)]
    rfl
  · rename_i h
    rw [List.getElem?_eq_none (by rw [List.length_range]; exact not_lt.mp fun hj => h (hlt.mp hj))]
    rfl

/-- Two texts have `k` whole blocks in common exactly if they begin alike. -/
theorem le_commonLength_iff {k : ℕ} (hpos : 0 < blockChars) {text text' : List ℕ}
    (hlen : k * blockChars ≤ text.length) :
    k ≤ commonLength (textChunks blockChars text) (textChunks blockChars text') ↔
      text.take (k * blockChars) = text'.take (k * blockChars) := by
  cases k with
  | zero => simp
  | succ k =>
    have hin : ∀ j ≤ k, j * blockChars + blockChars ≤ (k + 1) * blockChars := by
      intro j hj
      rw [← Nat.succ_mul]
      exact Nat.mul_le_mul_right _ (by omega)
    have hlt : ∀ j ≤ k, j * blockChars < text.length := fun j hj => by
      have := hin j hj
      omega
    have hk : k < (textChunks blockChars text).length := by
      by_contra hnot
      have hnone := List.getElem?_eq_none (not_lt.mp hnot)
      rw [getElem?_textChunks hpos, if_pos (hlt k le_rfl)] at hnone
      cases hnone
    rw [Nat.succ_le_iff, lt_commonLength_iff hk]
    constructor
    · intro hall
      rw [← flatten_slices, ← flatten_slices]
      congr 1
      refine List.map_congr_left fun j hj => ?_
      have hj' : j ≤ k := by
        have := List.mem_range.mp hj
        omega
      have heq := hall j hj'
      rw [getElem?_textChunks hpos, getElem?_textChunks hpos, if_pos (hlt j hj')] at heq
      split at heq
      · exact Option.some.inj heq
      · cases heq
    · intro htake j hj
      have hlen' : (k + 1) * blockChars ≤ text'.length := by
        have := congrArg List.length htake
        rw [List.length_take, List.length_take] at this
        omega
      have hslice : ∀ t : List ℕ, (t.drop (j * blockChars)).take blockChars =
          ((t.take ((k + 1) * blockChars)).drop (j * blockChars)).take blockChars := by
        intro t
        have := hin j hj
        rw [List.drop_take, List.take_take, min_eq_left (by omega)]
      have hlt' : j * blockChars < text'.length := by
        have := hin j hj
        omega
      rw [getElem?_textChunks hpos, getElem?_textChunks hpos, if_pos (hlt j hj), if_pos hlt',
        hslice text, hslice text', htake]

theorem lt_foldr_max_iff {n : ℕ} {l : List ℕ} : n < l.foldr max 0 ↔ ∃ a ∈ l, n < a := by
  induction l with
  | nil => simp
  | cons a l ih => simp [ih]

/-- **What the index says**: a lookup answers more than `n` exactly if one of the last prompts
recorded for the instance, not yet expired, has more than `n` blocks in common with the text. -/
theorem lt_overlap_iff (hpos : 0 < blockChars) {calls : List (ℚ × PrefixCall)}
    (hclock : ClockedUntil calls now) (id : Uuid) {text : List ℕ} {texts : List (List ℕ)}
    (htext : text ∈ texts) (htexts : ∀ t ∈ calls.map (·.2.text), t ∈ texts)
    (hfree : CollisionFree hash blockChars texts) {ds : List Digest}
    (hds : blocks hash blockChars text = some ds) (n : ℕ) :
    n < ((PrefixIndex.after hash ttlSeconds maxPerInstance blockChars calls).overlap
        ttlSeconds now id ds).1 ↔
      ∃ p ∈ (recorded id calls).rtake maxPerInstance, now - p.1 ≤ ttlSeconds ∧
        n < commonLength (textChunks blockChars text) (textChunks blockChars p.2) := by
  have hholds :=
    @index_holds hash blockChars ttlSeconds maxPerInstance hpos calls now hclock id
  have hsorted : (digestLog hash blockChars (recorded id calls)).Pairwise
      fun a b => a.1 ≤ b.1 := by
    refine List.pairwise_map.mpr (List.pairwise_map.mp ?_)
    exact ((List.pairwise_append.mp hclock).1).sublist (map_fst_recorded id calls)
  have hring := hholds.expire_eq le_rfl hsorted
  rw [filter_digestLog] at hring
  rw [overlap_fst, hring]
  split
  · -- a text without blocks has none in common
    rename_i hnil
    have hempty := (blocks_eq_nil_iff hpos hds).mp hnil
    subst hempty
    refine iff_of_false (Nat.not_lt_zero n) ?_
    rintro ⟨p, -, -, hlt⟩
    rw [(textChunks_eq_nil_iff hpos []).mpr rfl] at hlt
    exact Nat.not_lt_zero n hlt
  · rw [bestShared_eq _ _ (Nat.zero_le _), Nat.zero_max, lt_foldr_max_iff]
    have hrun : ∀ p ∈ recorded id calls, PrefixIndex.leadingRun ds (digestsOf hash blockChars p.2) =
        commonLength (textChunks blockChars text) (textChunks blockChars p.2) := by
      intro p hp
      obtain ⟨hmem, hsome⟩ := of_mem_recorded hp
      rw [encodeText_isSome_iff_blocks hash hpos, Option.isSome_iff_exists] at hsome
      obtain ⟨rs, hrs⟩ := hsome
      rw [digestsOf, hrs, Option.getD_some]
      exact leadingRun_eq hfree htext (htexts _ hmem) hds hrs
    constructor
    · rintro ⟨a, ha, hlt⟩
      rw [digestLog, List.map_map, List.mem_map] at ha
      obtain ⟨p, hp, rfl⟩ := ha
      obtain ⟨hp, hfresh⟩ := List.mem_filter.mp hp
      refine ⟨p, hp, of_decide_eq_true hfresh, ?_⟩
      rw [← hrun p (rtake_subset _ _ hp)]
      exact hlt
    · rintro ⟨p, hp, hfresh, hlt⟩
      refine ⟨PrefixIndex.leadingRun ds (digestsOf hash blockChars p.2), ?_, ?_⟩
      · rw [digestLog, List.map_map, List.mem_map]
        exact ⟨p, List.mem_filter.mpr ⟨hp, decide_eq_true hfresh⟩, rfl⟩
      · rw [hrun p (rtake_subset _ _ hp)]
        exact hlt

end

/-! ### A step of a request -/

section

variable {u : Unicode} {settings : GuardSettings} {s : Routing} {q : Request} {o : Awaited}

theorem resume_of_selects {rows : List RoutingRow} (h : q.selects s o = some rows)
    (overlap : Uuid → ℕ) :
    resume u settings s q (o.withOverlap overlap) = selectInstance s q overlap rows := by
  unfold Request.selects at h
  split at h
  · rename_i m tables _ hphase
    split at h
    · cases h
    · rename_i hfree
      obtain rfl := Option.some.inj h
      simp only [resume, Awaited.withOverlap, hphase, if_neg hfree]
  · rename_i rows' _ hphase
    split at h
    · cases h
    · rename_i hfree
      obtain rfl := Option.some.inj h
      simp only [resume, Awaited.withOverlap, hphase, if_neg hfree]
  · cases h

theorem exists_withOverlap {rows : List RoutingRow} (h : q.selects s o = some rows) :
    ∃ overlap, o.withOverlap overlap = o := by
  unfold Request.selects at h
  split at h
  · exact ⟨_, rfl⟩
  · exact ⟨_, rfl⟩
  · cases h

/-- The request has reserved nothing more, and has the slot it had or is over. -/
def Request.StaysPut (q q' : Request) : Prop :=
  q'.reserved = q.reserved ∧ (q'.slot = q.slot ∨ q'.slot = .gone)

theorem endRequest_staysPut (s : Routing) (ending : Ending) :
    q.StaysPut (endRequest s q ending).2 := by
  rw [endRequest_request]
  exact ⟨rfl, Or.inr rfl⟩

theorem releaseAndEnd_staysPut {id : Uuid} (hslot : q.slot = .held id) (s : Routing)
    (ending : Ending) : q.StaysPut (releaseAndEnd s q id ending).2 := by
  unfold releaseAndEnd
  split
  · exact ⟨rfl, Or.inl hslot.symm⟩
  · rw [endRequest_request]
    exact ⟨rfl, Or.inr rfl⟩

theorem sendFailed_staysPut {inst : Instance} (hslot : q.slot = .held inst.id) (s : Routing)
    (e : Exc) : q.StaysPut (sendFailed s q inst e).2 := by
  unfold sendFailed
  split <;> exact releaseAndEnd_staysPut hslot _ _

theorem validateTarget_staysPut {inst : Instance} (hslot : q.slot = .held inst.id)
    (worker : Worker) (answer : DnsAnswer) :
    q.StaysPut (validateTarget u settings s q inst worker answer).2 := by
  unfold validateTarget
  split
  · exact releaseAndEnd_staysPut hslot _ _
  split
  · exact releaseAndEnd_staysPut hslot _ _
  · exact ⟨rfl, Or.inl hslot.symm⟩

theorem buildRequest_staysPut {inst : Instance} (hslot : q.slot = .held inst.id) (worker : Worker)
    (target : List Char) (exceeded : Option (ℕ × ℕ)) (build : Option Exc) :
    q.StaysPut (buildRequest u s q inst worker target exceeded build).2 := by
  unfold buildRequest
  split
  · exact releaseAndEnd_staysPut hslot _ _
  split
  · exact releaseAndEnd_staysPut hslot _ _
  split
  · exact sendFailed_staysPut hslot _ _
  · exact ⟨rfl, Or.inl hslot.symm⟩

theorem endBody_staysPut {inst : Instance} (hslot : q.slot = .held inst.id) (s : Routing)
    (status : ℕ) (body : BodyEnd) : q.StaysPut (endBody s q inst status body).2 := by
  unfold endBody
  split
  · exact ⟨rfl, Or.inl hslot.symm⟩
  · exact ⟨rfl, Or.inl hslot.symm⟩
  · exact endRequest_staysPut _ _

theorem finishRelay_staysPut {inst : Instance} (hslot : q.slot = .held inst.id) (s : Routing)
    (status : ℕ) (how : RelayEnd) (accounting : Option Exc) :
    q.StaysPut (finishRelay s q inst status how accounting).2 := by
  unfold finishRelay
  split
  · exact endBody_staysPut hslot _ _ _
  · exact ⟨rfl, Or.inl hslot.symm⟩

/-- A step that does not select stays put. -/
theorem resume_staysPut (h : q.selects s o = none) :
    q.StaysPut (resume u settings s q o).2 := by
  have hslot : ∀ {phase : Phase} {id : Uuid}, q.phase = phase → phase.slot = .held id →
      q.slot = .held id := by
    intro phase id hphase hheld
    rw [Request.slot, hphase, hheld]
  have hwait : ∀ {phase phase' : Phase}, q.phase = phase → phase'.slot = phase.slot →
      q.StaysPut { q with phase := phase' } := by
    intro phase phase' hphase hsame
    exact ⟨rfl, Or.inl (by rw [Request.slot, Request.slot, hphase, hsame])⟩
  have hstay : q.StaysPut q := ⟨rfl, Or.inl rfl⟩
  unfold resume
  split
  case h_1 hphase =>
    split
    · exact endRequest_staysPut _ _
    · exact hwait hphase rfl
  case h_2 => exact endRequest_staysPut _ _
  case h_3 hphase =>
    split
    · exact hwait hphase rfl
    · rename_i hfree
      simp only [Request.selects, hphase, if_neg hfree] at h
      cases h
  case h_4 => exact endRequest_staysPut _ _
  case h_5 hphase =>
    split
    · exact hstay
    · rename_i hfree
      simp only [Request.selects, hphase, if_neg hfree] at h
      cases h
  case h_6 => exact endRequest_staysPut _ _
  case h_7 hphase => exact validateTarget_staysPut (hslot hphase rfl) _ _
  case h_8 hphase => exact releaseAndEnd_staysPut (hslot hphase rfl) _ _
  case h_9 hphase => exact buildRequest_staysPut (hslot hphase rfl) _ _ _ _
  case h_10 hphase => exact releaseAndEnd_staysPut (hslot hphase rfl) _ _
  case h_11 hphase => exact hwait hphase rfl
  case h_12 hphase => exact sendFailed_staysPut (hslot hphase rfl) _ _
  case h_13 hphase => exact finishRelay_staysPut (hslot hphase rfl) _ _ _ _
  case h_14 hphase => exact finishRelay_staysPut (hslot hphase rfl) _ _ _ _
  case h_15 hphase => exact endBody_staysPut (hslot hphase rfl) _ _ _
  case h_16 hphase => exact endBody_staysPut (hslot hphase rfl) _ _ _
  case h_17 hphase => exact releaseAndEnd_staysPut (hslot hphase rfl) _ _
  case h_18 hphase => exact releaseAndEnd_staysPut (hslot hphase rfl) _ _
  case h_19 => exact endRequest_staysPut _ _
  case h_20 => exact hstay

theorem slot_of_records {recorded : Bool} {id : Uuid} (h : q.records o recorded = some id) :
    q.slot = .held id := by
  unfold Request.records at h
  unfold Request.slot
  split at h
  · rename_i hphase
    rw [hphase, ← Option.some.inj h]
    rfl
  · rename_i hphase
    split at h
    · rw [hphase, ← Option.some.inj h]
      rfl
    · cases h
  · rename_i hphase
    rw [hphase, ← Option.some.inj h]
    rfl
  · cases h

/-! ### A selection -/

theorem overlap_le_bestOverlap {overlap : Uuid → ℕ} {rows : List RoutingRow} {row : RoutingRow}
    (h : row ∈ rows) : overlap row.inst.id ≤ bestOverlap overlap rows := by
  by_contra hnot
  have hmem : overlap row.inst.id ∈ rows.map fun r => overlap r.inst.id :=
    List.mem_map.mpr ⟨row, h, rfl⟩
  exact lt_irrefl _ (lt_foldr_max_iff.mpr ⟨_, hmem, not_le.mp hnot⟩)

/-- A row with a longer overlap than every other instance is alone in the pool. -/
theorem id_of_mem_routingPool {overlap : Uuid → ℕ} {rows : List RoutingRow} {id : Uuid} {n : ℕ}
    (hrow : ∃ row ∈ rows, row.inst.id = id) (hlt : n < overlap id)
    (hothers : ∀ row ∈ rows, row.inst.id ≠ id → overlap row.inst.id ≤ n) {row : RoutingRow}
    (h : row ∈ routingPool overlap rows) : row.inst.id = id := by
  obtain ⟨own, hown, rfl⟩ := hrow
  have hbest : overlap own.inst.id ≤ bestOverlap overlap rows := overlap_le_bestOverlap hown
  unfold routingPool at h
  rw [if_neg (by omega), List.mem_filter, decide_eq_true_eq] at h
  by_contra hne
  have := hothers row h.1 hne
  omega

/-- Where every row of the pool is one instance with a worker, that one is selected. -/
theorem exists_selectRow {s : Routing} {overlap : Uuid → ℕ} {rows : List RoutingRow} {id : Uuid}
    (hne : rows ≠ []) (hpool : ∀ row ∈ routingPool overlap rows, row.inst.id = id)
    (hworker : ∀ row ∈ rows, row.inst.id = id → row.worker.isSome) :
    ∃ inst worker, selectRow s overlap rows = some (inst, worker) ∧ inst.id = id := by
  obtain ⟨row, hrow⟩ := Option.isSome_iff_exists.mp
    (foldl_argAux_isSome (RoutingRow.Before s) (routingPool overlap rows) (o := none)
      (Or.inr (routingPool_ne_nil hne)))
  have hmem : row ∈ routingPool overlap rows := by
    rcases foldl_argAux_mem _ _ hrow with hnone | hmem
    · cases hnone
    · exact hmem
  have hid := hpool row hmem
  obtain ⟨worker, hw⟩ :=
    Option.isSome_iff_exists.mp (hworker row (routingPool_subset hmem) hid)
  refine ⟨row.inst, worker, ?_, hid⟩
  unfold selectRow
  rw [hrow]
  simp [hw]

/-- Without an overlap the selection is that of the least loaded. -/
theorem selectRow_of_noOverlap {overlap : Uuid → ℕ} {rows : List RoutingRow}
    (h : ∀ row ∈ rows, overlap row.inst.id = 0) :
    selectRow s overlap rows = selectRow s (fun _ => 0) rows := by
  have hbest : ∀ overlap : Uuid → ℕ, (∀ row ∈ rows, overlap row.inst.id = 0) →
      routingPool overlap rows = rows := by
    intro overlap h
    unfold routingPool
    rw [if_pos]
    refine foldr_max_eq_zero fun n hn => ?_
    obtain ⟨row, hrow, rfl⟩ := List.mem_map.mp hn
    exact h row hrow
  unfold selectRow
  rw [hbest overlap h, hbest (fun _ => 0) fun _ _ => rfl]

/-- The selection reserves nothing, or one instance. -/
theorem selectInstance_cases (s : Routing) (q : Request) (overlap : Uuid → ℕ)
    (rows : List RoutingRow) :
    (selectRow s overlap rows = none ∧ q.StaysPut (selectInstance s q overlap rows).2) ∨
      ∃ inst worker, selectRow s overlap rows = some (inst, worker) ∧
        (selectInstance s q overlap rows).2.reserved = q.reserved ++ [inst.id] ∧
        (selectInstance s q overlap rows).2.slot = .held inst.id := by
  unfold selectInstance
  split
  · rename_i hnone
    exact Or.inl ⟨hnone, endRequest_staysPut _ _⟩
  · rename_i inst worker hsome
    exact Or.inr ⟨inst, worker, hsome, rfl, rfl⟩

/-! ### What the requests have been given -/

variable {g : Gateway} {r i : ℕ} {id : Uuid}

theorem given_arrive (modelName : String) (path query : List Char) :
    (g.step u settings (.arrive modelName path query)).Given i id ↔ g.Given i id := by
  show (∃ q, (g.requests ++ [_])[i]? = some q ∧ id ∈ q.reserved) ↔ _
  rw [List.getElem?_append]
  split
  · exact Iff.rfl
  · rename_i hge
    refine iff_of_false ?_ ?_
    · rintro ⟨q, hq, hid⟩
      have hmem := List.mem_of_getElem? hq
      rw [List.mem_singleton] at hmem
      subst hmem
      cases hid
    · rintro ⟨q, hq, -⟩
      rw [List.getElem?_eq_none (not_lt.mp hge)] at hq
      cases hq

/-- A step gives to its own request only, and takes nothing back. -/
theorem given_resume (hq : g.requests[r]? = some q) (o : Awaited) :
    (g.step u settings (.resume r o)).Given i id ↔
      if i = r then id ∈ (resume u settings g.routing q o).2.reserved else g.Given i id := by
  have hstep : (g.step u settings (.resume r o)).requests =
      g.requests.set r (resume u settings g.routing q o).2 := by
    simp only [Gateway.step, hq]
  unfold Gateway.Given
  rw [hstep]
  split
  · rename_i hir
    subst hir
    have hlt := (List.getElem?_eq_some_iff.mp hq).1
    rw [List.getElem?_set_self hlt]
    constructor
    · rintro ⟨q', hq', hid⟩
      rwa [Option.some.inj hq']
    · exact fun hid => ⟨_, rfl, hid⟩
  · rename_i hir
    rw [List.getElem?_set_ne (Ne.symm hir)]

theorem given_of_staysPut (hq : g.requests[r]? = some q)
    (hput : q.StaysPut (resume u settings g.routing q o).2) :
    (g.step u settings (.resume r o)).Given i id ↔ g.Given i id := by
  rw [given_resume hq, hput.1]
  split
  · rename_i hir
    subst hir
    constructor
    · exact fun hid => ⟨q, hq, hid⟩
    · rintro ⟨q', hq', hid⟩
      rwa [Option.some.inj (hq.symm.trans hq')]
  · exact Iff.rfl

/-- Every request has been given the instance whose slot it holds. -/
def Gateway.Held (g : Gateway) : Prop := ∀ q ∈ g.requests, ∀ id, q.slot = .held id → id ∈ q.reserved

/-- What a step of a request does to what it has been given, and to its slot. -/
theorem resume_given (s : Routing) (q : Request) (o : Awaited) :
    q.StaysPut (resume u settings s q o).2 ∨
      ∃ id, (resume u settings s q o).2.reserved = q.reserved ++ [id] ∧
        (resume u settings s q o).2.slot = .held id := by
  cases hsel : q.selects s o with
  | none => exact Or.inl (resume_staysPut hsel)
  | some rows =>
    obtain ⟨overlap, ho⟩ := exists_withOverlap hsel
    rw [← ho, resume_of_selects hsel]
    rcases selectInstance_cases s q overlap rows with ⟨-, hput⟩ | ⟨inst, worker, -, hres, hslot⟩
    · exact Or.inl hput
    · exact Or.inr ⟨inst.id, hres, hslot⟩

theorem given_mono (h : g.Given i id) (ev : GatewayEvent) : (g.step u settings ev).Given i id := by
  cases ev with
  | arrive modelName path query => exact (given_arrive modelName path query).mpr h
  | resume r o =>
    cases hq : g.requests[r]? with
    | none =>
      simp only [Gateway.step, hq]
      exact h
    | some q =>
      rw [given_resume hq]
      split
      · rename_i hir
        subst hir
        obtain ⟨q', hq', hid⟩ := h
        obtain rfl := Option.some.inj (hq.symm.trans hq')
        rcases @resume_given u settings g.routing q o with ⟨hres, -⟩ | ⟨new, hres, -⟩
        · rwa [hres]
        · rw [hres]
          exact List.mem_append_left _ hid
      · exact h

theorem held_step (h : g.Held) (ev : GatewayEvent) : (g.step u settings ev).Held := by
  intro q' hq' id hslot
  cases ev with
  | arrive modelName path query =>
    rcases List.mem_append.mp hq' with hq' | hq'
    · exact h q' hq' id hslot
    · rw [List.mem_singleton.mp hq'] at hslot
      cases hslot
  | resume r o =>
    cases hq : g.requests[r]? with
    | none =>
      simp only [Gateway.step, hq] at hq'
      exact h q' hq' id hslot
    | some q =>
      simp only [Gateway.step, hq] at hq'
      rcases List.mem_or_eq_of_mem_set hq' with hq' | rfl
      · exact h q' hq' id hslot
      · have hold := h q (List.mem_of_getElem? hq)
        rcases @resume_given u settings g.routing q o with ⟨hres, hsame | hgone⟩ |
          ⟨new, hres, hnew⟩
        · rw [hres]
          exact hold id (hsame ▸ hslot)
        · rw [hgone] at hslot
          cases hslot
        · rw [hnew] at hslot
          cases hslot
          rw [hres]
          exact List.mem_append_right _ List.mem_cons_self

theorem length_arrive (modelName : String) (path query : List Char) :
    (g.step u settings (.arrive modelName path query)).requests.length = g.requests.length + 1 :=
  List.length_append

theorem length_resume (o : Awaited) :
    (g.step u settings (.resume r o)).requests.length = g.requests.length := by
  cases hq : g.requests[r]? with
  | none => simp only [Gateway.step, hq]
  | some q => simp only [Gateway.step, hq, List.length_set]

end

/-! ### Runs -/

section

variable {u : Unicode} {settings : GuardSettings} {hash : BlockHash} {ttlSeconds : ℚ}
  {maxPerInstance blockChars : ℕ} {g : PrefixGateway} {now now' : ℚ} {texts : List (List ℕ)}

/-- What every run keeps: the index is what its calls make of it, in the order of the clock; the
texts are those that came, each with digests; a request has been given the instance whose slot it
holds; and a prompt is recorded for an instance only if it was given to it. -/
structure PrefixInv (hash : BlockHash) (ttlSeconds : ℚ) (maxPerInstance blockChars : ℕ)
    (texts : List (List ℕ)) (g : PrefixGateway) (now : ℚ) : Prop where
  index : g.seen = PrefixIndex.after hash ttlSeconds maxPerInstance blockChars g.calls
  clocked : ClockedUntil g.calls now
  came : ∀ t ∈ g.texts, t ∈ texts ∧ (blocks hash blockChars t).isSome
  called : ∀ t ∈ g.calls.map (·.2.text), t ∈ texts
  length : g.texts.length = g.gateway.requests.length
  held : g.gateway.Held
  source : ∀ id, ∀ p ∈ recorded id g.calls, ∃ r, g.texts[r]? = some p.2 ∧ g.gateway.Given r id

theorem prefixInv_init (now : ℚ) :
    PrefixInv hash ttlSeconds maxPerInstance blockChars texts {} now := by
  refine ⟨rfl, List.pairwise_singleton _ _, ?_, ?_, rfl, ?_, ?_⟩
  · exact fun t ht => absurd ht List.not_mem_nil
  · exact fun t ht => absurd ht List.not_mem_nil
  · exact fun q hq => absurd hq List.not_mem_nil
  · exact fun id p hp => absurd hp List.not_mem_nil

theorem ClockedUntil.append {calls more : List (ℚ × PrefixCall)} (h : ClockedUntil calls now)
    (hle : now ≤ now') (hmore : ∀ c ∈ more, c.1 = now') : ClockedUntil (calls ++ more) now' := by
  unfold ClockedUntil at *
  rw [List.map_append, List.append_assoc]
  rw [List.pairwise_append] at h ⊢
  have hmore' : ∀ t ∈ more.map Prod.fst, t = now' := by
    intro t ht
    obtain ⟨c, hc, rfl⟩ := List.mem_map.mp ht
    exact hmore c hc
  refine ⟨h.1, ?_, ?_⟩
  · refine List.pairwise_of_forall_mem_list fun a ha b hb => ?_
    rw [List.mem_append, List.mem_singleton] at ha hb
    rw [ha.elim (hmore' a) id, hb.elim (hmore' b) id]
  · intro a ha b hb
    rw [List.mem_append, List.mem_singleton] at hb
    rw [hb.elim (hmore' b) id]
    exact (h.2.2 a ha now List.mem_cons_self).trans hle

theorem ClockedUntil.mono {calls : List (ℚ × PrefixCall)} (h : ClockedUntil calls now)
    (hle : now ≤ now') : ClockedUntil calls now' := by
  rw [← List.append_nil calls]
  exact h.append hle fun c hc => absurd hc List.not_mem_nil

/-- Lookups record nothing. -/
theorem recorded_lookups (id : Uuid) (calls : List (ℚ × PrefixCall)) (now : ℚ) (text : List ℕ)
    (rows : List RoutingRow) :
    recorded id (calls ++ rows.map fun row => (now, .overlap row.inst.id text)) =
      recorded id calls := by
  induction rows using List.reverseRecOn with
  | nil => rw [List.map_nil, List.append_nil]
  | append_singleton rows row ih =>
    rw [List.map_append, ← List.append_assoc, List.map_singleton, recorded_append]
    exact ih

/-- A step that asks nothing of the index. -/
theorem PrefixInv.quiet (u : Unicode) (settings : GuardSettings)
    (h : PrefixInv hash ttlSeconds maxPerInstance blockChars texts g now)
    (hle : now ≤ now') (r : ℕ) (o : Awaited) :
    PrefixInv hash ttlSeconds maxPerInstance blockChars texts
      { g with gateway := g.gateway.step u settings (.resume r o) } now' := by
  refine ⟨h.index, h.clocked.mono hle, h.came, h.called, h.length.trans (length_resume o).symm,
    held_step h.held _, fun id p hp => ?_⟩
  obtain ⟨i, hi, hgiven⟩ := h.source id p hp
  exact ⟨i, hi, given_mono hgiven _⟩

theorem PrefixInv.step (h : PrefixInv hash ttlSeconds maxPerInstance blockChars texts g now)
    (hle : now ≤ now') (ev : PrefixEvent)
    (htext : ∀ t, ev.text = some t → t ∈ texts) :
    PrefixInv hash ttlSeconds maxPerInstance blockChars texts
      (g.step hash ttlSeconds maxPerInstance blockChars u settings (now', ev)) now' := by
  have hlater : PrefixInv hash ttlSeconds maxPerInstance blockChars texts g now' :=
    { h with clocked := h.clocked.mono hle }
  cases ev with
  | arrive modelName path query text =>
    simp only [PrefixGateway.step]
    split
    · exact hlater
    · rename_i ds hds
      refine ⟨h.index, h.clocked.mono hle, ?_, h.called, ?_, held_step h.held _,
        fun id p hp => ?_⟩
      · intro t ht
        rcases List.mem_append.mp ht with ht | ht
        · exact h.came t ht
        · rw [List.mem_singleton.mp ht]
          exact ⟨htext text rfl, by rw [hds]; rfl⟩
      · rw [List.length_append, h.length]
        exact (@length_arrive u settings g.gateway modelName path query).symm
      · obtain ⟨i, hi, hgiven⟩ := h.source id p hp
        refine ⟨i, ?_, given_mono hgiven _⟩
        rw [List.getElem?_append_left (List.getElem?_eq_some_iff.mp hi).1]
        exact hi
  | resume r o recorded =>
    simp only [PrefixGateway.step]
    split
    · rename_i q text hq htextr
      have hcame := h.came text (List.mem_of_getElem? htextr)
      obtain ⟨ds, hds⟩ := Option.isSome_iff_exists.mp hcame.2
      have hdigests : digestsOf hash blockChars text = ds := by
        rw [digestsOf, hds, Option.getD_some]
      split
      · rename_i rows hsel
        have hquiet := h.quiet u settings hle r (o.withOverlap fun id =>
          (overlapsOf ttlSeconds now' (digestsOf hash blockChars text) rows g.seen).1.getD id 0)
        refine ⟨?_, ?_, h.came, ?_, hquiet.length, hquiet.held, ?_⟩
        · rw [PrefixIndex.after, List.foldl_append, hdigests, overlapsOf_snd hds rows g.seen,
            h.index]
          rfl
        · refine h.clocked.append hle fun c hc => ?_
          obtain ⟨row, -, rfl⟩ := List.mem_map.mp hc
          rfl
        · intro t ht
          rw [List.map_append, List.mem_append] at ht
          rcases ht with ht | ht
          · exact h.called t ht
          · obtain ⟨c, hc, rfl⟩ := List.mem_map.mp ht
            obtain ⟨row, -, rfl⟩ := List.mem_map.mp hc
            exact hcame.1
        · intro id p hp
          rw [recorded_lookups] at hp
          exact hquiet.source id p hp
      · split
        · rename_i id hrec
          have hquiet := h.quiet u settings hle r o
          refine ⟨?_, ?_, h.came, ?_, hquiet.length, hquiet.held, ?_⟩
          · have hcall : ∀ seen : PrefixIndex, seen.call hash ttlSeconds maxPerInstance blockChars
                (now', .record id text) = seen.record maxPerInstance now' id ds := by
              intro seen
              rw [PrefixIndex.call, hds]
              rfl
            rw [PrefixIndex.after, List.foldl_append, List.foldl_cons, List.foldl_nil, hcall,
              h.index, hdigests]
            rfl
          · exact h.clocked.append hle fun c hc => by rw [List.mem_singleton.mp hc]
          · intro t ht
            rw [List.map_append, List.mem_append] at ht
            rcases ht with ht | ht
            · exact h.called t ht
            · rw [List.map_singleton, List.mem_singleton] at ht
              rw [ht]
              exact hcame.1
          · intro id' p hp
            rw [recorded_append] at hp
            simp only [recordCall] at hp
            split at hp
            · rename_i hown
              rcases List.mem_append.mp hp with hp | hp
              · exact hquiet.source id' p hp
              · -- the request holds the slot of the instance it records for
                rw [List.mem_singleton.mp hp]
                have hheld := h.held q (List.mem_of_getElem? hq) id (slot_of_records hrec)
                exact ⟨r, htextr, given_mono ⟨q, hq, hown.1 ▸ hheld⟩ _⟩
            · exact hquiet.source id' p hp
        · exact h.quiet u settings hle r o
    · exact hlater

/-- What a selection is told about an instance. -/
def PrefixGateway.told (hash : BlockHash) (ttlSeconds : ℚ) (blockChars : ℕ) (g : PrefixGateway)
    (now : ℚ) (text : List ℕ) (rows : List RoutingRow) (id : Uuid) : ℕ :=
  (overlapsOf ttlSeconds now (digestsOf hash blockChars text) rows g.seen).1.getD id 0

theorem gateway_step_selects {r : ℕ} {o : Awaited} {recorded : Bool} {q : Request} {text : List ℕ}
    {rows : List RoutingRow} (hq : g.gateway.requests[r]? = some q) (ht : g.texts[r]? = some text)
    (hsel : q.selects g.gateway.routing o = some rows) :
    (g.step hash ttlSeconds maxPerInstance blockChars u settings
        (now, .resume r o recorded)).gateway =
      g.gateway.step u settings
        (.resume r (o.withOverlap (g.told hash ttlSeconds blockChars now text rows))) := by
  simp only [PrefixGateway.step, hq, ht, hsel]
  rfl

/-- A selection is told more than `n` of a row exactly if a prompt in its ring has more than `n`
blocks in common with the text. -/
theorem lt_told_iff (h : PrefixInv hash ttlSeconds maxPerInstance blockChars texts g now)
    (hpos : 0 < blockChars) (hfree : CollisionFree hash blockChars texts) {text : List ℕ}
    (ht : text ∈ g.texts) {rows : List RoutingRow} {row : RoutingRow} (hrow : row ∈ rows) (n : ℕ) :
    n < g.told hash ttlSeconds blockChars now text rows row.inst.id ↔
      ∃ p ∈ (recorded row.inst.id g.calls).rtake maxPerInstance, now - p.1 ≤ ttlSeconds ∧
        n < commonLength (textChunks blockChars text) (textChunks blockChars p.2) := by
  obtain ⟨hcame, hsome⟩ := h.came text ht
  obtain ⟨ds, hds⟩ := Option.isSome_iff_exists.mp hsome
  unfold PrefixGateway.told
  rw [getD_overlapsOf _ _ _ _ (List.mem_map.mpr ⟨row, hrow, rfl⟩), h.index, digestsOf, hds,
    Option.getD_some]
  exact lt_overlap_iff hpos h.clocked _ hcame h.called hfree hds n

/-- The opening of a conversation: whole blocks, at least one. -/
structure Opening (blockChars : ℕ) (opening : List ℕ) : Prop where
  whole : blockChars ∣ opening.length
  nonempty : opening ≠ []

variable {opening : List ℕ}

/-- Two texts, one of the conversation: the other is so too exactly if they have the blocks of the
opening in common. -/
theorem speaks_iff (hpos : 0 < blockChars) {k : ℕ} (hk : opening.length = k * blockChars)
    {text text' : List ℕ} (ht : Speaks opening text) :
    Speaks opening text' ↔
      k ≤ commonLength (textChunks blockChars text) (textChunks blockChars text') := by
  have hlen : k * blockChars ≤ text.length := hk ▸ ht.length_le
  rw [le_commonLength_iff hpos hlen, ← hk, ← List.prefix_iff_eq_take.mp ht]
  exact List.prefix_iff_eq_take

/-- **A warm instance is the one that is selected**, if no other has served the conversation. -/
theorem selects_warm (h : PrefixInv hash ttlSeconds maxPerInstance blockChars texts g now)
    (hpos : 0 < blockChars) (hfree : CollisionFree hash blockChars texts)
    (hopening : Opening blockChars opening) {text : List ℕ} (ht : text ∈ g.texts)
    (hspeaks : Speaks opening text) {rows : List RoutingRow} {id : Uuid}
    (hwarm : Warm ttlSeconds maxPerInstance opening g now rows id)
    (hsingle : ∀ id', g.Served opening id' → id' = id) (s : Routing) :
    ∃ inst worker, selectRow s (g.told hash ttlSeconds blockChars now text rows) rows =
      some (inst, worker) ∧ inst.id = id := by
  obtain ⟨k, hk⟩ := hopening.whole
  rw [Nat.mul_comm] at hk
  have hkpos : 0 < k := by
    rcases Nat.eq_zero_or_pos k with rfl | hkpos
    · rw [Nat.zero_mul] at hk
      exact absurd (List.length_eq_zero_iff.mp hk) hopening.nonempty
    · exact hkpos
  obtain ⟨own, hown, hid⟩ := hwarm.routable
  have htold : k - 1 < g.told hash ttlSeconds blockChars now text rows id := by
    rw [← hid, lt_told_iff h hpos hfree ht hown]
    obtain ⟨p, hp, hfresh, hp'⟩ := hwarm.resident
    refine ⟨p, hid ▸ hp, hfresh, ?_⟩
    have := (speaks_iff hpos hk hspeaks).mp hp'
    omega
  have hothers : ∀ row ∈ rows, row.inst.id ≠ id →
      g.told hash ttlSeconds blockChars now text rows row.inst.id ≤ k - 1 := by
    intro row hrow hne
    by_contra hlt
    obtain ⟨p, hp, -, hcommon⟩ := (lt_told_iff h hpos hfree ht hrow (k - 1)).mp (not_le.mp hlt)
    -- a prompt with these blocks is one of the conversation, and was given to `id`
    obtain ⟨r, hr, hgiven⟩ := h.source row.inst.id p (rtake_subset _ _ hp)
    have hp' : Speaks opening p.2 := (speaks_iff hpos hk hspeaks).mpr (by omega)
    exact hne (hsingle _ ⟨r, p.2, hr, hp', hgiven⟩)
  exact exists_selectRow (List.ne_nil_of_mem hown)
    (fun row hrow => id_of_mem_routingPool ⟨own, hown, hid⟩ htold hothers hrow) hwarm.worker

/-- The conversation has been given one instance at most. -/
def PrefixGateway.Single (opening : List ℕ) (g : PrefixGateway) : Prop :=
  ∀ id id', g.Served opening id → g.Served opening id' → id = id'

theorem single_of_given {g' : PrefixGateway} (h : g.Single opening)
    (hgiven : ∀ i text id, g'.texts[i]? = some text → Speaks opening text → g'.gateway.Given i id →
      g.texts[i]? = some text ∧ g.gateway.Given i id) : g'.Single opening := by
  rintro id id' ⟨i, text, ht, hs, hid⟩ ⟨i', text', ht', hs', hid'⟩
  obtain ⟨hi, hgi⟩ := hgiven i text id ht hs hid
  obtain ⟨hi', hgi'⟩ := hgiven i' text' id' ht' hs' hid'
  exact h id id' ⟨i, text, hi, hs, hgi⟩ ⟨i', text', hi', hs', hgi'⟩

/-- A selection that stays warm gives the conversation the instance it has, or a first one. -/
theorem single_selects (h : PrefixInv hash ttlSeconds maxPerInstance blockChars texts g now)
    (hpos : 0 < blockChars) (hfree : CollisionFree hash blockChars texts)
    (hopening : Opening blockChars opening) (hsingle : g.Single opening) {r : ℕ} {o : Awaited}
    {q : Request} {text : List ℕ} {rows : List RoutingRow} (hq : g.gateway.requests[r]? = some q)
    (ht : g.texts[r]? = some text) (hsel : q.selects g.gateway.routing o = some rows)
    (hwarm : Speaks opening text → ∀ id, g.Served opening id →
      Warm ttlSeconds maxPerInstance opening g now rows id) {g' : PrefixGateway}
    (htexts : g'.texts = g.texts) (hgateway : g'.gateway = g.gateway.step u settings
      (.resume r (o.withOverlap (g.told hash ttlSeconds blockChars now text rows)))) :
    g'.Single opening := by
  have hgiven : ∀ i id, g'.gateway.Given i id ↔
      if i = r then id ∈ (selectInstance g.gateway.routing q
        (g.told hash ttlSeconds blockChars now text rows) rows).2.reserved
      else g.gateway.Given i id := by
    intro i id
    rw [hgateway, given_resume hq, resume_of_selects hsel]
  rcases selectInstance_cases g.gateway.routing q
    (g.told hash ttlSeconds blockChars now text rows) rows with ⟨-, hput⟩ |
    ⟨inst, worker, hrow, hres, -⟩
  · refine single_of_given hsingle fun i text' id hti hs hid => ⟨htexts ▸ hti, ?_⟩
    rw [hgiven, hput.1] at hid
    split at hid
    · rename_i hir
      exact ⟨q, hir ▸ hq, hid⟩
    · exact hid
  · by_cases hs : Speaks opening text
    · -- whoever has served the conversation is the instance selected
      have hold : ∀ id, g.Served opening id → id = inst.id := by
        intro id hserved
        obtain ⟨inst', worker', hrow', hid'⟩ := selects_warm h hpos hfree hopening
          (List.mem_of_getElem? ht) hs (hwarm hs id hserved)
          (fun id' hserved' => hsingle id' id hserved' hserved) g.gateway.routing
        rw [hrow] at hrow'
        obtain ⟨rfl, -⟩ := Prod.mk.inj (Option.some.inj hrow')
        exact hid'.symm
      have hnew : ∀ id, g'.Served opening id → id = inst.id := by
        rintro id ⟨i, text', hti, hs', hid⟩
        rw [htexts] at hti
        rw [hgiven, hres] at hid
        split at hid
        · rename_i hir
          rcases List.mem_append.mp hid with hid | hid
          · exact hold id ⟨i, text', hti, hs', q, hir ▸ hq, hid⟩
          · exact List.mem_singleton.mp hid
        · exact hold id ⟨i, text', hti, hs', hid⟩
      exact fun id id' hid hid' => (hnew id hid).trans (hnew id' hid').symm
    · refine single_of_given hsingle fun i text' id hti hs' hid => ⟨htexts ▸ hti, ?_⟩
      rw [hgiven] at hid
      split at hid
      · rename_i hir
        rw [htexts, hir, ht] at hti
        exact absurd (Option.some.inj hti ▸ hs') hs
      · exact hid

theorem single_step (h : PrefixInv hash ttlSeconds maxPerInstance blockChars texts g now)
    (hpos : 0 < blockChars) (hfree : CollisionFree hash blockChars texts)
    (hopening : Opening blockChars opening) (hsingle : g.Single opening) {ev : PrefixEvent}
    (hwarm : StaysWarm ttlSeconds maxPerInstance opening g (now, ev)) :
    (g.step hash ttlSeconds maxPerInstance blockChars u settings (now, ev)).Single opening := by
  cases ev with
  | arrive modelName path query text =>
    simp only [PrefixGateway.step]
    split
    · exact hsingle
    · refine single_of_given hsingle fun i text' id hti hs hid => ?_
      have hid' := (@given_arrive u settings g.gateway i id modelName path query).mp hid
      have hlt : i < g.texts.length := by
        obtain ⟨q, hq, -⟩ := hid'
        rw [h.length]
        exact (List.getElem?_eq_some_iff.mp hq).1
      rw [List.getElem?_append_left hlt] at hti
      exact ⟨hti, hid'⟩
  | resume r o recorded =>
    cases hq : g.gateway.requests[r]? with
    | none =>
      simp only [PrefixGateway.step, hq]
      exact hsingle
    | some q =>
    cases ht : g.texts[r]? with
    | none =>
      simp only [PrefixGateway.step, hq, ht]
      exact hsingle
    | some text =>
    cases hsel : q.selects g.gateway.routing o with
    | some rows =>
      refine single_selects h hpos hfree hopening hsingle hq ht hsel
        (fun hs => hwarm q text rows hq ht hs hsel) ?_ (gateway_step_selects hq ht hsel)
      simp only [PrefixGateway.step, hq, ht, hsel]
    | none =>
      have hput : q.StaysPut (resume u settings g.gateway.routing q o).2 := resume_staysPut hsel
      refine single_of_given hsingle fun i text' id hti _ hid => ?_
      cases hrec : q.records o recorded with
      | some id' =>
        simp only [PrefixGateway.step, hq, ht, hsel, hrec] at hti hid
        exact ⟨hti, (given_of_staysPut hq hput).mp hid⟩
      | none =>
        simp only [PrefixGateway.step, hq, ht, hsel, hrec] at hti hid
        exact ⟨hti, (given_of_staysPut hq hput).mp hid⟩

variable {as : List (ℚ × PrefixEvent)}

/-- **The gateway goes on as it does without an index**, with the answers that the index has. -/
theorem exists_gateway_run (as : List (ℚ × PrefixEvent)) :
    ∃ evs, (exec (PrefixGateway.step hash ttlSeconds maxPerInstance blockChars u settings)
      {} as).gateway = exec (Gateway.step u settings) {} evs := by
  have hstep : ∀ (g : PrefixGateway) a,
      (g.step hash ttlSeconds maxPerInstance blockChars u settings a).gateway = g.gateway ∨
        ∃ ev, (g.step hash ttlSeconds maxPerInstance blockChars u settings a).gateway =
          g.gateway.step u settings ev := by
    rintro g ⟨now, ev⟩
    cases ev with
    | arrive modelName path query text =>
      simp only [PrefixGateway.step]
      split
      · exact Or.inl rfl
      · exact Or.inr ⟨.arrive modelName path query, rfl⟩
    | resume r o recorded =>
      simp only [PrefixGateway.step]
      split
      · split
        · exact Or.inr ⟨.resume r (o.withOverlap _), rfl⟩
        · split <;> exact Or.inr ⟨.resume r o, rfl⟩
      · exact Or.inl rfl
  induction as using List.reverseRecOn with
  | nil => exact ⟨[], rfl⟩
  | append_singleton as a ih =>
    obtain ⟨evs, hevs⟩ := ih
    rw [exec_append, exec_cons, exec_nil]
    rcases hstep (exec _ {} as) a with hsame | ⟨ev, hev⟩
    · exact ⟨evs, hsame.trans hevs⟩
    · refine ⟨evs ++ [ev], ?_⟩
      rw [hev, hevs, exec_append]
      rfl

theorem prefixInv_run (hclock : (as.map Prod.fst).Pairwise (· ≤ ·))
    (htexts : ∀ t ∈ as.filterMap (·.2.text), t ∈ texts) {now : ℚ} (hnow : ∀ a ∈ as, a.1 ≤ now) :
    PrefixInv hash ttlSeconds maxPerInstance blockChars texts
      (exec (PrefixGateway.step hash ttlSeconds maxPerInstance blockChars u settings) {} as)
      now := by
  induction as using List.reverseRecOn generalizing now with
  | nil => exact prefixInv_init now
  | append_singleton as a ih =>
    rw [List.map_append, List.pairwise_append] at hclock
    rw [List.filterMap_append] at htexts
    have hbefore := ih hclock.1 (fun t ht => htexts t (List.mem_append_left _ ht)) fun b hb =>
      hclock.2.2 b.1 (List.mem_map_of_mem hb) a.1 (by simp)
    have hstep := @PrefixInv.step u settings _ _ _ _ _ _ _ _ hbefore le_rfl a.2 fun t ht =>
      htexts t (List.mem_append_right _ (by simp [ht]))
    rw [exec_append]
    exact { hstep with clocked := hstep.clocked.mono (hnow a (by simp)) }

theorem single_run (hpos : 0 < blockChars) (hclock : (as.map Prod.fst).Pairwise (· ≤ ·))
    (htexts : ∀ t ∈ as.filterMap (·.2.text), t ∈ texts)
    (hfree : CollisionFree hash blockChars texts) (hopening : Opening blockChars opening)
    (hwarm : Conforms (PrefixGateway.step hash ttlSeconds maxPerInstance blockChars u settings)
      (StaysWarm ttlSeconds maxPerInstance opening) {} as) :
    (exec (PrefixGateway.step hash ttlSeconds maxPerInstance blockChars u settings) {} as).Single
      opening := by
  induction as using List.reverseRecOn with
  | nil => rintro id id' ⟨i, text, hi, -⟩; cases hi
  | append_singleton as a ih =>
    rw [conforms_append, conforms_cons] at hwarm
    rw [List.map_append, List.pairwise_append] at hclock
    rw [List.filterMap_append] at htexts
    have htexts' := fun t ht => htexts t (List.mem_append_left _ ht)
    rw [exec_append, exec_cons, exec_nil]
    refine single_step (prefixInv_run hclock.1 htexts' fun b hb => ?_) hpos hfree hopening
      (ih hclock.1 htexts' hwarm.1) hwarm.2.1
    exact hclock.2.2 b.1 (List.mem_map_of_mem hb) a.1 (by simp)

/-- **A conversation that stays warm stays on one replica**, in every interleaving with other
traffic: if each of its requests that selects finds the instance that served it before routable,
with one of its prompts among the last of that instance and not expired, then they are all given
the same instance, and a next one is given it again.  A request of whose text no ring has even one
block is routed as if there were no index. -/
theorem conversation_sticks (hpos : 0 < blockChars) (hopening : Opening blockChars opening)
    (hclock : (as.map Prod.fst).Pairwise (· ≤ ·))
    (hfree : CollisionFree hash blockChars (as.filterMap (·.2.text))) :
    let step := PrefixGateway.step hash ttlSeconds maxPerInstance blockChars u settings
    let g := exec step {} as
    (Conforms step (StaysWarm ttlSeconds maxPerInstance opening) {} as →
      (∀ id id', g.Served opening id → g.Served opening id' → id = id') ∧
      ∀ now r o kept q text rows id, (∀ a ∈ as, a.1 ≤ now) → g.gateway.requests[r]? = some q →
        g.texts[r]? = some text → Speaks opening text →
        q.selects g.gateway.routing o = some rows → g.Served opening id →
        Warm ttlSeconds maxPerInstance opening g now rows id →
          (step g (now, .resume r o kept)).gateway.Given r id) ∧
    ∀ now r o kept q text rows, (∀ a ∈ as, a.1 ≤ now) → g.gateway.requests[r]? = some q →
      g.texts[r]? = some text → q.selects g.gateway.routing o = some rows →
      (∀ row ∈ rows, ∀ p ∈ (recorded row.inst.id g.calls).rtake maxPerInstance,
        now - p.1 ≤ ttlSeconds →
          commonLength (textChunks blockChars text) (textChunks blockChars p.2) = 0) →
        (step g (now, .resume r o kept)).gateway =
          g.gateway.step u settings (.resume r (o.withOverlap fun _ => 0)) := by
  intro step g
  have hinv : ∀ {now : ℚ}, (∀ a ∈ as, a.1 ≤ now) → PrefixInv hash ttlSeconds maxPerInstance
      blockChars (as.filterMap (·.2.text)) g now :=
    fun hnow => prefixInv_run hclock (fun t ht => ht) hnow
  refine ⟨fun hwarm => ?_, ?_⟩
  · have hsingle : g.Single opening := single_run hpos hclock (fun t ht => ht) hfree hopening hwarm
    refine ⟨hsingle, ?_⟩
    intro now r o kept q text rows id hnow hq ht hs hsel hserved hwarm'
    obtain ⟨inst, worker, hrow, rfl⟩ := selects_warm (hinv hnow) hpos hfree hopening
      (List.mem_of_getElem? ht) hs hwarm' (fun id' hid' => hsingle id' id hid' hserved)
      g.gateway.routing
    show (PrefixGateway.step _ _ _ _ _ _ g (now, .resume r o kept)).gateway.Given r inst.id
    rw [gateway_step_selects hq ht hsel, given_resume hq, if_pos rfl, resume_of_selects hsel,
      selectInstance, hrow]
    exact List.mem_append_right _ List.mem_cons_self
  · intro now r o kept q text rows hnow hq ht hsel hcold
    have hzero : ∀ row ∈ rows, g.told hash ttlSeconds blockChars now text rows row.inst.id = 0 := by
      intro row hrow
      by_contra hne
      obtain ⟨p, hp, hfresh, hlt⟩ := (lt_told_iff (hinv hnow) hpos hfree
        (List.mem_of_getElem? ht) hrow 0).mp (Nat.pos_of_ne_zero hne)
      exact hlt.ne' (hcold row hrow p hp hfresh)
    show (PrefixGateway.step _ _ _ _ _ _ g (now, .resume r o kept)).gateway = _
    rw [gateway_step_selects hq ht hsel]
    simp only [Gateway.step, hq, resume_of_selects hsel, selectInstance,
      selectRow_of_noOverlap hzero]

end

/-- An agent's prompt has been answered, and is sent again with one character more. -/
def agentRun : List (ℚ × PrefixEvent) :=
  [(0, .arrive "m" "/v1/chat/completions".toList [] (Json.codePoints "ab")),
    (0, .resume 0 (.db twoReplicas fun _ => 0) false),
    (0, .resume 0 (.db twoReplicas fun _ => 0) false),
    (1, .resume 0 (.resolved .failure) false), (1, .resume 0 (.checked none none) false),
    (1, .resume 0 (.responded 200) false), (2, .resume 0 (.relayed .exhausted none) false),
    (3, .arrive "m" "/v1/chat/completions".toList [] (Json.codePoints "abc")),
    (3, .resume 1 (.db twoReplicas fun _ => 0) false),
    (3, .resume 1 (.db twoReplicas fun _ => 0) false)]

/-- The second request follows the first, though that one still holds its slot. -/
theorem conversation_sticks_agentRun :
    ((exec (PrefixGateway.step fewDigests 600 64 2 Unicode.ascii {}) {}
      agentRun).gateway.requests.map (·.reserved)) = [[3], [3]] ∧
    ∀ id id', (exec (PrefixGateway.step fewDigests 600 64 2 Unicode.ascii {}) {} agentRun).Served
        (Json.codePoints "ab") id →
      (exec (PrefixGateway.step fewDigests 600 64 2 Unicode.ascii {}) {} agentRun).Served
        (Json.codePoints "ab") id' → id = id' := by
  refine ⟨by decide +kernel, ?_⟩
  exact ((conversation_sticks (by norm_num) ⟨by decide +kernel, by decide +kernel⟩
    (by decide +kernel) (by decide +kernel)).1 (by decide +kernel)).1

end Inferna
