import Inferna.Models
import Inferna.Lib.Json
import Inferna.Lib.HashChain
import Inferna.Lib.TimedRing

/-!
# The prefix index

`services/prefix_cache.py`: a text is cut into chunks, and each chunk is hashed together with the
digest before it.  The index keeps for each instance a bounded ring of the digest sets of the
prompts it has served, with the times; what has expired is removed when the instance is looked up.

A text is its code points.  The hash is the parameter `BlockHash`: the first sixteen hexadecimal
digits of a digest.  A text with a lone surrogate has no encoding and no digests.

## Main definitions

* `BlockHash`, `blocks` — the digests of a text.
* `PrefixIndex`, `record`, `overlap`, `forget` — the index.
* `PrefixCall`, `PrefixIndex.call` — the calls, at the times at which they read the clock.
* `recorded`, `longestShared` — what was recorded since the last `forget`, and the longest common
  beginning with what has not expired of it.

## Main results

* `blocks_isSome_iff` — a text has digests exactly when every code point is a character.
* `index_holds` — the rings lack only what has expired.
* `overlap_eq_longestShared` — **the index computes the longest shared prefix.**
-/

namespace Inferna

open HashChain TimedRing

/-! ### Digests -/

/-- A digest, as text. -/
abbrev Digest := List Char

/-- `hashlib.sha256(text.encode()).hexdigest()[:16]`. -/
structure BlockHash where
  digest : List Char → Digest
  length : ∀ text, (digest text).length = 16
  hex : ∀ text, ∀ c ∈ digest text, c ∈ "0123456789abcdef".toList

/-- The characters that `str.encode` encodes; a lone surrogate is none. -/
def encodeText (text : List ℕ) : Option (List Char) :=
  text.mapM fun c => if c.isValidChar then some (Char.ofNat c) else none

/-- `PREFIX_BLOCK_CHARS`. -/
def prefixBlockChars : ℕ := 512

/-- The slices of `blocks`. -/
def textChunks (blockChars : ℕ) (text : List ℕ) : List (List ℕ) :=
  (List.range ((text.length + blockChars - 1) / blockChars)).map fun i =>
    (text.drop (i * blockChars)).take blockChars

/-- A chunk is hashed behind the previous digest. -/
def BlockHash.step (hash : BlockHash) (previous : Digest) (chunk : List Char) : Digest :=
  hash.digest (previous ++ '|' :: chunk)

/-- `blocks`; `none` if a chunk cannot be encoded. -/
def blocks (hash : BlockHash) (blockChars : ℕ) (text : List ℕ) : Option (List Digest) :=
  ((textChunks blockChars text).mapM encodeText).map (chain hash.step [])

/-! ### The index -/

/-- `_seen`. -/
abbrev PrefixIndex := Dict Uuid (List (ℚ × List Digest))

namespace PrefixIndex

/-- `record`. -/
def record (maxPerInstance : ℕ) (now : ℚ) (id : Uuid) (digests : List Digest)
    (seen : PrefixIndex) : PrefixIndex :=
  if digests = [] then seen
  else seen.set id (push maxPerInstance (seen.getD id []) (now, digests))

/-- The leading digests that a resident prompt has. -/
def leadingRun (digests resident : List Digest) : ℕ :=
  (digests.takeWhile resident.contains).length

/-- The loop of `overlap` over the ring. -/
def bestShared (digests : List Digest) : ℕ → List (ℚ × List Digest) → ℕ
  | best, [] => best
  | best, (_, resident) :: ring =>
    let shared := leadingRun digests resident
    if best < shared then
      if shared = digests.length then shared else bestShared digests shared ring
    else bestShared digests best ring

/-- `overlap`, and the index in which the expired entries of the instance are removed. -/
def overlap (ttlSeconds now : ℚ) (id : Uuid) (digests : List Digest) (seen : PrefixIndex) :
    ℕ × PrefixIndex :=
  if digests = [] then (0, seen)
  else
    match seen.get? id with
    | none => (0, seen)
    | some [] => (0, seen)
    | some (entry :: ring) =>
      let ring' := expire (now - ttlSeconds) (entry :: ring)
      (bestShared digests 0 ring', seen.set id ring')

/-- `forget`. -/
def forget (id : Uuid) (seen : PrefixIndex) : PrefixIndex := seen.erase id

end PrefixIndex

/-! ### Calls -/

/-- A call of the index, with the text whose digests it is given. -/
inductive PrefixCall
  | record (id : Uuid) (text : List ℕ)
  | overlap (id : Uuid) (text : List ℕ)
  | forget (id : Uuid)

/-- The text of a call. -/
def PrefixCall.text : PrefixCall → List ℕ
  | .record _ text | .overlap _ text => text
  | .forget _ => []

section

variable (hash : BlockHash) (ttlSeconds : ℚ) (maxPerInstance blockChars : ℕ)

/-- One call at its time.  Without digests there is none. -/
def PrefixIndex.call (seen : PrefixIndex) : ℚ × PrefixCall → PrefixIndex
  | (now, .record id text) =>
    ((blocks hash blockChars text).map fun ds => seen.record maxPerInstance now id ds).getD seen
  | (now, .overlap id text) =>
    ((blocks hash blockChars text).map fun ds => (seen.overlap ttlSeconds now id ds).2).getD seen
  | (_, .forget id) => seen.forget id

/-- The index after some calls. -/
def PrefixIndex.after (calls : List (ℚ × PrefixCall)) : PrefixIndex :=
  calls.foldl (PrefixIndex.call hash ttlSeconds maxPerInstance blockChars) Dict.empty

end

/-- A call, as far as it says what is recorded for an instance. -/
def recordCall (id : Uuid) (log : List (ℚ × List ℕ)) : ℚ × PrefixCall → List (ℚ × List ℕ)
  | (now, .record id' text) =>
    if id' = id ∧ text ≠ [] ∧ (encodeText text).isSome then log ++ [(now, text)] else log
  | (_, .overlap _ _) => log
  | (_, .forget id') => if id' = id then [] else log

/-- The prompts recorded for an instance since its last `forget`, with the times. -/
def recorded (id : Uuid) (calls : List (ℚ × PrefixCall)) : List (ℚ × List ℕ) :=
  calls.foldl (recordCall id) []

/-- The longest common beginning, in chunks, of a text and the last prompts recorded, as long as
these are not older than the time to live. -/
def longestShared (ttlSeconds now : ℚ) (maxPerInstance blockChars : ℕ) (log : List (ℚ × List ℕ))
    (text : List ℕ) : ℕ :=
  (((log.rtake maxPerInstance).filter fun p => now - p.1 ≤ ttlSeconds).map fun p =>
    commonLength (textChunks blockChars text) (textChunks blockChars p.2)).foldr max 0

/-! ### The digests of a text -/

/-- The characters of an encoded text are its code points. -/
theorem encodeText_eq_some {text : List ℕ} {chars : List Char} (h : encodeText text = some chars) :
    chars.map Char.toNat = text := by
  refine Text.mapM_eq_some (fun c a hc => ?_) h
  split at hc
  · rename_i hvalid
    obtain rfl := Option.some.inj hc
    rw [Char.ofNat, dif_pos hvalid]
    rfl
  · cases hc

theorem encodeText_isSome_iff (text : List ℕ) :
    (encodeText text).isSome ↔ ∀ c ∈ text, c.isValidChar := by
  rw [encodeText, Text.mapM_isSome_iff]
  refine forall₂_congr fun c _ => ?_
  split <;> simp_all

/-- The slices of a text make it up. -/
theorem flatten_slices (blockChars : ℕ) (text : List ℕ) (n : ℕ) :
    ((List.range n).map fun i => (text.drop (i * blockChars)).take blockChars).flatten =
      text.take (n * blockChars) := by
  induction n with
  | zero => simp
  | succ n ih =>
    rw [List.range_succ, List.map_append, List.flatten_append, ih, Nat.succ_mul, List.take_add]
    simp

theorem flatten_textChunks {blockChars : ℕ} (hpos : 0 < blockChars) (text : List ℕ) :
    (textChunks blockChars text).flatten = text := by
  rw [textChunks, flatten_slices, List.take_of_length_le]
  have := Nat.div_add_mod (text.length + blockChars - 1) blockChars
  have hlt := Nat.mod_lt (text.length + blockChars - 1) hpos
  rw [Nat.mul_comm] at this
  omega

theorem textChunks_eq_nil_iff {blockChars : ℕ} (hpos : 0 < blockChars) (text : List ℕ) :
    textChunks blockChars text = [] ↔ text = [] := by
  constructor
  · intro h
    rw [← flatten_textChunks hpos text, h]
    rfl
  · rintro rfl
    rw [textChunks, List.length_nil, Nat.zero_add, Nat.div_eq_of_lt (by omega)]
    rfl

variable {hash : BlockHash} {blockChars : ℕ}

/-- The digests are the chain of the encoded chunks. -/
theorem blocks_eq_some {text : List ℕ} {ds : List Digest} (h : blocks hash blockChars text = some ds) :
    ∃ cs, (textChunks blockChars text).mapM encodeText = some cs ∧
      cs.map (List.map Char.toNat) = textChunks blockChars text ∧ ds = chain hash.step [] cs := by
  obtain ⟨cs, hcs, rfl⟩ := Option.map_eq_some_iff.mp h
  exact ⟨cs, hcs, Text.mapM_eq_some (fun _ _ => encodeText_eq_some) hcs, rfl⟩

/-- **A text has digests exactly when every code point is a character.** -/
theorem blocks_isSome_iff (hpos : 0 < blockChars) (text : List ℕ) :
    (blocks hash blockChars text).isSome ↔ ∀ c ∈ text, c.isValidChar := by
  rw [blocks, Option.isSome_map, Text.mapM_isSome_iff]
  simp only [encodeText_isSome_iff]
  rw [← List.forall_mem_flatten, flatten_textChunks hpos]

theorem encodeText_isSome_iff_blocks (hash : BlockHash) (hpos : 0 < blockChars) (text : List ℕ) :
    (encodeText text).isSome ↔ (blocks hash blockChars text).isSome :=
  (encodeText_isSome_iff text).trans (blocks_isSome_iff hpos text).symm

theorem blocks_eq_nil_iff (hpos : 0 < blockChars) {text : List ℕ} {ds : List Digest}
    (h : blocks hash blockChars text = some ds) : ds = [] ↔ text = [] := by
  obtain ⟨cs, -, hmap, rfl⟩ := blocks_eq_some h
  rw [← textChunks_eq_nil_iff hpos, ← hmap, List.map_eq_nil_iff, ← List.length_eq_zero_iff,
    length_chain, List.length_eq_zero_iff]

/-! ### No collision -/

/-- What is hashed for the digests of a text. -/
def hashedTexts (hash : BlockHash) (blockChars : ℕ) (text : List ℕ) : List (List Char) :=
  (((textChunks blockChars text).mapM encodeText).map fun cs =>
    (inputs hash.step [] cs).map fun p => p.1 ++ '|' :: p.2).getD []

/-- The hash has no collision among what is hashed for these texts. -/
def CollisionFree (hash : BlockHash) (blockChars : ℕ) (texts : List (List ℕ)) : Prop :=
  ∀ t ∈ texts.flatMap (hashedTexts hash blockChars),
    ∀ t' ∈ texts.flatMap (hashedTexts hash blockChars), hash.digest t = hash.digest t' → t = t'

instance (hash : BlockHash) (blockChars : ℕ) (texts : List (List ℕ)) :
    Decidable (CollisionFree hash blockChars texts) :=
  inferInstanceAs (Decidable (∀ t ∈ texts.flatMap (hashedTexts hash blockChars), _))

theorem append_cons_inj {α : Type} {b : α} : ∀ {p p' c c' : List α}, b ∉ p → b ∉ p' →
    p ++ b :: c = p' ++ b :: c' → p = p' ∧ c = c'
  | [], [], _, _, _, _, h => ⟨rfl, (List.cons.inj h).2⟩
  | [], x :: _, _, _, _, hp', h => absurd (List.cons.inj h).1 fun hx =>
      hp' (hx ▸ List.mem_cons_self)
  | x :: _, [], _, _, hp, _, h => absurd (List.cons.inj h).1 fun hx =>
      hp (hx ▸ List.mem_cons_self)
  | x :: p, x' :: p', c, c', hp, hp', h => by
    obtain ⟨rfl, htail⟩ := List.cons.inj h
    rw [List.mem_cons, not_or] at hp hp'
    obtain ⟨hpp, hcc⟩ := append_cons_inj hp.2 hp'.2 htail
    exact ⟨by rw [hpp], hcc⟩

theorem bar_notMem_digest (hash : BlockHash) (text : List Char) : '|' ∉ hash.digest text := fun h =>
  absurd (hash.hex text _ h) (by decide)

/-- The first part of what is hashed is empty or a digest. -/
theorem bar_notMem_inputs {previous : Digest} (hprev : '|' ∉ previous) {cs : List (List Char)}
    {p : Digest × List Char} (hp : p ∈ inputs hash.step previous cs) : '|' ∉ p.1 := by
  induction cs generalizing previous with
  | nil => cases hp
  | cons c cs ih =>
    rcases List.mem_cons.mp hp with rfl | hp
    · exact hprev
    · exact ih (bar_notMem_digest hash _) hp

/-- The inputs of the chains of these texts. -/
def chainInputs (hash : BlockHash) (blockChars : ℕ) (texts : List (List ℕ)) :
    Set (Digest × List Char) :=
  {p | ∃ text ∈ texts, ∃ cs, (textChunks blockChars text).mapM encodeText = some cs ∧
    p ∈ inputs hash.step [] cs}

theorem mem_hashedTexts {texts : List (List ℕ)} {p : Digest × List Char}
    (hp : p ∈ chainInputs hash blockChars texts) :
    p.1 ++ '|' :: p.2 ∈ texts.flatMap (hashedTexts hash blockChars) := by
  obtain ⟨text, htext, cs, hcs, hp⟩ := hp
  refine List.mem_flatMap.mpr ⟨text, htext, ?_⟩
  rw [hashedTexts, hcs, Option.map_some, Option.getD_some]
  exact List.mem_map.mpr ⟨p, hp, rfl⟩

theorem CollisionFree.noCollision {texts : List (List ℕ)}
    (h : CollisionFree hash blockChars texts) :
    NoCollision hash.step [] (chainInputs hash blockChars texts) := by
  constructor
  · intro p hp p' hp' heq
    have hbar : ∀ {q : Digest × List Char}, q ∈ chainInputs hash blockChars texts → '|' ∉ q.1 := by
      rintro q ⟨_, -, _, -, hq⟩
      exact bar_notMem_inputs List.not_mem_nil hq
    obtain ⟨h1, h2⟩ := append_cons_inj (hbar hp) (hbar hp')
      (h _ (mem_hashedTexts hp) _ (mem_hashedTexts hp') heq)
    exact Prod.ext h1 h2
  · rintro p - heq
    have := congrArg List.length heq
    rw [BlockHash.step, hash.length] at this
    cases this

/-- The leading digests of a text that a recorded one has are their leading chunks in common. -/
theorem leadingRun_eq {texts : List (List ℕ)} (hfree : CollisionFree hash blockChars texts)
    {text resident : List ℕ} (htext : text ∈ texts) (hresident : resident ∈ texts)
    {ds rs : List Digest} (hds : blocks hash blockChars text = some ds)
    (hrs : blocks hash blockChars resident = some rs) :
    PrefixIndex.leadingRun ds rs =
      commonLength (textChunks blockChars text) (textChunks blockChars resident) := by
  obtain ⟨xs, hxs, hxmap, rfl⟩ := blocks_eq_some hds
  obtain ⟨ys, hys, hymap, rfl⟩ := blocks_eq_some hrs
  have hinj : Function.Injective (List.map Char.toNat) :=
    List.map_injective_iff.mpr fun a b hab => Char.toNat_inj.mp hab
  rw [← hxmap, ← hymap, commonLength_map hinj]
  exact length_takeWhile_chain hfree.noCollision (fun p hp => ⟨text, htext, xs, hxs, hp⟩)
    fun p hp => ⟨resident, hresident, ys, hys, hp⟩

/-! ### The rings -/

/-- The digests of a text, as far as it has any. -/
def digestsOf (hash : BlockHash) (blockChars : ℕ) (text : List ℕ) : List Digest :=
  (blocks hash blockChars text).getD []

/-- What the ring of an instance is made from. -/
def digestLog (hash : BlockHash) (blockChars : ℕ) (log : List (ℚ × List ℕ)) :
    List (ℚ × List Digest) :=
  log.map fun p => (p.1, digestsOf hash blockChars p.2)

variable {ttlSeconds : ℚ} {maxPerInstance : ℕ}

/-- The rings lack only what has expired, if the last call was at `now`. -/
def RingsHold (hash : BlockHash) (ttlSeconds : ℚ) (maxPerInstance blockChars : ℕ)
    (calls : List (ℚ × PrefixCall)) (now : ℚ) (seen : PrefixIndex) : Prop :=
  ∀ id, Holds maxPerInstance (digestLog hash blockChars (recorded id calls)) (seen.getD id [])
    (now - ttlSeconds)

theorem recorded_append (id : Uuid) (calls : List (ℚ × PrefixCall)) (c : ℚ × PrefixCall) :
    recorded id (calls ++ [c]) = recordCall id (recorded id calls) c := by
  rw [recorded, List.foldl_append]
  rfl

theorem getD_set (seen : PrefixIndex) (id id' : Uuid) (ring : List (ℚ × List Digest)) :
    (seen.set id ring).getD id' [] = if id = id' then ring else seen.getD id' [] := by
  unfold Dict.getD
  rw [Dict.get?_set]
  split <;> rfl

theorem getD_erase (seen : PrefixIndex) (id id' : Uuid) :
    (seen.erase id).getD id' [] = if id = id' then [] else seen.getD id' [] := by
  unfold Dict.getD
  rw [Dict.get?_erase]
  split <;> rfl

/-- A record pushes onto the ring of its instance, unless the text is empty. -/
theorem getD_record (now : ℚ) (id id' : Uuid) (ds : List Digest) (seen : PrefixIndex) :
    (seen.record maxPerInstance now id ds).getD id' [] =
      if id = id' ∧ ds ≠ [] then push maxPerInstance (seen.getD id' []) (now, ds)
      else seen.getD id' [] := by
  unfold PrefixIndex.record
  by_cases hds : ds = []
  · rw [if_pos hds, if_neg fun h => h.2 hds]
  · rw [if_neg hds, getD_set]
    by_cases hid : id = id'
    · subst hid
      rw [if_pos rfl, if_pos ⟨rfl, hds⟩]
    · rw [if_neg hid, if_neg fun h => hid h.1]

/-- A lookup expires the ring of its instance, or leaves the rings alone. -/
theorem getD_overlap (now : ℚ) (id id' : Uuid) (ds : List Digest) (seen : PrefixIndex) :
    (seen.overlap ttlSeconds now id ds).2.getD id' [] = seen.getD id' [] ∨
      (seen.overlap ttlSeconds now id ds).2.getD id' [] =
        expire (now - ttlSeconds) (seen.getD id' []) := by
  unfold PrefixIndex.overlap
  split
  · exact Or.inl rfl
  · split
    · exact Or.inl rfl
    · exact Or.inl rfl
    · rename_i entry ring hget
      rw [getD_set]
      split
      · rename_i hid
        subst hid
        right
        unfold Dict.getD
        rw [hget]
        rfl
      · exact Or.inl rfl

theorem RingsHold.call (hpos : 0 < blockChars) {calls : List (ℚ × PrefixCall)} {now now' : ℚ}
    {seen : PrefixIndex}
    (h : RingsHold hash ttlSeconds maxPerInstance blockChars calls now seen) (hle : now ≤ now')
    (c : PrefixCall) : RingsHold hash ttlSeconds maxPerInstance blockChars (calls ++ [(now', c)]) now'
      (seen.call hash ttlSeconds maxPerInstance blockChars (now', c)) := by
  intro id
  have hcut : now - ttlSeconds ≤ now' - ttlSeconds := by linarith
  rw [recorded_append]
  cases c with
  | record id' text =>
    simp only [recordCall, PrefixIndex.call]
    cases hds : blocks hash blockChars text with
    | none =>
      have hnone : ¬ (encodeText text).isSome := by
        rw [encodeText_isSome_iff_blocks hash hpos, hds]
        exact Bool.false_ne_true
      rw [if_neg fun hr => hnone hr.2.2]
      exact (h id).mono hcut
    | some ds =>
      have hsome : (encodeText text).isSome := by
        rw [encodeText_isSome_iff_blocks hash hpos, hds]
        rfl
      have hnil := blocks_eq_nil_iff hpos hds
      rw [Option.map_some, Option.getD_some, getD_record]
      by_cases hr : id' = id ∧ ds ≠ []
      · rw [if_pos hr, if_pos ⟨hr.1, fun ht => hr.2 (hnil.mpr ht), hsome⟩]
        have hlog : digestLog hash blockChars (recorded id calls ++ [(now', text)]) =
            digestLog hash blockChars (recorded id calls) ++ [(now', ds)] := by
          simp [digestLog, digestsOf, hds]
        rw [hlog]
        exact ((h id).mono hcut).push _
      · rw [if_neg hr, if_neg fun hr' => hr ⟨hr'.1, fun hd => hr'.2.1 (hnil.mp hd)⟩]
        exact (h id).mono hcut
  | overlap id' text =>
    simp only [recordCall, PrefixIndex.call]
    cases blocks hash blockChars text with
    | none => exact (h id).mono hcut
    | some ds =>
      rw [Option.map_some, Option.getD_some]
      rcases @getD_overlap ttlSeconds now' id' id ds seen with heq | heq
      · rw [heq]
        exact (h id).mono hcut
      · rw [heq]
        exact (h id).expire hcut
  | forget id' =>
    simp only [recordCall, PrefixIndex.call, PrefixIndex.forget]
    rw [getD_erase]
    split
    · exact holds_nil _ _
    · exact (h id).mono hcut

/-- The calls are in the order of the clock, and none is after `now`. -/
def ClockedUntil (calls : List (ℚ × PrefixCall)) (now : ℚ) : Prop :=
  (calls.map Prod.fst ++ [now]).Pairwise (· ≤ ·)

/-- **The rings lack only what has expired.** -/
theorem index_holds (hpos : 0 < blockChars) (calls : List (ℚ × PrefixCall)) :
    ∀ {now : ℚ}, ClockedUntil calls now →
      RingsHold hash ttlSeconds maxPerInstance blockChars calls now
        (PrefixIndex.after hash ttlSeconds maxPerInstance blockChars calls) := by
  induction calls using List.reverseRecOn with
  | nil => exact fun _ id => holds_nil _ _
  | append_singleton calls c ih =>
    intro now hclock
    obtain ⟨now', call⟩ := c
    unfold ClockedUntil at hclock
    rw [List.map_append, List.map_singleton] at hclock
    have hclock' : ClockedUntil calls now' := hclock.sublist (List.sublist_append_left _ _)
    have hle : now' ≤ now := (List.pairwise_append.mp hclock).2.2 now' (by simp) now (by simp)
    have hstep := (ih hclock').call hpos (le_refl now') call
    rw [PrefixIndex.after, List.foldl_append]
    exact fun id => (hstep id).mono (by linarith)

/-! ### What was recorded -/

theorem map_fst_recorded (id : Uuid) (calls : List (ℚ × PrefixCall)) :
    ((recorded id calls).map Prod.fst).Sublist (calls.map Prod.fst) := by
  induction calls using List.reverseRecOn with
  | nil => exact List.Sublist.refl _
  | append_singleton calls c ih =>
    obtain ⟨now, call⟩ := c
    rw [recorded_append, List.map_append]
    have hskip := ih.trans (List.sublist_append_left _ ([(now, call)].map Prod.fst))
    cases call with
    | record id' text =>
      simp only [recordCall]
      split
      · rw [List.map_append]
        exact ih.append (List.Sublist.refl _)
      · exact hskip
    | overlap id' text => exact hskip
    | forget id' =>
      simp only [recordCall]
      split
      · exact List.nil_sublist _
      · exact hskip

/-- What is recorded is a text of a call, and can be encoded. -/
theorem of_mem_recorded {id : Uuid} {calls : List (ℚ × PrefixCall)} {p : ℚ × List ℕ}
    (hp : p ∈ recorded id calls) :
    p.2 ∈ calls.map (·.2.text) ∧ (encodeText p.2).isSome := by
  induction calls using List.reverseRecOn with
  | nil => cases hp
  | append_singleton calls c ih =>
    obtain ⟨now, call⟩ := c
    have hskip : p ∈ recorded id calls →
        p.2 ∈ (calls ++ [(now, call)]).map (·.2.text) ∧ (encodeText p.2).isSome := fun hp => by
      rw [List.map_append]
      exact ⟨List.mem_append_left _ (ih hp).1, (ih hp).2⟩
    rw [recorded_append] at hp
    cases call with
    | record id' text =>
      simp only [recordCall] at hp
      split at hp
      · rename_i hr
        rcases List.mem_append.mp hp with hp | hp
        · exact hskip hp
        · rw [List.mem_singleton.mp hp]
          exact ⟨by simp [PrefixCall.text], hr.2.2⟩
      · exact hskip hp
    | overlap id' text => exact hskip hp
    | forget id' =>
      simp only [recordCall] at hp
      split at hp
      · cases hp
      · exact hskip hp

/-! ### The overlap -/

theorem leadingRun_le (ds rs : List Digest) : PrefixIndex.leadingRun ds rs ≤ ds.length :=
  (List.takeWhile_sublist _).length_le

/-- The loop of `overlap` is the maximum; it stops when nothing longer is possible. -/
theorem bestShared_eq (ds : List Digest) (ring : List (ℚ × List Digest)) :
    ∀ {best : ℕ}, best ≤ ds.length → PrefixIndex.bestShared ds best ring =
      max best ((ring.map fun e => PrefixIndex.leadingRun ds e.2).foldr max 0) := by
  have hbound : ∀ ring : List (ℚ × List Digest),
      (ring.map fun e => PrefixIndex.leadingRun ds e.2).foldr max 0 ≤ ds.length := by
    intro ring
    induction ring with
    | nil => exact Nat.zero_le _
    | cons e ring ih => exact max_le (leadingRun_le ds e.2) ih
  induction ring with
  | nil => exact fun _ => (max_eq_left (Nat.zero_le _)).symm
  | cons e ring ih =>
    intro best hbest
    have hrun := leadingRun_le ds e.2
    have hrest := hbound ring
    rw [PrefixIndex.bestShared, List.map_cons, List.foldr_cons]
    by_cases hlt : best < PrefixIndex.leadingRun ds e.2
    · simp only [if_pos hlt]
      split
      · omega
      · rw [ih hrun]
        omega
    · simp only [if_neg hlt]
      rw [ih hbest]
      omega

theorem foldr_max_eq_zero {l : List ℕ} (h : ∀ n ∈ l, n = 0) : l.foldr max 0 = 0 := by
  induction l with
  | nil => rfl
  | cons a l ih =>
    rw [List.foldr_cons, h a List.mem_cons_self, ih fun n hn => h n (List.mem_cons_of_mem _ hn),
      max_self]

/-- The digests of the prompts recorded last and not expired. -/
theorem filter_digestLog (now : ℚ) (log : List (ℚ × List ℕ)) :
    ((digestLog hash blockChars log).rtake maxPerInstance).filter
        (fun e => now - ttlSeconds ≤ e.1) =
      digestLog hash blockChars
        ((log.rtake maxPerInstance).filter fun p => now - p.1 ≤ ttlSeconds) := by
  have htake : (digestLog hash blockChars log).rtake maxPerInstance =
      digestLog hash blockChars (log.rtake maxPerInstance) := by
    unfold List.rtake digestLog
    rw [List.length_map, List.map_drop]
  rw [htake, digestLog, List.filter_map, digestLog]
  congr 1
  refine List.filter_congr fun p _ => ?_
  rw [Function.comp_apply, decide_eq_decide]
  constructor <;> intro h <;> linarith

/-- **The index computes the longest shared prefix**: after every history of calls, the overlap of
a text is the greatest number of leading chunks in common with one of the last prompts recorded for
the instance since it was forgotten, among those that have not expired. -/
theorem overlap_eq_longestShared (hpos : 0 < blockChars) (calls : List (ℚ × PrefixCall)) {now : ℚ}
    (hclock : ClockedUntil calls now) (id : Uuid) {text : List ℕ} {ds : List Digest}
    (hds : blocks hash blockChars text = some ds)
    (hfree : CollisionFree hash blockChars (text :: calls.map (·.2.text))) :
    ((PrefixIndex.after hash ttlSeconds maxPerInstance blockChars calls).overlap
        ttlSeconds now id ds).1 =
      longestShared ttlSeconds now maxPerInstance blockChars (recorded id calls) text := by
  have hholds :=
    @index_holds hash blockChars ttlSeconds maxPerInstance hpos calls now hclock id
  have hsorted : (digestLog hash blockChars (recorded id calls)).Pairwise
      fun a b => a.1 ≤ b.1 := by
    refine List.pairwise_map.mpr (List.pairwise_map.mp ?_)
    exact ((List.pairwise_append.mp hclock).1).sublist (map_fst_recorded id calls)
  have hring := hholds.expire_eq le_rfl hsorted
  rw [filter_digestLog] at hring
  -- the runs of the ring are the common beginnings of the specification
  have hruns : ((expire (now - ttlSeconds) ((PrefixIndex.after hash ttlSeconds maxPerInstance
      blockChars calls).getD id [])).map fun e => PrefixIndex.leadingRun ds e.2).foldr max 0 =
        longestShared ttlSeconds now maxPerInstance blockChars (recorded id calls) text := by
    rw [hring, longestShared, digestLog, List.map_map]
    congr 1
    refine List.map_congr_left fun p hp => ?_
    obtain ⟨hmem, hsome⟩ :=
      of_mem_recorded (rtake_subset _ _ (List.mem_filter.mp hp).1 : p ∈ recorded id calls)
    rw [encodeText_isSome_iff_blocks hash hpos, Option.isSome_iff_exists] at hsome
    obtain ⟨rs, hrs⟩ := hsome
    simp only [Function.comp_apply, digestsOf, hrs, Option.getD_some]
    exact leadingRun_eq hfree List.mem_cons_self (List.mem_cons_of_mem _ hmem) hds hrs
  rw [← hruns]
  unfold PrefixIndex.overlap
  split
  · rename_i hnil
    subst hnil
    exact (foldr_max_eq_zero fun n hn => by
      obtain ⟨e, -, rfl⟩ := List.mem_map.mp hn
      rfl).symm
  · split
    · rename_i hget
      simp [Dict.getD, hget, expire]
    · rename_i hget
      simp [Dict.getD, hget, expire]
    · rename_i entry ring hget
      simp only [Dict.getD, hget, Option.getD_some]
      rw [bestShared_eq _ _ (Nat.zero_le _), Nat.zero_max]

/-- A hash that knows the first digits of SHA-256 for a few texts, and gives every other text those
of the empty one. -/
def fewDigests : BlockHash where
  digest text :=
    if text = "|ab".toList then "281758cef4adb0cb".toList
    else if text = "281758cef4adb0cb|c".toList then "67d92aca3b585152".toList
    else if text = "281758cef4adb0cb|d".toList then "04df62fbdff958fb".toList
    else "e3b0c44298fc1c14".toList
  length text := by split_ifs <;> rfl
  hex text := by split_ifs <;> exact Text.forall_mem_of_all rfl

/-- Two records with a lookup between them. -/
def fewCalls : List (ℚ × PrefixCall) :=
  [(0, .record 1 (Json.codePoints "abc")), (3, .overlap 1 (Json.codePoints "abc")),
    (4, .record 2 (Json.codePoints "abc"))]

/-- One chunk of two characters is shared. -/
theorem overlap_fewCalls :
    ((PrefixIndex.after fewDigests 10 1 2 fewCalls).overlap 10 5 1
        ["281758cef4adb0cb".toList, "04df62fbdff958fb".toList]).1 =
      longestShared 10 5 1 2 (recorded 1 fewCalls) (Json.codePoints "abd") :=
  overlap_eq_longestShared (by norm_num) fewCalls (by unfold ClockedUntil; decide +kernel) 1
    (by decide +kernel) (by decide +kernel)

end Inferna
