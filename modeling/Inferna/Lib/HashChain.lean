import Mathlib.Data.Set.Function
import Mathlib.Tactic

/-!
# Chained digests

Each chunk of a text is hashed together with the digest before it, so that a digest stands for all
chunks up to its own.  When the hash has no collisions on what was hashed, and its values differ
from the start, a digest is found among those of another text only at its own place, and only if
the chunks up to there agree.  A set of digests is then enough to tell how long a common beginning
is.

## Main definitions

* `HashChain.chain`, `HashChain.inputs` — the digests, and what is hashed for them.
* `HashChain.commonLength` — the number of leading chunks in common.
* `HashChain.NoCollision` — the hash is injective on what was hashed, and never gives the start.

## Main results

* `HashChain.chain_getElem_inj` — a digest tells its place and the chunks up to it.
* `HashChain.length_takeWhile_chain` — **the leading digests found in the other chain are the
  leading chunks in common.**
-/

namespace HashChain

variable {δ χ : Type*}

/-- The digests of a list of chunks, each over the previous digest. -/
def chain (h : δ → χ → δ) (previous : δ) : List χ → List δ
  | [] => []
  | c :: cs => h previous c :: chain h (h previous c) cs

/-- What is hashed for a list of chunks. -/
def inputs (h : δ → χ → δ) (previous : δ) : List χ → List (δ × χ)
  | [] => []
  | c :: cs => (previous, c) :: inputs h (h previous c) cs

/-- The number of leading entries in common. -/
def commonLength [DecidableEq χ] : List χ → List χ → ℕ
  | x :: xs, y :: ys => if x = y then commonLength xs ys + 1 else 0
  | _, _ => 0

@[simp] theorem length_chain (h : δ → χ → δ) (previous : δ) (cs : List χ) :
    (chain h previous cs).length = cs.length := by
  induction cs generalizing previous with
  | nil => rfl
  | cons c cs ih => rw [chain, List.length_cons, ih, List.length_cons]

/-- A digest is the hash of its chunk and the digest before it. -/
theorem getElem?_chain {h : δ → χ → δ} {start : δ} {cs : List χ} {i : ℕ} {d : δ}
    (hd : (chain h start cs)[i]? = some d) :
    ∃ p c, (p, c) ∈ inputs h start cs ∧ cs[i]? = some c ∧ d = h p c ∧
      (i = 0 → p = start) ∧ ∀ k, i = k + 1 → (chain h start cs)[k]? = some p := by
  induction cs generalizing start i with
  | nil => simp [chain] at hd
  | cons c cs ih =>
    cases i with
    | zero =>
      rw [chain, List.getElem?_cons_zero, Option.some.injEq] at hd
      exact ⟨start, c, List.mem_cons_self, rfl, hd.symm, fun _ => rfl, fun k hk => by omega⟩
    | succ i =>
      rw [chain, List.getElem?_cons_succ] at hd
      obtain ⟨p, c', hmem, hc, heq, hzero, hsucc⟩ := ih hd
      refine ⟨p, c', List.mem_cons_of_mem _ hmem, by rwa [List.getElem?_cons_succ], heq,
        fun h0 => by omega, fun k hk => ?_⟩
      obtain rfl : i = k := by omega
      rw [chain]
      cases i with
      | zero => rw [List.getElem?_cons_zero, hzero rfl]
      | succ i => rw [List.getElem?_cons_succ, hsucc i rfl]

/-- Chunks that agree have digests that agree. -/
theorem getElem?_chain_congr {h : δ → χ → δ} {start : δ} {xs ys : List χ} {i : ℕ}
    (hxy : ∀ k ≤ i, xs[k]? = ys[k]?) : (chain h start xs)[i]? = (chain h start ys)[i]? := by
  induction i generalizing start xs ys with
  | zero =>
    have h0 := hxy 0 le_rfl
    cases xs <;> cases ys <;> simp_all [chain]
  | succ i ih =>
    have h0 := hxy 0 (Nat.zero_le _)
    have hrest : ∀ k ≤ i, xs.tail[k]? = ys.tail[k]? := fun k hk => by
      rw [List.getElem?_tail, List.getElem?_tail]
      exact hxy (k + 1) (by omega)
    cases xs with
    | nil =>
      cases ys with
      | nil => rfl
      | cons y ys => simp at h0
    | cons x xs =>
      cases ys with
      | nil => simp at h0
      | cons y ys =>
        rw [List.getElem?_cons_zero, List.getElem?_cons_zero, Option.some.injEq] at h0
        subst h0
        rw [chain, chain, List.getElem?_cons_succ, List.getElem?_cons_succ]
        exact ih hrest

/-! ### No collision -/

/-- The hash is injective on what was hashed, and gives none of it the start. -/
structure NoCollision (h : δ → χ → δ) (start : δ) (S : Set (δ × χ)) : Prop where
  inj : Set.InjOn (fun p => h p.1 p.2) S
  fresh : ∀ p ∈ S, h p.1 p.2 ≠ start

variable {h : δ → χ → δ} {start : δ} {S : Set (δ × χ)} {xs ys : List χ}

/-- **A digest tells its place and the chunks up to it.** -/
theorem chain_getElem_inj (hfree : NoCollision h start S) (hxs : ∀ p ∈ inputs h start xs, p ∈ S)
    (hys : ∀ p ∈ inputs h start ys, p ∈ S) (i : ℕ) : ∀ {j : ℕ} {d : δ},
      (chain h start xs)[i]? = some d → (chain h start ys)[j]? = some d →
        i = j ∧ ∀ k ≤ i, xs[k]? = ys[k]? := by
  induction i with
  | zero =>
    intro j d hi hj
    obtain ⟨p, c, hp, hc, rfl, hzero, -⟩ := getElem?_chain hi
    obtain ⟨p', c', hp', hc', heq, -, hsucc'⟩ := getElem?_chain hj
    obtain ⟨hpp, hcc⟩ := Prod.mk.inj (hfree.inj (hxs _ hp) (hys _ hp') heq)
    cases j with
    | zero =>
      refine ⟨rfl, fun k hk => ?_⟩
      obtain rfl : k = 0 := by omega
      rw [hc, hc', hcc]
    | succ j =>
      -- the digest before would be the start
      obtain ⟨q, b, hq, -, hqeq, -, -⟩ := getElem?_chain (hsucc' j rfl)
      exact absurd (hqeq.symm.trans (hpp.symm.trans (hzero rfl))) (hfree.fresh _ (hys _ hq))
  | succ i ih =>
    intro j d hi hj
    obtain ⟨p, c, hp, hc, rfl, -, hsucc⟩ := getElem?_chain hi
    obtain ⟨p', c', hp', hc', heq, hzero', hsucc'⟩ := getElem?_chain hj
    obtain ⟨hpp, hcc⟩ := Prod.mk.inj (hfree.inj (hxs _ hp) (hys _ hp') heq)
    have hprev := hsucc i rfl
    cases j with
    | zero =>
      obtain ⟨q, b, hq, -, hqeq, -, -⟩ := getElem?_chain hprev
      exact absurd (hqeq.symm.trans (hpp.trans (hzero' rfl))) (hfree.fresh _ (hxs _ hq))
    | succ j =>
      obtain ⟨rfl, hagree⟩ := ih hprev (hpp ▸ hsucc' j rfl)
      refine ⟨rfl, fun k hk => ?_⟩
      rcases Nat.lt_or_ge i k with hik | hik
      · obtain rfl : k = i + 1 := by omega
        rw [hc, hc', hcc]
      · exact hagree k hik

/-! ### The common beginning -/

section Common

variable [DecidableEq χ]

theorem commonLength_le : ∀ xs ys : List χ, commonLength xs ys ≤ xs.length
  | [], _ => Nat.zero_le _
  | _ :: _, [] => Nat.zero_le _
  | x :: xs, y :: ys => by
    have := commonLength_le xs ys
    rw [commonLength, List.length_cons]
    split <;> omega

/-- The leading entries in common are those up to which the lists agree. -/
theorem lt_commonLength_iff : ∀ {xs ys : List χ} {i : ℕ}, i < xs.length →
    (i < commonLength xs ys ↔ ∀ k ≤ i, xs[k]? = ys[k]?)
  | [], _, _ => fun hi => absurd hi (Nat.not_lt_zero _)
  | x :: xs, [], i => fun _ => by
    rw [commonLength]
    · refine iff_of_false (Nat.not_lt_zero i) fun hall => ?_
      simpa using hall 0 (Nat.zero_le i)
    · simp
  | x :: xs, y :: ys, i => fun hi => by
    rw [commonLength]
    by_cases hxy : x = y
    · subst hxy
      rw [if_pos rfl]
      cases i with
      | zero =>
        refine iff_of_true (Nat.succ_pos _) fun k hk => ?_
        obtain rfl : k = 0 := by omega
        rfl
      | succ i =>
        rw [Nat.succ_lt_succ_iff, lt_commonLength_iff (Nat.succ_lt_succ_iff.mp hi)]
        constructor
        · intro hall k hk
          cases k with
          | zero => rfl
          | succ k => exact hall k (by omega)
        · intro hall k hk
          exact hall (k + 1) (by omega)
    · rw [if_neg hxy]
      refine iff_of_false (Nat.not_lt_zero i) fun hall => ?_
      exact hxy (by simpa using hall 0 (Nat.zero_le i))

theorem commonLength_map {β : Type*} [DecidableEq β] {f : χ → β} (hf : Function.Injective f) :
    ∀ xs ys : List χ, commonLength (xs.map f) (ys.map f) = commonLength xs ys
  | [], _ => rfl
  | _ :: _, [] => rfl
  | x :: xs, y :: ys => by
    rw [List.map_cons, List.map_cons, commonLength, commonLength, commonLength_map hf xs ys]
    simp only [hf.eq_iff]

end Common

theorem length_takeWhile_eq {α : Type*} {p : α → Bool} {l : List α} {n : ℕ} (hn : n ≤ l.length)
    (hp : ∀ i (hi : i < l.length), p l[i] = true ↔ i < n) : (l.takeWhile p).length = n := by
  induction l generalizing n with
  | nil => exact (Nat.le_zero.mp hn).symm
  | cons a l ih =>
    have h0 : p a = true ↔ 0 < n := hp 0 (Nat.succ_pos _)
    cases n with
    | zero =>
      have ha : ¬ p a = true := fun ha => Nat.not_lt_zero 0 (h0.mp ha)
      rw [List.takeWhile_cons_of_neg ha]
      rfl
    | succ n =>
      rw [List.takeWhile_cons_of_pos (h0.mpr (Nat.succ_pos n)), List.length_cons,
        ih (Nat.succ_le_succ_iff.mp hn) fun i hi => ?_]
      exact (hp (i + 1) (Nat.succ_lt_succ hi)).trans Nat.succ_lt_succ_iff

/-- **The leading digests found in the other chain are the leading chunks in common.** -/
theorem length_takeWhile_chain [DecidableEq χ] [BEq δ] [LawfulBEq δ]
    (hfree : NoCollision h start S) (hxs : ∀ p ∈ inputs h start xs, p ∈ S)
    (hys : ∀ p ∈ inputs h start ys, p ∈ S) :
    ((chain h start xs).takeWhile (chain h start ys).contains).length = commonLength xs ys := by
  refine length_takeWhile_eq (by rw [length_chain]; exact commonLength_le xs ys) fun i hi => ?_
  have hi' : i < xs.length := by rwa [length_chain] at hi
  rw [List.contains_iff_mem, lt_commonLength_iff hi', List.mem_iff_getElem?]
  constructor
  · rintro ⟨j, hj⟩
    exact (chain_getElem_inj hfree hxs hys i (List.getElem?_eq_getElem hi) hj).2
  · intro hall
    exact ⟨i, by rw [← getElem?_chain_congr hall, List.getElem?_eq_getElem hi]⟩

end HashChain
