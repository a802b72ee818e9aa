import Inferna.Lib.Run

/-!
# Requests that race

Several requests work on one shared state.  A request is where it stands; to advance it is
to run it from there to its next wait, with one atomic read or write of the shared state on
the way.  Requests arrive at any time, and any of them may be the next to advance, so a
list of events is an interleaving.

## Main definitions

* `Race`, `RaceEvent` — the shared state with the requests, and what may happen.
* `Race.step` — one event.
* `Race.AtAdvance` — a condition on a request that is about to advance.

## Main results

* `Race.always_iff` — where an advance keeps a property of the shared state exactly if a
  condition holds, the property holds throughout an interleaving exactly if every advance
  meets the condition.
-/

/-- A shared state and the requests that work on it, in the order of their arrival. -/
structure Race (σ ρ : Type*) where
  shared : σ
  requests : List ρ := []

/-- What may happen: a request arrives, or the request at an index advances. -/
inductive RaceEvent (χ : Type*)
  | arrive (x : χ)
  | advance (k : ℕ)
  deriving DecidableEq, Repr

namespace Race

variable {σ ρ χ : Type*}

/-- One event. -/
def step (start : χ → ρ) (adv : σ → ρ → σ × ρ) (c : Race σ ρ) : RaceEvent χ → Race σ ρ
  | .arrive x => { c with requests := c.requests ++ [start x] }
  | .advance k =>
    match c.requests[k]? with
    | none => c
    | some r => ⟨(adv c.shared r).1, c.requests.set k (adv c.shared r).2⟩

/-- The request that advances meets the condition `ok` on the shared state. -/
def AtAdvance (ok : σ → ρ → Prop) (c : Race σ ρ) : RaceEvent χ → Prop
  | .arrive _ => True
  | .advance k => ∀ r ∈ c.requests[k]?, ok c.shared r

instance decidableAtAdvance (ok : σ → ρ → Prop) [∀ s r, Decidable (ok s r)] (c : Race σ ρ) :
    ∀ e : RaceEvent χ, Decidable (AtAdvance ok c e)
  | .arrive _ => isTrue trivial
  | .advance k => Option.decidableForallMem c.requests[k]?

/-- **The race rule.**  Where an advance keeps the property `P` of the shared state exactly
if `ok` holds, `P` holds throughout an interleaving exactly if every advance meets `ok`. -/
theorem always_iff {start : χ → ρ} {adv : σ → ρ → σ × ρ} {ok : σ → ρ → Prop} {P : σ → Prop}
    (inv : σ → Prop) (hinv : ∀ s r, inv s → P s → ok s r → inv (adv s r).1)
    (hok : ∀ s r, inv s → P s → (P (adv s r).1 ↔ ok s r)) {c : Race σ ρ} (h : inv c.shared)
    (hP : P c.shared) (es : List (RaceEvent χ)) :
    Run.Always (step start adv) (fun c => P c.shared) c es ↔
      Run.Conforms (step start adv) (AtAdvance ok) c es := by
  refine Run.always_iff_conforms (fun c => inv c.shared) ?_ ?_ es c h hP
  · intro c e hs hP hat
    cases e with
    | arrive x => exact hs
    | advance k =>
      unfold step
      simp only
      cases hk : c.requests[k]? with
      | none => exact hs
      | some r => exact hinv c.shared r hs hP (hat r hk)
  · intro c e hs hP
    cases e with
    | arrive x => exact iff_of_true hP trivial
    | advance k =>
      unfold step AtAdvance
      simp only
      cases hk : c.requests[k]? with
      | none => exact iff_of_true hP fun r hr => nomatch hr
      | some r =>
        simp only [Option.mem_def, Option.some.injEq, forall_eq']
        exact hok c.shared r hs hP

end Race
