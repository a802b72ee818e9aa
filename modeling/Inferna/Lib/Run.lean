import Mathlib.Data.List.Basic

/-!
# Runs of a deterministic system

A system is a state type, a type of actions and a step function; a run is the
list of actions taken.  Interleavings of several parties are runs whose actions
name the party that moves, so nothing here is specific to one party.

## Main definitions

* `exec step s as` — the state after the actions `as`.
* `Conforms step ok s as` — every action of the run is taken in a state in
  which `ok` allows it.
* `Always step P s as` — `P` holds in every state of the run.

## Main results

* `invariant_of_conforms` — **the invariant rule**: what holds initially and is
  kept by every allowed step holds after every allowed run.
* `rel_of_conforms` — what every allowed step moves along, an allowed run does.
* `always_iff_conforms` — when a step keeps `P` exactly if `ok` allows it, `P` holds
  throughout a run exactly if the run conforms; `always_iff_conforms_within` is the same among
  the runs that keep to a side condition.
* `foldlM_invariant`, `foldlM_error` — the same for a loop that may fail, and where its
  error comes from.
* `conforms_append` — a run conforms when its two halves do, so every state on
  the way of a conforming run is itself reached by a conforming run.
-/

namespace Run

variable {σ α : Type*}

/-- The state reached from `s` by the actions `as`, in order. -/
def exec (step : σ → α → σ) (s : σ) (as : List α) : σ := as.foldl step s

@[simp] theorem exec_nil (step : σ → α → σ) (s : σ) : exec step s [] = s := rfl

@[simp] theorem exec_cons (step : σ → α → σ) (s : σ) (a : α) (as : List α) :
    exec step s (a :: as) = exec step (step s a) as := rfl

theorem exec_append (step : σ → α → σ) (s : σ) (as bs : List α) :
    exec step s (as ++ bs) = exec step (exec step s as) bs :=
  List.foldl_append

/-- Every action of the run `as` from `s` is allowed by `ok` where it is taken. -/
def Conforms (step : σ → α → σ) (ok : σ → α → Prop) : σ → List α → Prop
  | _, [] => True
  | s, a :: as => ok s a ∧ Conforms step ok (step s a) as

@[simp] theorem conforms_nil (step : σ → α → σ) (ok : σ → α → Prop) (s : σ) :
    Conforms step ok s [] := trivial

@[simp] theorem conforms_cons (step : σ → α → σ) (ok : σ → α → Prop) (s : σ) (a : α)
    (as : List α) :
    Conforms step ok s (a :: as) ↔ ok s a ∧ Conforms step ok (step s a) as := Iff.rfl

theorem conforms_append (step : σ → α → σ) (ok : σ → α → Prop) (s : σ) (as bs : List α) :
    Conforms step ok s (as ++ bs) ↔
      Conforms step ok s as ∧ Conforms step ok (exec step s as) bs := by
  induction as generalizing s with
  | nil => simp
  | cons a as ih => simp [ih, and_assoc]

/-- A run that keeps to a rule keeps to a weaker one. -/
theorem Conforms.mono {step : σ → α → σ} {ok ok' : σ → α → Prop} (h : ∀ s a, ok s a → ok' s a) :
    ∀ {as : List α} {s : σ}, Conforms step ok s as → Conforms step ok' s as := by
  intro as
  induction as with
  | nil => exact fun _ => trivial
  | cons a as ih => exact fun hok => ⟨h _ a hok.1, ih hok.2⟩

/-- A rule that does not look at the state. -/
theorem conforms_of_forall {step : σ → α → σ} {ok : α → Prop} : ∀ {as : List α} {s : σ},
    (∀ a ∈ as, ok a) → Conforms step (fun _ => ok) s as := by
  intro as
  induction as with
  | nil => exact fun _ => trivial
  | cons a as ih =>
    exact fun h => ⟨h a List.mem_cons_self, ih fun b hb => h b (List.mem_cons_of_mem a hb)⟩

instance decidableConforms (step : σ → α → σ) (ok : σ → α → Prop)
    [∀ s a, Decidable (ok s a)] : ∀ s as, Decidable (Conforms step ok s as)
  | _, [] => isTrue trivial
  | s, a :: as =>
    haveI := decidableConforms step ok (step s a) as
    inferInstanceAs (Decidable (ok s a ∧ Conforms step ok (step s a) as))

/-- **The invariant rule.**  An invariant of the initial state that every
allowed step keeps holds after every run of allowed steps. -/
theorem invariant_of_conforms {step : σ → α → σ} {ok : σ → α → Prop} (inv : σ → Prop)
    (hstep : ∀ s a, inv s → ok s a → inv (step s a)) :
    ∀ (as : List α) (s : σ), inv s → Conforms step ok s as → inv (exec step s as) := by
  intro as
  induction as with
  | nil => intro s hs _; exact hs
  | cons a as ih =>
    intro s hs hok
    exact ih (step s a) (hstep s a hs hok.1) hok.2

/-- The same for an invariant that every step keeps. -/
theorem invariant {step : σ → α → σ} (inv : σ → Prop)
    (hstep : ∀ s a, inv s → inv (step s a)) :
    ∀ (as : List α) (s : σ), inv s → inv (exec step s as) := by
  intro as
  induction as with
  | nil => intro s hs; exact hs
  | cons a as ih =>
    intro s hs
    exact ih (step s a) (hstep s a hs)

/-- A relation that every allowed step moves along holds between a state of a run and
every later one. -/
theorem rel_of_conforms {step : σ → α → σ} {ok : σ → α → Prop} (inv : σ → Prop) (R : σ → σ → Prop)
    (hrefl : ∀ s, R s s) (htrans : ∀ s t u, R s t → R t u → R s u)
    (hstep : ∀ s a, inv s → ok s a → inv (step s a) ∧ R s (step s a)) :
    ∀ (as : List α) (s : σ), inv s → Conforms step ok s as → R s (exec step s as) := by
  intro as
  induction as with
  | nil => intro s _ _; exact hrefl s
  | cons a as ih =>
    intro s hs hok
    obtain ⟨hinv, hrel⟩ := hstep s a hs hok.1
    exact htrans _ _ _ hrel (ih (step s a) hinv hok.2)

/-! ### Every state of a run -/

/-- `P` holds in every state of the run `as` from `s`, the first and the last included. -/
def Always (step : σ → α → σ) (P : σ → Prop) (s : σ) (as : List α) : Prop :=
  ∀ bs, bs <+: as → P (exec step s bs)

theorem always_nil (step : σ → α → σ) (P : σ → Prop) (s : σ) : Always step P s [] ↔ P s := by
  constructor
  · intro h
    exact h [] (List.prefix_refl [])
  · intro h bs hbs
    rw [List.prefix_nil.mp hbs]
    exact h

theorem always_cons (step : σ → α → σ) (P : σ → Prop) (s : σ) (a : α) (as : List α) :
    Always step P s (a :: as) ↔ P s ∧ Always step P (step s a) as := by
  constructor
  · intro h
    refine ⟨h [] List.nil_prefix, ?_⟩
    intro bs hbs
    exact h (a :: bs) (List.cons_prefix_cons.mpr ⟨rfl, hbs⟩)
  · rintro ⟨hs, h⟩ bs hbs
    cases bs with
    | nil => exact hs
    | cons b bs =>
      obtain ⟨rfl, htail⟩ := List.cons_prefix_cons.mp hbs
      exact h bs htail

theorem Always.head {step : σ → α → σ} {P : σ → Prop} {s : σ} {as : List α}
    (h : Always step P s as) : P s :=
  h [] List.nil_prefix

/-- **Where a step keeps `P` exactly if `ok` allows it, `P` holds throughout a run
exactly if the run conforms.**  The invariant `inv` may be used on the way. -/
theorem always_iff_conforms {step : σ → α → σ} {ok : σ → α → Prop} {P : σ → Prop} (inv : σ → Prop)
    (hinv : ∀ s a, inv s → P s → ok s a → inv (step s a))
    (hok : ∀ s a, inv s → P s → (P (step s a) ↔ ok s a)) :
    ∀ (as : List α) (s : σ), inv s → P s → (Always step P s as ↔ Conforms step ok s as) := by
  intro as
  induction as with
  | nil =>
    intro s _ hs
    rw [always_nil]
    exact iff_of_true hs (conforms_nil step ok s)
  | cons a as ih =>
    intro s hi hs
    rw [always_cons, conforms_cons]
    constructor
    · rintro ⟨-, h⟩
      have ha := (hok s a hi hs).mp h.head
      exact ⟨ha, (ih _ (hinv s a hi hs ha) h.head).mp h⟩
    · rintro ⟨ha, h⟩
      exact ⟨hs, (ih _ (hinv s a hi hs ha) ((hok s a hi hs).mpr ha)).mpr h⟩

/-- The same among the runs that keep to `side`, with an invariant that says `P` as well. -/
theorem always_iff_conforms_within {step : σ → α → σ} {side ok : σ → α → Prop} {P : σ → Prop}
    (inv : σ → Prop) (hP : ∀ s, inv s → P s)
    (hinv : ∀ s a, inv s → side s a → ok s a → inv (step s a))
    (hok : ∀ s a, inv s → side s a → P (step s a) → ok s a) :
    ∀ (as : List α) (s : σ), inv s → Conforms step side s as →
      (Always step P s as ↔ Conforms step ok s as) := by
  intro as
  induction as with
  | nil =>
    intro s hi _
    rw [always_nil]
    exact iff_of_true (hP s hi) (conforms_nil step ok s)
  | cons a as ih =>
    rintro s hi ⟨hside, hrest⟩
    rw [always_cons, conforms_cons]
    constructor
    · rintro ⟨-, h⟩
      have ha := hok s a hi hside h.head
      exact ⟨ha, (ih _ (hinv s a hi hside ha) hrest).mp h⟩
    · rintro ⟨ha, h⟩
      exact ⟨hP s hi, (ih _ (hinv s a hi hside ha) hrest).mpr h⟩

/-! ### Loops that may fail -/

section Loop

variable {ε : Type*} {step : σ → α → Except ε σ}

/-- What every round keeps, with the rounds that are left, holds at the end of a loop. -/
theorem foldlM_invariant (inv : List α → σ → Prop)
    (hstep : ∀ a as s s', inv (a :: as) s → step s a = .ok s' → inv as s') :
    ∀ (as : List α) {s s' : σ}, inv as s → as.foldlM step s = .ok s' → inv [] s' := by
  intro as
  induction as with
  | nil =>
    intro s s' hs h
    cases h
    exact hs
  | cons a as ih =>
    intro s s' hs h
    rw [List.foldlM_cons] at h
    cases hone : step s a with
    | error e => rw [hone] at h; cases h
    | ok s₁ =>
      rw [hone] at h
      exact ih (hstep a as s s₁ hs hone) h

/-- The error of a loop is the error of a round. -/
theorem foldlM_error {P : ε → Prop} (hstep : ∀ s a e, step s a = .error e → P e) :
    ∀ (as : List α) {s : σ} {e : ε}, as.foldlM step s = .error e → P e := by
  intro as
  induction as with
  | nil => intro s e h; cases h
  | cons a as ih =>
    intro s e h
    rw [List.foldlM_cons] at h
    cases hone : step s a with
    | error e' =>
      rw [hone] at h
      cases h
      exact hstep s a e hone
    | ok s₁ =>
      rw [hone] at h
      exact ih h

end Loop

end Run
