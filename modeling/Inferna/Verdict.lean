import Inferna.Parity
import Inferna.Lib.JsonValue

/-!
# The verdict of the parity bench

`verdict` of `bench/parity.py` compares a cell with the thresholds of the roadmap and with the
baseline, and gives the reasons that speak against it.  A measurement that is absent gives no
reason, except the first token's; the exit status of `main` looks at the error rates only.

Measurements are rational numbers here.  A cell of the baseline file has floats, written as
literals; `ofFile` gives the numbers they stand for.

## Main definitions

* `Cell`, `ratios`, `reasons`, `verdict` — a measured configuration, and what is said of it.
* `exitStatus`, `main` — the end of `main`, and a run of it.
* `Meets` — the documented thresholds.
* `Breaks`, `Complete` — a threshold that is looked at is broken; nothing is missing.

## Main results

* `verdict_pass_iff` — a cell passes if it breaks no threshold.
* `main_status` — a run ends with the status of the cells it has measured.
* `selectBaseline_ofFile` — the baseline is the one the file's cells would give.
* `verdict_exit_iff` — **when the verdict and the exit status are the documented ones.**
-/

namespace Inferna.Verdict

/-! ### Cells -/

/-- `R_TPS_MIN`. -/
def rTpsMin : ℚ := 90 / 100

/-- `R_P95_MAX`. -/
def rP95Max : ℚ := 125 / 100

/-- `TTFT_P95_COLD_MS`. -/
def ttftP95ColdMs : ℚ := 1000

/-- `ITL_P95_MS`. -/
def itlP95LimitMs : ℚ := 50

/-- `MIN_TOKENS_PER_SECOND`. -/
def minTokensPerSecond : ℚ := 20

/-- `MAX_ERROR_RATE`. -/
def maxErrorRate : ℚ := 1 / 1000

/-- One measured configuration. -/
structure Cell where
  configuration : String
  mode : String
  nodes : ℤ
  gpus : ℤ
  environment : String
  ttftP50Ms : Option ℚ
  ttftP95Ms : Option ℚ
  itlP95Ms : Option ℚ
  e2eP50Ms : Option ℚ
  tokensPerSecond : Option ℚ
  requests : ℤ
  errors : ℤ
  deriving DecidableEq, Repr

/-- `Cell.error_rate`. -/
def Cell.errorRate (c : Cell) : ℚ := if c.requests ≠ 0 then c.errors / c.requests else 1

/-- A quotient of two measurements; a zero counts as none. -/
def ratio : Option ℚ → Option ℚ → Option ℚ
  | some x, some y => if x ≠ 0 ∧ y ≠ 0 then some (x / y) else none
  | _, _ => none

/-- `ratios`. -/
def ratios (cell baseline : Cell) : Option ℚ × Option ℚ :=
  (ratio cell.tokensPerSecond baseline.tokensPerSecond,
    ratio cell.ttftP95Ms baseline.ttftP95Ms)

/-! ### Verdicts -/

/-- The text of a number with so many digits behind the point. -/
def fixed (digits : ℕ) (x : ℚ) : String :=
  let n := (Json.roundHalfEven (|x| * 10 ^ digits)).toNat
  let fraction := toString (n % 10 ^ digits)
  (if x < 0 then "-" else "") ++ toString (n / 10 ^ digits) ++
    if digits = 0 then "" else ".".pushn '0' (digits - fraction.length) ++ fraction

/-- What speaks against a cell. -/
inductive Reason
  | environment (name : String)
  | errorRate (rate : ℚ)
  | noTtft
  | ttft (ms : ℚ)
  | itl (ms : ℚ)
  | tokens (perSecond : ℚ)
  | rTps (r : ℚ)
  | rP95 (r : ℚ)
  deriving DecidableEq, Repr

/-- The text of a reason. -/
def Reason.text : Reason → String
  | .environment name => "measured on `" ++ name ++ "`, not on hardware — not a verdict"
  | .errorRate rate => "error rate " ++ fixed 1 (rate * 100) ++ "% above 0.1%"
  | .noTtft => "no TTFT measured"
  | .ttft ms => "TTFT p95 " ++ fixed 0 ms ++ " ms above " ++ fixed 0 ttftP95ColdMs ++ " ms"
  | .itl ms => "ITL p95 " ++ fixed 0 ms ++ " ms above " ++ fixed 0 itlP95LimitMs ++ " ms"
  | .tokens perSecond =>
    fixed 1 perSecond ++ " tok/s below " ++ fixed 0 minTokensPerSecond ++ " tok/s"
  | .rTps r => "R_tps " ++ fixed 2 r ++ " below " ++ fixed 2 rTpsMin
  | .rP95 r => "R_p95 " ++ fixed 2 r ++ " above " ++ fixed 2 rP95Max

/-- A reason, if the number is there and beyond its limit. -/
def reasonOf (beyond : ℚ → Bool) (reason : ℚ → Reason) (x : Option ℚ) : List Reason :=
  ((x.filter beyond).map reason).toList

/-- The reasons of `verdict`, in its order. -/
def reasons (cell : Cell) (baseline : Option Cell) : List Reason :=
  (if cell.environment ≠ "hardware" then [.environment cell.environment] else []) ++
  reasonOf (maxErrorRate < ·) .errorRate (some cell.errorRate) ++
  (if cell.ttftP95Ms = none then [.noTtft]
    else reasonOf (ttftP95ColdMs < ·) .ttft cell.ttftP95Ms) ++
  reasonOf (itlP95LimitMs < ·) .itl cell.itlP95Ms ++
  reasonOf (· < minTokensPerSecond) .tokens cell.tokensPerSecond ++
  (baseline.elim [] fun b =>
    reasonOf (· < rTpsMin) .rTps (ratios cell b).1 ++
    reasonOf (rP95Max < ·) .rP95 (ratios cell b).2)

/-- What is said of a cell. -/
inductive State
  | pass
  | fail
  | harnessCheck
  deriving DecidableEq, Repr

/-- The word for it. -/
def State.text : State → String
  | .pass => "pass"
  | .fail => "fail"
  | .harnessCheck => "harness-check"

/-- `verdict`. -/
def verdict (cell : Cell) (baseline : Option Cell) : State × List String :=
  let texts := (reasons cell baseline).map Reason.text
  if cell.environment ≠ "hardware" then (.harnessCheck, texts)
  else (if texts = [] then .pass else .fail, texts)

/-! ### A run -/

/-- `--mode`. -/
inductive Mode
  | smoke
  | single
  | multi
  | full
  deriving DecidableEq, Repr

/-- The arguments of `main`, with the text of the baseline file if there is one. -/
structure Args where
  mode : Mode
  adminToken : String
  nodes : ℤ
  gpus : ℤ
  modeFlag : String
  environment : String
  baselineFile : Option (List Char)

/-- A label, a number of nodes, and a parallel mode. -/
structure Configuration where
  label : String
  nodes : ℤ
  mode : String
  deriving DecidableEq, Repr

/-- The configurations of a mode. -/
def configurations (args : Args) : List Configuration :=
  match args.mode with
  | .smoke => [⟨"smoke", 1, "n/a"⟩]
  | .single => [⟨"baseline", 1, "single"⟩]
  | .multi =>
    [⟨toString args.nodes ++ "x" ++ toString args.gpus, args.nodes, args.modeFlag⟩]
  | .full => [⟨"1x8", 1, "single"⟩, ⟨"2x4", 2, "pp"⟩, ⟨"2x4-tp", 2, "tp"⟩, ⟨"4x2", 4, "pp"⟩]

/-- What `CaseResult.summary` says of the requests of a configuration. -/
structure Summary where
  ttftP50Ms : Option ℚ
  ttftP95Ms : Option ℚ
  itlP95Ms : Option ℚ
  e2eP50Ms : Option ℚ
  meanTps : Option ℚ
  requests : ℤ
  errors : ℤ

/-- `_cell_from`. -/
def cellFrom (args : Args) (c : Configuration) (summary : Summary) : Cell where
  configuration := c.label
  mode := c.mode
  nodes := c.nodes
  gpus := args.gpus
  environment := args.environment
  ttftP50Ms := summary.ttftP50Ms
  ttftP95Ms := summary.ttftP95Ms
  itlP95Ms := summary.itlP95Ms
  e2eP50Ms := summary.e2eP50Ms
  tokensPerSecond := summary.meanTps
  requests := summary.requests
  errors := summary.errors

/-- What the control plane and the gateway do for a configuration. -/
structure Bench where
  /-- `_deploy` comes to an end with `True`. -/
  deploy : Configuration → Bool
  measure : Configuration → Summary

/-- `cells` and `baseline` in the loop of `main`. -/
structure Progress where
  cells : List Cell := []
  baseline : Option Cell := none

/-- One configuration; `none` is a prerequisite that failed. -/
def runConfiguration (bench : Bench) (args : Args) (p : Progress) (c : Configuration) :
    Option Progress :=
  if args.mode ≠ .smoke ∧ bench.deploy c = false then none
  else
    let cell := cellFrom args c (bench.measure c)
    some
      { cells := p.cells ++ [cell]
        baseline := if c.label = "baseline" ∨ (c.label = "1x8" ∧ p.baseline = none) then some cell
          else p.baseline }

/-- The end of `main`.  The error rate is a quotient of integers and never a `NaN`, so that all of
them are only if there are none. -/
def exitStatus (cells : List Cell) : ℕ :=
  if cells.all fun _ => false then 2
  else if cells.any fun c => maxErrorRate < c.errorRate then 1
  else 0

/-- The number that a float of the file stands for. -/
def value (x : Parity.Decimal) : ℚ := (if x.neg then -1 else 1) * x.m * 10 ^ x.e

/-- A cell of the file. -/
def ofFile (c : Parity.Cell) : Cell where
  configuration := c.configuration
  mode := c.mode
  nodes := c.nodes
  gpus := c.gpus
  environment := c.environment
  ttftP50Ms := c.ttftP50Ms.map value
  ttftP95Ms := c.ttftP95Ms.map value
  itlP95Ms := c.itlP95Ms.map value
  e2eP50Ms := c.e2eP50Ms.map value
  tokensPerSecond := c.tokensPerSecond.map value
  requests := c.requests
  errors := c.errors

/-- The cells of a run that has its prerequisites. -/
def runCells (bench : Bench) (args : Args) (baseline : Option Cell) : Option Progress :=
  (configurations args).foldlM (runConfiguration bench args) { baseline := baseline }

/-- `main`: the exit status, or what reading the baseline raises. -/
def main (bench : Bench) (depth : ℕ) (args : Args) : Except Parity.ReadError ℕ := do
  let baseline ← args.baselineFile.elim (.ok none) (Parity.readBaseline depth)
  if args.mode ≠ .smoke ∧ args.adminToken = "" then return 2
  match runCells bench args (baseline.map ofFile) with
  | none => return 2
  | some p => return exitStatus p.cells

/-! ### The documented thresholds -/

/-- The thresholds of the docstring, for a cell whose measurements and ratios are there. -/
structure Meets (cell : Cell) (baseline : Option Cell) : Prop where
  environment : cell.environment = "hardware"
  errorRate : cell.errorRate < maxErrorRate
  ttft : ∃ ms, cell.ttftP95Ms = some ms ∧ ms ≤ ttftP95ColdMs
  itl : ∃ ms, cell.itlP95Ms = some ms ∧ ms ≤ itlP95LimitMs
  tokens : ∃ v, cell.tokensPerSecond = some v ∧ minTokensPerSecond ≤ v
  ratios : ∀ b ∈ baseline, (∃ r, (ratios cell b).1 = some r ∧ rTpsMin ≤ r) ∧
    ∃ r, (ratios cell b).2 = some r ∧ r ≤ rP95Max

/-- A threshold of the latency or of the throughput is broken, or the first token was not
measured. -/
def Slow (cell : Cell) (baseline : Option Cell) : Prop :=
  cell.ttftP95Ms = none ∨ (∃ ms ∈ cell.ttftP95Ms, ttftP95ColdMs < ms) ∨
    (∃ ms ∈ cell.itlP95Ms, itlP95LimitMs < ms) ∨
    (∃ v ∈ cell.tokensPerSecond, v < minTokensPerSecond) ∨
    ∃ b ∈ baseline, (∃ r ∈ (ratios cell b).1, r < rTpsMin) ∨ ∃ r ∈ (ratios cell b).2, rP95Max < r

/-- A threshold that is looked at is broken. -/
def Breaks (cell : Cell) (baseline : Option Cell) : Prop :=
  cell.environment ≠ "hardware" ∨ maxErrorRate < cell.errorRate ∨ Slow cell baseline

/-- The measurements that are compared only when they are there, are there, and the error rate is
not the limit itself. -/
structure Complete (cell : Cell) (baseline : Option Cell) : Prop where
  itl : cell.itlP95Ms.isSome
  tokens : cell.tokensPerSecond.isSome
  errorRate : cell.errorRate ≠ maxErrorRate
  ratios : ∀ b ∈ baseline, (ratios cell b).1.isSome ∧ (ratios cell b).2.isSome

/-! ### The verdict -/

theorem reasonOf_eq_nil_iff {beyond : ℚ → Bool} {reason : ℚ → Reason} {x : Option ℚ} :
    reasonOf beyond reason x = [] ↔ ¬ ∃ v ∈ x, beyond v = true := by
  cases x with
  | none => simp [reasonOf]
  | some v => cases h : beyond v <;> simp [reasonOf, Option.filter, h]

theorem environment_reasons {cell : Cell} :
    (if cell.environment ≠ "hardware" then [Reason.environment cell.environment] else []) = [] ↔
      ¬ cell.environment ≠ "hardware" := by
  split
  · rename_i h
    exact iff_of_false (List.cons_ne_nil _ _) (not_not_intro h)
  · rename_i h
    exact iff_of_true rfl h

theorem ttft_reasons {x : Option ℚ} :
    (if x = none then [Reason.noTtft] else reasonOf (ttftP95ColdMs < ·) .ttft x) = [] ↔
      ¬ (x = none ∨ ∃ ms ∈ x, ttftP95ColdMs < ms) := by
  split
  · rename_i h
    exact iff_of_false (List.cons_ne_nil _ _) (not_not_intro (Or.inl h))
  · rename_i h
    rw [reasonOf_eq_nil_iff, not_or]
    simp only [decide_eq_true_eq, h, not_false_eq_true, true_and]

theorem baseline_reasons {cell : Cell} {baseline : Option Cell} :
    (baseline.elim [] fun b => reasonOf (· < rTpsMin) .rTps (ratios cell b).1 ++
        reasonOf (rP95Max < ·) .rP95 (ratios cell b).2) = [] ↔
      ¬ ∃ b ∈ baseline, (∃ r ∈ (ratios cell b).1, r < rTpsMin) ∨
        ∃ r ∈ (ratios cell b).2, rP95Max < r := by
  cases baseline with
  | none => exact iff_of_true rfl fun ⟨b, hb, _⟩ => by cases hb
  | some b =>
    rw [Option.elim_some, List.append_eq_nil_iff, reasonOf_eq_nil_iff, reasonOf_eq_nil_iff]
    simp only [decide_eq_true_eq, Option.mem_some_iff, exists_eq_left', not_or]

theorem reasons_eq_nil_iff (cell : Cell) (baseline : Option Cell) :
    reasons cell baseline = [] ↔ ¬ Breaks cell baseline := by
  have hrate : reasonOf (maxErrorRate < ·) .errorRate (some cell.errorRate) = [] ↔
      ¬ maxErrorRate < cell.errorRate := by
    rw [reasonOf_eq_nil_iff]
    simp only [decide_eq_true_eq, Option.mem_some_iff, exists_eq_left']
  rw [reasons, Breaks, Slow]
  simp only [List.append_eq_nil_iff, environment_reasons, hrate, ttft_reasons, baseline_reasons,
    reasonOf_eq_nil_iff, decide_eq_true_eq, not_or]
  simp only [and_assoc]

/-- **A cell passes if it breaks no threshold.** -/
theorem verdict_pass_iff (cell : Cell) (baseline : Option Cell) :
    (verdict cell baseline).1 = .pass ↔ ¬ Breaks cell baseline := by
  rw [verdict]
  split
  · rename_i henv
    exact iff_of_false (fun h => by cases h) (not_not_intro (Or.inl henv))
  · rw [← reasons_eq_nil_iff]
    dsimp only
    split
    · rename_i h
      exact iff_of_true rfl (List.map_eq_nil_iff.mp h)
    · rename_i h
      exact iff_of_false (fun h => by cases h) (mt List.map_eq_nil_iff.mpr h)

/-- A number that is there is within its limit, or beyond it. -/
theorem exists_within_iff {x : Option ℚ} {beyond : ℚ → Prop} :
    (∃ v, x = some v ∧ ¬ beyond v) ↔ x.isSome ∧ ¬ ∃ v ∈ x, beyond v := by
  cases x with
  | none => simp
  | some v => simp

/-- What is documented is to break nothing and to miss nothing. -/
theorem meets_iff (cell : Cell) (baseline : Option Cell) :
    Meets cell baseline ↔ ¬ Breaks cell baseline ∧ Complete cell baseline := by
  have hitl := @exists_within_iff cell.itlP95Ms (itlP95LimitMs < ·)
  have htokens := @exists_within_iff cell.tokensPerSecond (· < minTokensPerSecond)
  have httft := @exists_within_iff cell.ttftP95Ms (ttftP95ColdMs < ·)
  have htps := fun b => @exists_within_iff (ratios cell b).1 (· < rTpsMin)
  have hp95 := fun b => @exists_within_iff (ratios cell b).2 (rP95Max < ·)
  simp only [not_lt] at hitl htokens httft htps hp95
  constructor
  · rintro ⟨henv, hrate, ht, hi, hv, hratios⟩
    obtain ⟨htsome, htle⟩ := httft.mp ht
    obtain ⟨hisome, hile⟩ := hitl.mp hi
    obtain ⟨hvsome, hvle⟩ := htokens.mp hv
    refine ⟨?_, hisome, hvsome, hrate.ne, fun b hb => ?_⟩
    · rintro (h | h | h | h | h | h | ⟨b, hb, h | h⟩)
      · exact h henv
      · exact hrate.not_gt h
      · rw [h] at htsome
        cases htsome
      · exact htle h
      · exact hile h
      · exact hvle h
      · exact ((htps b).mp (hratios b hb).1).2 h
      · exact ((hp95 b).mp (hratios b hb).2).2 h
    · exact ⟨((htps b).mp (hratios b hb).1).1, ((hp95 b).mp (hratios b hb).2).1⟩
  · rintro ⟨hno, hitlSome, htokensSome, hrate, hratios⟩
    rw [Breaks, Slow] at hno
    simp only [not_or, not_lt] at hno
    obtain ⟨henv, hle, hnone, htle, hile, hvle, hbase⟩ := hno
    refine ⟨not_not.mp henv, lt_of_le_of_ne hle hrate, ?_, ?_, ?_, fun b hb => ⟨?_, ?_⟩⟩
    · exact httft.mpr ⟨Option.isSome_iff_ne_none.mpr hnone, htle⟩
    · exact hitl.mpr ⟨hitlSome, hile⟩
    · exact htokens.mpr ⟨htokensSome, hvle⟩
    · exact (htps b).mpr ⟨(hratios b hb).1, fun h => hbase ⟨b, hb, Or.inl h⟩⟩
    · exact (hp95 b).mpr ⟨(hratios b hb).2, fun h => hbase ⟨b, hb, Or.inr h⟩⟩

/-! ### The exit status -/

/-- A status of zero says that no cell exceeds the error budget. -/
theorem exitStatus_eq_zero_iff {cells : List Cell} (hne : cells ≠ []) :
    exitStatus cells = 0 ↔ ¬ ∃ c ∈ cells, maxErrorRate < c.errorRate := by
  obtain ⟨c, cs, rfl⟩ := List.exists_cons_of_ne_nil hne
  rw [exitStatus, if_neg (by simp)]
  split
  · rename_i h
    refine iff_of_false Nat.one_ne_zero (not_not_intro ?_)
    simpa only [List.any_eq_true, decide_eq_true_eq] using h
  · rename_i h
    refine iff_of_true rfl ?_
    simpa only [List.any_eq_true, decide_eq_true_eq] using h

/-- The status agrees with the verdicts when some cell exceeds the error budget, and when no cell
breaks another threshold. -/
theorem exitStatus_agrees_iff {cells : List Cell} (hne : cells ≠ [])
    (henv : ∀ c ∈ cells, c.environment = "hardware") (baseline : Option Cell) :
    (exitStatus cells = 0 ↔ ∀ c ∈ cells, (verdict c baseline).1 = .pass) ↔
      (∃ c ∈ cells, maxErrorRate < c.errorRate) ∨ ∀ c ∈ cells, ¬ Slow c baseline := by
  rw [exitStatus_eq_zero_iff hne]
  simp only [verdict_pass_iff]
  by_cases hbudget : ∃ c ∈ cells, maxErrorRate < c.errorRate
  · have hno : ¬ ∀ c ∈ cells, ¬ Breaks c baseline := by
      obtain ⟨c, hc, hlt⟩ := hbudget
      exact fun h => h c hc (Or.inr (Or.inl hlt))
    exact iff_of_true (iff_of_false (not_not_intro hbudget) hno) (Or.inl hbudget)
  · have hslow : (∀ c ∈ cells, ¬ Breaks c baseline) ↔ ∀ c ∈ cells, ¬ Slow c baseline := by
      refine forall₂_congr fun c hc => not_congr ⟨?_, fun h => Or.inr (Or.inr h)⟩
      rintro (h | h | h)
      · exact absurd (henv c hc) h
      · exact absurd ⟨c, hc, h⟩ hbudget
      · exact h
    simp only [hbudget, not_false_eq_true, true_iff, false_or]
    exact hslow

/-! ### Runs -/

/-- Every configuration that is run gives a cell of its environment. -/
theorem foldlM_runConfiguration {bench : Bench} {args : Args} (cs : List Configuration) :
    ∀ {p p' : Progress}, cs.foldlM (runConfiguration bench args) p = some p' →
      p'.cells = p.cells ++ cs.map fun c => cellFrom args c (bench.measure c) := by
  induction cs with
  | nil =>
    intro p p' h
    obtain rfl := Option.some.inj h
    rw [List.map_nil, List.append_nil]
  | cons c cs ih =>
    intro p p' h
    rw [List.foldlM_cons] at h
    obtain ⟨p₁, hstep, h⟩ := Option.bind_eq_some_iff.mp h
    rw [ih h, List.map_cons]
    rw [runConfiguration] at hstep
    split at hstep
    · cases hstep
    · obtain rfl := Option.some.inj hstep
      simp only [List.append_assoc, List.singleton_append]

/-- The cells of a run with its prerequisites are those of its configurations. -/
theorem runCells_cells {bench : Bench} {args : Args} {baseline : Option Cell} {p : Progress}
    (h : runCells bench args baseline = some p) :
    p.cells = (configurations args).map fun c => cellFrom args c (bench.measure c) := by
  rw [foldlM_runConfiguration _ h, List.nil_append]

theorem configurations_ne_nil (args : Args) : configurations args ≠ [] := by
  unfold configurations
  split <;> exact List.cons_ne_nil _ _

/-- A run that comes to its end: the baseline is read, and every prerequisite is there. -/
structure Ran (bench : Bench) (depth : ℕ) (args : Args) (p : Progress) : Prop where
  token : args.mode = .smoke ∨ args.adminToken ≠ ""
  cells : ∃ b, args.baselineFile.elim (.ok none) (Parity.readBaseline depth) = .ok b ∧
    runCells bench args (b.map ofFile) = some p

variable {bench : Bench} {depth : ℕ} {args : Args} {p : Progress}

/-- **A run ends with the status of the cells it has measured.** -/
theorem main_status (h : Ran bench depth args p) :
    main bench depth args = .ok (exitStatus p.cells) := by
  obtain ⟨htoken, b, hread, hrun⟩ := h
  have hno : ¬ (args.mode ≠ .smoke ∧ args.adminToken = "") := by tauto
  rw [main, hread]
  change (if _ then _ else _) = _
  rw [if_neg hno, hrun]
  rfl

theorem Ran.cells_eq (h : Ran bench depth args p) :
    p.cells = (configurations args).map fun c => cellFrom args c (bench.measure c) := by
  obtain ⟨-, b, -, hrun⟩ := h
  exact runCells_cells hrun

/-- Its cells are some, and of the environment that was given. -/
theorem Ran.cells_ne_nil (h : Ran bench depth args p) : p.cells ≠ [] := by
  rw [h.cells_eq, Ne, List.map_eq_nil_iff]
  exact configurations_ne_nil args

theorem Ran.environment (h : Ran bench depth args p) :
    ∀ c ∈ p.cells, c.environment = args.environment := by
  rw [h.cells_eq]
  exact List.forall_mem_map.mpr fun _ _ => rfl

/-- **The baseline is the one that the cells give as cells of a file.** -/
theorem selectBaseline_ofFile {measured : Configuration → Parity.Cell}
    (hmeasured : ∀ c, cellFrom args c (bench.measure c) = ofFile (measured c))
    (cs : List Configuration) : ∀ {p p' : Progress} {b : Option Parity.Cell},
      p.baseline = b.map ofFile → cs.foldlM (runConfiguration bench args) p = some p' →
        p'.baseline =
          (Parity.selectBaseline b (cs.map fun c => (c.label, measured c))).map ofFile := by
  induction cs with
  | nil =>
    intro p p' b hb h
    obtain rfl := Option.some.inj h
    exact hb
  | cons c cs ih =>
    intro p p' b hb h
    rw [List.foldlM_cons] at h
    obtain ⟨p₁, hstep, h⟩ := Option.bind_eq_some_iff.mp h
    rw [runConfiguration] at hstep
    split at hstep
    · cases hstep
    · obtain rfl := Option.some.inj hstep
      rw [Parity.selectBaseline, List.map_cons, List.foldl_cons]
      refine ih ?_ h
      have hnone : p.baseline = none ↔ b = none := by rw [hb, Option.map_eq_none_iff]
      dsimp only
      simp only [hnone]
      split
      · rw [hmeasured]
        rfl
      · exact hb

/-! ### The claim of the documentation -/

/-- **When the verdict and the exit status are the documented ones.**  The verdict is, exactly if
the cell breaks a threshold that is looked at, or misses no measurement and is not at the limit of
the error rate.  The status of a list of cells of hardware is, exactly if one of them exceeds the
error budget, or none breaks another threshold; and it is the status of `main`. -/
theorem verdict_exit_iff (cell : Cell) (baseline : Option Cell) (cells : List Cell)
    (bench : Bench) (depth : ℕ) (args : Args) (p : Progress) :
    (((verdict cell baseline).1 = .pass ↔ Meets cell baseline) ↔
      Breaks cell baseline ∨ Complete cell baseline) ∧
    (cells ≠ [] → (∀ c ∈ cells, c.environment = "hardware") →
      ((exitStatus cells = 0 ↔ ∀ c ∈ cells, (verdict c baseline).1 = .pass) ↔
        (∃ c ∈ cells, maxErrorRate < c.errorRate) ∨ ∀ c ∈ cells, ¬ Slow c baseline)) ∧
    (Ran bench depth args p →
      main bench depth args = .ok (exitStatus p.cells) ∧ p.cells ≠ [] ∧
        ∀ c ∈ p.cells, c.environment = args.environment) := by
  refine ⟨?_, fun hne henv => exitStatus_agrees_iff hne henv baseline, fun h =>
    ⟨main_status h, h.cells_ne_nil, h.environment⟩⟩
  rw [verdict_pass_iff, meets_iff]
  tauto

/-- A cell of hardware with fast first tokens. -/
def fastCell : Cell where
  configuration := "2x4"
  mode := "pp"
  nodes := 2
  gpus := 4
  environment := "hardware"
  ttftP50Ms := some 100
  ttftP95Ms := some 150
  itlP95Ms := none
  e2eP50Ms := some 900
  tokensPerSecond := some 40
  requests := 12
  errors := 0

/-- What the requests of a fast configuration give. -/
def fastSummary : Summary where
  ttftP50Ms := some 100
  ttftP95Ms := some 150
  itlP95Ms := some 20
  e2eP50Ms := some 900
  meanTps := some 40
  requests := 12
  errors := 0

/-- A run without a deployment. -/
def smokeArgs : Args where
  mode := .smoke
  adminToken := ""
  nodes := 2
  gpus := 4
  modeFlag := "pp"
  environment := "hardware"
  baselineFile := none

/-- The status of two cells that are fast, and that of a run. -/
theorem fastCell_status :
    ((exitStatus [fastCell, fastCell] = 0 ↔
      ∀ c ∈ [fastCell, fastCell], (verdict c none).1 = .pass) ↔
        (∃ c ∈ [fastCell, fastCell], maxErrorRate < c.errorRate) ∨
          ∀ c ∈ [fastCell, fastCell], ¬ Slow c none) ∧
    main ⟨fun _ => true, fun _ => fastSummary⟩ 0 smokeArgs =
      .ok (exitStatus [cellFrom smokeArgs ⟨"smoke", 1, "n/a"⟩ fastSummary]) := by
  obtain ⟨-, hexit, hmain⟩ := verdict_exit_iff fastCell none [fastCell, fastCell]
    ⟨fun _ => true, fun _ => fastSummary⟩ 0 smokeArgs
    ⟨[cellFrom smokeArgs ⟨"smoke", 1, "n/a"⟩ fastSummary], none⟩
  exact ⟨hexit (List.cons_ne_nil _ _) (by decide), (hmain ⟨Or.inl rfl, none, rfl, rfl⟩).1⟩

/-- **A cell without inter-token latencies passes, and a slow one does not change the status.** -/
theorem unmeasured_passes :
    ¬ (∀ cell baseline, (verdict cell baseline).1 = .pass ↔ Meets cell baseline) ∧
    ¬ ∀ (cells : List Cell) (baseline : Option Cell), cells ≠ [] →
      (∀ c ∈ cells, c.environment = "hardware") →
        (exitStatus cells = 0 ↔ ∀ c ∈ cells, (verdict c baseline).1 = .pass) := by
  constructor
  · intro h
    have hmeets := (h fastCell none).mp (by decide +kernel)
    obtain ⟨ms, hms, -⟩ := hmeets.itl
    cases hms
  · intro h
    have hstatus := (h [{ fastCell with ttftP95Ms := some 5000 }] none (List.cons_ne_nil _ _)
      (by decide)).mp (by decide +kernel)
    have hpass := hstatus _ List.mem_cons_self
    revert hpass
    decide +kernel

end Inferna.Verdict
