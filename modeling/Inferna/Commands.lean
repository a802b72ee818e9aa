import Inferna.Engines

/-!
# Well-formed engine commands

A command is a flat list of tokens.  `build_command` finds the options it edits with `list.index`,
so a name that equals an option is taken for it.  The tables below say, apart from the edits, which
options the command of a rank is to have and with which values.

## Main definitions

* `intendedOptions` — the options of a command, with their values.
* `CommandOk` — the tokens of a command are its start and its options, each found once.
* `FlagFree` — neither the model nor the master has the name of an option.

## Main results

* `buildCommand_eq` — without such names the command is its start and its options.
* `commandOk_iff` — **a command is well formed exactly when there are no such names.**
-/

namespace Inferna

/-! ### The options of a command -/

/-- The tensor-parallel size: the GPUs of a rank, at least one, and over all ranks in mode `tp`. -/
def intendedSize (config : EngineConfig) : Option MultiNodeSpec → ℕ
  | none => max 1 config.gpuIndexes.length
  | some spec => tensorSize config spec

/-- The port: the container's for a single node, the given one for a head, none for a follower. -/
def portOptions (servePort : ℕ) : Option MultiNodeSpec → List (String × String)
  | none => [("--port", toString containerPort)]
  | some spec => if 0 < spec.nodeRank then [] else [("--port", toString servePort)]

def profileOptions : Engine → Profile → List (String × String)
  | .vllm, .latency => [("--max-num-seqs", "32")]
  | .vllm, .throughput => [("--max-num-seqs", "256")]
  | .sglang, .latency => [("--max-running-requests", "32")]
  | .sglang, .throughput => [("--max-running-requests", "256")]

/-- The options of a rank of a group. -/
def topologyOptions (engine : Engine) (spec : MultiNodeSpec) : List (String × String) :=
  let world := toString (max 1 spec.worldSize)
  match engine with
  | .vllm =>
    (if spec.mode = .tp then ("--distributed-executor-backend", "mp")
      else ("--pipeline-parallel-size", world)) ::
      [("--nnodes", world), ("--node-rank", toString spec.nodeRank),
        ("--master-addr", spec.masterHost), ("--master-port", toString spec.masterPort)]
  | .sglang =>
    (if spec.mode = .tp then [] else [("--pipeline-parallel-size", world)]) ++
      [("--nnodes", world), ("--node-rank", toString spec.nodeRank),
        ("--dist-init-addr", spec.masterHost ++ ":" ++ toString spec.masterPort)]

/-- The options of a command, with the values they are to have. -/
def intendedOptions (config : EngineConfig) (spec : Option MultiNodeSpec) (servePort : ℕ) :
    List (String × String) :=
  (match config.engine with
    | .vllm => portOptions servePort spec ++ [("--gpu-memory-utilization", "0.9"),
        ("--tensor-parallel-size", toString (intendedSize config spec))]
    | .sglang => ("--model-path", config.modelName) :: portOptions servePort spec ++
        [("--tp", toString (intendedSize config spec)), ("--mem-fraction-static", "0.85")]) ++
    profileOptions config.engine config.profile ++
      (spec.map (topologyOptions config.engine)).getD []

/-- The tokens of options. -/
def optionTokens (options : List (String × String)) : List String :=
  options.flatMap fun p => [p.1, p.2]

/-- What a command starts with. -/
def launchTokens (config : EngineConfig) : List String :=
  match config.engine with
  | .vllm => ["vllm", "serve", config.modelName]
  | .sglang => ["python3", "-m", "sglang.launch_server"]

/-- The argument that an engine takes for the model. -/
def modelArgument (engine : Engine) (command : List String) : Option String :=
  match engine with
  | .vllm => command[2]?
  | .sglang => command[command.idxOf "--model-path" + 1]?

/-- A command is well formed. -/
structure CommandOk (config : EngineConfig) (spec : Option MultiNodeSpec) (servePort : ℕ)
    (command : List String) : Prop where
  model : modelArgument config.engine command = some config.modelName
  /-- Each option occurs once, and its value follows. -/
  options : ∀ p ∈ intendedOptions config spec servePort,
    command.count p.1 = 1 ∧ command[command.idxOf p.1 + 1]? = some p.2
  follower : (∃ s, spec = some s ∧ 0 < s.nodeRank) → "--port" ∉ command
  /-- Nothing is lost, and nothing else is there. -/
  complete : command.Perm
    (launchTokens config ++ optionTokens (intendedOptions config spec servePort))

/-- The names of the options, the port of a follower among them. -/
def commandFlags (config : EngineConfig) (spec : Option MultiNodeSpec) : List String :=
  "--port" :: (intendedOptions config spec 0).map Prod.fst

/-- Neither the model nor the host of vLLM's master is the name of an option. -/
def FlagFree (config : EngineConfig) (spec : Option MultiNodeSpec) : Prop :=
  config.modelName ∉ commandFlags config spec ∧
    ∀ s, spec = some s → config.engine = .vllm → s.masterHost ∉ commandFlags config spec

instance (config : EngineConfig) (spec : Option MultiNodeSpec) :
    Decidable (FlagFree config spec) :=
  match spec with
  | none => decidable_of_iff (config.modelName ∉ commandFlags config none) (by simp [FlagFree])
  | some s => decidable_of_iff (config.modelName ∉ commandFlags config (some s) ∧
      (config.engine = .vllm → s.masterHost ∉ commandFlags config (some s))) (by simp [FlagFree])

/-! ### Tokens and options -/

@[simp] theorem optionTokens_nil : optionTokens [] = [] := rfl

@[simp] theorem optionTokens_cons (p : String × String) (options : List (String × String)) :
    optionTokens (p :: options) = p.1 :: p.2 :: optionTokens options := rfl

@[simp] theorem optionTokens_append (a b : List (String × String)) :
    optionTokens (a ++ b) = optionTokens a ++ optionTokens b := List.flatMap_append

theorem mem_optionTokens {options : List (String × String)} {t : String} :
    t ∈ optionTokens options ↔ ∃ p ∈ options, t = p.1 ∨ t = p.2 := by
  simp [optionTokens]

/-- **An option whose name is no other token is found once, with its value.** -/
theorem found_once {lead : List String} {options : List (String × String)}
    (hnodup : (options.map Prod.fst).Nodup)
    (hvalue : ∀ p ∈ options, p.2 ∉ options.map Prod.fst)
    (hlead : ∀ t ∈ lead, t ∉ options.map Prod.fst) {p : String × String} (hp : p ∈ options) :
    (lead ++ optionTokens options).count p.1 = 1 ∧
      (lead ++ optionTokens options)[(lead ++ optionTokens options).idxOf p.1 + 1]? = some p.2 := by
  obtain ⟨a, b, rfl⟩ := List.append_of_mem hp
  have hfst : p.1 ∈ (a ++ p :: b).map Prod.fst := List.mem_map.mpr ⟨p, hp, rfl⟩
  rw [List.map_append, List.map_cons, List.nodup_append] at hnodup
  obtain ⟨-, hb, hdisj⟩ := hnodup
  rw [List.nodup_cons] at hb
  -- a token equal to the name is the name of the option itself
  have hother : ∀ {q}, q ∈ a ++ p :: b → p.1 ≠ q.2 := fun hq heq => hvalue _ hq (heq ▸ hfst)
  have hbefore : p.1 ∉ lead ++ optionTokens a := by
    rw [List.mem_append, not_or, mem_optionTokens]
    refine ⟨fun hmem => hlead _ hmem hfst, ?_⟩
    rintro ⟨q, hq, heq | heq⟩
    · exact hdisj q.1 (List.mem_map.mpr ⟨q, hq, rfl⟩) p.1 List.mem_cons_self heq.symm
    · exact hother (List.mem_append_left _ hq) heq
  have hbehind : p.1 ∉ p.2 :: optionTokens b := by
    rw [List.mem_cons, not_or, mem_optionTokens]
    refine ⟨hother hp, ?_⟩
    rintro ⟨q, hq, heq | heq⟩
    · exact hb.1 (List.mem_map.mpr ⟨q, hq, heq.symm⟩)
    · exact hother (List.mem_append_right _ (List.mem_cons_of_mem _ hq)) heq
  have hsplit : lead ++ optionTokens (a ++ p :: b) =
      (lead ++ optionTokens a) ++ p.1 :: p.2 :: optionTokens b := by
    rw [optionTokens_append, optionTokens_cons, List.append_assoc]
  rw [hsplit]
  constructor
  · rw [List.count_append, List.count_eq_zero_of_not_mem hbefore, List.count_cons_self,
      List.count_eq_zero_of_not_mem hbehind]
  · rw [List.idxOf_append_of_notMem hbefore, List.idxOf_cons_self, Nat.add_zero,
      List.getElem?_append_right (by omega), Nat.add_sub_cancel_left]
    rfl

/-! ### The tables -/

theorem profileFlags_eq (engine : Engine) (profile : Profile) :
    profileFlags engine profile = optionTokens (profileOptions engine profile) := by
  cases engine <;> cases profile <;> rfl

theorem multinodeFlags_eq (engine : Engine) (spec : MultiNodeSpec) (tp : ℕ) :
    multinodeFlags engine spec tp = optionTokens (topologyOptions engine spec) := by
  unfold multinodeFlags topologyOptions
  cases engine <;> by_cases h : spec.mode = .tp <;> simp [h]

/-- The names of the options do not depend on the port. -/
theorem map_fst_intendedOptions (config : EngineConfig) (spec : Option MultiNodeSpec)
    (servePort : ℕ) : (intendedOptions config spec servePort).map Prod.fst =
      (intendedOptions config spec 0).map Prod.fst := by
  unfold intendedOptions portOptions
  cases config.engine <;> cases spec with
  | none => rfl
  | some s => by_cases h : 0 < s.nodeRank <;> simp [h]

/-- A text that does not start with a dash. -/
def isValueText (s : String) : Bool := s.toList.head? != some '-'

theorem isValueText_toString (n : ℕ) : isValueText (toString n) = true := by
  unfold isValueText
  cases h : (toString n).toList with
  | nil => rfl
  | cons c t =>
    have hdigit := Text.isDigit_of_mem_toString (h ▸ List.mem_cons_self : c ∈ (toString n).toList)
    have hne : c ≠ '-' := by
      rintro rfl
      cases hdigit
    simpa using hne

/-- The names of all options. -/
def allFlags : List String :=
  ["--port", "--gpu-memory-utilization", "--tensor-parallel-size", "--model-path", "--tp",
    "--mem-fraction-static", "--max-num-seqs", "--max-running-requests",
    "--distributed-executor-backend", "--pipeline-parallel-size", "--nnodes", "--node-rank",
    "--master-addr", "--master-port", "--dist-init-addr"]

theorem portOptions_subset (servePort : ℕ) (spec : Option MultiNodeSpec) :
    (portOptions servePort spec).map Prod.fst ⊆ ["--port"] := by
  unfold portOptions
  cases spec with
  | none => exact List.Subset.refl _
  | some s =>
    by_cases h : 0 < s.nodeRank
    · simp [h]
    · simp [h]

theorem topologyOptions_fst (engine : Engine) (spec : MultiNodeSpec) :
    (topologyOptions engine spec).map Prod.fst ⊆ allFlags := by
  unfold topologyOptions allFlags
  cases engine <;> by_cases h : spec.mode = .tp <;> simp [h]

/-- The names of the options of a command. -/
theorem commandFlags_subset (config : EngineConfig) (spec : Option MultiNodeSpec) :
    commandFlags config spec ⊆ allFlags := by
  have hport := portOptions_subset 0 spec
  have hprofile : (profileOptions config.engine config.profile).map Prod.fst ⊆ allFlags := by
    cases config.engine <;> cases config.profile <;> decide
  have htopology :
      ((spec.map (topologyOptions config.engine)).getD []).map Prod.fst ⊆ allFlags := by
    cases spec with
    | none => exact List.nil_subset _
    | some s => exact topologyOptions_fst config.engine s
  intro f hf
  unfold commandFlags intendedOptions at hf
  rw [List.mem_cons, List.map_append, List.map_append, List.mem_append, List.mem_append] at hf
  rcases hf with rfl | (hf | hf) | hf
  · exact List.mem_cons_self
  · revert hf
    cases config.engine with
    | vllm =>
      simp only [List.map_append, List.map_cons, List.map_nil, List.mem_append, List.mem_cons,
        List.not_mem_nil, or_false]
      rintro (hf | rfl | rfl)
      · rw [List.mem_singleton.mp (hport hf)]
        exact List.mem_cons_self
      · decide
      · decide
    | sglang =>
      simp only [List.map_append, List.map_cons, List.map_nil, List.mem_append, List.mem_cons,
        List.cons_append, List.not_mem_nil, or_false]
      rintro (rfl | hf | rfl | rfl)
      · decide
      · rw [List.mem_singleton.mp (hport hf)]
        exact List.mem_cons_self
      · decide
      · decide
  · exact hprofile hf
  · exact htopology hf

/-- They start with a dash and have no colon. -/
theorem allFlags_shape : ∀ f ∈ allFlags, isValueText f = false ∧ ':' ∉ f.toList := by decide

theorem notMem_commandFlags_of_isValueText {config : EngineConfig} {spec : Option MultiNodeSpec}
    {t : String} (h : isValueText t = true) : t ∉ commandFlags config spec := by
  intro hmem
  rw [(allFlags_shape t (commandFlags_subset config spec hmem)).1] at h
  cases h

/-- The names of a command's options differ. -/
theorem nodup_intendedOptions (config : EngineConfig) (spec : Option MultiNodeSpec)
    (servePort : ℕ) : ((intendedOptions config spec servePort).map Prod.fst).Nodup := by
  unfold intendedOptions portOptions profileOptions topologyOptions
  cases config.engine <;> cases config.profile <;> cases spec with
  | none => simp
  | some s => by_cases hrank : 0 < s.nodeRank <;> by_cases hmode : s.mode = .tp <;>
      simp [hrank, hmode]

theorem toString_notMem_commandFlags (config : EngineConfig) (spec : Option MultiNodeSpec) (n : ℕ) :
    toString n ∉ commandFlags config spec :=
  notMem_commandFlags_of_isValueText (isValueText_toString n)

theorem portOptions_value {servePort : ℕ} {spec : Option MultiNodeSpec} {p : String × String}
    (hp : p ∈ portOptions servePort spec) : ∃ n : ℕ, p.2 = toString n := by
  unfold portOptions at hp
  split at hp
  · exact ⟨_, by rw [List.mem_singleton.mp hp]⟩
  · split at hp
    · cases hp
    · exact ⟨_, by rw [List.mem_singleton.mp hp]⟩

theorem profileOptions_value {engine : Engine} {profile : Profile} {p : String × String}
    (hp : p ∈ profileOptions engine profile) : isValueText p.2 = true := by
  unfold profileOptions at hp
  split at hp <;> rw [List.mem_singleton.mp hp] <;> rfl

/-- The values of the topology, with the address of the head as it stands. -/
theorem topologyOptions_value {config : EngineConfig} {s : MultiNodeSpec} {p : String × String}
    (hp : p ∈ topologyOptions config.engine s) :
    isValueText p.2 = true ∨ (config.engine = .vllm ∧ p.2 = s.masterHost) ∨ ':' ∈ p.2.toList := by
  cases hengine : config.engine with
  | vllm =>
    rw [hengine] at hp
    simp only [topologyOptions, List.mem_cons, List.not_mem_nil, or_false] at hp
    rcases hp with hp | rfl | rfl | rfl | rfl
    · left
      split at hp
      · rw [hp]
        rfl
      · rw [hp]
        exact isValueText_toString _
    · exact Or.inl (isValueText_toString _)
    · exact Or.inl (isValueText_toString _)
    · exact Or.inr (Or.inl ⟨rfl, rfl⟩)
    · exact Or.inl (isValueText_toString _)
  | sglang =>
    rw [hengine] at hp
    simp only [topologyOptions, List.mem_append, List.mem_cons, List.not_mem_nil, or_false] at hp
    rcases hp with hp | rfl | rfl | rfl
    · left
      split at hp
      · cases hp
      · rw [List.mem_singleton.mp hp]
        exact isValueText_toString _
    · exact Or.inl (isValueText_toString _)
    · exact Or.inl (isValueText_toString _)
    · exact Or.inr (Or.inr (by simp))

/-- Without the names of options the values are none of them. -/
theorem value_notMem {config : EngineConfig} {spec : Option MultiNodeSpec}
    (h : FlagFree config spec) {servePort : ℕ} {p : String × String}
    (hp : p ∈ intendedOptions config spec servePort) :
    p.2 ∉ commandFlags config spec := by
  have htext : ∀ {t}, isValueText t = true → t ∉ commandFlags config spec :=
    notMem_commandFlags_of_isValueText
  have hnum := toString_notMem_commandFlags config spec
  have hport : ∀ q ∈ portOptions servePort spec, q.2 ∉ commandFlags config spec := by
    intro q hq
    obtain ⟨n, hn⟩ := portOptions_value hq
    exact hn ▸ hnum n
  unfold intendedOptions at hp
  rw [List.mem_append, List.mem_append] at hp
  rcases hp with (hp | hp) | hp
  · split at hp
    · rcases List.mem_append.mp hp with hp | hp
      · exact hport p hp
      · simp only [List.mem_cons, List.not_mem_nil, or_false] at hp
        rcases hp with rfl | rfl
        · exact htext rfl
        · exact hnum _
    · rcases List.mem_append.mp hp with hp | hp
      · rcases List.mem_cons.mp hp with rfl | hp
        · exact h.1
        · exact hport p hp
      · simp only [List.mem_cons, List.not_mem_nil, or_false] at hp
        rcases hp with rfl | rfl
        · exact hnum _
        · exact htext rfl
  · exact htext (profileOptions_value hp)
  · cases spec with
    | none => cases hp
    | some s =>
      rw [Option.map_some, Option.getD_some] at hp
      rcases topologyOptions_value hp with hvalue | ⟨hengine, heq⟩ | hcolon
      · exact htext hvalue
      · rw [heq]
        exact h.2 s rfl hengine
      · exact fun hmem => (allFlags_shape _ (commandFlags_subset config _ hmem)).2 hcolon

/-! ### The edits -/

theorem servePortEdit_of_notMem (spec : MultiNodeSpec) (servePort : ℕ) (lead : List String)
    (hlead : "--port" ∉ lead) (rest : List String) :
    servePortEdit spec servePort (lead ++ "--port" :: toString containerPort :: rest) =
      lead ++ optionTokens (portOptions servePort (some spec)) ++ rest := by
  unfold servePortEdit portOptions
  dsimp only
  split
  · rw [take_drop_idxOf hlead, optionTokens_nil, List.append_nil]
  · rw [set_idxOf hlead, optionTokens_cons, optionTokens_nil, List.append_assoc]
    rfl

theorem widenEdit_of_notMem (config : EngineConfig) (spec : MultiNodeSpec) (lead : List String)
    (hlead : tpFlag config.engine ∉ lead) (rest : List String) :
    widenEdit config.engine spec (max 1 config.gpuIndexes.length)
        (lead ++ tpFlag config.engine :: toString (max 1 config.gpuIndexes.length) :: rest) =
      lead ++ tpFlag config.engine :: toString (tensorSize config spec) :: rest := by
  unfold widenEdit
  rw [toString_tensorSize]
  split
  · rw [set_idxOf hlead]
  · rfl

theorem tpFlag_mem_commandFlags (config : EngineConfig) (spec : Option MultiNodeSpec) :
    tpFlag config.engine ∈ commandFlags config spec := by
  unfold commandFlags intendedOptions tpFlag
  cases config.engine <;> simp

/-- The option of the size is no token of the port. -/
theorem tpFlag_notMem_portOptions (engine : Engine) (servePort : ℕ) (spec : Option MultiNodeSpec) :
    tpFlag engine ∉ optionTokens (portOptions servePort spec) := by
  have hne : tpFlag engine ≠ "--port" := by cases engine <;> decide
  have hnum : ∀ n : ℕ, tpFlag engine ≠ toString n := fun n heq =>
    toString_notMem_topologyFlags n (heq ▸ tpFlag_mem engine)
  unfold portOptions
  cases spec with
  | none => simp [hne, hnum, -Nat.toString_eq_repr]
  | some s => by_cases h : 0 < s.nodeRank <;> simp [h, hne, hnum, -Nat.toString_eq_repr]

/-- What both edits make of a command with its port after `lead` and its size after `middle`. -/
theorem edits_of_notMem (config : EngineConfig) (spec : MultiNodeSpec) (servePort : ℕ)
    {lead middle : List String} (rest : List String) (hport : "--port" ∉ lead)
    (hlead : tpFlag config.engine ∉ lead) (hmiddle : tpFlag config.engine ∉ middle) :
    widenEdit config.engine spec (max 1 config.gpuIndexes.length)
        (servePortEdit spec servePort (lead ++ "--port" :: toString containerPort ::
          (middle ++ tpFlag config.engine :: toString (max 1 config.gpuIndexes.length) :: rest))) =
      lead ++ optionTokens (portOptions servePort (some spec)) ++ middle ++
        tpFlag config.engine :: toString (tensorSize config spec) :: rest := by
  rw [servePortEdit_of_notMem spec servePort lead hport, ← List.append_assoc]
  refine widenEdit_of_notMem config spec _ ?_ rest
  have hpart := tpFlag_notMem_portOptions config.engine servePort (some spec)
  exact List.not_mem_append (List.not_mem_append hlead hpart) hmiddle

/-- **Without the names of options a command is its start and its options.** -/
theorem buildCommand_eq {config : EngineConfig} {spec : Option MultiNodeSpec}
    (h : FlagFree config spec) (servePort : ℕ) :
    buildCommand config spec servePort =
      launchTokens config ++ optionTokens (intendedOptions config spec servePort) := by
  cases spec with
  | none =>
    unfold buildCommand launchTokens intendedOptions
    rw [profileFlags_eq]
    cases config.engine <;> simp [vllmBase, sglangBase, portOptions, intendedSize]
  | some s =>
    have hport : "--port" ≠ config.modelName := fun heq => h.1 (heq ▸ List.mem_cons_self)
    have htp : tpFlag config.engine ≠ config.modelName := fun heq =>
      h.1 (heq ▸ tpFlag_mem_commandFlags config (some s))
    have hedits := @edits_of_notMem config s servePort
    unfold buildCommand launchTokens intendedOptions
    dsimp only
    rw [multinodeFlags_eq, profileFlags_eq]
    cases hengine : config.engine with
    | vllm =>
      rw [hengine] at htp hedits
      have hcommand := @hedits ["vllm", "serve", config.modelName]
        ["--gpu-memory-utilization", "0.9"] (optionTokens (profileOptions .vllm config.profile))
        (by simp [hport]) (by simpa [tpFlag] using htp) (by decide)
      dsimp only
      rw [vllmBase]
      simp only [tpFlag, List.append_assoc, List.cons_append, List.nil_append] at hcommand ⊢
      rw [hcommand]
      simp [intendedSize]
    | sglang =>
      rw [hengine] at htp hedits
      have hcommand := @hedits
        ["python3", "-m", "sglang.launch_server", "--model-path", config.modelName] []
        (["--mem-fraction-static", "0.85"] ++ optionTokens (profileOptions .sglang config.profile))
        (by simp [hport]) (by simpa [tpFlag] using htp) List.not_mem_nil
      dsimp only
      rw [sglangBase]
      simp only [tpFlag, List.append_assoc, List.cons_append, List.nil_append] at hcommand ⊢
      rw [hcommand]
      simp [intendedSize]

/-! ### Well-formed commands -/

theorem count_optionTokens (options : List (String × String)) (t : String) :
    (optionTokens options).count t =
      (options.map Prod.fst).count t + (options.map Prod.snd).count t := by
  induction options with
  | nil => rfl
  | cons p options ih =>
    rw [optionTokens_cons, List.map_cons, List.map_cons, List.count_cons, List.count_cons,
      List.count_cons, List.count_cons, ih]
    omega

section Command

variable {config : EngineConfig} {spec : Option MultiNodeSpec} {servePort : ℕ}

/-- A follower has no option for the port, and any other command has. -/
theorem port_mem_iff : "--port" ∈ (intendedOptions config spec servePort).map Prod.fst ↔
    ¬ ∃ s, spec = some s ∧ 0 < s.nodeRank := by
  unfold intendedOptions portOptions profileOptions topologyOptions
  cases config.engine <;> cases config.profile <;> cases spec with
  | none => simp
  | some s => by_cases hrank : 0 < s.nodeRank <;> by_cases hmode : s.mode = .tp <;>
      simp [hrank, hmode]

theorem mem_commandFlags {f : String}
    (h : f ∈ (intendedOptions config spec servePort).map Prod.fst) :
    f ∈ commandFlags config spec := by
  rw [map_fst_intendedOptions] at h
  exact List.mem_cons_of_mem _ h

/-- **What a well-formed command has besides the names of its options is none of them.** -/
theorem CommandOk.notMem {command : List String} (h : CommandOk config spec servePort command)
    {t : String} (ht : t ∈ launchTokens config ∨
      t ∈ (intendedOptions config spec servePort).map Prod.snd) : t ∉ commandFlags config spec := by
  have hcount : command.count t = (launchTokens config).count t +
      (((intendedOptions config spec servePort).map Prod.fst).count t +
        ((intendedOptions config spec servePort).map Prod.snd).count t) := by
    rw [h.complete.count_eq, List.count_append, count_optionTokens]
  have hpos : 0 < (launchTokens config).count t +
      ((intendedOptions config spec servePort).map Prod.snd).count t := by
    rcases ht with ht | ht
    · have := List.count_pos_iff.mpr ht
      omega
    · have := List.count_pos_iff.mpr ht
      omega
  -- the name of an option would be there twice
  have hname : t ∉ (intendedOptions config spec servePort).map Prod.fst := by
    intro hmem
    have hone := List.count_pos_iff.mpr hmem
    obtain ⟨p, hp, rfl⟩ := List.mem_map.mp hmem
    have := (h.options p hp).1
    omega
  rw [commandFlags, List.mem_cons, ← map_fst_intendedOptions config spec servePort, not_or]
  refine ⟨?_, hname⟩
  rintro rfl
  rw [port_mem_iff, not_not] at hname
  refine h.follower hname (List.count_pos_iff.mp ?_)
  omega

/-- The start of a command has no name of an option. -/
theorem launchTokens_notMem (h : FlagFree config spec) :
    ∀ t ∈ launchTokens config, t ∉ commandFlags config spec := by
  intro t ht
  unfold launchTokens at ht
  split at ht
  · simp only [List.mem_cons, List.not_mem_nil, or_false] at ht
    rcases ht with rfl | rfl | rfl
    · exact notMem_commandFlags_of_isValueText rfl
    · exact notMem_commandFlags_of_isValueText rfl
    · exact h.1
  · have hall : ∀ t ∈ ["python3", "-m", "sglang.launch_server"], t ∉ allFlags := by decide
    exact fun hmem => hall t ht (commandFlags_subset config spec hmem)

variable (config spec servePort) in
/-- **A command is well formed exactly when neither the model nor the host of vLLM's master has
the name of an option.** -/
theorem commandOk_iff :
    CommandOk config spec servePort (buildCommand config spec servePort) ↔
      FlagFree config spec := by
  constructor
  · intro h
    constructor
    · refine h.notMem ?_
      unfold launchTokens intendedOptions
      cases config.engine with
      | vllm => exact Or.inl (by simp)
      | sglang => exact Or.inr (by simp)
    · rintro s rfl hengine
      refine h.notMem (Or.inr ?_)
      unfold intendedOptions topologyOptions
      rw [hengine]
      simp
  · intro h
    rw [buildCommand_eq h]
    have hfound := fun {p : String × String} (hp : p ∈ intendedOptions config spec servePort) =>
      found_once (nodup_intendedOptions config spec servePort)
        (fun q hq hmem => value_notMem h hq (mem_commandFlags hmem))
        (fun t ht hmem => launchTokens_notMem h t ht (mem_commandFlags hmem)) hp
    refine ⟨?_, fun p hp => hfound hp, ?_, List.Perm.refl _⟩
    · unfold modelArgument
      cases hengine : config.engine with
      | vllm =>
        unfold launchTokens
        rw [hengine]
        rfl
      | sglang =>
        refine (hfound (p := ("--model-path", config.modelName)) ?_).2
        unfold intendedOptions
        rw [hengine]
        simp
    · intro hfollower
      rw [List.mem_append, not_or, mem_optionTokens]
      have hport : "--port" ∈ commandFlags config spec := List.mem_cons_self
      refine ⟨fun hmem => launchTokens_notMem h _ hmem hport, ?_⟩
      rintro ⟨p, hp, heq | heq⟩
      · exact port_mem_iff.mp (List.mem_map.mpr ⟨p, hp, heq.symm⟩) hfollower
      · exact value_notMem h hp (heq ▸ hport)

end Command

/-- A name that the catalog accepts. -/
def CatalogName (name : String) : Prop :=
  3 ≤ name.length ∧ name.length ≤ 255 ∧ Text.strip name.toList = name.toList

/-- A second rank of a group of two, for vLLM. -/
def followerSpec : MultiNodeSpec where
  mode := .tp
  worldSize := 2
  nodeRank := 1
  masterHost := "10.0.0.1"
  masterPort := 29500

/-- A config of one rank, for vLLM. -/
def rankConfig (modelName : String) : EngineConfig where
  engine := .vllm
  modelName := modelName
  profile := .latency
  gpuIndexes := [0, 1]
  vramRequiredMb := 16000
  port := 8010
  requiresHfToken := false

/-- The command of a follower of a model that is no option. -/
example : buildCommand (rankConfig "org/model") (some followerSpec) 8010 =
    ["vllm", "serve", "org/model", "--gpu-memory-utilization", "0.9", "--tensor-parallel-size", "4",
      "--max-num-seqs", "32", "--distributed-executor-backend", "mp", "--nnodes", "2",
      "--node-rank", "1", "--master-addr", "10.0.0.1", "--master-port", "29500"] := by decide

/-- **A follower loses the name of a model that is called as the option of the port.** -/
theorem follower_loses_model :
    ¬ ∀ (config : EngineConfig) (spec : Option MultiNodeSpec) (servePort : ℕ),
      CatalogName config.modelName →
        CommandOk config spec servePort (buildCommand config spec servePort) := by
  intro h
  have hname : CatalogName "--port" := ⟨by decide, by decide, by decide⟩
  have hok := (h (rankConfig "--port") (some followerSpec) 8010 hname).model
  have hcommand : buildCommand (rankConfig "--port") (some followerSpec) 8010 =
      ["vllm", "serve", "8000", "--gpu-memory-utilization", "0.9", "--tensor-parallel-size", "4",
        "--max-num-seqs", "32", "--distributed-executor-backend", "mp", "--nnodes", "2",
        "--node-rank", "1", "--master-addr", "10.0.0.1", "--master-port", "29500"] := by decide
  rw [hcommand] at hok
  have hserved := Option.some.inj hok
  revert hserved
  decide

end Inferna
