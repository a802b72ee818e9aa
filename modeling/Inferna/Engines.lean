import Inferna.Manager

/-!
# Engine commands

`engines/base.py`: the command of an engine container, from the config that the server has
sent.  A command for one rank of a group starts from the command for a single node: the head
serves on its host port, a follower loses the option, a tensor-parallel group widens the
size, and the options for the meeting point follow.

An engine reads its command as options with one value each, after three tokens that start
it; of an option that is given twice the last one counts.

## Main definitions

* `MultiNodeSpec`, `MultiNodeSpec.fromConfig` — the topology of a rank.
* `buildCommand` — `build_command`.
* `optionValue`, `sizeOption`, `masterOf` — what an engine reads in a command.
* `NameOk` — the model is not taken for the option of the tensor-parallel size.

## Main results

* `fromConfig_isSome`, `fromConfig_rank` — the spec is the worker's notion of a rank.
* `commandOptions_buildCommand` — the options of a rank's command.
* `masterOf_buildCommand`, `pipelineSize_buildCommand`, `tensorSize_buildCommand` — what an
  engine reads of the topology.
-/

namespace Inferna

/-! ### Flag tables -/

/-- `CONTAINER_PORT`. -/
def containerPort : ℕ := 8000

/-- `VLLM_BASE`, for a model and a tensor-parallel size. -/
def vllmBase (model : String) (tp : ℕ) : List String :=
  ["vllm", "serve", model, "--port", toString containerPort, "--gpu-memory-utilization", "0.9",
    "--tensor-parallel-size", toString tp]

/-- `SGLANG_BASE`, for a model and a tensor-parallel size. -/
def sglangBase (model : String) (tp : ℕ) : List String :=
  ["python3", "-m", "sglang.launch_server", "--model-path", model, "--port",
    toString containerPort, "--tp", toString tp, "--mem-fraction-static", "0.85"]

/-- `PROFILE_FLAGS`. -/
def profileFlags : Engine → Profile → List String
  | .vllm, .latency => ["--max-num-seqs", "32"]
  | .vllm, .throughput => ["--max-num-seqs", "256"]
  | .sglang, .latency => ["--max-running-requests", "32"]
  | .sglang, .throughput => ["--max-running-requests", "256"]

/-- The option of the tensor-parallel size. -/
def tpFlag : Engine → String
  | .vllm => "--tensor-parallel-size"
  | .sglang => "--tp"

/-! ### Commands -/

/-- `MultiNodeSpec`. -/
structure MultiNodeSpec where
  mode : ParallelMode
  worldSize : ℕ
  nodeRank : ℕ
  masterHost : String
  masterPort : ℕ
  deriving DecidableEq, Repr

/-- `MultiNodeSpec.from_config`: nothing for a single node.  A message that is absent reads
as its defaults. -/
def MultiNodeSpec.fromConfig (config : EngineConfig) : Option MultiNodeSpec :=
  match config.parallelism with
  | none => none
  | some p =>
    if p.mode = .single then none
    else some {
      mode := p.mode
      worldSize := max 1 p.worldSize
      nodeRank := (config.rendezvous.map (·.nodeRank)).getD 0
      masterHost := (config.rendezvous.map (·.masterAddress)).getD ""
      masterPort := (config.rendezvous.map (·.masterPort)).getD 0 }

/-- The spec is there for the configs that the worker runs as ranks. -/
theorem fromConfig_isSome (config : EngineConfig) :
    (MultiNodeSpec.fromConfig config).isSome = config.isMultiNode := by
  unfold MultiNodeSpec.fromConfig EngineConfig.isMultiNode
  cases config.parallelism with
  | none => rfl
  | some p => by_cases h : p.mode = .single <;> simp [h]

/-- The rank that is recorded for the container is the one in its command. -/
theorem fromConfig_rank (config : EngineConfig) :
    (MultiNodeSpec.fromConfig config).map (·.nodeRank) = config.rank := by
  unfold MultiNodeSpec.fromConfig EngineConfig.rank EngineConfig.isMultiNode
  cases config.parallelism with
  | none => rfl
  | some p => by_cases h : p.mode = .single <;> simp [h]

/-- `_multinode_flags`; the tensor-parallel size is not used. -/
def multinodeFlags (engine : Engine) (spec : MultiNodeSpec) (_tensorParallel : ℕ) : List String :=
  let world := max 1 spec.worldSize
  match engine with
  | .vllm =>
    (if spec.mode = .tp then ["--distributed-executor-backend", "mp"]
      else ["--pipeline-parallel-size", toString world]) ++
      ["--nnodes", toString world, "--node-rank", toString spec.nodeRank,
        "--master-addr", spec.masterHost, "--master-port", toString spec.masterPort]
  | .sglang =>
    (if spec.mode = .tp then [] else ["--pipeline-parallel-size", toString world]) ++
      ["--nnodes", toString world, "--node-rank", toString spec.nodeRank,
        "--dist-init-addr", spec.masterHost ++ ":" ++ toString spec.masterPort]

/-- A follower loses the port option, and the head gets its host port. -/
def servePortEdit (spec : MultiNodeSpec) (servePort : ℕ) (command : List String) : List String :=
  let portIndex := command.idxOf "--port"
  if 0 < spec.nodeRank then command.take portIndex ++ command.drop (portIndex + 2)
  else command.set (portIndex + 1) (toString servePort)

/-- A tensor-parallel group across hosts widens the size of the base command. -/
def widenEdit (engine : Engine) (spec : MultiNodeSpec) (tensorParallel : ℕ)
    (command : List String) : List String :=
  if spec.mode = .tp then
    command.set (command.idxOf (tpFlag engine) + 1)
      (toString (tensorParallel * max 1 spec.worldSize))
  else command

/-- `build_command`. -/
def buildCommand (config : EngineConfig) (spec : Option MultiNodeSpec) (servePort : ℕ) :
    List String :=
  let tensorParallel := max 1 config.gpuIndexes.length
  let base := match config.engine with
    | .vllm => vllmBase config.modelName tensorParallel
    | .sglang => sglangBase config.modelName tensorParallel
  let command := base ++ profileFlags config.engine config.profile
  match spec with
  | none => command
  | some spec =>
    widenEdit config.engine spec tensorParallel (servePortEdit spec servePort command) ++
      multinodeFlags config.engine spec tensorParallel

/-! ### What an engine reads -/

/-- Options with their values. -/
def optionPairs : List String → List (String × String)
  | flag :: value :: rest => (flag, value) :: optionPairs rest
  | _ => []

/-- The options of a command. -/
def commandOptions (command : List String) : List (String × String) := optionPairs (command.drop 3)

/-- The value of an option; the last one counts. -/
def optionValue (command : List String) (flag : String) : Option String :=
  ((commandOptions command).reverse.find? (·.1 = flag)).map (·.2)

/-- The value of a size option, `1` when it is absent. -/
def sizeOption (command : List String) (flag : String) : ℕ :=
  ((optionValue command flag).map fun v => Text.digitsValue v.toList).getD 1

/-- The host and the port of the master. -/
def masterOf (engine : Engine) (command : List String) : Option (String × String) :=
  match engine with
  | .vllm =>
    (optionValue command "--master-addr").bind fun host =>
      (optionValue command "--master-port").map fun port => (host, port)
  | .sglang =>
    (optionValue command "--dist-init-addr").bind fun address =>
      (Text.rpartition ':' address.toList).map fun p => (String.ofList p.1, String.ofList p.2)

/-- The options that say something of the topology. -/
def topologyFlags : List String :=
  ["--tensor-parallel-size", "--tp", "--pipeline-parallel-size", "--nnodes", "--node-rank",
    "--master-addr", "--master-port", "--dist-init-addr"]

/-- A numeral is no option. -/
theorem toString_notMem_topologyFlags (n : ℕ) : toString n ∉ topologyFlags := by
  intro h
  have hdash : '-' ∈ (toString n).toList := by
    have hall : ∀ f ∈ topologyFlags, '-' ∈ f.toList := by decide
    exact hall _ h
  exact absurd (Text.isDigit_of_mem_toString hdash) (by decide)

/-! ### The options of a command -/

/-- Dropping an option with its value. -/
theorem take_drop_idxOf {l : List String} {f : String} (h : f ∉ l) (v : String) (r : List String) :
    (l ++ f :: v :: r).take ((l ++ f :: v :: r).idxOf f) ++
      (l ++ f :: v :: r).drop ((l ++ f :: v :: r).idxOf f + 2) = l ++ r := by
  rw [List.idxOf_append_of_notMem h, List.idxOf_cons_self, Nat.add_zero, List.take_left',
    List.drop_append]
  · simp
  · rfl

/-- Writing the value of an option. -/
theorem set_idxOf {l : List String} {f : String} (h : f ∉ l) (v w : String) (r : List String) :
    (l ++ f :: v :: r).set ((l ++ f :: v :: r).idxOf f + 1) w = l ++ f :: w :: r := by
  rw [List.idxOf_append_of_notMem h, List.idxOf_cons_self, Nat.add_zero,
    List.set_append_right _ _ (by omega)]
  simp

/-- What stands between the model and the options that follow the port. -/
inductive PortPart (servePort : ℕ) : List String → Prop
  | gone : PortPart servePort []
  | served : PortPart servePort ["--port", toString servePort]
  /-- The model has the name of the option. -/
  | mistaken : PortPart servePort [toString servePort, toString containerPort]

theorem servePortEdit_base (spec : MultiNodeSpec) (servePort : ℕ) (lead : List String)
    (hlead : "--port" ∉ lead) (model : String) (rest : List String) :
    ∃ x part, servePortEdit spec servePort
        (lead ++ model :: "--port" :: toString containerPort :: rest) = lead ++ x :: part ++ rest ∧
      PortPart servePort part ∧ (x = model ∨ x = toString containerPort ∧ model = "--port") := by
  unfold servePortEdit
  simp only
  by_cases hmodel : model = "--port"
  · subst hmodel
    split
    · refine ⟨toString containerPort, [], ?_, .gone, Or.inr ⟨rfl, rfl⟩⟩
      rw [take_drop_idxOf hlead]
      simp
    · refine ⟨"--port", [toString servePort, toString containerPort], ?_, .mistaken, Or.inl rfl⟩
      rw [set_idxOf hlead]
      simp
  · have hlead' : "--port" ∉ lead ++ [model] := by
      rw [List.mem_append, List.mem_singleton, not_or]
      exact ⟨hlead, fun h => hmodel h.symm⟩
    have hsplit : lead ++ model :: "--port" :: toString containerPort :: rest =
        (lead ++ [model]) ++ "--port" :: toString containerPort :: rest := by simp
    rw [hsplit]
    split
    · refine ⟨model, [], ?_, .gone, Or.inl rfl⟩
      rw [take_drop_idxOf hlead']
    · refine ⟨model, ["--port", toString servePort], ?_, .served, Or.inl rfl⟩
      rw [set_idxOf hlead']
      simp

/-- Widening writes the value of the option unless the model has its name; then it writes
over what follows the model. -/
theorem widenEdit_base (engine : Engine) (spec : MultiNodeSpec) (tp : ℕ) (lead : List String)
    {part : List String} (pre : List String) (hlead : tpFlag engine ∉ lead)
    (hpart : tpFlag engine ∉ part) (hpre : tpFlag engine ∉ pre)
    (x v : String) (post : List String) :
    (spec.mode = .tp → x ≠ tpFlag engine) ∧
      widenEdit engine spec tp (lead ++ x :: part ++ (pre ++ tpFlag engine :: v :: post)) =
        lead ++ x :: part ++ (pre ++ tpFlag engine ::
          (if spec.mode = .tp then toString (tp * max 1 spec.worldSize) else v) :: post) ∨
    (spec.mode = .tp ∧ x = tpFlag engine) ∧
      widenEdit engine spec tp (lead ++ x :: part ++ (pre ++ tpFlag engine :: v :: post)) =
        lead ++ x :: (part ++ (pre ++ tpFlag engine :: v :: post)).set 0
          (toString (tp * max 1 spec.worldSize)) := by
  unfold widenEdit
  by_cases hmode : spec.mode = .tp
  · rw [if_pos hmode, if_pos hmode]
    by_cases hx : x = tpFlag engine
    · refine Or.inr ⟨⟨hmode, hx⟩, ?_⟩
      obtain ⟨y, r, hr⟩ : ∃ y r, part ++ (pre ++ tpFlag engine :: v :: post) = y :: r := by
        cases part with
        | nil =>
          cases pre with
          | nil => exact ⟨_, _, rfl⟩
          | cons y r => exact ⟨_, _, rfl⟩
        | cons y r => exact ⟨_, _, rfl⟩
      rw [List.append_assoc, List.cons_append, hr, hx, set_idxOf hlead]
      rfl
    · refine Or.inl ⟨fun _ => hx, ?_⟩
      have hall : tpFlag engine ∉ lead ++ x :: part ++ pre := by
        simp only [List.mem_append, List.mem_cons, not_or]
        exact ⟨⟨hlead, fun h => hx h.symm, hpart⟩, hpre⟩
      rw [← List.append_assoc, set_idxOf hall, List.append_assoc]
  · rw [if_neg hmode, if_neg hmode]
    exact Or.inl ⟨fun h => absurd h hmode, rfl⟩

/-- Pairs in front of others. -/
theorem optionPairs_cons (flag value : String) (rest : List String) :
    optionPairs (flag :: value :: rest) = (flag, value) :: optionPairs rest := rfl

/-- The options before those of the topology that an engine takes for one of these are given
by `p`. -/
def Only (before : List (String × String)) (p : String × String) : Prop :=
  ∀ q ∈ before, q.1 ∈ topologyFlags → q = p

theorem Only.cons {before : List (String × String)} {p q : String × String} (h : Only before p)
    (hq : q.1 ∉ topologyFlags) : Only (q :: before) p := by
  intro r hr htop
  rcases List.mem_cons.mp hr with rfl | hr
  · exact absurd htop hq
  · exact h r hr htop

theorem Only.self {before : List (String × String)} {p : String × String} (h : Only before p) :
    Only (p :: before) p := by
  intro r hr htop
  rcases List.mem_cons.mp hr with rfl | hr
  · rfl
  · exact h r hr htop

theorem Only.append {before after : List (String × String)} {p : String × String}
    (h : Only before p) (h' : Only after p) : Only (before ++ after) p := by
  intro q hq htop
  rcases List.mem_append.mp hq with hq | hq
  · exact h q hq htop
  · exact h' q hq htop

theorem only_nil (p : String × String) : Only [] p := fun _ hq => absurd hq List.not_mem_nil

/-- The options of a profile say nothing of the topology. -/
theorem only_profileFlags (engine : Engine) (profile : Profile) (p : String × String)
    (rest : List String) : ∃ after, optionPairs (profileFlags engine profile ++ rest) =
      after ++ optionPairs rest ∧ Only after p := by
  cases engine <;> cases profile <;>
    exact ⟨[_], rfl, (only_nil p).cons (by decide)⟩

/-- Nor does what is left of the port. -/
theorem PortPart.only {servePort : ℕ} {part : List String} (h : PortPart servePort part)
    (p : String × String) (rest : List String) : ∃ before, optionPairs (part ++ rest) =
      before ++ optionPairs rest ∧ Only before p := by
  cases h with
  | gone => exact ⟨[], rfl, only_nil p⟩
  | served =>
    have hport : "--port" ∉ topologyFlags := by decide
    exact ⟨[_], rfl, (only_nil p).cons hport⟩
  | mistaken => exact ⟨[_], rfl, (only_nil p).cons (toString_notMem_topologyFlags _)⟩

/-- Nor does it when its first token is written over. -/
theorem PortPart.only_set {servePort : ℕ} {part : List String} (h : PortPart servePort part)
    (n : ℕ) (flag value : String) {p : String × String}
    (hp : flag ∈ topologyFlags → (flag, value) = p) (rest : List String) :
    ∃ before, optionPairs ((part ++ flag :: value :: rest).set 0 (toString n)) =
      before ++ optionPairs rest ∧ Only before p := by
  have hlast : Only [(flag, value)] p := by
    intro q hq htop
    rw [List.mem_singleton] at hq
    subst hq
    exact hp htop
  have hnum : toString n ∉ topologyFlags := toString_notMem_topologyFlags n
  cases h with
  | gone => exact ⟨[_], rfl, (only_nil p).cons hnum⟩
  | served => exact ⟨[_, _], rfl, hlast.cons hnum⟩
  | mistaken => exact ⟨[_, _], rfl, hlast.cons hnum⟩

/-- A model that is not taken for the option of the tensor-parallel size. -/
def NameOk (config : EngineConfig) (spec : MultiNodeSpec) : Prop :=
  spec.mode = .tp → config.modelName ≠ tpFlag config.engine

/-- The tensor-parallel size that a rank's command is to have. -/
def tensorSize (config : EngineConfig) (spec : MultiNodeSpec) : ℕ :=
  if spec.mode = .tp then max 1 config.gpuIndexes.length * max 1 spec.worldSize
  else max 1 config.gpuIndexes.length

theorem commandOptions_cons (a b c : String) (rest : List String) :
    commandOptions (a :: b :: c :: rest) = optionPairs rest := rfl

/-- What stands before the options of the topology: only the tensor-parallel size says
something of it.  For a model that is taken for its option it is not widened, or not there. -/
structure SizeFirst (config : EngineConfig) (spec : MultiNodeSpec)
    (before : List (String × String)) : Prop where
  ok : NameOk config spec → (tpFlag config.engine, toString (tensorSize config spec)) ∈ before ∧
    Only before (tpFlag config.engine, toString (tensorSize config spec))
  taken : ¬ NameOk config spec →
    Only before (tpFlag config.engine, toString (max 1 config.gpuIndexes.length))

section Shape

variable {config : EngineConfig} {spec : MultiNodeSpec} {servePort : ℕ}

theorem tpFlag_mem (engine : Engine) : tpFlag engine ∈ topologyFlags := by
  cases engine <;> decide

/-- What is left of the port is not the option of the size. -/
theorem PortPart.tpFlag_notMem {part : List String} (h : PortPart servePort part)
    (engine : Engine) : tpFlag engine ∉ part := by
  intro hmem
  have hport : "--port" ∉ topologyFlags := by decide
  have hnum : ∀ n : ℕ, tpFlag engine ≠ toString n :=
    fun n heq => toString_notMem_topologyFlags n (heq ▸ tpFlag_mem engine)
  cases h with
  | gone => exact List.not_mem_nil hmem
  | served =>
    simp only [List.mem_cons, List.not_mem_nil, or_false, hnum] at hmem
    exact hport (hmem ▸ tpFlag_mem engine)
  | mistaken => simp only [List.mem_cons, List.not_mem_nil, or_false, hnum] at hmem

/-- What follows the start of a command in the place of the model is the option of the size
only if the model is. -/
theorem nameOk_iff (spec : MultiNodeSpec) {x : String} (hx : x = config.modelName ∨
    x = toString containerPort ∧ config.modelName = "--port") :
    (spec.mode = .tp → x ≠ tpFlag config.engine) ↔ NameOk config spec := by
  have htop := tpFlag_mem config.engine
  rcases hx with rfl | ⟨rfl, hport⟩
  · rfl
  · have hdash : "--port" ∉ topologyFlags := by decide
    refine iff_of_true (fun _ heq => ?_) (fun _ heq => ?_)
    · exact toString_notMem_topologyFlags containerPort (heq ▸ htop)
    · exact hdash (hport ▸ heq ▸ htop)

theorem toString_tensorSize (config : EngineConfig) (spec : MultiNodeSpec) :
    toString (tensorSize config spec) =
      if spec.mode = .tp then
        toString (max 1 config.gpuIndexes.length * max 1 spec.worldSize)
      else toString (max 1 config.gpuIndexes.length) := by
  unfold tensorSize
  split <;> rfl

/-- The options of a command for vLLM. -/
theorem commandOptions_vllm (hengine : config.engine = .vllm) (flags : List String) :
    ∃ before, commandOptions (widenEdit .vllm spec (max 1 config.gpuIndexes.length)
        (servePortEdit spec servePort (vllmBase config.modelName (max 1 config.gpuIndexes.length) ++
          profileFlags .vllm config.profile)) ++ flags) = before ++ optionPairs flags ∧
      SizeFirst config spec before := by
  set tp := max 1 config.gpuIndexes.length with htp
  have hutil : "--gpu-memory-utilization" ∉ topologyFlags := by decide
  obtain ⟨x, part, hedit, hpart, hx⟩ := servePortEdit_base spec servePort
    ["vllm", "serve"] (by decide) config.modelName
    (["--gpu-memory-utilization", "0.9"] ++ tpFlag .vllm :: toString tp ::
      profileFlags .vllm config.profile)
  have hcmd : servePortEdit spec servePort
      (vllmBase config.modelName tp ++ profileFlags .vllm config.profile) = _ := hedit
  have hname := nameOk_iff spec hx
  rw [hengine] at hname
  rw [hcmd]
  rcases widenEdit_base .vllm spec tp ["vllm", "serve"]
    ["--gpu-memory-utilization", "0.9"] (by decide) (hpart.tpFlag_notMem .vllm) (by decide)
    x (toString tp) (profileFlags .vllm config.profile) with ⟨hok, heq⟩ | ⟨⟨hmode, hbad⟩, heq⟩
  · rw [heq, htp, ← toString_tensorSize]
    set p := (tpFlag .vllm, toString (tensorSize config spec))
    obtain ⟨b₁, h₁, ho₁⟩ := hpart.only p ("--gpu-memory-utilization" :: "0.9" :: p.1 :: p.2 ::
      (profileFlags .vllm config.profile ++ flags))
    obtain ⟨b₂, h₂, ho₂⟩ := only_profileFlags .vllm config.profile p flags
    refine ⟨b₁ ++ ("--gpu-memory-utilization", "0.9") :: p :: b₂, ?_, ?_, ?_⟩
    · simp only [List.cons_append, List.nil_append, List.append_assoc, commandOptions_cons]
      rw [h₁, optionPairs_cons, optionPairs_cons, h₂]
    · rw [hengine]
      exact fun _ => ⟨List.mem_append_right _ (List.mem_cons_of_mem _ List.mem_cons_self),
        ho₁.append (ho₂.self.cons hutil)⟩
    · exact fun hno => absurd (hname.mp hok) hno
  · rw [heq]
    set p := (tpFlag .vllm, toString tp)
    obtain ⟨b₁, h₁, ho₁⟩ := hpart.only_set (tp * max 1 spec.worldSize)
      "--gpu-memory-utilization" "0.9" (p := p) (fun htop => absurd htop hutil)
      (p.1 :: p.2 :: (profileFlags .vllm config.profile ++ flags))
    obtain ⟨b₂, h₂, ho₂⟩ := only_profileFlags .vllm config.profile p flags
    refine ⟨b₁ ++ p :: b₂, ?_, ?_, ?_⟩
    · simp only [List.cons_append, List.nil_append, commandOptions_cons]
      rw [← List.set_append_left _ _ (by simp)]
      simp only [List.cons_append, List.append_assoc]
      rw [h₁, optionPairs_cons, h₂]
    · exact fun hok => absurd hbad (hname.mpr hok hmode)
    · rw [hengine]
      exact fun _ => ho₁.append ho₂.self

/-- The options of a command for SGLang. -/
theorem commandOptions_sglang (hengine : config.engine = .sglang) (flags : List String) :
    ∃ before, commandOptions (widenEdit .sglang spec (max 1 config.gpuIndexes.length)
        (servePortEdit spec servePort (sglangBase config.modelName
          (max 1 config.gpuIndexes.length) ++ profileFlags .sglang config.profile)) ++ flags) =
        before ++ optionPairs flags ∧ SizeFirst config spec before := by
  set tp := max 1 config.gpuIndexes.length with htp
  have hpath : "--model-path" ∉ topologyFlags := by decide
  have hmem : "--mem-fraction-static" ∉ topologyFlags := by decide
  obtain ⟨x, part, hedit, hpart, hx⟩ := servePortEdit_base spec servePort
    ["python3", "-m", "sglang.launch_server", "--model-path"] (by decide) config.modelName
    ([] ++ tpFlag .sglang :: toString tp :: "--mem-fraction-static" :: "0.85" ::
      profileFlags .sglang config.profile)
  have hcmd : servePortEdit spec servePort
      (sglangBase config.modelName tp ++ profileFlags .sglang config.profile) = _ := hedit
  have hname := nameOk_iff spec hx
  rw [hengine] at hname
  rw [hcmd]
  rcases widenEdit_base .sglang spec tp
    ["python3", "-m", "sglang.launch_server", "--model-path"] [] (by decide)
    (hpart.tpFlag_notMem .sglang) (by decide) x (toString tp)
    ("--mem-fraction-static" :: "0.85" :: profileFlags .sglang config.profile) with
    ⟨hok, heq⟩ | ⟨⟨hmode, hbad⟩, heq⟩
  · rw [heq, htp, ← toString_tensorSize]
    set p := (tpFlag .sglang, toString (tensorSize config spec))
    obtain ⟨b₁, h₁, ho₁⟩ := hpart.only p (p.1 :: p.2 :: "--mem-fraction-static" :: "0.85" ::
      (profileFlags .sglang config.profile ++ flags))
    obtain ⟨b₂, h₂, ho₂⟩ := only_profileFlags .sglang config.profile p flags
    refine ⟨("--model-path", x) :: (b₁ ++ p :: ("--mem-fraction-static", "0.85") :: b₂), ?_, ?_, ?_⟩
    · simp only [List.cons_append, List.nil_append, List.append_assoc, commandOptions_cons]
      rw [optionPairs_cons, h₁, optionPairs_cons, optionPairs_cons, h₂]
    · rw [hengine]
      exact fun _ => ⟨List.mem_cons_of_mem _ (List.mem_append_right _ List.mem_cons_self),
        (ho₁.append (ho₂.cons hmem).self).cons hpath⟩
    · exact fun hno => absurd (hname.mp hok) hno
  · rw [heq]
    set p := (tpFlag .sglang, toString tp)
    obtain ⟨b₁, h₁, ho₁⟩ := hpart.only_set (tp * max 1 spec.worldSize) p.1 p.2 (p := p)
      (fun _ => rfl)
      ("--mem-fraction-static" :: "0.85" :: (profileFlags .sglang config.profile ++ flags))
    obtain ⟨b₂, h₂, ho₂⟩ := only_profileFlags .sglang config.profile p flags
    refine ⟨("--model-path", x) :: (b₁ ++ ("--mem-fraction-static", "0.85") :: b₂), ?_, ?_, ?_⟩
    · simp only [List.cons_append, List.nil_append, commandOptions_cons]
      rw [optionPairs_cons, ← List.set_append_left _ _ (by simp)]
      simp only [List.cons_append, List.append_assoc]
      rw [h₁, optionPairs_cons, h₂]
    · exact fun hok => absurd hbad (hname.mpr hok hmode)
    · rw [hengine]
      exact fun _ => (ho₁.append (ho₂.cons hmem)).cons hpath

variable (config spec servePort) in
/-- **The options of a rank's command**: the tensor-parallel size among others, and then
those of the topology. -/
theorem commandOptions_buildCommand : ∃ before,
    commandOptions (buildCommand config (some spec) servePort) = before ++
        optionPairs (multinodeFlags config.engine spec (max 1 config.gpuIndexes.length)) ∧
      SizeFirst config spec before := by
  unfold buildCommand
  simp only
  cases hengine : config.engine with
  | vllm => exact commandOptions_vllm hengine _
  | sglang => exact commandOptions_sglang hengine _

/-! ### What an engine reads of the topology -/

/-- The last option of a name, of those of the topology or else of those before. -/
theorem optionValue_eq {command flags : List String} {before : List (String × String)}
    (h : commandOptions command = before ++ optionPairs flags) (flag : String) :
    optionValue command flag = (((optionPairs flags).reverse.find? (·.1 = flag)).or
      (before.reverse.find? (·.1 = flag))).map (·.2) := by
  rw [optionValue, h, List.reverse_append, List.find?_append]

theorem find?_of_only {before : List (String × String)} {p : String × String} (h : Only before p)
    {flag : String} (htop : flag ∈ topologyFlags) :
    before.reverse.find? (·.1 = flag) = none ∨ before.reverse.find? (·.1 = flag) = some p := by
  cases hfind : before.reverse.find? (·.1 = flag) with
  | none => exact Or.inl rfl
  | some q =>
    have hq : q.1 = flag := by simpa using List.find?_some hfind
    have hmem := List.mem_reverse.mp (List.mem_of_find?_eq_some hfind)
    rw [h q hmem (hq ▸ htop)]
    exact Or.inr rfl

/-- No other option of the topology stands before. -/
theorem find?_of_only_ne {before : List (String × String)} {p : String × String}
    (h : Only before p) {flag : String} (htop : flag ∈ topologyFlags) (hne : p.1 ≠ flag) :
    before.reverse.find? (·.1 = flag) = none := by
  rcases find?_of_only h htop with hnone | hsome
  · exact hnone
  · have hp := List.find?_some hsome
    exact absurd (by simpa using hp) hne

theorem SizeFirst.only {before : List (String × String)} (h : SizeFirst config spec before) :
    ∃ v, Only before (tpFlag config.engine, v) := by
  by_cases hname : NameOk config spec
  · exact ⟨_, (h.ok hname).2⟩
  · exact ⟨_, h.taken hname⟩

/-- Options of the topology other than the tensor-parallel size are those that are appended. -/
theorem optionValue_topology {flag : String} (htop : flag ∈ topologyFlags)
    (hne : tpFlag config.engine ≠ flag) :
    optionValue (buildCommand config (some spec) servePort) flag =
      ((optionPairs (multinodeFlags config.engine spec
        (max 1 config.gpuIndexes.length))).reverse.find? (·.1 = flag)).map (·.2) := by
  obtain ⟨before, hopts, hsize⟩ := commandOptions_buildCommand config spec servePort
  obtain ⟨v, honly⟩ := hsize.only
  rw [optionValue_eq hopts, find?_of_only_ne honly htop hne, Option.or_none]

theorem optionValue_nnodes : optionValue (buildCommand config (some spec) servePort) "--nnodes" =
    some (toString (max 1 spec.worldSize)) := by
  rw [optionValue_topology (by decide) (by cases config.engine <;> decide)]
  unfold multinodeFlags
  cases config.engine <;> by_cases h : spec.mode = .tp <;> simp [h, optionPairs]

theorem optionValue_nodeRank :
    optionValue (buildCommand config (some spec) servePort) "--node-rank" =
      some (toString spec.nodeRank) := by
  rw [optionValue_topology (by decide) (by cases config.engine <;> decide)]
  unfold multinodeFlags
  cases config.engine <;> by_cases h : spec.mode = .tp <;> simp [h, optionPairs]

/-- Pipeline stages span the ranks in every mode but one. -/
theorem pipelineSize_buildCommand :
    sizeOption (buildCommand config (some spec) servePort) "--pipeline-parallel-size" =
      if spec.mode = .tp then 1 else max 1 spec.worldSize := by
  rw [sizeOption, optionValue_topology (by decide) (by cases config.engine <;> decide)]
  unfold multinodeFlags
  cases config.engine <;> by_cases h : spec.mode = .tp <;>
    simp [h, optionPairs, -Nat.toString_eq_repr, Text.digitsValue_toString]

/-- The master is the one of the spec. -/
theorem masterOf_buildCommand :
    masterOf config.engine (buildCommand config (some spec) servePort) =
      some (spec.masterHost, toString spec.masterPort) := by
  cases hengine : config.engine with
  | vllm =>
    have haddr : optionValue (buildCommand config (some spec) servePort) "--master-addr" =
        some spec.masterHost := by
      rw [optionValue_topology (by decide) (by rw [hengine]; decide), hengine]
      unfold multinodeFlags
      by_cases h : spec.mode = .tp <;> simp [h, optionPairs]
    have hport : optionValue (buildCommand config (some spec) servePort) "--master-port" =
        some (toString spec.masterPort) := by
      rw [optionValue_topology (by decide) (by rw [hengine]; decide), hengine]
      unfold multinodeFlags
      by_cases h : spec.mode = .tp <;> simp [h, optionPairs]
    simp only [masterOf, haddr, hport, Option.bind_some, Option.map_some]
  | sglang =>
    have haddr : optionValue (buildCommand config (some spec) servePort) "--dist-init-addr" =
        some (spec.masterHost ++ ":" ++ toString spec.masterPort) := by
      rw [optionValue_topology (by decide) (by rw [hengine]; decide), hengine]
      unfold multinodeFlags
      by_cases h : spec.mode = .tp <;> simp [h, optionPairs]
    have hcolon : ':' ∉ (toString spec.masterPort).toList :=
      fun h => absurd (Text.isDigit_of_mem_toString h) (by decide)
    have hsplit : (spec.masterHost ++ ":" ++ toString spec.masterPort).toList =
        spec.masterHost.toList ++ ':' :: (toString spec.masterPort).toList := by
      simp
    simp only [masterOf, haddr, Option.bind_some, hsplit, Text.rpartition_append _ hcolon,
      Option.map_some, String.ofList_toList]

/-- The tensor-parallel size is not among the options of the topology. -/
theorem find?_tpFlag_multinodeFlags (tp : ℕ) :
    (optionPairs (multinodeFlags config.engine spec tp)).reverse.find?
      (·.1 = tpFlag config.engine) = none := by
  unfold multinodeFlags tpFlag
  cases config.engine <;> by_cases h : spec.mode = .tp <;> simp [h, optionPairs]

theorem tensorSize_buildCommand (h : NameOk config spec) :
    sizeOption (buildCommand config (some spec) servePort) (tpFlag config.engine) =
      tensorSize config spec := by
  obtain ⟨before, hopts, hsize⟩ := commandOptions_buildCommand config spec servePort
  obtain ⟨hmem, honly⟩ := hsize.ok h
  rw [sizeOption, optionValue_eq hopts, find?_tpFlag_multinodeFlags, Option.none_or]
  rcases find?_of_only honly (tpFlag_mem config.engine) with hnone | hsome
  · have := List.find?_eq_none.mp hnone _ (List.mem_reverse.mpr hmem)
    simp at this
  · rw [hsome, Option.map_some, Option.map_some, Text.digitsValue_toString, Option.getD_some]

/-- For a model that is taken for the option the size is not widened. -/
theorem tensorSize_taken (h : ¬ NameOk config spec) (hgpu : config.gpuIndexes.length = 1) :
    sizeOption (buildCommand config (some spec) servePort) (tpFlag config.engine) = 1 := by
  obtain ⟨before, hopts, hsize⟩ := commandOptions_buildCommand config spec servePort
  rw [sizeOption, optionValue_eq hopts, find?_tpFlag_multinodeFlags, Option.none_or]
  rcases find?_of_only (hsize.taken h) (tpFlag_mem config.engine) with hnone | hsome
  · rw [hnone]
    rfl
  · rw [hsome, Option.map_some, Option.map_some, Text.digitsValue_toString, Option.getD_some, hgpu]
    rfl

end Shape

end Inferna
