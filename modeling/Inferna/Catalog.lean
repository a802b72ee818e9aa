import Inferna.Clusters
import Inferna.Listing
import Inferna.Lib.Race
import Inferna.Lib.Upsert

/-!
# The catalog

The table `models`: `seed_catalog` upserts the builtin entries of a fixture by name whenever a
server starts, admins add and delete models of their own, and deployments refer to both.  As
elsewhere a request is the place at which it waits for the database, and requests interleave; a
server that starts has none.

Who may send a request is the matter of `Inferna.Access`; the other checks of `deploy` are those
of `Inferna.Instances`.

## Main definitions

* `CatalogEntry`, `CatalogRow` — an entry of the fixture, and a row.
* `CatalogTables` — models and deployments, with the keys of `models` as fields.
* `seedCatalog` — `seed_catalog`.
* `CatalogCall.advance`, `Catalog.step` — a request's steps, and all that may happen.
* `CatalogCall.Effect` — what a step of a request may do to the tables.

## Main results

* `models_seedCatalog_twice` — a second start with the same fixture changes no row.
* `effect_advance`, `catalog_run` — the steps of requests, and the rule for runs.
* `catalog_kept` — **what every interleaving keeps.**
* `sqlite_dangling` — without foreign keys a deployment may lose its model.
-/

namespace Inferna

open Run Upsert

/-! ### Rows -/

/-- The categories of `ck_models_category`. -/
inductive Category
  | llm
  | embedding
  | reranker
  | audio
  | multimodal
  deriving DecidableEq, Repr

def Category.text : Category → String
  | .llm => "llm"
  | .embedding => "embedding"
  | .reranker => "reranker"
  | .audio => "audio"
  | .multimodal => "multimodal"

/-- `CATEGORY_ENGINES`. -/
def Category.engines : Category → List Engine
  | .llm => [.vllm, .sglang]
  | .embedding => [.vllm, .sglang]
  | .multimodal => [.vllm, .sglang]
  | .reranker => [.sglang]
  | .audio => []

/-- An entry of `fixtures/catalog.json`; its `engines` are the column `supported_engines`. -/
structure CatalogEntry where
  name : String
  displayName : String
  category : Category
  description : Option String := none
  paramsB : Option ℚ := none
  vramRequiredMb : ℕ
  requiresHfToken : Bool := false
  license : Option String := none
  supportedEngines : List Engine
  deriving DecidableEq, Repr

/-- A row of `models`. -/
structure CatalogRow extends CatalogEntry where
  id : Uuid
  isBuiltin : Bool
  createdAt : ℕ
  deriving DecidableEq, Repr

/-- The row as the scheduler and the gateway read it. -/
def CatalogRow.model (m : CatalogRow) : Model where
  id := m.id
  name := m.name
  category := m.category.text
  vramRequiredMb := m.vramRequiredMb
  requiresHfToken := m.requiresHfToken
  supportedEngines := m.supportedEngines

/-- The columns of a row of `deployments` that concern the catalog. -/
structure DeployedModel where
  id : Uuid
  modelId : Uuid
  deriving DecidableEq, Repr

/-- The tables, and the last identifier handed out. -/
structure CatalogTables where
  models : List CatalogRow := []
  deployments : List DeployedModel := []
  lastUuid : Uuid := 0
  ids : (models.map (·.id)).Nodup := by decide
  /-- `models.name` is unique. -/
  names : (models.map (·.name)).Nodup := by decide
  model_le : ∀ m ∈ models, m.id ≤ lastUuid := by decide

namespace CatalogTables

variable (t : CatalogTables)

/-- `db.get(Model, id)`. -/
def findModel (id : Uuid) : Option CatalogRow := t.models.find? (·.id = id)

/-- `select(Model).where(Model.name == name)`. -/
def findByName (name : String) : Option CatalogRow := t.models.find? (·.name = name)

theorem newId_notMem : t.lastUuid + 1 ∉ t.models.map (·.id) := by
  intro hmem
  obtain ⟨m, hm, hid⟩ := List.mem_map.mp hmem
  have hle := t.model_le m hm
  rw [hid] at hle
  exact absurd hle (Nat.not_succ_le_self _)

/-- The row that an entry is written to. -/
def rewritten (e : CatalogEntry) (m : CatalogRow) : CatalogRow :=
  { m with toCatalogEntry := e, isBuiltin := true }

/-- The row of a new entry. -/
def newRow (e : CatalogEntry) (isBuiltin : Bool) (now : ℕ) : CatalogRow :=
  { e with id := t.lastUuid + 1, isBuiltin, createdAt := now }

/-- The body of the loop of `seed_catalog`: an entry is upserted by its name. -/
def seedEntry (now : ℕ) (e : CatalogEntry) : CatalogTables where
  models := upsert (·.name) e.name (rewritten e) (t.newRow e true now) t.models
  deployments := t.deployments
  lastUuid := t.lastUuid + 1
  ids := nodup_upsert_other (fun _ _ => rfl) (fun _ => t.newId_notMem) t.ids
  names := nodup_upsert (fun _ _ => rfl) rfl t.names
  model_le := by
    intro m hm
    rcases mem_upsert_iff.mp hm with ⟨hm, -⟩ | ⟨x, hx, -, rfl⟩ | ⟨-, rfl⟩
    · exact (t.model_le m hm).trans (Nat.le_succ _)
    · exact (t.model_le x hx).trans (Nat.le_succ _)
    · exact le_rfl

/-- `seed_catalog`. -/
def seedCatalog (now : ℕ) (fixture : List CatalogEntry) : CatalogTables :=
  fixture.foldl (fun t e => t.seedEntry now e) t

/-- Insert a model whose name is not taken. -/
def insertModel (e : CatalogEntry) (now : ℕ) (h : e.name ∉ t.models.map (·.name)) :
    CatalogTables where
  models := t.models ++ [t.newRow e false now]
  deployments := t.deployments
  lastUuid := t.lastUuid + 1
  ids := by
    rw [List.map_append, List.map_singleton, (List.perm_append_singleton _ _).nodup_iff]
    exact List.nodup_cons.mpr ⟨t.newId_notMem, t.ids⟩
  names := by
    rw [List.map_append, List.map_singleton, (List.perm_append_singleton _ _).nodup_iff]
    exact List.nodup_cons.mpr ⟨h, t.names⟩
  model_le := by
    intro m hm
    rcases List.mem_append.mp hm with hm | hm
    · exact (t.model_le m hm).trans (Nat.le_succ _)
    · rw [List.mem_singleton.mp hm]
      exact le_rfl

/-- `DELETE FROM models WHERE id = ?`. -/
def removeModel (id : Uuid) : CatalogTables where
  models := t.models.filter (·.id ≠ id)
  deployments := t.deployments
  lastUuid := t.lastUuid
  ids := (List.Sublist.map _ List.filter_sublist).nodup t.ids
  names := (List.Sublist.map _ List.filter_sublist).nodup t.names
  model_le := fun m hm => t.model_le m (List.mem_of_mem_filter hm)

/-- A new deployment of a model. -/
def insertDeployment (modelId : Uuid) : CatalogTables where
  models := t.models
  deployments := t.deployments ++ [⟨t.lastUuid + 1, modelId⟩]
  lastUuid := t.lastUuid + 1
  ids := t.ids
  names := t.names
  model_le := fun m hm => (t.model_le m hm).trans (Nat.le_succ _)

/-- `DELETE FROM deployments WHERE id = ?`. -/
def removeDeployment (id : Uuid) : CatalogTables :=
  { t with deployments := t.deployments.filter (·.id ≠ id) }

/-- Every deployment has its model. -/
def Integral : Prop := ∀ d ∈ t.deployments, ∃ m ∈ t.models, m.id = d.modelId

end CatalogTables

/-! ### Requests -/

/-- `ModelCreate`. -/
structure ModelCreate where
  hfRepoId : String
  displayName : Option String := none
  category : Category
  vramRequiredMb : ℕ
  requiresHfToken : Bool := false
  license : Option String := none
  description : Option String := none
  hfRepoId_bounds : 3 ≤ hfRepoId.length ∧ hfRepoId.length ≤ 255 := by decide
  displayName_bound : ∀ s ∈ displayName, s.length ≤ 255 := by decide
  vram_bounds : 256 ≤ vramRequiredMb ∧ vramRequiredMb ≤ 1000000 := by decide
  license_bound : ∀ s ∈ license, s.length ≤ 64 := by decide
  description_bound : ∀ s ∈ description, s.length ≤ 500 := by decide

/-- The name under which a model is created. -/
def ModelCreate.name (body : ModelCreate) : String :=
  String.ofList (Text.strip body.hfRepoId.toList)

/-- The columns that `create_model` writes. -/
def ModelCreate.entry (body : ModelCreate) : CatalogEntry where
  name := body.name
  displayName :=
    match body.displayName with
    | some s => if s = "" then body.name else s
    | none => body.name
  category := body.category
  description := body.description
  paramsB := none
  vramRequiredMb := body.vramRequiredMb
  requiresHfToken := body.requiresHfToken
  license := body.license
  supportedEngines := body.category.engines

/-- The requests that read or write the catalog. -/
inductive CatalogRequest
  | createModel (body : ModelCreate)
  | deleteModel (modelId : Uuid)
  | deploy (modelId : Uuid) (engine : Engine)
  | deleteDeployment (deploymentId : Uuid)

/-- The body of an answer. -/
inductive CatalogAnswer
  | model (row : CatalogRow)
  | deployed
  | noContent
  deriving DecidableEq, Repr

/-- Where a request waits. -/
inductive CatalogWait
  /-- For the row that it looks up first. -/
  | lookup
  /-- `create_model`, for its commit. -/
  | insert
  /-- For its refresh. -/
  | refresh (id : Uuid)
  /-- `delete_model`, for a deployment of the model. -/
  | guard
  /-- For the deployments that the unit of work loads. -/
  | children
  /-- For its `DELETE`. -/
  | remove
  /-- `deploy` and `delete_deployment`, for their commits. -/
  | commit
  | answered (result : Except ServerError CatalogAnswer)

/-- An answer with an error. -/
def CatalogWait.refused (status : ℕ) (detail : String) : CatalogWait :=
  .answered (.error (.http status detail))

/-- An exception that nothing handles. -/
def CatalogWait.failed : CatalogWait := .refused 500 "Internal Server Error"

/-- A request and where it waits. -/
structure CatalogCall where
  request : CatalogRequest
  wait : CatalogWait := .lookup

namespace CatalogCall

/-- Where a request goes on. -/
def goto (c : CatalogCall) (w : CatalogWait) : CatalogCall := { c with wait := w }

/-- `create_model`. -/
def createModel (now : ℕ) (t : CatalogTables) (body : ModelCreate) :
    CatalogWait → CatalogTables × CatalogWait
  | .lookup =>
    match t.findByName body.name with
    | some existing =>
      if existing.isBuiltin then (t, .refused 409 "name is reserved by a builtin model")
      else (t, .refused 409 "model already exists")
    | none => (t, .insert)
  | .insert =>
    -- two admins at once: the unique index wins the race
    if h : body.entry.name ∈ t.models.map (·.name) then (t, .refused 409 "model already exists")
    else (t.insertModel body.entry now h, .refresh (t.lastUuid + 1))
  | .refresh id =>
    match t.findModel id with
    | none => (t, .failed)
    | some row => (t, .answered (.ok (.model row)))
  | w => (t, w)

/-- `delete_model`.  `Model.deployments` is a plain relationship, so that the unit of work clears
`deployments.model_id`, which takes no null; the foreign key is `ON DELETE RESTRICT`. -/
def deleteModel (b : Backend) (t : CatalogTables) (modelId : Uuid) :
    CatalogWait → CatalogTables × CatalogWait
  | .lookup =>
    match t.findModel modelId with
    | none => (t, .refused 404 "model not found")
    | some model =>
      if model.isBuiltin then (t, .refused 409 "builtin models cannot be deleted") else (t, .guard)
  | .guard =>
    if t.deployments.any (·.modelId = modelId) then (t, .refused 409 "model has deployments")
    else (t, .children)
  | .children =>
    if t.deployments.any (·.modelId = modelId) then (t, .failed) else (t, .remove)
  | .remove =>
    if b.enforcesForeignKeys ∧ t.deployments.any (·.modelId = modelId) then (t, .failed)
    else (t.removeModel modelId, .answered (.ok .noContent))
  | w => (t, w)

/-- `deploy`, for what it has to do with the catalog. -/
def deploy (b : Backend) (t : CatalogTables) (modelId : Uuid) (engine : Engine) :
    CatalogWait → CatalogTables × CatalogWait
  | .lookup =>
    match t.findModel modelId with
    | none => (t, .refused 404 "model not found")
    | some model =>
      if engine ∉ model.supportedEngines then
        (t, .refused 400 ("engine '" ++ engine.text ++ "' does not support category '" ++
          model.category.text ++ "'"))
      else (t, .commit)
  | .commit =>
    if b.enforcesForeignKeys ∧ t.findModel modelId = none then (t, .failed)
    else (t.insertDeployment modelId, .answered (.ok .deployed))
  | w => (t, w)

/-- `delete_deployment`. -/
def deleteDeployment (t : CatalogTables) (deploymentId : Uuid) :
    CatalogWait → CatalogTables × CatalogWait
  | .lookup =>
    if t.deployments.any (·.id = deploymentId) then (t, .commit)
    else (t, .refused 404 "deployment not found")
  | .commit => (t.removeDeployment deploymentId, .answered (.ok .noContent))
  | w => (t, w)

/-- One step of a request: from where it waits to its next wait. -/
def advance (b : Backend) (now : ℕ) (t : CatalogTables) (c : CatalogCall) :
    CatalogTables × CatalogCall :=
  let next :=
    match c.request with
    | .createModel body => createModel now t body c.wait
    | .deleteModel modelId => deleteModel b t modelId c.wait
    | .deploy modelId engine => deploy b t modelId engine c.wait
    | .deleteDeployment deploymentId => deleteDeployment t deploymentId c.wait
  (next.1, c.goto next.2)

end CatalogCall

/-- What may happen at a time: a server starts with a fixture, or an event of a request. -/
inductive CatalogEvent
  | boot (fixture : List CatalogEntry)
  | request (e : RaceEvent CatalogRequest)

/-- The tables and the requests. -/
abbrev Catalog := Race CatalogTables CatalogCall

/-- One event.  A server that starts has no requests. -/
def Catalog.step (b : Backend) (c : Catalog) : ℕ × CatalogEvent → Catalog
  | (now, .boot fixture) => ⟨c.shared.seedCatalog now fixture, []⟩
  | (now, .request e) =>
    Race.step (fun req => { request := req }) (CatalogCall.advance b now) c e

/-! ### Seeding -/

namespace CatalogTables

variable {t : CatalogTables} {now : ℕ} {fixture : List CatalogEntry}

/-- An entry takes its row, or a new one, and leaves the others alone. -/
theorem mem_seedEntry_iff {e : CatalogEntry} {y : CatalogRow} :
    y ∈ (t.seedEntry now e).models ↔ (y ∈ t.models ∧ y.name ≠ e.name) ∨
      (∃ x ∈ t.models, x.name = e.name ∧ rewritten e x = y) ∨
        (e.name ∉ t.models.map (·.name) ∧ y = t.newRow e true now) :=
  mem_upsert_iff

/-- A row that the fixture does not name stays as it is. -/
theorem mem_seedCatalog_of_notMem : ∀ {fixture : List CatalogEntry} {t : CatalogTables}
    {m : CatalogRow}, m.name ∉ fixture.map (·.name) →
      (m ∈ (t.seedCatalog now fixture).models ↔ m ∈ t.models) := by
  intro fixture
  induction fixture with
  | nil => exact fun _ => Iff.rfl
  | cons e fixture ih =>
    intro t m hno
    rw [List.map_cons, List.mem_cons, not_or] at hno
    refine (@ih (t.seedEntry now e) m hno.2).trans ?_
    rw [mem_seedEntry_iff]
    constructor
    · rintro (⟨hm, -⟩ | ⟨x, -, hname, rfl⟩ | ⟨-, rfl⟩)
      · exact hm
      · exact absurd rfl hno.1
      · exact absurd rfl hno.1
    · exact fun hm => Or.inl ⟨hm, hno.1⟩

/-- **Every row keeps its identity**, and a builtin one stays builtin. -/
theorem kept_seedCatalog : ∀ {fixture : List CatalogEntry} {t : CatalogTables} {m : CatalogRow},
    m ∈ t.models → ∃ m' ∈ (t.seedCatalog now fixture).models, m'.id = m.id ∧ m'.name = m.name ∧
      (m.isBuiltin = true → m'.isBuiltin = true) := by
  intro fixture
  induction fixture with
  | nil => exact fun hm => ⟨_, hm, rfl, rfl, fun hb => hb⟩
  | cons e fixture ih =>
    intro t m hm
    have hone : ∃ x ∈ (t.seedEntry now e).models, x.id = m.id ∧ x.name = m.name ∧
        (m.isBuiltin = true → x.isBuiltin = true) := by
      by_cases hname : m.name = e.name
      · exact ⟨rewritten e m, mem_seedEntry_iff.mpr (Or.inr (Or.inl ⟨m, hm, hname, rfl⟩)), rfl,
          hname.symm, fun _ => rfl⟩
      · exact ⟨m, mem_seedEntry_iff.mpr (Or.inl ⟨hm, hname⟩), rfl, rfl, fun hb => hb⟩
    obtain ⟨x, hx, hid, hname, hbuiltin⟩ := hone
    obtain ⟨m', hm', hid', hname', hbuiltin'⟩ := ih hx
    exact ⟨m', hm', hid'.trans hid, hname'.trans hname, fun hb => hbuiltin' (hbuiltin hb)⟩

/-- A row that is there afterwards was there, or is named in the fixture. -/
theorem origin_seedCatalog : ∀ {fixture : List CatalogEntry} {t : CatalogTables} {m : CatalogRow},
    m ∈ (t.seedCatalog now fixture).models →
      m ∈ t.models ∨ m.isBuiltin = true ∧ m.name ∈ fixture.map (·.name) := by
  intro fixture
  induction fixture with
  | nil => exact fun hm => Or.inl hm
  | cons e fixture ih =>
    intro t m hm
    rw [List.map_cons, List.mem_cons]
    rcases @ih (t.seedEntry now e) m hm with hm | ⟨hb, hname⟩
    · rcases mem_seedEntry_iff.mp hm with ⟨hm, -⟩ | ⟨x, -, -, rfl⟩ | ⟨-, rfl⟩
      · exact Or.inl hm
      · exact Or.inr ⟨rfl, Or.inl rfl⟩
      · exact Or.inr ⟨rfl, Or.inl rfl⟩
    · exact Or.inr ⟨hb, Or.inr hname⟩

/-- **The last entry for a name is what the row reads.** -/
theorem entry_seedCatalog {pre post : List CatalogEntry} {e : CatalogEntry}
    (hlast : e.name ∉ post.map (·.name)) :
    ∃ m ∈ (t.seedCatalog now (pre ++ e :: post)).models, m.toCatalogEntry = e ∧
      m.isBuiltin = true := by
  have hsplit : t.seedCatalog now (pre ++ e :: post) =
      ((t.seedCatalog now pre).seedEntry now e).seedCatalog now post := by
    unfold seedCatalog
    rw [List.foldl_append, List.foldl_cons]
  obtain ⟨m, hm, hentry, hb⟩ : ∃ m ∈ ((t.seedCatalog now pre).seedEntry now e).models,
      m.toCatalogEntry = e ∧ m.isBuiltin = true :=
    exists_upsert (P := fun m : CatalogRow => m.toCatalogEntry = e ∧ m.isBuiltin = true)
      (fun _ _ => ⟨rfl, rfl⟩) ⟨rfl, rfl⟩
  refine ⟨m, ?_, hentry, hb⟩
  rw [hsplit]
  exact (mem_seedCatalog_of_notMem (by rw [hentry]; exact hlast)).mpr hm

/-- What the entries of a fixture make of a row. -/
def settle (fixture : List CatalogEntry) (m : CatalogRow) : CatalogRow :=
  fixture.foldl (fun m e => if m.name = e.name then rewritten e m else m) m

theorem name_settle : ∀ {fixture : List CatalogEntry} {m : CatalogRow},
    (settle fixture m).name = m.name := by
  intro fixture
  induction fixture with
  | nil => exact rfl
  | cons e fixture ih =>
    intro m
    refine (@ih (if m.name = e.name then rewritten e m else m)).trans ?_
    split
    · rename_i hname
      exact hname.symm
    · rfl

/-- Where every name is taken, seeding settles each row in its place. -/
theorem models_seedCatalog : ∀ {fixture : List CatalogEntry} {t : CatalogTables},
    (∀ e ∈ fixture, e.name ∈ t.models.map (·.name)) →
      (t.seedCatalog now fixture).models = t.models.map (settle fixture) := by
  intro fixture
  induction fixture with
  | nil => exact fun _ => (List.map_id _).symm
  | cons e fixture ih =>
    intro t htaken
    have hone : (t.seedEntry now e).models =
        t.models.map fun m => if m.name = e.name then rewritten e m else m :=
      if_pos (htaken e List.mem_cons_self)
    have hnames : (t.seedEntry now e).models.map (·.name) = t.models.map (·.name) := by
      rw [hone, List.map_map]
      refine List.map_congr_left fun m _ => ?_
      show (if m.name = e.name then rewritten e m else m).name = m.name
      split
      · rename_i hname
        exact hname.symm
      · rfl
    have hrest := @ih (t.seedEntry now e) fun e' he' =>
      hnames ▸ htaken e' (List.mem_cons_of_mem e he')
    refine hrest.trans ?_
    rw [hone, List.map_map]
    rfl

/-- A row that the fixture does not name is settled. -/
theorem settle_of_notMem : ∀ {fixture : List CatalogEntry} {m : CatalogRow},
    m.name ∉ fixture.map (·.name) → settle fixture m = m := by
  intro fixture
  induction fixture with
  | nil => exact fun _ => rfl
  | cons e fixture ih =>
    intro m hno
    rw [List.map_cons, List.mem_cons, not_or] at hno
    show settle fixture (if m.name = e.name then rewritten e m else m) = m
    rw [if_neg hno.1]
    exact ih hno.2

/-- A row that reads the last entry for its name is settled. -/
theorem settle_of_entry {pre post : List CatalogEntry} {e : CatalogEntry} {m : CatalogRow}
    (hlast : e.name ∉ post.map (·.name)) (hentry : m.toCatalogEntry = e)
    (hb : m.isBuiltin = true) : settle (pre ++ e :: post) m = m := by
  have hpre : ∀ {pre : List CatalogEntry} {x : CatalogRow}, x.id = m.id ∧ x.createdAt = m.createdAt →
      (settle pre x).id = m.id ∧ (settle pre x).createdAt = m.createdAt := by
    intro pre
    induction pre with
    | nil => exact fun h => h
    | cons e pre ih =>
      intro x hx
      refine @ih (if x.name = e.name then rewritten e x else x) ?_
      split <;> exact hx
  obtain ⟨hid, hcreated⟩ := @hpre pre m ⟨rfl, rfl⟩
  have hname : (settle pre m).name = e.name := name_settle.trans (hentry ▸ rfl)
  have hmid : rewritten e (settle pre m) = m := by
    unfold rewritten
    rw [hid, hcreated, ← hentry, ← hb]
  unfold settle at hname hmid ⊢
  rw [List.foldl_append, List.foldl_cons, if_pos hname, hmid]
  exact settle_of_notMem (hentry ▸ hlast)

/-- **Starting again with the same fixture changes no row.** -/
theorem models_seedCatalog_twice (t : CatalogTables) (now now' : ℕ)
    (fixture : List CatalogEntry) :
    ((t.seedCatalog now fixture).seedCatalog now' fixture).models =
      (t.seedCatalog now fixture).models := by
  -- each name of the fixture has a last entry
  have hlast : ∀ (fixture : List CatalogEntry), ∀ n ∈ fixture.map (·.name), ∃ pre e post,
      fixture = pre ++ e :: post ∧ e.name = n ∧ n ∉ post.map (·.name) := by
    intro fixture
    induction fixture with
    | nil => exact fun n hn => absurd hn List.not_mem_nil
    | cons e fixture ih =>
      intro n hn
      by_cases hrest : n ∈ fixture.map (·.name)
      · obtain ⟨pre, e', post, rfl, hname, hno⟩ := ih n hrest
        exact ⟨e :: pre, e', post, rfl, hname, hno⟩
      · rw [List.map_cons, List.mem_cons] at hn
        exact ⟨[], e, fixture, rfl, (hn.resolve_right hrest).symm, hrest⟩
  have htaken : ∀ e ∈ fixture, e.name ∈ (t.seedCatalog now fixture).models.map (·.name) := by
    intro e he
    obtain ⟨pre, e', post, hfix, hname, hno⟩ := hlast fixture e.name (List.mem_map_of_mem he)
    obtain ⟨m, hm, hentry, -⟩ := @entry_seedCatalog t now pre post e' (hname ▸ hno)
    rw [hfix]
    exact List.mem_map.mpr ⟨m, hm, by rw [hentry, hname]⟩
  rw [models_seedCatalog htaken]
  refine (List.map_congr_left fun m hm => ?_).trans (List.map_id _)
  by_cases hname : m.name ∈ fixture.map (·.name)
  · obtain ⟨pre, e, post, rfl, he, hno⟩ := hlast fixture m.name hname
    obtain ⟨x, hx, hentry, hb⟩ := @entry_seedCatalog t now pre post e (he ▸ hno)
    -- names are unique, so it is this row that reads the entry
    have hsame : x.name = m.name := by rw [hentry, he]
    obtain rfl : x = m := List.inj_on_of_nodup_map (CatalogTables.names _) hx hm hsame
    exact settle_of_entry (he ▸ hno) hentry hb
  · exact settle_of_notMem hname

end CatalogTables

/-! ### What a step does to the tables -/

/-- What a step of a request may do to the tables. -/
inductive CatalogCall.Effect (b : Backend) (now : ℕ) (t : CatalogTables) (c : CatalogCall) :
    CatalogTables → Prop
  | same : Effect b now t c t
  | created (body : ModelCreate) (hreq : c.request = .createModel body)
      (h : body.entry.name ∉ t.models.map (·.name)) : Effect b now t c (t.insertModel body.entry now h)
  | removed (modelId : Uuid) (hreq : c.request = .deleteModel modelId) (hwait : c.wait = .remove)
      (hfk : b.enforcesForeignKeys = true → ∀ d ∈ t.deployments, d.modelId ≠ modelId) :
      Effect b now t c (t.removeModel modelId)
  | deployed (modelId : Uuid)
      (hfk : b.enforcesForeignKeys = true → ∃ m ∈ t.models, m.id = modelId) :
      Effect b now t c (t.insertDeployment modelId)
  | undeployed (deploymentId : Uuid) : Effect b now t c (t.removeDeployment deploymentId)

/-- The request is a deletion of the model past its first check. -/
def CatalogCall.Deleting (c : CatalogCall) (modelId : Uuid) : Prop :=
  c.request = .deleteModel modelId ∧ (c.wait = .guard ∨ c.wait = .children ∨ c.wait = .remove)

theorem exists_of_findModel {t : CatalogTables} {id : Uuid} {m : CatalogRow}
    (h : t.findModel id = some m) : m ∈ t.models ∧ m.id = id :=
  ⟨List.mem_of_find?_eq_some h, by simpa using List.find?_some h⟩

theorem findModel_eq_none {t : CatalogTables} {id : Uuid} (h : t.findModel id ≠ none) :
    ∃ m ∈ t.models, m.id = id := by
  obtain ⟨m, hm⟩ := Option.ne_none_iff_exists'.mp h
  exact ⟨m, exists_of_findModel hm⟩

/-- **What an advance does**: to the tables one of the effects, and a deletion gets past its
first check for a model that is not builtin. -/
theorem effect_advance (b : Backend) (now : ℕ) (t : CatalogTables) (c : CatalogCall) :
    c.Effect b now t (c.advance b now t).1 ∧ (c.advance b now t).2.request = c.request ∧
      ∀ modelId, (c.advance b now t).2.Deleting modelId →
        c.Deleting modelId ∨ ∃ m ∈ t.models, m.id = modelId ∧ m.isBuiltin = false := by
  obtain ⟨request, wait⟩ := c
  refine ⟨?_, rfl, ?_⟩
  · cases request with
    | createModel body =>
      unfold CatalogCall.advance CatalogCall.createModel
      simp only
      split
      · split
        · split <;> exact .same
        · exact .same
      · split
        · exact .same
        · rename_i h
          exact .created body rfl h
      · split <;> exact .same
      · exact .same
    | deleteModel modelId =>
      unfold CatalogCall.advance CatalogCall.deleteModel
      simp only
      split
      · split
        · exact .same
        · split <;> exact .same
      · split <;> exact .same
      · split <;> exact .same
      · split
        · exact .same
        · rename_i hno
          refine .removed modelId rfl rfl fun hfk d hd hid => hno ⟨hfk, ?_⟩
          exact List.any_eq_true.mpr ⟨d, hd, decide_eq_true hid⟩
      · exact .same
    | deploy modelId engine =>
      unfold CatalogCall.advance CatalogCall.deploy
      simp only
      split
      · split
        · exact .same
        · split <;> exact .same
      · split
        · exact .same
        · rename_i hno
          exact .deployed modelId fun hfk => findModel_eq_none fun hnone => hno ⟨hfk, hnone⟩
      · exact .same
    | deleteDeployment deploymentId =>
      unfold CatalogCall.advance CatalogCall.deleteDeployment
      simp only
      split
      · split <;> exact .same
      · exact .undeployed deploymentId
      · exact .same
  · rintro modelId ⟨hreq, hwait⟩
    obtain rfl : request = .deleteModel modelId := hreq
    unfold CatalogCall.advance CatalogCall.deleteModel CatalogCall.goto at hwait
    cases wait with
    | lookup =>
      simp only at hwait
      split at hwait
      · simp [CatalogWait.refused] at hwait
      · rename_i m hfind
        split at hwait
        · simp [CatalogWait.refused] at hwait
        · rename_i hbuiltin
          obtain ⟨hm, hid⟩ := exists_of_findModel hfind
          exact Or.inr ⟨m, hm, hid, by simpa using hbuiltin⟩
    | guard => exact Or.inl ⟨rfl, Or.inl rfl⟩
    | children => exact Or.inl ⟨rfl, Or.inr (Or.inl rfl)⟩
    | remove => exact Or.inl ⟨rfl, Or.inr (Or.inr rfl)⟩
    | insert => simp at hwait
    | refresh id => simp at hwait
    | commit => simp at hwait
    | answered result => simp at hwait

/-- **What a step does**: the server starts, a request arrives, or one has its effect. -/
theorem catalog_step_cases (b : Backend) (c : Catalog) (a : ℕ × CatalogEvent) :
    (∃ fixture, a.2 = .boot fixture ∧ c.step b a = ⟨c.shared.seedCatalog a.1 fixture, []⟩) ∨
      (∃ req, a.2 = .request (.arrive req) ∧
        c.step b a = ⟨c.shared, c.requests ++ [{ request := req }]⟩) ∨
      c.step b a = c ∨
      ∃ k r, c.requests[k]? = some r ∧ r.Effect b a.1 c.shared (c.step b a).shared ∧
        (c.step b a).requests = c.requests.set k (r.advance b a.1 c.shared).2 := by
  obtain ⟨now, e⟩ := a
  cases e with
  | boot fixture => exact Or.inl ⟨fixture, rfl, rfl⟩
  | request e =>
    cases e with
    | arrive req => exact Or.inr (Or.inl ⟨req, rfl, rfl⟩)
    | advance k =>
      refine Or.inr (Or.inr ?_)
      unfold Catalog.step Race.step
      simp only
      cases hk : c.requests[k]? with
      | none => exact Or.inl rfl
      | some r => exact Or.inr ⟨k, r, hk, (effect_advance b now c.shared r).1, rfl⟩

/-! ### What every step keeps -/

/-- A deletion past its first check is not of a builtin model. -/
def SparesBuiltin (c : Catalog) : Prop :=
  ∀ r ∈ c.requests, ∀ modelId, r.Deleting modelId →
    ∀ m ∈ c.shared.models, m.id = modelId → m.isBuiltin = false

/-- No request makes a model builtin. -/
theorem CatalogCall.Effect.builtin {b : Backend} {now : ℕ} {t t' : CatalogTables} {c : CatalogCall}
    (h : c.Effect b now t t') {m : CatalogRow} (hm : m ∈ t'.models) (hb : m.isBuiltin = true) :
    m ∈ t.models := by
  cases h with
  | same => exact hm
  | created body hreq hname =>
    rcases List.mem_append.mp hm with hm | hm
    · exact hm
    · rw [List.mem_singleton.mp hm] at hb
      cases hb
  | removed modelId => exact List.mem_of_mem_filter hm
  | deployed modelId => exact hm
  | undeployed deploymentId => exact hm

/-- A row goes only with a deletion of it that waits for its `DELETE`. -/
theorem CatalogCall.Effect.kept {b : Backend} {now : ℕ} {t t' : CatalogTables} {c : CatalogCall}
    (h : c.Effect b now t t') {m : CatalogRow} (hm : m ∈ t.models) :
    m ∈ t'.models ∨ c.Deleting m.id := by
  cases h with
  | same => exact Or.inl hm
  | created body hreq hname => exact Or.inl (List.mem_append_left _ hm)
  | removed modelId hreq hwait =>
    by_cases hid : m.id = modelId
    · exact Or.inr ⟨hid ▸ hreq, Or.inr (Or.inr hwait)⟩
    · exact Or.inl (List.mem_filter.mpr ⟨hm, decide_eq_true hid⟩)
  | deployed modelId => exact Or.inl hm
  | undeployed deploymentId => exact Or.inl hm

/-- A row comes with a creation. -/
theorem CatalogCall.Effect.origin {b : Backend} {now : ℕ} {t t' : CatalogTables} {c : CatalogCall}
    (h : c.Effect b now t t') {m : CatalogRow} (hm : m ∈ t'.models) :
    m ∈ t.models ∨ ∃ body, c.request = .createModel body ∧ m.toCatalogEntry = body.entry ∧
      m.isBuiltin = false := by
  cases h with
  | same => exact Or.inl hm
  | created body hreq hname =>
    rcases List.mem_append.mp hm with hm | hm
    · exact Or.inl hm
    · rw [List.mem_singleton.mp hm]
      exact Or.inr ⟨body, hreq, rfl, rfl⟩
  | removed modelId => exact Or.inl (List.mem_of_mem_filter hm)
  | deployed modelId => exact Or.inl hm
  | undeployed deploymentId => exact Or.inl hm

/-- Where foreign keys are enforced, no deployment loses its model. -/
theorem CatalogCall.Effect.integral {b : Backend} (hb : b.enforcesForeignKeys = true) {now : ℕ}
    {t t' : CatalogTables} {c : CatalogCall} (h : c.Effect b now t t') (ht : t.Integral) :
    t'.Integral := by
  cases h with
  | same => exact ht
  | created body hreq hname =>
    intro d hd
    obtain ⟨m, hm, hid⟩ := ht d hd
    exact ⟨m, List.mem_append_left _ hm, hid⟩
  | removed modelId hreq hwait hfk =>
    intro d hd
    obtain ⟨m, hm, hid⟩ := ht d hd
    refine ⟨m, List.mem_filter.mpr ⟨hm, decide_eq_true fun hgone => ?_⟩, hid⟩
    exact hfk hb d hd (hid.symm.trans hgone)
  | deployed modelId hfk =>
    intro d hd
    rcases List.mem_append.mp hd with hd | hd
    · exact ht d hd
    · rw [List.mem_singleton.mp hd]
      exact hfk hb
  | undeployed deploymentId => exact fun d hd => ht d (List.mem_of_mem_filter hd)

theorem sparesBuiltin_step (b : Backend) (c : Catalog) (a : ℕ × CatalogEvent)
    (h : SparesBuiltin c) : SparesBuiltin (c.step b a) := by
  rcases catalog_step_cases b c a with ⟨fixture, -, heq⟩ | ⟨req, -, heq⟩ | heq |
    ⟨k, r, hk, heff, hreqs⟩
  · rw [heq]
    exact fun r hr => absurd hr List.not_mem_nil
  · rw [heq]
    intro r hr modelId hdel
    rcases List.mem_append.mp hr with hr | hr
    · exact h r hr modelId hdel
    · rw [List.mem_singleton.mp hr] at hdel
      rcases hdel.2 with hw | hw | hw <;> cases hw
  · rw [heq]
    exact h
  · intro r' hr' modelId hdel m hm hid
    by_contra hbuiltin
    rw [Bool.not_eq_false] at hbuiltin
    have hm₀ := heff.builtin hm hbuiltin
    have hspared : ∀ r'' ∈ c.requests, ¬ r''.Deleting modelId := by
      intro r'' hmem hdel'
      rw [h r'' hmem modelId hdel' m hm₀ hid] at hbuiltin
      cases hbuiltin
    rw [hreqs] at hr'
    rcases List.mem_or_eq_of_mem_set hr' with hr' | rfl
    · exact hspared r' hr' hdel
    · -- the request has just passed its first check
      rcases (effect_advance b a.1 c.shared r).2.2 modelId hdel with hdel' | ⟨x, hx, hxid, hcustom⟩
      · exact hspared r (List.mem_of_getElem? hk) hdel'
      · obtain rfl : x = m := List.inj_on_of_nodup_map c.shared.ids hx hm₀ (hxid.trans hid.symm)
        rw [hcustom] at hbuiltin
        cases hbuiltin

/-- Every request in flight has arrived. -/
def Arrived (as : List (ℕ × CatalogEvent)) (c : Catalog) : Prop :=
  ∀ r ∈ c.requests, ∃ now, (now, .request (.arrive r.request)) ∈ as

theorem arrived_step {as : List (ℕ × CatalogEvent)} (b : Backend) {c : Catalog}
    {a : ℕ × CatalogEvent} (ha : a ∈ as) (h : Arrived as c) : Arrived as (c.step b a) := by
  rcases catalog_step_cases b c a with ⟨fixture, -, heq⟩ | ⟨req, hreq, heq⟩ | heq |
    ⟨k, r, hk, -, hreqs⟩
  · rw [heq]
    exact fun r hr => absurd hr List.not_mem_nil
  · rw [heq]
    intro r hr
    rcases List.mem_append.mp hr with hr | hr
    · exact h r hr
    · rw [List.mem_singleton.mp hr]
      exact ⟨a.1, by rw [← hreq]; exact ha⟩
  · rw [heq]
    exact h
  · intro r' hr'
    rw [hreqs] at hr'
    rcases List.mem_or_eq_of_mem_set hr' with hr' | rfl
    · exact h r' hr'
    · rw [(effect_advance b a.1 c.shared r).2.1]
      exact h r (List.mem_of_getElem? hk)

/-! ### Whole runs -/

section Runs

variable {b : Backend} {t : CatalogTables} {as : List (ℕ × CatalogEvent)}

/-- The rule for runs of a server that has just started: a step may use that deletions spare
builtin models, and that the requests in flight have arrived. -/
theorem catalog_run {P : Catalog → Prop} (hP : P ⟨t, []⟩)
    (hstep : ∀ c a, a ∈ as → SparesBuiltin c → Arrived as c → P c → P (c.step b a)) :
    P (exec (Catalog.step b) ⟨t, []⟩ as) := by
  have hall : Conforms (Catalog.step b) (fun _ a => a ∈ as) ⟨t, []⟩ as :=
    conforms_of_forall fun a ha => ha
  refine (invariant_of_conforms (fun c => SparesBuiltin c ∧ Arrived as c ∧ P c) ?_ as _ ?_
    hall).2.2
  · intro c a h ha
    exact ⟨sparesBuiltin_step b c a h.1, arrived_step b ha h.2.1, hstep c a ha h.1 h.2.1 h.2.2⟩
  · exact ⟨fun r hr => absurd hr List.not_mem_nil, fun r hr => absurd hr List.not_mem_nil, hP⟩

/-- A builtin model stays, under its identifier and name. -/
theorem builtin_run {m : CatalogRow} (hm : m ∈ t.models) (hb : m.isBuiltin = true) :
    ∃ m' ∈ (exec (Catalog.step b) ⟨t, []⟩ as).shared.models,
      m'.id = m.id ∧ m'.name = m.name ∧ m'.isBuiltin = true := by
  refine catalog_run (P := fun c => ∃ m' ∈ c.shared.models, m'.id = m.id ∧ m'.name = m.name ∧
    m'.isBuiltin = true) ⟨m, hm, rfl, rfl, hb⟩ ?_
  rintro c a - hspares - ⟨m', hm', hid, hname, hbuiltin⟩
  rcases catalog_step_cases b c a with ⟨fixture, -, heq⟩ | ⟨req, -, heq⟩ | heq |
    ⟨k, r, hk, heff, -⟩
  · rw [heq]
    obtain ⟨x, hx, hxid, hxname, hxb⟩ := @CatalogTables.kept_seedCatalog a.1 fixture _ _ hm'
    exact ⟨x, hx, hxid.trans hid, hxname.trans hname, hxb hbuiltin⟩
  · rw [heq]
    exact ⟨m', hm', hid, hname, hbuiltin⟩
  · rw [heq]
    exact ⟨m', hm', hid, hname, hbuiltin⟩
  · rcases heff.kept hm' with hkept | hdel
    · exact ⟨m', hkept, hid, hname, hbuiltin⟩
    · rw [hspares r (List.mem_of_getElem? hk) _ hdel m' hm' rfl] at hbuiltin
      cases hbuiltin

/-- A row stays as it is unless a fixture names it, or it is a custom one and someone asks for
its deletion. -/
theorem row_run {m : CatalogRow} (hm : m ∈ t.models)
    (hdelete : m.isBuiltin = true ∨ ∀ now, (now, .request (.arrive (.deleteModel m.id))) ∉ as)
    (hboot : ∀ now fixture, (now, .boot fixture) ∈ as → m.name ∉ fixture.map (·.name)) :
    m ∈ (exec (Catalog.step b) ⟨t, []⟩ as).shared.models := by
  refine catalog_run (P := fun c => m ∈ c.shared.models) hm ?_
  intro c a ha hspares harrived hmc
  rcases catalog_step_cases b c a with ⟨fixture, hfix, heq⟩ | ⟨req, -, heq⟩ | heq |
    ⟨k, r, hk, heff, -⟩
  · rw [heq]
    refine (CatalogTables.mem_seedCatalog_of_notMem (hboot a.1 fixture ?_)).mpr hmc
    rw [← hfix]
    exact ha
  · rw [heq]
    exact hmc
  · rw [heq]
    exact hmc
  · rcases heff.kept hmc with hkept | hdel
    · exact hkept
    · have hr := List.mem_of_getElem? hk
      rcases hdelete with hb | hno
      · rw [hspares r hr _ hdel m hmc rfl] at hb
        cases hb
      · obtain ⟨now, harr⟩ := harrived r hr
        rw [hdel.1] at harr
        exact absurd harr (hno now)

/-- Where a row of the catalog comes from. -/
theorem origin_run {m : CatalogRow} (hm : m ∈ (exec (Catalog.step b) ⟨t, []⟩ as).shared.models) :
    m ∈ t.models ∨
      (∃ now body, (now, .request (.arrive (.createModel body))) ∈ as ∧
        m.toCatalogEntry = body.entry ∧ m.isBuiltin = false) ∨
      ∃ now fixture, (now, .boot fixture) ∈ as ∧ m.name ∈ fixture.map (·.name) ∧
        m.isBuiltin = true := by
  refine @catalog_run b t as (fun c => ∀ m ∈ c.shared.models,
    m ∈ t.models ∨ (∃ now body, (now, .request (.arrive (.createModel body))) ∈ as ∧
        m.toCatalogEntry = body.entry ∧ m.isBuiltin = false) ∨
      ∃ now fixture, (now, .boot fixture) ∈ as ∧ m.name ∈ fixture.map (·.name) ∧
        m.isBuiltin = true) (fun m hm => Or.inl hm) ?_ m hm
  intro c a ha _ harrived hP m hm
  rcases catalog_step_cases b c a with ⟨fixture, hfix, heq⟩ | ⟨req, -, heq⟩ | heq |
    ⟨k, r, hk, heff, -⟩
  · rw [heq] at hm
    rcases CatalogTables.origin_seedCatalog hm with hm | ⟨hb, hname⟩
    · exact hP m hm
    · exact Or.inr (Or.inr ⟨a.1, fixture, by rw [← hfix]; exact ha, hname, hb⟩)
  · rw [heq] at hm
    exact hP m hm
  · rw [heq] at hm
    exact hP m hm
  · rcases heff.origin hm with hm | ⟨body, hreq, hentry, hcustom⟩
    · exact hP m hm
    · obtain ⟨now, harr⟩ := harrived r (List.mem_of_getElem? hk)
      exact Or.inr (Or.inl ⟨now, body, hreq ▸ harr, hentry, hcustom⟩)

/-- Where foreign keys are enforced, every deployment keeps its model. -/
theorem integral_run (hb : b.enforcesForeignKeys = true) (ht : t.Integral) :
    (exec (Catalog.step b) ⟨t, []⟩ as).shared.Integral := by
  refine catalog_run (P := fun c => c.shared.Integral) ht ?_
  intro c a _ _ _ hc
  rcases catalog_step_cases b c a with ⟨fixture, -, heq⟩ | ⟨req, -, heq⟩ | heq |
    ⟨k, r, -, heff, -⟩
  · rw [heq]
    have hdeployments : ∀ {fixture : List CatalogEntry} {t : CatalogTables},
        (t.seedCatalog a.1 fixture).deployments = t.deployments := by
      intro fixture
      induction fixture with
      | nil => exact rfl
      | cons e fixture ih => exact fun {t} => @ih (t.seedEntry a.1 e)
    intro d hd
    rw [hdeployments] at hd
    obtain ⟨m, hm, hid⟩ := hc d hd
    obtain ⟨m', hm', hid', -⟩ := @CatalogTables.kept_seedCatalog a.1 fixture _ _ hm
    exact ⟨m', hm', hid'.trans hid⟩
  · rw [heq]
    exact hc
  · rw [heq]
    exact hc
  · exact heff.integral hb hc

end Runs

/-- **What every interleaving keeps of the catalog.**  Let a server start on any tables and take
any steps: requests that arrive and advance in any order, and restarts with any fixtures.  Then
the models differ in their identifiers and in their names.  A builtin model is never lost.  A
row is as it was unless a fixture names it, or it is custom and its deletion was requested.  A
row is one that was there, one that was created, or one that a fixture names.  After a start
the last entry for a name is what its row reads, until the next start; and to start again with
the same fixture changes no row.  Where foreign keys are enforced no deployment loses its
model. -/
theorem catalog_kept (b : Backend) (t : CatalogTables) (as : List (ℕ × CatalogEvent)) (db : Db) :
    let s := (exec (Catalog.step b) ⟨t, []⟩ as).shared
    ({ db with models := s.models.map (·.model) } : Db).Catalog ∧
    (∀ m ∈ t.models, m.isBuiltin = true →
      ∃ m' ∈ s.models, m'.id = m.id ∧ m'.name = m.name ∧ m'.isBuiltin = true) ∧
    (∀ m ∈ t.models,
      (m.isBuiltin = true ∨ ∀ now, (now, .request (.arrive (.deleteModel m.id))) ∉ as) →
      (∀ now fixture, (now, .boot fixture) ∈ as → m.name ∉ fixture.map (·.name)) →
        m ∈ s.models) ∧
    (∀ m ∈ s.models, m ∈ t.models ∨
      (∃ now body, (now, .request (.arrive (.createModel body))) ∈ as ∧
        m.toCatalogEntry = body.entry ∧ m.isBuiltin = false) ∨
      ∃ now fixture, (now, .boot fixture) ∈ as ∧ m.name ∈ fixture.map (·.name) ∧
        m.isBuiltin = true) ∧
    (∀ before now pre e post after, as = before ++ (now, .boot (pre ++ e :: post)) :: after →
      e.name ∉ post.map (·.name) → (∀ now fixture, (now, .boot fixture) ∉ after) →
        ∃ m ∈ s.models, m.toCatalogEntry = e ∧ m.isBuiltin = true) ∧
    (∀ now now' fixture, ((s.seedCatalog now fixture).seedCatalog now' fixture).models =
      (s.seedCatalog now fixture).models) ∧
    (b.enforcesForeignKeys = true → t.Integral → s.Integral) := by
  refine ⟨⟨?_, ?_⟩, fun m hm hb => builtin_run hm hb, fun m hm => row_run hm,
    fun m hm => origin_run hm, ?_, fun now now' fixture =>
      CatalogTables.models_seedCatalog_twice _ now now' fixture,
    fun hb ht => integral_run hb ht⟩
  · rw [List.map_map]
    exact CatalogTables.ids _
  · rw [List.map_map]
    exact CatalogTables.names _
  · rintro before now pre e post after rfl hlast hno
    rw [exec_append, exec_cons]
    set c := exec (Catalog.step b) ⟨t, []⟩ before with hc
    obtain ⟨m, hm, hentry, hb⟩ := @CatalogTables.entry_seedCatalog c.shared now pre post e hlast
    refine ⟨m, ?_, hentry, hb⟩
    exact row_run hm (Or.inl hb) fun now fixture hmem => absurd hmem (hno now fixture)

/-- The request for a model of one's own. -/
def ownModel : ModelCreate where
  hfRepoId := "org/own"
  category := .llm
  vramRequiredMb := 1024

/-- A model is created; its deletion finds no deployment and one is deployed meanwhile. -/
def danglingRun : List (ℕ × CatalogEvent) :=
  [.arrive (.createModel ownModel), .advance 0, .advance 0, .arrive (.deploy 1 .vllm),
    .arrive (.deleteModel 1), .advance 1, .advance 2, .advance 2, .advance 2, .advance 2,
    .advance 1].map fun e => (0, .request e)

/-- **Without foreign keys a deployment may lose its model**: its request has read the model, and
commits after the model was deleted. -/
theorem sqlite_dangling :
    (exec (Catalog.step .sqlite) ⟨{}, []⟩ danglingRun).shared.deployments = [⟨2, 1⟩] ∧
      (exec (Catalog.step .sqlite) ⟨{}, []⟩ danglingRun).shared.models = [] ∧
      (exec (Catalog.step .postgresql) ⟨{}, []⟩ danglingRun).shared.deployments = [] := by
  decide +kernel

end Inferna
