import Inferna.Moves

/-!
# The identity of a worker

A registration looks for its row by name and host name, by host name, and by name, in this
order, and reuses the row it finds under a new token.  It follows a machine to a new host
name and takes a new name where no other row has them.  A Sync writes the host name it
carries.

A run is a sequence of registrations and Syncs.  The state keeps what every answered
registration was given, to compare with.

## Main definitions

* `Issue`, `Enrolment`, `EnrolEvent`, `Enrolment.step` — tables, answered registrations, runs.
* `latestIssue` — the last registration that was answered with a row.
* `EnrolOk` — tokens do not repeat, and a Sync carries the host name of its token.
* `Identified` — what holds of the rows, of the next registration and of the next Sync.
* `EnrolInv` — the invariant: every row is as its last registration has left it.

## Main results

* `nodup_map_rewrite` — rewriting one row to a key that no other row has keeps keys unique.
* `hostname_register` — a registration answers with a row of its host name.
* `identity_kept` — **identities are unique, and only the last token of a row is good.**
-/

namespace Inferna

/-! ### Unique columns -/

/-- Rewriting the row with one identifier to a key that no other row has keeps the keys
unique. -/
theorem nodup_map_rewrite {α κ : Type} (ident : α → ℕ) (key : α → κ) (f : α → α) {l : List α}
    {w : α}
    (hids : (l.map ident).Nodup) (hkeys : (l.map key).Nodup) (hw : w ∈ l)
    (hnew : ∀ v ∈ l, ident v ≠ ident w → key v ≠ key (f w)) :
    ((l.map fun v => if ident v = ident w then f v else v).map key).Nodup := by
  rw [List.map_map]
  refine List.Nodup.map_on ?_ (List.Nodup.of_map _ hids)
  intro x hx y hy heq
  simp only [Function.comp_apply] at heq
  by_cases hxw : ident x = ident w
  · by_cases hyw : ident y = ident w
    · exact List.inj_on_of_nodup_map hids hx hy (hxw.trans hyw.symm)
    · obtain rfl := List.inj_on_of_nodup_map hids hx hw hxw
      rw [if_pos rfl, if_neg hyw] at heq
      exact absurd heq.symm (hnew y hy hyw)
  · by_cases hyw : ident y = ident w
    · obtain rfl := List.inj_on_of_nodup_map hids hy hw hyw
      rw [if_neg hxw, if_pos rfl] at heq
      exact absurd heq (hnew x hx hxw)
    · rw [if_neg hxw, if_neg hyw] at heq
      exact List.inj_on_of_nodup_map hkeys hx hy heq

/-- The columns of `uq_workers_cluster_hostname`. -/
def Worker.hostKey (w : Worker) : Uuid × String := (w.clusterId, w.hostname)

/-- The columns of `uq_workers_cluster_name`. -/
def Worker.nameKey (w : Worker) : Uuid × String := (w.clusterId, w.name)

theorem hostnamesOk_iff (db : Db) : db.HostnamesOk ↔ (db.workers.map Worker.hostKey).Nodup := by
  unfold Db.HostnamesOk
  rw [List.nodup_iff_pairwise_ne, List.pairwise_map]
  simp [Worker.hostKey]

theorem namesOk_iff (db : Db) : db.NamesOk ↔ (db.workers.map Worker.nameKey).Nodup := by
  unfold Db.NamesOk
  rw [List.nodup_iff_pairwise_ne, List.pairwise_map]
  simp [Worker.nameKey]

/-! ### Registrations -/

/-- A row is found under its identifier. -/
theorem findWorker_of_mem {db : Db} (hids : (db.workers.map (·.id)).Nodup) {w : Worker}
    (hw : w ∈ db.workers) : db.findWorker w.id = some w :=
  Dict.find?_eq_some_of_mem hids hw

/-- Without a row for it, neither the host name nor the name is taken. -/
theorem resolveIdentity_none {db : Db} {clusterId : Uuid} {req : RegisterRequest}
    (h : resolveIdentity db clusterId req = none) :
    ∀ v ∈ db.workers, v.clusterId = clusterId → v.hostname ≠ req.hostname ∧ v.name ≠ req.name := by
  unfold resolveIdentity at h
  simp only at h
  split at h
  · cases h
  split at h
  · cases h
  rename_i hhost
  intro v hv hc
  have hmine : v ∈ db.workers.filter (·.clusterId = clusterId) :=
    List.mem_filter.mpr ⟨hv, by simpa using hc⟩
  exact ⟨by simpa using List.find?_eq_none.mp hhost v hmine,
    by simpa using List.find?_eq_none.mp h v hmine⟩

/-- A row that is found has the host name, or none has it. -/
theorem resolveIdentity_some {db : Db} {clusterId : Uuid} {req : RegisterRequest} {w : Worker}
    (h : resolveIdentity db clusterId req = some w) :
    w ∈ db.workers ∧ w.clusterId = clusterId ∧ (w.hostname = req.hostname ∨
      ∀ v ∈ db.workers, v.clusterId = clusterId → v.hostname ≠ req.hostname) := by
  unfold resolveIdentity at h
  simp only at h
  have hmine : ∀ {p : Worker → Bool},
      (db.workers.filter (·.clusterId = clusterId)).find? p = some w →
        w ∈ db.workers ∧ w.clusterId = clusterId := by
    intro p hp
    obtain ⟨hmem, hc⟩ := List.mem_filter.mp (List.mem_of_find?_eq_some hp)
    exact ⟨hmem, by simpa using hc⟩
  split at h
  · rename_i v hboth
    injection h with h
    subst h
    have hv := List.find?_some hboth
    rw [decide_eq_true_eq] at hv
    exact ⟨(hmine hboth).1, (hmine hboth).2, Or.inl hv.2⟩
  split at h
  · rename_i v hhost
    injection h with h
    subst h
    exact ⟨(hmine hhost).1, (hmine hhost).2, Or.inl (by simpa using List.find?_some hhost)⟩
  · rename_i hnone
    refine ⟨(hmine h).1, (hmine h).2, Or.inr ?_⟩
    intro v hv hc
    simpa using List.find?_eq_none.mp hnone v (List.mem_filter.mpr ⟨hv, by simpa using hc⟩)

variable {sha : String → String} {validate : String → Except String String} {s : Settings}
  {db db' : Db} {req : RegisterRequest} {token : String} {now : ℕ} {id : Uuid}

/-- The row that is reused follows the machine: its host name is free for it. -/
theorem hostname_refreshWorker {w : Worker} {clusterId : Uuid} {tokenHash : String}
    {address : Option String} (h : resolveIdentity db clusterId req = some w) :
    (refreshWorker db req tokenHash address now w).hostname = req.hostname := by
  obtain ⟨-, hc, hhost⟩ := resolveIdentity_some h
  unfold refreshWorker
  simp only
  rcases hhost with heq | hnone
  · rw [if_neg fun hand => hand.1 heq, heq]
  · by_cases heq : w.hostname = req.hostname
    · rw [if_neg fun hand => hand.1 heq, heq]
    · have hfree : hostnameAvailable db w req.hostname = true := by
        unfold hostnameAvailable
        rw [List.all_eq_true]
        intro v hv
        rw [decide_eq_true_eq]
        rintro ⟨hvc, hvh, -⟩
        exact hnone v hv (hvc.trans hc) hvh
      rw [if_pos ⟨heq, hfree⟩]

/-- The name of the row that is reused stays, or is one that no other row has. -/
theorem name_refreshWorker {w : Worker} {tokenHash : String} {address : Option String} :
    (refreshWorker db req tokenHash address now w).name = w.name ∨
      ∀ v ∈ db.workers, v.clusterId = w.clusterId → v.id ≠ w.id →
        v.name ≠ (refreshWorker db req tokenHash address now w).name := by
  unfold refreshWorker
  simp only
  split
  · rename_i hand
    right
    intro v hv hc hid hname
    have hfree := hand.2.2
    unfold nameAvailable at hfree
    rw [List.all_eq_true] at hfree
    have := hfree v hv
    rw [decide_eq_true_eq] at this
    exact this ⟨hc, hname, hid⟩
  · exact Or.inl rfl

/-- **A registration breaks neither unique constraint.** -/
theorem unique_register (hids : (db.workers.map (·.id)).Nodup) (hhost : db.HostnamesOk)
    (hname : db.NamesOk) (h : registerWorker sha validate s db req token now = .ok (db', id)) :
    db'.HostnamesOk ∧ db'.NamesOk := by
  rw [hostnamesOk_iff] at hhost ⊢
  rw [namesOk_iff] at hname ⊢
  obtain ⟨cluster, address, ⟨hnone, -, rfl⟩ | ⟨w, hsome, -, rfl⟩⟩ := registerWorker_ok h
  · have hfree := resolveIdentity_none hnone
    rw [List.map_append, List.map_append, List.map_singleton, List.map_singleton,
      (List.perm_append_singleton _ _).nodup_iff, (List.perm_append_singleton _ _).nodup_iff]
    refine ⟨List.nodup_cons.mpr ⟨?_, hhost⟩, List.nodup_cons.mpr ⟨?_, hname⟩⟩
    · rw [List.mem_map]
      rintro ⟨v, hv, heq⟩
      simp only [Worker.hostKey, newWorker, Prod.mk.injEq] at heq
      exact (hfree v hv heq.1).1 heq.2
    · rw [List.mem_map]
      rintro ⟨v, hv, heq⟩
      simp only [Worker.nameKey, newWorker, Prod.mk.injEq] at heq
      exact (hfree v hv heq.1).2 heq.2
  · obtain ⟨hw, hc, hfound⟩ := resolveIdentity_some hsome
    constructor
    · refine nodup_map_rewrite Worker.id Worker.hostKey _ hids hhost hw ?_
      intro v hv hne heq
      have hkey : v.clusterId = w.clusterId ∧
          v.hostname = (refreshWorker db req (sha token) address now w).hostname := by
        simpa [Worker.hostKey, refreshWorker] using heq
      rw [hostname_refreshWorker hsome] at hkey
      rcases hfound with hsame | hnot
      · refine hne (congrArg Worker.id (List.inj_on_of_nodup_map hhost hv hw ?_))
        simp [Worker.hostKey, hkey.1, hkey.2, hsame]
      · exact hnot v hv (hkey.1.trans hc) hkey.2
    · refine nodup_map_rewrite Worker.id Worker.nameKey _ hids hname hw ?_
      intro v hv hne heq
      have hkey : v.clusterId = w.clusterId ∧
          v.name = (refreshWorker db req (sha token) address now w).name := by
        simpa [Worker.nameKey, refreshWorker] using heq
      have hcases : (refreshWorker db req (sha token) address now w).name = w.name ∨
          ∀ v ∈ db.workers, v.clusterId = w.clusterId → v.id ≠ w.id →
            v.name ≠ (refreshWorker db req (sha token) address now w).name :=
        name_refreshWorker
      rcases hcases with hsame | hnot
      · refine hne (congrArg Worker.id (List.inj_on_of_nodup_map hname hv hw ?_))
        simp [Worker.nameKey, hkey.1, hkey.2, hsame]
      · exact hnot v hv hkey.1 hne hkey.2

/-- **A registration answers with a row of its host name, under its token.** -/
theorem row_register (hids : (db.workers.map (·.id)).Nodup)
    (h : registerWorker sha validate s db req token now = .ok (db', id)) :
    (∃ row ∈ db'.workers, row.id = id ∧ row.hostname = req.hostname ∧ row.tokenHash = sha token) ∧
      ∀ row ∈ db'.workers, row.id ≠ id → row ∈ db.workers := by
  obtain ⟨cluster, address, ⟨-, rfl, rfl⟩ | ⟨w, hsome, rfl, rfl⟩⟩ := registerWorker_ok h
  · refine ⟨⟨_, List.mem_append_right _ (List.mem_singleton_self _), rfl, rfl, rfl⟩, ?_⟩
    intro row hrow hne
    rcases List.mem_append.mp hrow with hrow | hrow
    · exact hrow
    · exact absurd (congrArg Worker.id (List.mem_singleton.mp hrow)) hne
  · obtain ⟨hw, -, -⟩ := resolveIdentity_some hsome
    refine ⟨⟨_, List.mem_map_of_mem hw, ?_, ?_, ?_⟩, ?_⟩
    · rw [if_pos rfl]
      rfl
    · rw [if_pos rfl]
      exact hostname_refreshWorker hsome
    · rw [if_pos rfl]
      rfl
    · intro row hrow hne
      obtain ⟨v, hv, rfl⟩ := List.mem_map.mp hrow
      by_cases hvw : v.id = w.id
      · rw [if_pos hvw] at hne
        have hvw' := List.inj_on_of_nodup_map hids hv hw hvw
        exact absurd (by rw [hvw']; rfl) hne
      · rw [if_neg hvw]
        exact hv

/-! ### Runs -/

/-- A registration that was answered: its token, the row, and the host name it gave. -/
structure Issue where
  token : String
  workerId : Uuid
  hostname : String
  deriving DecidableEq, Repr

/-- The tables, and the registrations answered so far. -/
structure Enrolment where
  db : Db
  issued : List Issue := []

/-- One call. -/
inductive EnrolEvent
  | register (req : RegisterRequest) (token : String) (now : ℕ)
  | sync (req : SyncRequest) (now : ℕ)

/-- The state after a call; a commit that a constraint refuses changes nothing. -/
def Enrolment.step (env : Env) (e : Enrolment) : EnrolEvent → Enrolment
  | .register req token now =>
    match registerWorker env.sha256Hex env.validateAddress env.settings e.db req token now with
    | .error _ => e
    | .ok (db', w) =>
      match db'.violation with
      | some _ => e
      | none => ⟨db', e.issued ++ [⟨token, w, req.hostname⟩]⟩
  | .sync req now =>
    match syncWorker env.sha256Hex e.db req now with
    | .error _ => e
    | .ok (db', _) =>
      match db'.violation with
      | some _ => e
      | none => { e with db := db' }

/-- The last registration that was answered with a row. -/
def latestIssue (issued : List Issue) (w : Uuid) : Option Issue :=
  (issued.filter (·.workerId = w)).getLast?

/-- The tokens are in `T`; none is generated twice, and a Sync carries the host name that
its token was issued for. -/
def EnrolOk (T : Set String) (e : Enrolment) : EnrolEvent → Prop
  | .register _ token _ => token ∈ T ∧ ∀ i ∈ e.issued, i.token ≠ token
  | .sync req _ => req.workerToken ∈ T ∧
      ∀ i ∈ e.issued, i.token = req.workerToken → req.systemHostname = i.hostname

/-- What holds of the rows, of a registration and of a Sync in a state. -/
structure Identified (env : Env) (T : Set String) (e : Enrolment) : Prop where
  /-- Names and host names are unique in a cluster. -/
  unique : e.db.HostnamesOk ∧ e.db.NamesOk
  /-- A registration commits neither name twice, and answers with a row of its host name. -/
  register : ∀ req token now db' w,
    registerWorker env.sha256Hex env.validateAddress env.settings e.db req token now =
        .ok (db', w) →
      (db'.HostnamesOk ∧ db'.NamesOk) ∧
        ∃ row, db'.findWorker w = some row ∧ row.hostname = req.hostname
  /-- A Sync commits neither name twice. -/
  sync : ∀ req now db' commands, EnrolOk T e (.sync req now) →
    syncWorker env.sha256Hex e.db req now = .ok (db', commands) → db'.HostnamesOk ∧ db'.NamesOk
  /-- Only the token of the latest registration of a row authenticates a Sync. -/
  token : ∀ w ∈ e.db.workers, ∀ req : SyncRequest, req.workerId = some w.id → req.workerToken ∈ T →
    ((∃ v, syncAuth env.sha256Hex e.db req = .ok v) ↔
      (latestIssue e.issued w.id).map (·.token) = some req.workerToken)

/-! ### The invariant -/

/-- Every row is as its last registration has left it. -/
structure EnrolInv (env : Env) (T : Set String) (e : Enrolment) : Prop where
  ids : (e.db.workers.map (·.id)).Nodup
  hostnames : e.db.HostnamesOk
  names : e.db.NamesOk
  tokens : ∀ i ∈ e.issued, i.token ∈ T
  rows : ∀ w ∈ e.db.workers, ∃ i ∈ e.issued, latestIssue e.issued w.id = some i ∧
    w.tokenHash = env.sha256Hex i.token ∧ w.hostname = i.hostname

theorem latestIssue_append_self (issued : List Issue) (i : Issue) :
    latestIssue (issued ++ [i]) i.workerId = some i := by
  simp [latestIssue, List.filter_append]

theorem latestIssue_append_of_ne (issued : List Issue) {i : Issue} {w : Uuid} (h : i.workerId ≠ w) :
    latestIssue (issued ++ [i]) w = latestIssue issued w := by
  simp [latestIssue, List.filter_append, h]

variable {env : Env} {T : Set String} {e : Enrolment}

/-- The token of a Sync that authenticates is the one its row was given last. -/
theorem issue_of_syncAuth (hsha : Set.InjOn env.sha256Hex T) (h : EnrolInv env T e)
    {req : SyncRequest} (ht : req.workerToken ∈ T) {w : Worker}
    (hauth : syncAuth env.sha256Hex e.db req = .ok w) :
    w ∈ e.db.workers ∧ req.workerId = some w.id ∧ ∃ i ∈ e.issued,
      latestIssue e.issued w.id = some i ∧ i.token = req.workerToken ∧ w.hostname = i.hostname := by
  obtain ⟨id, hid, hfind, hhash⟩ := syncAuth_eq_ok.mp hauth
  have hw : w ∈ e.db.workers := List.mem_of_find?_eq_some hfind
  have hwid : w.id = id := by simpa using List.find?_some hfind
  obtain ⟨i, hi, hlatest, hrow, hhost⟩ := h.rows w hw
  rw [hrow] at hhash
  exact ⟨hw, by rw [hid, hwid], i, hi, hlatest, hsha (h.tokens i hi) ht hhash, hhost⟩

/-- A Sync that carries the host name of its token rewrites no name and no token. -/
theorem keeps_of_sync (hsha : Set.InjOn env.sha256Hex T) (h : EnrolInv env T e) {req : SyncRequest}
    {now : ℕ} {db' : Db} {commands : List Command} (hok : EnrolOk T e (.sync req now))
    (hsync : syncWorker env.sha256Hex e.db req now = .ok (db', commands)) :
    ∃ f : Worker → Worker, db'.workers = e.db.workers.map f ∧
      ∀ v ∈ e.db.workers, (f v).id = v.id ∧ (f v).hostKey = v.hostKey ∧ (f v).nameKey = v.nameKey ∧
        (f v).tokenHash = v.tokenHash ∧ (f v).hostname = v.hostname := by
  obtain ⟨w, hauth, rfl, -⟩ := syncWorker_stored hsync
  obtain ⟨hw, hid, i, hi, -, htoken, hhost⟩ := issue_of_syncAuth hsha h hok.1 hauth
  refine ⟨_, rfl, ?_⟩
  intro v hv
  split
  · rename_i hvw
    obtain rfl := List.inj_on_of_nodup_map h.ids hv hw hvw
    have hkept : (syncRow req now v).hostname = v.hostname := by
      unfold syncRow
      simp only
      split
      · rfl
      · rw [hok.2 i hi htoken, hhost]
    have hkey : (syncRow req now v).hostKey = v.hostKey := by
      show (v.clusterId, (syncRow req now v).hostname) = _
      rw [hkept]
      rfl
    exact ⟨rfl, hkey, rfl, rfl, hkept⟩
  · exact ⟨rfl, rfl, rfl, rfl, rfl⟩

theorem unique_sync (hsha : Set.InjOn env.sha256Hex T) (h : EnrolInv env T e) {req : SyncRequest}
    {now : ℕ} {db' : Db} {commands : List Command} (hok : EnrolOk T e (.sync req now))
    (hsync : syncWorker env.sha256Hex e.db req now = .ok (db', commands)) :
    db'.HostnamesOk ∧ db'.NamesOk := by
  obtain ⟨f, hrows, hf⟩ := keeps_of_sync hsha h hok hsync
  have hhost : e.db.workers.map (Worker.hostKey ∘ f) = e.db.workers.map Worker.hostKey :=
    List.map_congr_left fun v hv => (hf v hv).2.1
  have hname : e.db.workers.map (Worker.nameKey ∘ f) = e.db.workers.map Worker.nameKey :=
    List.map_congr_left fun v hv => (hf v hv).2.2.1
  rw [hostnamesOk_iff, namesOk_iff, hrows, List.map_map, List.map_map, hhost, hname]
  exact ⟨(hostnamesOk_iff e.db).mp h.hostnames, (namesOk_iff e.db).mp h.names⟩

/-- **A call keeps the invariant.** -/
theorem enrolInv_step (hsha : Set.InjOn env.sha256Hex T) (h : EnrolInv env T e) {ev : EnrolEvent}
    (hok : EnrolOk T e ev) : EnrolInv env T (e.step env ev) := by
  unfold Enrolment.step
  cases ev with
  | register req token now =>
    simp only
    split
    · exact h
    rename_i db' w hreg
    split
    · exact h
    obtain ⟨hhost, hname⟩ := unique_register h.ids h.hostnames h.names hreg
    obtain ⟨⟨row, hrow, hrowid, hrowhost, hrowhash⟩, hothers⟩ := row_register h.ids hreg
    have hids := nodup_of_moves (moves_registerWorker hreg) h.ids
    refine ⟨hids, hhost, hname, ?_, ?_⟩
    · intro i hi
      rcases List.mem_append.mp hi with hi | hi
      · exact h.tokens i hi
      · rw [List.mem_singleton.mp hi]
        exact hok.1
    · intro v hv
      by_cases hvw : v.id = w
      · obtain rfl := List.inj_on_of_nodup_map hids hv hrow (hvw.trans hrowid.symm)
        exact ⟨⟨token, w, req.hostname⟩, List.mem_append_right _ (List.mem_singleton_self _),
          hvw ▸ latestIssue_append_self _ ⟨token, v.id, req.hostname⟩, hrowhash, hrowhost⟩
      · obtain ⟨i, hi, hlatest, hhash, hhostname⟩ := h.rows v (hothers v hv hvw)
        exact ⟨i, List.mem_append_left _ hi,
          (latestIssue_append_of_ne _ fun heq => hvw heq.symm).trans hlatest, hhash, hhostname⟩
  | sync req now =>
    simp only
    split
    · exact h
    rename_i db' commands hsync
    split
    · exact h
    obtain ⟨hhost, hname⟩ := unique_sync hsha h hok hsync
    obtain ⟨f, hrows, hf⟩ := keeps_of_sync hsha h hok hsync
    refine ⟨?_, hhost, hname, h.tokens, ?_⟩
    · show (db'.workers.map (·.id)).Nodup
      have hid : e.db.workers.map ((·.id) ∘ f) = e.db.workers.map (·.id) :=
        List.map_congr_left fun v hv => (hf v hv).1
      rw [hrows, List.map_map, hid]
      exact h.ids
    · intro v hv
      rw [hrows, List.mem_map] at hv
      obtain ⟨u, hu, rfl⟩ := hv
      obtain ⟨hid, -, -, hhash, hhostname⟩ := hf u hu
      obtain ⟨i, hi, hlatest, huhash, huhost⟩ := h.rows u hu
      exact ⟨i, hi, by rw [hid]; exact hlatest, hhash.trans huhash, hhostname.trans huhost⟩

/-- The invariant is enough for all four. -/
theorem EnrolInv.identified (hsha : Set.InjOn env.sha256Hex T) (h : EnrolInv env T e) :
    Identified env T e where
  unique := ⟨h.hostnames, h.names⟩
  register := by
    intro req token now db' w hreg
    refine ⟨unique_register h.ids h.hostnames h.names hreg, ?_⟩
    obtain ⟨⟨row, hrow, hid, hhost, -⟩, -⟩ := row_register h.ids hreg
    have hids := nodup_of_moves (moves_registerWorker hreg) h.ids
    exact ⟨row, hid ▸ findWorker_of_mem hids hrow, hhost⟩
  sync := fun req now db' commands hok hsync => unique_sync hsha h hok hsync
  token := by
    intro w hw req hid ht
    constructor
    · rintro ⟨v, hauth⟩
      obtain ⟨hv, hvid, i, -, hlatest, htoken, -⟩ := issue_of_syncAuth hsha h ht hauth
      rw [hid, Option.some.injEq] at hvid
      rw [hvid, hlatest, Option.map_some, htoken]
    · intro hlast
      obtain ⟨i, hi, hlatest, hhash, -⟩ := h.rows w hw
      rw [hlatest, Option.map_some, Option.some.injEq] at hlast
      refine ⟨w, syncAuth_eq_ok.mpr ⟨w.id, hid, findWorker_of_mem h.ids hw, ?_⟩⟩
      rw [hhash, hlast]

/-- **In every state that registrations and Syncs reach from a table without workers, names
and host names are unique, no commit breaks them, a registration answers with a row of its
host name, and only the last token of a row authenticates.** -/
theorem identity_kept (env : Env) (T : Set String) (hsha : Set.InjOn env.sha256Hex T) (db : Db)
    (h0 : db.workers = []) (evs : List EnrolEvent)
    (h : Run.Conforms (Enrolment.step env) (EnrolOk T) ⟨db, []⟩ evs) :
    Identified env T (Run.exec (Enrolment.step env) ⟨db, []⟩ evs) := by
  refine EnrolInv.identified hsha (Run.invariant_of_conforms (EnrolInv env T)
    (fun _ _ hs hok => enrolInv_step hsha hs hok) evs _ ?_ h)
  refine ⟨?_, ?_, ?_, fun _ hi => absurd hi List.not_mem_nil, ?_⟩
  · show (db.workers.map (·.id)).Nodup
    rw [h0]
    exact List.nodup_nil
  · unfold Db.HostnamesOk
    simp [h0]
  · unfold Db.NamesOk
    simp [h0]
  · intro w hw
    rw [h0] at hw
    cases hw

/-- Two machines register; the second takes the name of the first, and then its host name. -/
def enrolRun : List EnrolEvent :=
  [.register { clusterToken := "inferna-registration-token", hostname := "node",
               version := "0.2.0" }
      "a" 0,
    .register { clusterToken := "inferna-registration-token", hostname := "spare",
                workerName := "node",
                version := "0.2.0" } "b" 1,
    .register { clusterToken := "inferna-registration-token", hostname := "node",
                version := "0.2.0" }
      "c" 2,
    .sync { workerId := some 1, workerToken := "c", systemHostname := "node" } 3]

theorem identity_kept_sample :
    ((Run.exec (Enrolment.step sampleEnv) ⟨sampleWorld.db, []⟩ enrolRun).db.workers.map
      fun w => (w.id, w.name, w.hostname)) = [(1, "node", "node")] ∧
    Identified sampleEnv Set.univ
      (Run.exec (Enrolment.step sampleEnv) ⟨sampleWorld.db, []⟩ enrolRun) :=
  ⟨by decide +kernel,
    identity_kept sampleEnv Set.univ (fun _ _ _ _ h => h) sampleWorld.db rfl enrolRun
      ⟨⟨trivial, by decide +kernel⟩, ⟨trivial, by decide +kernel⟩, ⟨trivial, by decide +kernel⟩,
        ⟨trivial, by decide +kernel⟩, trivial⟩⟩

end Inferna
