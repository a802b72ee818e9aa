import Inferna.World

/-!
# What a request can raise

A request that fails before its commit fails with an answer of the API, and an integrity
error comes from the commit.  The one exception is a Sync that reports a state the schema
does not know.

## Main definitions

* `ServerError.IsHttp` — an answer of the API.

## Main results

* `candidate_error` — **the errors of the requests.**
* `registerWorker_error`, `syncWorker_error` — those of a worker's calls.
-/

namespace Inferna

/-! ### The allocators -/

/-- The error is an answer of the API. -/
def ServerError.IsHttp (e : ServerError) : Prop := ∃ code detail, e = .http code detail

/-- An answer that is raised. -/
theorem isHttp_of_raised {α : Type} {code : ℕ} {detail : String} {e : ServerError}
    (h : (.error (.http code detail) : Except ServerError α) = .error e) : e.IsHttp := by
  injection h with h
  exact ⟨code, detail, h.symm⟩

/-- An error that is passed on. -/
theorem ServerError.IsHttp.passedOn {α : Type} {e e' : ServerError} (he : e'.IsHttp)
    (h : (.error e' : Except ServerError α) = .error e) : e.IsHttp := by
  injection h with h
  exact h ▸ he

theorem allocPort_error {s : Settings} {instances : List Instance} {extra : List ℕ}
    {e : ServerError} (h : allocPort s instances extra = .error e) : e.IsHttp := by
  unfold allocPort at h
  split at h
  · cases h
  · exact isHttp_of_raised h

theorem allocRendezvousPort_error {s : Settings} {instances : List Instance}
    {e : ServerError} (h : allocRendezvousPort s instances = .error e) : e.IsHttp := by
  unfold allocRendezvousPort at h
  simp only at h
  split at h
  · cases h
  · exact isHttp_of_raised h

theorem placeReplica_error {s : Settings} {db : Db} {engine : Engine} {vram count : ℕ}
    {workers : List Worker} {st : ReplicaLoop} {i : ℕ} {e : ServerError}
    (h : placeReplica s db engine vram count workers st i = .error e) : e.IsHttp := by
  unfold placeReplica at h
  split at h
  · exact isHttp_of_raised h
  split at h
  · rename_i hport
    exact (allocPort_error hport).passedOn h
  · cases h

theorem allocateReplicas_error {s : Settings} {db : Db} {clusterId : Uuid} {vram : ℕ}
    {engine : Engine} {count : ℕ} {used : List (Uuid × ℕ)} {e : ServerError}
    (h : allocateReplicas s db clusterId vram engine count used = .error e) : e.IsHttp := by
  unfold allocateReplicas at h
  simp only at h
  split at h
  · exact isHttp_of_raised h
  cases hfold : (List.range' 1 count).foldlM
      (placeReplica s db engine vram count (connectedWorkers db clusterId))
      ⟨used, used.map (·.1), Dict.empty, [], []⟩ with
  | error e' =>
    rw [hfold] at h
    exact (Run.foldlM_error (fun _ _ _ => placeReplica_error) _ hfold).passedOn h
  | ok st => rw [hfold] at h; cases h

theorem allocateParallelReplicas_error {s : Settings} {db : Db} {clusterId : Uuid} {vram : ℕ}
    {engine : Engine} {n : ℕ} {exclude : List Uuid} {e : ServerError}
    (h : allocateParallelReplicas s db clusterId vram engine n exclude = .error e) :
    e.IsHttp := by
  unfold allocateParallelReplicas at h
  simp only at h
  iterate 4
    split at h
    · exact isHttp_of_raised h
  split at h
  · rename_i hport
    exact (allocPort_error hport).passedOn h
  split at h
  · rename_i hport
    exact (allocRendezvousPort_error hport).passedOn h
  · cases h

theorem placeGroups_error {s : Settings} {d : Deployment} {vram now : ℕ} {e : ServerError}
    (n : ℕ) : ∀ {db : Db} {occupied : List Uuid},
      (placeGroups s d vram now n db occupied).2 = .error e → e.IsHttp := by
  induction n with
  | zero => intro db occupied h; cases h
  | succ n ih =>
    intro db occupied h
    unfold placeGroups at h
    split at h
    · rename_i halloc
      exact (allocateParallelReplicas_error halloc).passedOn h
    · exact ih h

/-- `apply_scale` raises before its commit only what an allocator raised. -/
theorem applyScale_error {s : Settings} {obj : DeploymentObj} {replicas : ℕ} {setRange : Bool}
    {now : ℕ} {db : Db} {e : ServerError}
    (h : (applyScale s obj replicas setRange now db).2 = .error e) : e.IsHttp := by
  rcases applyScale_cases s obj replicas setRange now db with ⟨e', herr, heq⟩ | ⟨-, heq⟩
  · rw [heq] at h
    injection h with h
    subst h
    unfold moveReplicas at herr
    simp only at herr
    split at herr
    · unfold scaleOut at herr
      simp only at herr
      split at herr
      · exact placeGroups_error _ herr
      · split at herr
        · rename_i halloc
          exact (allocateReplicas_error halloc).passedOn herr
        · cases herr
    · cases herr
  · rw [heq] at h
    cases h

/-! ### The requests -/

theorem ServerError.IsHttp.ne_integrity {e : ServerError} (h : e.IsHttp) (c : Constraint) :
    e ≠ .integrity c := by
  obtain ⟨code, detail, rfl⟩ := h
  intro heq
  cases heq

theorem allocateManual_error {s : Settings} {db : Db} {clusterId workerId : Uuid}
    {gpuIndexes : List ℕ} {vram : ℕ} {engine : Engine} {e : ServerError}
    (h : allocateManual s db clusterId workerId gpuIndexes vram engine = .error e) :
    e.IsHttp := by
  unfold allocateManual at h
  split at h
  · exact isHttp_of_raised h
  iterate 5
    split at h
    · exact isHttp_of_raised h
  split at h
  · rename_i hport
    exact (allocPort_error hport).passedOn h
  · cases h

theorem deployGuard_error {db : Db} {body : DeployRequest} {e : ServerError}
    (h : deployGuard db body = .error e) : e.IsHttp := by
  unfold deployGuard at h
  split at h
  · exact isHttp_of_raised h
  split_ifs at h
  all_goals
    exact isHttp_of_raised h

theorem deploy_error {s : Settings} {db : Db} {body : DeployRequest} {now : ℕ} {e : ServerError}
    (h : deploy s db body now = .error e) : e.IsHttp := by
  unfold deploy at h
  split at h
  · rename_i hguard
    exact (deployGuard_error hguard).passedOn h
  simp only at h
  split at h
  · split at h
    · rename_i halloc
      exact (allocateParallelReplicas_error halloc).passedOn h
    · cases h
  · split at h
    · rename_i e' halloc
      injection h with h
      subst h
      unfold deployAllocations at halloc
      split at halloc
      · rename_i workerId gpuIndexes _
        cases hm : allocateManual s db body.clusterId workerId gpuIndexes _ body.engine with
        | error e'' =>
          rw [hm] at halloc
          exact (allocateManual_error hm).passedOn halloc
        | ok a => rw [hm] at halloc; cases halloc
      · exact allocateReplicas_error halloc
    · cases h

theorem scaleCandidate_error {s : Settings} {obj : DeploymentObj} {replicas : ℕ} {setRange : Bool}
    {now : ℕ} {db : Db} {e : ServerError}
    (h : scaleCandidate s db obj replicas setRange now = .error e) : e.IsHttp := by
  unfold scaleCandidate at h
  split at h
  · rename_i heq
    injection h with h
    exact applyScale_error (by rw [heq, h])
  · cases h

/-- A request fails before its commit only with an answer of the API. -/
theorem candidate_error {env : Env} {db : Db} {a : Step} {e : ServerError}
    (h : World.candidate env db a = some (.error e)) : e.IsHttp := by
  cases a with
  | deploy body now => exact deploy_error (Option.some.inj h)
  | scale id body now =>
    have h := Option.some.inj h
    unfold scaleDeployment at h
    split at h
    · exact isHttp_of_raised h
    · exact scaleCandidate_error h
  | setRange id body now =>
    have h := Option.some.inj h
    unfold setDeploymentRange at h
    split at h
    · exact isHttp_of_raised h
    · exact scaleCandidate_error h
  | stop id =>
    have h := Option.some.inj h
    unfold stopInstance at h
    split at h
    · exact isHttp_of_raised h
    · split at h <;> cases h
  | restart id =>
    have h := Option.some.inj h
    unfold restartInstance at h
    split at h
    · exact isHttp_of_raised h
    · cases h
  | deleteInstance id =>
    have h := Option.some.inj h
    unfold deleteInstance at h
    split at h
    · exact isHttp_of_raised h
    · split at h <;> cases h
  | deleteDeployment id =>
    have h := Option.some.inj h
    unfold deleteDeployment at h
    split at h
    · exact isHttp_of_raised h
    · cases h
  | markDisconnected now => cases h
  | autoscaleTick _ _ _ => cases h
  | register _ _ _ => cases h
  | sync _ _ => cases h
  | applyNext _ => cases h
  | probe _ _ _ => cases h
  | containerExit _ _ => cases h
  | restartWorker _ => cases h

/-! ### The calls of a worker -/

theorem registerWorker_error {s : Settings} {sha : String → String}
    {validate : String → Except String String} {db : Db} {req : RegisterRequest}
    {token : String} {now : ℕ} {e : ServerError}
    (h : registerWorker sha validate s db req token now = .error e) (c : Constraint) :
    e ≠ .integrity c := by
  rintro rfl
  unfold registerWorker at h
  split at h
  · rename_i hguard
    injection h with h
    subst h
    unfold registerGuard at hguard
    iterate 3
      split at hguard
      · cases hguard
    dsimp only at hguard
    generalize (if req.clusterName = "" then "default" else req.clusterName) = name at hguard
    split at hguard <;> cases hguard
  split at h
  · rename_i haddr
    injection h with h
    subst h
    unfold registerAddress at haddr
    simp only at haddr
    split at haddr
    · cases haddr
    · split at haddr <;> cases haddr
  split at h <;> cases h

/-- A Sync fails before its commit on its credentials or on a state the schema
does not know. -/
theorem syncWorker_error {sha : String → String} {db : Db} {req : SyncRequest} {now : ℕ}
    {c : Constraint} (h : syncWorker sha db req now = .error (.integrity c)) :
    c = .instanceState := by
  unfold syncWorker at h
  split at h
  · rename_i hauth
    injection h with h
    subst h
    unfold syncAuth at hauth
    split at hauth
    · cases hauth
    split at hauth
    · cases hauth
    · split_ifs at hauth
      cases hauth
  · split at h
    · injection h with h
      injection h with h
      exact h.symm
    · cases h

end Inferna
