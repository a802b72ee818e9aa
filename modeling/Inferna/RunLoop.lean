import Inferna.Identity

/-!
# The loop of the worker

`run_loop` of the worker registers until it is given a row and a token, and then sends Syncs
with these for good.  Every failed Sync is tried again after a pause, whatever its status.
Nothing takes the loop back to the registration but a new process.

Here one worker process runs against the server, which also registers other processes and
removes workers.  A call may be lost on its way, or its answer may be.

## Main definitions

* `LoopPhase`, `LoopState`, `LoopEvent`, `LoopState.step` — the process, the server, a run.
* `Rpc` — what the process sees of its calls.
* `Abandons` — a refused identity is given up, and the next call that succeeds is a
  registration.
* `TokenFresh`, `RestartsFirst` — no token is generated twice; a process whose Sync was
  refused calls no more before it is restarted.

## Main results

* `answer_unauthenticated_iff` — a Sync is refused when its row is gone or has a new token.
* `accepts_register` — a registration gives an identity that is accepted.
* `dead_identity_abandoned` — **a refused identity is given up exactly while every process is
  restarted before its next call.**
* `refused_sync_is_repeated` — a process whose row was removed.
-/

namespace Inferna

/-! ### The process -/

/-- Where the loop is. -/
inductive LoopPhase
  | registering
  | syncing (id : Uuid) (token : String)
  /-- The server has turned the worker down with `FAILED_PRECONDITION`. -/
  | exited
  deriving DecidableEq, Repr

/-- How a Sync ends for the process. -/
inductive SyncAnswer
  | ok
  | unauthenticated
  /-- Any other status, and a call or an answer that was lost. -/
  | failed
  deriving DecidableEq, Repr

/-- A call as the process sees it. -/
inductive Rpc
  /-- A registration with its answer, and whether the server accepts what it has given. -/
  | registered (id : Uuid) (token : String) (accepted : Bool)
  | notRegistered
  | synced (id : Uuid) (token : String) (answer : SyncAnswer)
  deriving DecidableEq, Repr

/-- The call was answered with `OK`. -/
def Rpc.succeeded : Rpc → Bool
  | .registered _ _ _ => true
  | .notRegistered => false
  | .synced _ _ answer => answer = .ok

/-- The token of a call. -/
def Rpc.token : Rpc → Option String
  | .registered _ token _ => some token
  | .notRegistered => none
  | .synced _ token _ => some token

/-- What the network does to a call. -/
inductive Wire
  | delivered
  | requestLost
  | answerLost
  deriving DecidableEq, Repr

/-- The server's tables, the process, and its calls so far. -/
structure LoopState where
  db : Db
  phase : LoopPhase := .registering
  rpcs : List Rpc := []
  /-- A Sync of this process was answered when its row was gone or had another token. -/
  refused : Bool := false

/-- One event.  A turn of the process has what the call brings with it: the token that the
server generates for a registration, or what a Sync reports. -/
inductive LoopEvent
  | turn (wire : Wire) (token : String) (now : ℕ) (gpus : List Gpu)
      (statuses : List InstanceStatus)
  | register (req : RegisterRequest) (token : String) (now : ℕ)
  | deleteWorker (id : Uuid)
  | serverRestart
  | restart

/-- The process makes its next call. -/
def LoopEvent.isTurn : LoopEvent → Bool
  | .turn _ _ _ _ _ => true
  | _ => false

/-! ### The server -/

/-- The tables after a registration and its answer. -/
def serveRegister (env : Env) (db : Db) (req : RegisterRequest) (token : String) (now : ℕ) :
    Db × Except ServerError Uuid :=
  match registerWorker env.sha256Hex env.validateAddress env.settings db req token now with
  | .error e => (db, .error e)
  | .ok (db', id) =>
    match db'.violation with
    | some c => (db, .error (.integrity c))
    | none => (db', .ok id)

/-- The tables after a Sync and its answer. -/
def serveSync (env : Env) (db : Db) (req : SyncRequest) (now : ℕ) :
    Db × Except ServerError (List Command) :=
  match syncWorker env.sha256Hex db req now with
  | .error e => (db, .error e)
  | .ok (db', commands) =>
    match db'.violation with
    | some c => (db, .error (.integrity c))
    | none => (db', .ok commands)

/-- The server accepts the token for the row. -/
def accepts (env : Env) (db : Db) (id : Uuid) (token : String) : Bool :=
  (db.findWorker id).any fun w => w.tokenHash = env.sha256Hex token

/-- The answer as the process sees it. -/
def syncAnswer {α : Type} : Except ServerError α → SyncAnswer
  | .ok _ => .ok
  | .error (.rpc .unauthenticated _) => .unauthenticated
  | .error _ => .failed

/-! ### Steps -/

namespace LoopState

/-- The process registers, in the registration loop of `run_loop`. -/
def registerTurn (env : Env) (req : RegisterRequest) (c : LoopState) (wire : Wire) (token : String)
    (now : ℕ) : LoopState :=
  let served := serveRegister env c.db req token now
  match wire with
  | .requestLost => { c with rpcs := c.rpcs ++ [.notRegistered] }
  | .answerLost => { c with db := served.1, rpcs := c.rpcs ++ [.notRegistered] }
  | .delivered =>
    match served.2 with
    | .ok id => { c with
        db := served.1
        phase := .syncing id token
        rpcs := c.rpcs ++ [.registered id token (accepts env served.1 id token)] }
    | .error e => { c with
        db := served.1
        phase := match e with
          | .rpc .failedPrecondition _ => .exited
          | _ => .registering
        rpcs := c.rpcs ++ [.notRegistered] }

/-- The process sends a Sync, in the loop after. -/
def syncTurn (env : Env) (req : RegisterRequest) (c : LoopState) (wire : Wire) (id : Uuid)
    (token : String) (now : ℕ) (gpus : List Gpu) (statuses : List InstanceStatus) : LoopState :=
  let sync : SyncRequest := ⟨some id, token, req.hostname, gpus, statuses⟩
  let served := serveSync env c.db sync now
  match wire with
  | .requestLost => { c with rpcs := c.rpcs ++ [.synced id token .failed] }
  | .answerLost => { c with db := served.1, rpcs := c.rpcs ++ [.synced id token .failed] }
  | .delivered => { c with
      db := served.1
      rpcs := c.rpcs ++ [.synced id token (syncAnswer served.2)]
      refused := c.refused || !accepts env c.db id token }

/-- One event; `req` is what the settings of the worker make it register with. -/
def step (env : Env) (req : RegisterRequest) (c : LoopState) : LoopEvent → LoopState
  | .turn wire token now gpus statuses =>
    match c.phase with
    | .registering => c.registerTurn env req wire token now
    | .syncing id token => c.syncTurn env req wire id token now gpus statuses
    | .exited => c
  | .register other token now => { c with db := (serveRegister env c.db other token now).1 }
  | .deleteWorker id => { c with db := (commitTo c.db (Inferna.deleteWorker c.db id)).1 }
  | .serverRestart => c
  | .restart => { c with phase := .registering, refused := false }

end LoopState

/-! ### The law and its condition -/

/-- **A refused identity is given up**: after a Sync that is answered `UNAUTHENTICATED` there
is no further Sync with its row and token, and the next call that succeeds is a registration
that gives an identity the server accepts. -/
def Abandons (rpcs : List Rpc) : Prop :=
  ∀ id token after, (Rpc.synced id token .unauthenticated :: after) <:+ rpcs →
    (∀ answer, Rpc.synced id token answer ∉ after) ∧
      ∀ r ∈ after.find? Rpc.succeeded, ∃ id' token', r = .registered id' token' true

/-- No token is generated twice: the process is not given one that it has had. -/
def TokenFresh (c : LoopState) : LoopEvent → Prop
  | .turn _ token _ _ _ => c.phase = .registering → ∀ r ∈ c.rpcs, r.token ≠ some token
  | _ => True

/-- A process whose Sync was answered when its row was gone or had another token makes no call
before it is restarted. -/
def RestartsFirst (c : LoopState) (ev : LoopEvent) : Prop :=
  c.refused = true → ev.isTurn = false

/-! ### What the server does -/

variable {env : Env} {db : Db}

/-- The worker a Sync authenticates as is its row, if the token is the row's. -/
theorem syncAuth_isOk (req : SyncRequest) {id : Uuid} (hid : req.workerId = some id) :
    (syncAuth env.sha256Hex db req).toBool = accepts env db id req.workerToken := by
  unfold syncAuth accepts
  rw [hid]
  simp only
  cases db.findWorker id with
  | none => rfl
  | some w =>
    by_cases h : w.tokenHash = env.sha256Hex req.workerToken <;> simp [h, Except.toBool]

/-- **A Sync is refused** exactly when its row is gone or has another token. -/
theorem answer_unauthenticated_iff (req : SyncRequest) {id : Uuid} (hid : req.workerId = some id)
    (now : ℕ) : syncAnswer (serveSync env db req now).2 = .unauthenticated ↔
      accepts env db id req.workerToken = false := by
  rw [← syncAuth_isOk req hid]
  unfold serveSync syncWorker
  cases hauth : syncAuth env.sha256Hex db req with
  | error e =>
    have hcode : ∃ detail, e = .rpc .unauthenticated detail := by
      unfold syncAuth at hauth
      rw [hid] at hauth
      simp only at hauth
      split at hauth
      · exact ⟨_, by injection hauth with h; exact h.symm⟩
      · split_ifs at hauth
        exact ⟨_, by injection hauth with h; exact h.symm⟩
    obtain ⟨detail, rfl⟩ := hcode
    exact iff_of_true rfl rfl
  | ok w =>
    refine iff_of_false ?_ (by simp [Except.toBool])
    by_cases hstate : db.instances.any (refusedState req w.id) = true
    · simp [hstate, syncAnswer]
    · simp only [hstate]
      cases hv : (storeReports db req w.id now).violation <;> simp [hv, syncAnswer]

/-- **A registration gives an identity that the server accepts.** -/
theorem accepts_register {req : RegisterRequest} {token : String} {now : ℕ} {id : Uuid}
    (hids : (db.workers.map (·.id)).Nodup)
    (h : (serveRegister env db req token now).2 = .ok id) :
    accepts env (serveRegister env db req token now).1 id token = true := by
  unfold serveRegister at h ⊢
  cases hreg : registerWorker env.sha256Hex env.validateAddress env.settings db req token now with
  | error e => rw [hreg] at h; cases h
  | ok r =>
    obtain ⟨db', w⟩ := r
    rw [hreg] at h
    simp only at h ⊢
    cases hv : db'.violation with
    | some c => rw [hv] at h; cases h
    | none =>
      rw [hv] at h
      injection h with h
      subst h
      obtain ⟨⟨row, hrow, hid, -, hhash⟩, -⟩ := row_register hids hreg
      have hids' := nodup_of_moves (moves_registerWorker hreg) hids
      unfold accepts
      simp only
      rw [← hid, findWorker_of_mem hids' hrow]
      simp [hhash]

/-! ### Rows keep their identifiers apart -/

theorem nodup_serveRegister {req : RegisterRequest} {token : String} {now : ℕ}
    (hids : (db.workers.map (·.id)).Nodup) :
    ((serveRegister env db req token now).1.workers.map (·.id)).Nodup := by
  unfold serveRegister
  split
  · exact hids
  · rename_i db' id hreg
    split
    · exact hids
    · exact nodup_of_moves (moves_registerWorker hreg) hids

theorem nodup_serveSync {req : SyncRequest} {now : ℕ} (hids : (db.workers.map (·.id)).Nodup) :
    ((serveSync env db req now).1.workers.map (·.id)).Nodup := by
  unfold serveSync
  split
  · exact hids
  · rename_i db' commands hsync
    split
    · exact hids
    · obtain ⟨w, -, rfl, -⟩ := syncWorker_stored hsync
      have hsame : (storeReports db req w.id now).workers.map (·.id) = db.workers.map (·.id) := by
        unfold storeReports
        rw [List.map_map]
        refine List.map_congr_left fun w _ => ?_
        simp only [Function.comp_apply]
        split <;> rfl
      rw [hsame]
      exact hids

theorem nodup_deleteWorker {id : Uuid} (hids : (db.workers.map (·.id)).Nodup) :
    ((commitTo db (deleteWorker db id)).1.workers.map (·.id)).Nodup := by
  unfold deleteWorker commitTo
  cases db.findWorker id with
  | none => exact hids
  | some w =>
    simp only
    split
    · exact (List.filter_sublist.map _).nodup hids
    · exact hids

/-! ### Calls so far -/

/-- After every refused Sync some call has succeeded. -/
def Settled (rpcs : List Rpc) : Prop :=
  ∀ id token after, (Rpc.synced id token .unauthenticated :: after) <:+ rpcs →
    ∃ r ∈ after, r.succeeded = true

/-- A suffix that starts with a call: the last call, or a suffix of what is before it. -/
theorem suffix_concat {r x : Rpc} {after rpcs : List Rpc} (h : (r :: after) <:+ rpcs ++ [x]) :
    (r = x ∧ after = []) ∨ ∃ before, after = before ++ [x] ∧ (r :: before) <:+ rpcs := by
  rcases List.suffix_concat_iff.mp h with hnil | ⟨t, ht, hsuffix⟩
  · cases hnil
  · cases t with
    | nil =>
      rw [List.nil_append, List.cons.injEq] at ht
      exact Or.inl ht
    | cons y t =>
      rw [List.cons_append, List.cons.injEq] at ht
      obtain ⟨rfl, rfl⟩ := ht
      exact Or.inr ⟨t, rfl, hsuffix⟩

theorem Settled.concat {rpcs : List Rpc} (h : Settled rpcs) {x : Rpc}
    (hx : ∀ id token, x ≠ .synced id token .unauthenticated) : Settled (rpcs ++ [x]) := by
  intro id token after hafter
  rcases suffix_concat hafter with ⟨heq, -⟩ | ⟨before, rfl, hsuffix⟩
  · exact absurd heq.symm (hx id token)
  · obtain ⟨r, hr, hok⟩ := h id token before hsuffix
    exact ⟨r, List.mem_append_left _ hr, hok⟩

/-- A call that succeeds settles whatever was refused before. -/
theorem settled_of_succeeded {rpcs : List Rpc} {x : Rpc} (hx : x.succeeded = true) :
    Settled (rpcs ++ [x]) := by
  intro id token after hafter
  rcases suffix_concat hafter with ⟨rfl, -⟩ | ⟨before, rfl, -⟩
  · cases hx
  · exact ⟨x, List.mem_append_right _ (List.mem_singleton_self x), hx⟩

/-- A further call obeys the law if it does not send a refused identity, and if it is a
registration or fails as long as something is not settled. -/
theorem Abandons.concat {rpcs : List Rpc} (h : Abandons rpcs) {x : Rpc}
    (hpair : ∀ id token, Rpc.synced id token .unauthenticated ∈ rpcs →
      ∀ answer, x ≠ .synced id token answer)
    (hnext : x.succeeded = true → Settled rpcs ∨ ∃ id token, x = .registered id token true) :
    Abandons (rpcs ++ [x]) := by
  intro id token after hafter
  rcases suffix_concat hafter with ⟨-, rfl⟩ | ⟨before, rfl, hsuffix⟩
  · exact ⟨fun _ => List.not_mem_nil, fun r hr => by cases hr⟩
  · obtain ⟨hno, hfirst⟩ := h id token before hsuffix
    refine ⟨?_, ?_⟩
    · intro answer hmem
      rcases List.mem_append.mp hmem with hmem | hmem
      · exact hno answer hmem
      · exact hpair id token (hsuffix.subset List.mem_cons_self) answer
          (List.mem_singleton.mp hmem).symm
    · intro r hr
      rw [List.find?_append] at hr
      cases hfind : before.find? Rpc.succeeded with
      | some y =>
        rw [hfind] at hr
        exact hfirst r (hfind ▸ hr)
      | none =>
        rw [hfind, Option.none_or, List.find?_singleton] at hr
        split_ifs at hr with hsucc
        · obtain rfl : x = r := by simpa using hr
          rcases hnext hsucc with hsettled | hreg
          · obtain ⟨y, hy, hyok⟩ := hsettled id token before hsuffix
            exact absurd hyok (List.find?_eq_none.mp hfind y hy)
          · exact hreg
        · cases hr

/-- A call that sends a refused identity breaks the law. -/
theorem not_abandons_concat {rpcs : List Rpc} {id : Uuid} {token : String}
    (h : Rpc.synced id token .unauthenticated ∈ rpcs) (answer : SyncAnswer) :
    ¬ Abandons (rpcs ++ [.synced id token answer]) := by
  intro habandons
  obtain ⟨before, after, rfl⟩ := List.append_of_mem h
  refine (habandons id token (after ++ [.synced id token answer]) ⟨before, ?_⟩).1 answer
    (List.mem_append_right _ (List.mem_singleton_self _))
  simp

/-! ### The invariant -/

/-- A process that is not refused is settled and has an identity that never was; one that is
has just been. -/
structure LoopInv (c : LoopState) : Prop where
  ids : (c.db.workers.map (·.id)).Nodup
  abandons : Abandons c.rpcs
  alive : ∀ id token, c.phase = .syncing id token → c.refused = false → Settled c.rpcs ∧
    ∀ id', Rpc.synced id' token .unauthenticated ∉ c.rpcs
  dead : c.refused = true → ∃ id token, c.phase = .syncing id token ∧
    Rpc.synced id token .unauthenticated ∈ c.rpcs

variable {req : RegisterRequest} {c : LoopState}

/-- A turn of a refused process sends the refused identity again. -/
theorem rpcs_step_of_syncing {id : Uuid} {token : String} (hphase : c.phase = .syncing id token)
    {ev : LoopEvent} (hturn : ev.isTurn = true) :
    ∃ answer, (c.step env req ev).rpcs = c.rpcs ++ [.synced id token answer] := by
  cases ev with
  | turn wire fresh now gpus statuses =>
    simp only [LoopState.step, hphase, LoopState.syncTurn]
    cases wire <;> exact ⟨_, rfl⟩
  | register _ _ _ => cases hturn
  | deleteWorker _ => cases hturn
  | serverRestart => cases hturn
  | restart => cases hturn

/-- A turn of the registration loop. -/
theorem loopInv_registerTurn (h : LoopInv c) (hphase : c.phase = .registering) {wire : Wire}
    {token : String} {now : ℕ} (hfresh : ∀ r ∈ c.rpcs, r.token ≠ some token) :
    LoopInv (c.registerTurn env req wire token now) := by
  have hrefused : c.refused = false := by
    by_contra hr
    rw [Bool.not_eq_false] at hr
    obtain ⟨id, t, hp, -⟩ := h.dead hr
    rw [hphase] at hp
    cases hp
  have hfailed : Abandons (c.rpcs ++ [.notRegistered]) :=
    h.abandons.concat (fun _ _ _ _ heq => by cases heq) fun hs => by cases hs
  have hids := @nodup_serveRegister env c.db req token now h.ids
  -- a registration that fails, for whatever reason
  have hfail : ∀ {db : Db} {phase : LoopPhase}, (db.workers.map (·.id)).Nodup →
      (∀ id t, phase ≠ .syncing id t) →
      LoopInv { c with db := db, phase := phase, rpcs := c.rpcs ++ [.notRegistered] } := by
    intro db phase hdb hno
    refine ⟨hdb, hfailed, fun id t hp _ => absurd hp (hno id t), fun hr => ?_⟩
    rw [show c.refused = true from hr] at hrefused
    cases hrefused
  unfold LoopState.registerTurn
  simp only
  cases wire with
  | requestLost => exact hfail h.ids (by rw [hphase]; exact fun _ _ heq => by cases heq)
  | answerLost => exact hfail hids (by rw [hphase]; exact fun _ _ heq => by cases heq)
  | delivered =>
    simp only
    cases hserved : (serveRegister env c.db req token now).2 with
    | error e =>
      refine hfail hids ?_
      intro id t heq
      split at heq <;> cases heq
    | ok id =>
      have hacc := accepts_register h.ids hserved
      refine ⟨hids, ?_, ?_, ?_⟩
      · exact h.abandons.concat (fun _ _ _ _ heq => by cases heq)
          fun _ => Or.inr ⟨id, token, by rw [hacc]⟩
      · intro id' t hp _
        simp only [LoopPhase.syncing.injEq] at hp
        obtain ⟨rfl, rfl⟩ := hp
        refine ⟨settled_of_succeeded rfl, ?_⟩
        intro id'' hmem
        rcases List.mem_append.mp hmem with hmem | hmem
        · exact hfresh _ hmem rfl
        · cases List.mem_singleton.mp hmem
      · intro hr
        rw [show c.refused = true from hr] at hrefused
        cases hrefused

/-- An identity that was never refused may Sync. -/
theorem LoopInv.abandons_synced (h : LoopInv c) {id : Uuid} {token : String}
    (hphase : c.phase = .syncing id token) (halive : c.refused = false) (answer : SyncAnswer) :
    Abandons (c.rpcs ++ [.synced id token answer]) := by
  obtain ⟨hsettled, hnever⟩ := h.alive id token hphase halive
  refine h.abandons.concat ?_ fun _ => Or.inl hsettled
  intro id' token' hmem answer' heq
  injection heq with _ htoken _
  exact hnever id' (htoken ▸ hmem)

/-- A Sync that does not refuse the identity leaves nothing open. -/
theorem LoopInv.settled_synced (h : LoopInv c) {id : Uuid} {token : String}
    (hphase : c.phase = .syncing id token) (halive : c.refused = false) {answer : SyncAnswer}
    (hanswer : answer ≠ .unauthenticated) :
    Settled (c.rpcs ++ [.synced id token answer]) ∧
      ∀ id', Rpc.synced id' token .unauthenticated ∉ c.rpcs ++ [.synced id token answer] := by
  obtain ⟨hsettled, hnever⟩ := h.alive id token hphase halive
  refine ⟨hsettled.concat fun _ _ heq => ?_, fun id' hmem => ?_⟩
  · injection heq with _ _ hans
    exact hanswer hans
  · rcases List.mem_append.mp hmem with hmem | hmem
    · exact hnever id' hmem
    · injection List.mem_singleton.mp hmem with _ _ hans
      exact hanswer hans.symm

/-- A turn of the Sync loop, of a process that is not refused. -/
theorem loopInv_syncTurn (h : LoopInv c) {id : Uuid} {token : String}
    (hphase : c.phase = .syncing id token) (halive : c.refused = false) {wire : Wire} {now : ℕ}
    {gpus : List Gpu} {statuses : List InstanceStatus} :
    LoopInv (c.syncTurn env req wire id token now gpus statuses) := by
  set sync : SyncRequest := ⟨some id, token, req.hostname, gpus, statuses⟩ with hsync
  have hids := @nodup_serveSync env c.db sync now h.ids
  -- a Sync that is lost, or whose answer is
  have hlost : ∀ {db : Db}, (db.workers.map (·.id)).Nodup →
      LoopInv { c with db := db, rpcs := c.rpcs ++ [.synced id token .failed] } := by
    intro db hdb
    refine ⟨hdb, h.abandons_synced hphase halive _, ?_, fun hr => ?_⟩
    · intro id' t hp _
      obtain ⟨hid, ht⟩ := LoopPhase.syncing.inj (hphase.symm.trans hp)
      exact ht ▸ h.settled_synced hphase halive (by decide)
    · rw [show c.refused = true from hr] at halive
      cases halive
  unfold LoopState.syncTurn
  simp only
  rw [← hsync]
  cases wire with
  | requestLost => exact hlost h.ids
  | answerLost => exact hlost hids
  | delivered =>
    have hiff := @answer_unauthenticated_iff env c.db sync id rfl now
    refine ⟨hids, h.abandons_synced hphase halive _, ?_, ?_⟩
    · intro id' t hp hr
      obtain ⟨hid, ht⟩ := LoopPhase.syncing.inj (hphase.symm.trans hp)
      refine ht ▸ h.settled_synced hphase halive fun hans => ?_
      have hgone : accepts env c.db id token = false := hiff.mp hans
      simp [halive, hgone] at hr
    · intro hr
      have hgone : accepts env c.db id token = false := by
        simpa [halive] using hr
      refine ⟨id, token, hphase, List.mem_append_right _ (List.mem_singleton.mpr ?_)⟩
      rw [hiff.mpr hgone]

/-- **An event keeps the invariant** if no refused process calls. -/
theorem loopInv_step (h : LoopInv c) {ev : LoopEvent} (hfresh : TokenFresh c ev)
    (hok : RestartsFirst c ev) : LoopInv (c.step env req ev) := by
  cases ev with
  | turn wire token now gpus statuses =>
    have halive : c.refused = false := by
      by_contra hr
      rw [Bool.not_eq_false] at hr
      cases hok hr
    unfold LoopState.step
    cases hphase : c.phase with
    | registering => exact loopInv_registerTurn h hphase (hfresh hphase)
    | syncing id t => exact loopInv_syncTurn h hphase halive
    | exited => exact h
  | register other token now => exact ⟨nodup_serveRegister h.ids, h.abandons, h.alive, h.dead⟩
  | deleteWorker id => exact ⟨nodup_deleteWorker h.ids, h.abandons, h.alive, h.dead⟩
  | serverRestart => exact h
  | restart =>
    refine ⟨h.ids, h.abandons, ?_, ?_⟩
    · intro id token hp
      cases hp
    · intro hr
      cases hr

/-- **Where a process stands, an event keeps the law exactly if no refused process calls.** -/
theorem abandons_step_iff (h : LoopInv c) {ev : LoopEvent} (hfresh : TokenFresh c ev) :
    Abandons (c.step env req ev).rpcs ↔ RestartsFirst c ev := by
  constructor
  · intro habandons hr
    by_contra hturn
    rw [Bool.not_eq_false] at hturn
    obtain ⟨id, token, hphase, hmem⟩ := h.dead hr
    obtain ⟨answer, heq⟩ := @rpcs_step_of_syncing env req c id token hphase ev hturn
    rw [heq] at habandons
    exact not_abandons_concat hmem answer habandons
  · exact fun hok => (loopInv_step h hfresh hok).abandons

/-! ### The law over a run -/

/-- **A dead identity is given up, in every run of a process, exactly if a process whose Sync
was answered when its row was gone or had another token makes no call before it is
restarted.** -/
theorem dead_identity_abandoned (env : Env) (req : RegisterRequest) (db : Db)
    (hids : (db.workers.map (·.id)).Nodup) (evs : List LoopEvent)
    (hfresh : Run.Conforms (LoopState.step env req) TokenFresh { db := db } evs) :
    Run.Always (LoopState.step env req) (fun c => Abandons c.rpcs) { db := db } evs ↔
      Run.Conforms (LoopState.step env req) RestartsFirst { db := db } evs := by
  refine Run.always_iff_conforms_within LoopInv (fun c h => h.abandons)
    (fun c ev h hfresh hok => loopInv_step h hfresh hok)
    (fun c ev h hfresh habandons => (abandons_step_iff h hfresh).mp habandons) evs _
    ⟨hids, ?_, ?_, ?_⟩ hfresh
  · intro id token after hsuffix
    cases List.suffix_nil.mp hsuffix
  · intro id token hphase
    cases hphase
  · intro hr
    cases hr

instance (c : LoopState) : (ev : LoopEvent) → Decidable (TokenFresh c ev)
  | .turn _ token _ _ _ =>
    inferInstanceAs (Decidable (c.phase = .registering → ∀ r ∈ c.rpcs, r.token ≠ some token))
  | .register _ _ _ => isTrue trivial
  | .deleteWorker _ => isTrue trivial
  | .serverRestart => isTrue trivial
  | .restart => isTrue trivial

instance (c : LoopState) (ev : LoopEvent) : Decidable (RestartsFirst c ev) :=
  inferInstanceAs (Decidable (c.refused = true → ev.isTurn = false))

/-- What the process registers with. -/
def loopRequest : RegisterRequest :=
  { clusterToken := "inferna-registration-token", hostname := "node", version := "0.2.0" }

/-- A process registers and syncs, and its row is removed. -/
def removedRun : List LoopEvent :=
  [.turn .delivered "a" 0 [] [], .turn .delivered "" 1 [] [], .deleteWorker 1,
    .turn .delivered "" 2 [] []]

theorem dead_identity_abandoned_sample :
    (Run.exec (LoopState.step sampleEnv loopRequest) { db := sampleWorld.db }
        (removedRun ++ [.restart, .turn .delivered "b" 3 [] []])).rpcs =
      [.registered 1 "a" true, .synced 1 "a" .ok, .synced 1 "a" .unauthenticated,
        .registered 2 "b" true] ∧
    Run.Always (LoopState.step sampleEnv loopRequest) (fun c => Abandons c.rpcs)
      { db := sampleWorld.db } (removedRun ++ [.restart, .turn .delivered "b" 3 [] []]) :=
  ⟨by decide +kernel,
    (dead_identity_abandoned sampleEnv loopRequest sampleWorld.db (by decide +kernel) _
      (by decide +kernel)).mpr (by decide +kernel)⟩

/-- **A process whose row was removed sends the refused Sync again.** -/
theorem refused_sync_is_repeated :
    ¬ ∀ (env : Env) (req : RegisterRequest) (db : Db), (db.workers.map (·.id)).Nodup →
      ∀ evs : List LoopEvent,
        Run.Conforms (LoopState.step env req) TokenFresh { db := db } evs →
        Run.Always (LoopState.step env req) (fun c => Abandons c.rpcs) { db := db } evs := by
  intro h
  have hrun : Abandons (Run.exec (LoopState.step sampleEnv loopRequest) { db := sampleWorld.db }
      (removedRun ++ [.turn .delivered "" 3 [] []])).rpcs :=
    h sampleEnv loopRequest sampleWorld.db (by decide +kernel)
      (removedRun ++ [.turn .delivered "" 3 [] []]) (by decide +kernel) _ (List.prefix_refl _)
  have hrpcs : (Run.exec (LoopState.step sampleEnv loopRequest) { db := sampleWorld.db }
      (removedRun ++ [.turn .delivered "" 3 [] []])).rpcs =
      [.registered 1 "a" true, .synced 1 "a" .ok] ++
        [.synced 1 "a" .unauthenticated, .synced 1 "a" .unauthenticated] := by
    decide +kernel
  rw [hrpcs] at hrun
  exact (hrun 1 "a" [.synced 1 "a" .unauthenticated] (List.suffix_append _ _)).1 .unauthenticated
    (List.mem_singleton_self _)

end Inferna
