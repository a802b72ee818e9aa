import Inferna.Footprint

/-!
# Host ports over whole runs

A port is handed out when no row reserves it.  A row leaves the reserved set when
it is stopped and no longer live, and it comes back without an allocation: by a
restart, or by a Sync that reports its container up again.  Meanwhile its port
may have gone to another row, and then the commit trips the active-port index.

## Main definitions

* `knowsPort` — the footprint of an instance and its port on a worker.
* `PortsAgree` — the workers know the port of a row as the row has it.
* `RestartPortFree`, `SyncPortsFree` — a row that comes back to the reserved set
  finds its port free.

## Main results

* `portsAgree_next` — the workers agree with the tables in every run.
* `no_port_conflict` — **no step fails on the active-port index** in a run in
  which rows come back only to free ports.
* `restart_trips_port_index` — otherwise one can.
-/

namespace Inferna

open Run

/-! ### The workers agree with the tables -/

/-- Something on a worker that carries the port `p`. -/
def knowsPort (p : ℕ) : Footprint where
  tracked t := t.port = p
  container c := c.port = p
  command c := c.action = .start ∧ (c.config.map (·.port)).getD 0 = p
  tracked_of_state := fun _ _ _ h => h
  container_of_down := fun _ h => h
  container_of_adopted := fun _ h => h
  command_of_container := fun c config ok hact hcfg h => ⟨hact, by rw [hcfg]; exact h⟩
  command_of_tracked := fun c s rank d hact h => ⟨hact, h⟩

/-- What a worker knows about an instance is an instance the server has handed
out, and if its row is still there, it is the worker's and has that port. -/
def PortsAgree (wd : World) : Prop :=
  ∀ w id p, (knowsPort p).On (wd.hosts w) id →
    id ≤ wd.db.lastUuid ∧ ∀ i ∈ wd.db.instances, i.id = id → i.workerId = some w ∧ i.port.getD 0 = p

/-- Every row of `db'` is new, or a row of `db` on the same worker and port. -/
def RowsFrom (db db' : Db) : Prop :=
  db.lastUuid ≤ db'.lastUuid ∧ ∀ j ∈ db'.instances, db.lastUuid < j.id ∨
    ∃ i ∈ db.instances, i.id = j.id ∧ i.workerId = j.workerId ∧ i.port = j.port

theorem RowsFrom.refl (db : Db) : RowsFrom db db :=
  ⟨le_rfl, fun j hj => Or.inr ⟨j, hj, rfl, rfl, rfl⟩⟩

theorem RowsFrom.trans {db₁ db₂ db₃ : Db} (h₁ : RowsFrom db₁ db₂) (h₂ : RowsFrom db₂ db₃) :
    RowsFrom db₁ db₃ := by
  refine ⟨le_trans h₁.1 h₂.1, ?_⟩
  intro k hk
  rcases h₂.2 k hk with hnew | ⟨j, hj, hid, hw, hp⟩
  · exact Or.inl (lt_of_le_of_lt h₁.1 hnew)
  · rcases h₁.2 j hj with hnew | ⟨i, hi, hid', hw', hp'⟩
    · exact Or.inl (hid ▸ hnew)
    · exact Or.inr ⟨i, hi, hid'.trans hid, hw'.trans hw, hp'.trans hp⟩

/-- Writing columns other than the id, the worker and the port. -/
theorem rowsFrom_map {db db' : Db} {f : Instance → Instance}
    (hrows : db'.instances = db.instances.map f) (huuid : db'.lastUuid = db.lastUuid)
    (hf : ∀ i ∈ db.instances, (f i).id = i.id ∧ (f i).workerId = i.workerId ∧
      (f i).port = i.port) : RowsFrom db db' := by
  refine ⟨le_of_eq huuid.symm, ?_⟩
  rw [hrows]
  intro j hj
  obtain ⟨i, hi, rfl⟩ := List.mem_map.mp hj
  obtain ⟨h1, h2, h3⟩ := hf i hi
  exact Or.inr ⟨i, hi, h1.symm, h2.symm, h3.symm⟩

theorem rowsFrom_of_move {s : Settings} {db db' : Db} (h : ServerMove s db db') :
    RowsFrom db db' := by
  cases h with
  | stop p =>
    refine rowsFrom_map rfl rfl ?_
    intro i _
    split <;> exact ⟨rfl, rfl, rfl⟩
  | place h =>
    refine ⟨h.uuid, ?_⟩
    rw [h.inserted]
    intro j hj
    rcases List.mem_append.mp hj with hj | hj
    · exact Or.inr ⟨j, hj, rfl, rfl, rfl⟩
    · exact Or.inl (h.new.fresh j hj).1
  | tables hrows _ _ _ huuid =>
    exact ⟨huuid, fun j hj => Or.inr ⟨j, hrows.subset hj, rfl, rfl, rfl⟩⟩
  | disconnect now =>
    refine rowsFrom_map rfl rfl ?_
    intro i _
    split <;> exact ⟨rfl, rfl, rfl⟩

theorem rowsFrom_of_moves {s : Settings} {db db' : Db} (h : Moves s db db') : RowsFrom db db' := by
  induction h with
  | refl => exact RowsFrom.refl _
  | tail _ hmove ih => exact ih.trans (rowsFrom_of_move hmove)

/-- A truthful Sync leaves the ports of the rows alone. -/
theorem port_applyStatuses {wd : World} (hagree : PortsAgree wd) (env : Env) (w : Uuid)
    {i : Instance} (hi : i ∈ wd.db.instances) :
    (applyStatuses (wd.syncRequest env w) w i).port = i.port := by
  rw [applyStatuses_syncRequest]
  split
  · cases ht : (wd.hosts w).instances.get? i.id with
    | none => rfl
    | some t =>
      have hport := ((hagree w i.id t.port (Or.inl ⟨t, ht, rfl⟩)).2 i hi rfl).2
      change (if t.port = 0 then i.port else some t.port) = i.port
      by_cases hzero : t.port = 0
      · rw [if_pos hzero]
      · -- the row has a port, and it is the reported one
        rw [if_neg hzero]
        cases hp : i.port with
        | none => rw [hp] at hport; exact absurd hport.symm hzero
        | some p => rw [hp] at hport; rw [← hport]; rfl
  · rfl

theorem rowsFrom_storeReports {wd : World} (hagree : PortsAgree wd) (env : Env) (w now : ℕ) :
    RowsFrom wd.db (storeReports wd.db (wd.syncRequest env w) w now) := by
  refine rowsFrom_map rfl rfl ?_
  intro i hi
  exact ⟨applyStatuses_keeps (·.id) (fun _ _ => rfl) _ w i,
    applyStatuses_keeps (·.workerId) (fun _ _ => rfl) _ w i, port_applyStatuses hagree env w hi⟩

theorem engineConfig_port (db : Db) (i : Instance) : (engineConfig db i).port = i.port.getD 0 := by
  unfold engineConfig applyParallelism
  simp only
  split <;> rfl

/-- The tables of a step descend from those before it. -/
theorem rowsFrom_next (env : Env) (wd : World) (a : Step) (hk : wd.db.Keyed)
    (hagree : PortsAgree wd) : RowsFrom wd.db (wd.next env a).db := by
  rcases next_db_cases env wd a hk.workers with ⟨id, -, h⟩ | ⟨w, now, rfl, h⟩ | h
  · rw [h]
    refine rowsFrom_map rfl rfl ?_
    intro i _
    split <;> exact ⟨rfl, rfl, rfl⟩
  · rw [h.1]
    exact rowsFrom_storeReports hagree env w now
  · exact rowsFrom_of_moves h

/-- **The workers agree with the tables after every step.** -/
theorem portsAgree_next (env : Env) (wd : World) (a : Step) (hk : wd.db.Keyed)
    (hagree : PortsAgree wd) : PortsAgree (wd.next env a) := by
  have hfrom := rowsFrom_next env wd a hk hagree
  have hk' := keyed_next env wd a hk
  intro w id p hon
  rcases Footprint.on_next env wd a w hon with hold | ⟨now, rfl, hsync, c, hc, hid, hcmd⟩
  · -- known before: the row is as it was, and no new row has the identifier
    obtain ⟨hle, hrow⟩ := hagree w id p hold
    refine ⟨le_trans hle hfrom.1, ?_⟩
    intro j hj hjid
    rcases hfrom.2 j hj with hnew | ⟨i, hi, hid, hw, hp⟩
    · exact absurd (hjid ▸ hnew) (not_lt.mpr hle)
    · rw [← hw, ← hp]
      exact hrow i hi (hid.trans hjid)
  · -- new with this Sync: its command was made from the row
    obtain ⟨hstart, hport⟩ := hcmd
    obtain ⟨i, hi, hw, -, hci, hcfg⟩ := start_mem_buildCommands hc hstart
    rw [hcfg, Option.map_some, Option.getD_some, engineConfig_port] at hport
    have hdb := hsync.1
    rw [← hdb] at hi
    have hidi : i.id = id := hci.symm.trans hid
    refine ⟨hidi ▸ hk'.bound i hi, ?_⟩
    intro j hj hjid
    have hij : j = i := hk'.eq_of_id hj hi (hjid.trans hidi.symm)
    subst hij
    exact ⟨hw, hport⟩

theorem not_on_default (f : Footprint) (id : Uuid) : ¬ f.On ({} : Host) id := by
  rintro (⟨t, ht, _⟩ | ⟨c, hc, _⟩ | ⟨c, hc, _⟩)
  · cases ht
  · cases hc
  · exact absurd hc List.not_mem_nil

theorem World.Initial.portsAgree {wd : World} (h : wd.Initial) : PortsAgree wd := by
  intro w id p hon
  rw [h.hosts w] at hon
  exact absurd hon (not_on_default _ id)

/-! ### The active-port index -/

theorem not_portClash_iff {i j : Instance} :
    ¬ PortClash i j ↔ (i.portReserved = true → j.portReserved = true →
      i.workerId = j.workerId → i.workerId ≠ none → i.port = j.port → i.port = none) := by
  unfold PortClash
  constructor
  · intro h h1 h2 h3 h4 h5
    by_contra h6
    exact h ⟨h1, h2, h3, h4, h5, h6⟩
  · rintro h ⟨h1, h2, h3, h4, h5, h6⟩
    exact h6 (h h1 h2 h3 h4 h5)

/-- Rows written so that none enters the reserved set keep the index. -/
theorem portIndexOk_map {db db' : Db} {f : Instance → Instance} (h : db.PortIndexOk)
    (hrows : db'.instances = db.instances.map f)
    (hf : ∀ i, (f i).workerId = i.workerId ∧ (f i).port = i.port ∧
      ((f i).portReserved = true → i.portReserved = true)) : db'.PortIndexOk := by
  unfold Db.PortIndexOk
  rw [hrows, List.pairwise_map]
  refine h.imp ?_
  intro i j hij
  rw [not_portClash_iff] at hij ⊢
  obtain ⟨hw, hp, hr⟩ := hf i
  obtain ⟨hw', hp', hr'⟩ := hf j
  rw [hw, hw', hp, hp']
  exact fun h1 h2 => hij (hr h1) (hr' h2)

theorem portReserved_stop {i : Instance} (h : i.stop.portReserved = true) :
    i.portReserved = true := by
  unfold Instance.portReserved at h ⊢
  rw [Bool.or_eq_true] at h ⊢
  rcases h with h | h
  · cases h
  · exact Or.inr h

/-- The rows of a placement clash neither with each other nor with old rows. -/
theorem portIndexOk_place {s : Settings} (hport : 0 ∉ s.instancePortRange) {db db' : Db}
    {rows : List Instance} (h : db.PortIndexOk) (hnew : NewRows s db rows)
    (hrows : db'.instances = db.instances ++ rows) : db'.PortIndexOk := by
  obtain ⟨vram, slots, hplaced, hplace, -⟩ := hnew.placed
  have hslot : ∀ r ∈ rows, ∃ sl ∈ slots, sl.place = r.place := by
    intro r hr
    have hmem : r.place ∈ slots.map Slot.place := hplace ▸ List.mem_map_of_mem hr
    obtain ⟨sl, hsl, heq⟩ := List.mem_map.mp hmem
    exact ⟨sl, hsl, heq⟩
  unfold Db.PortIndexOk
  rw [hrows, List.pairwise_append]
  refine ⟨h, ?_, ?_⟩
  · -- two new rows: the slots are apart
    have happart : (slots.map Slot.place).Pairwise fun x y =>
        x.1 = y.1 → x.2.2 ≠ none → x.2.2 ≠ y.2.2 := by
      rw [List.pairwise_map]
      refine hplaced.apart.imp ?_
      intro a b hab hw hne
      exact hab (Option.some.inj hw) hne
    rw [← hplace, List.pairwise_map] at happart
    refine happart.imp ?_
    intro i j hij
    rw [not_portClash_iff]
    intro _ _ hw _ hp
    by_contra hne
    exact hij hw hne hp
  · -- an old row and a new one: the allocator saw the old row's reservation
    intro i hi r hr
    rw [not_portClash_iff]
    intro hres _ hw _ hp
    obtain ⟨sl, hsl, heq⟩ := hslot r hr
    have hwr : some sl.workerId = r.workerId := congrArg Prod.fst heq
    have hpr : sl.port = r.port := congrArg (fun x => x.2.2) heq
    by_contra hne
    obtain ⟨p, hsp⟩ := Option.ne_none_iff_exists'.mp (hp ▸ hne : r.port ≠ none)
    have hslp : sl.port = some p := hpr.trans hsp
    have hmem : i ∈ portInstances db sl.workerId := by
      unfold portInstances
      rw [List.mem_filter, decide_eq_true_eq]
      exact ⟨hi, by rw [hw, ← hwr], hres⟩
    have hzero := hplaced.unreserved sl hsl p hslp i hmem (hp.trans hsp)
    exact hport (hzero ▸ hplaced.inRange sl hsl p hslp)

theorem portIndexOk_of_move {s : Settings} (hport : 0 ∉ s.instancePortRange) {db db' : Db}
    (h : ServerMove s db db') (hok : db.PortIndexOk) : db'.PortIndexOk := by
  cases h with
  | stop p =>
    refine portIndexOk_map hok rfl ?_
    intro i
    split
    · exact ⟨rfl, rfl, portReserved_stop⟩
    · exact ⟨rfl, rfl, id⟩
  | place h => exact portIndexOk_place hport hok h.new h.inserted
  | tables hrows _ _ _ _ => exact List.Pairwise.sublist hrows hok
  | disconnect now =>
    refine portIndexOk_map hok rfl ?_
    intro i
    split
    · -- only rows that are to run are marked, and those stay reserved
      rename_i hlost
      refine ⟨rfl, rfl, fun _ => ?_⟩
      unfold lostWith at hlost
      rw [Bool.and_eq_true, Bool.and_eq_true] at hlost
      unfold Instance.portReserved
      rw [hlost.1.2, Bool.true_or]
    · exact ⟨rfl, rfl, id⟩

/-- The row is restarted on a port that no other row reserves. -/
def RestartPortFree (db : Db) (id : Uuid) : Prop :=
  ∀ i ∈ db.instances, i.id = id → ∀ j ∈ db.instances, j.id ≠ id → j.portReserved = true →
    j.workerId = i.workerId → i.workerId ≠ none → j.port = i.port → i.port = none

/-- After a Sync of the host the row reserves its port. -/
def reservedAfter (h : Host) (i : Instance) : Bool :=
  i.desiredState == .running || (revives h i || stays h i)

/-- Every row that a Sync of the worker brings back to the reserved set finds its
port free there. -/
def SyncPortsFree (wd : World) (w : Uuid) : Prop :=
  ∀ i ∈ wd.db.instances, i.workerId = some w → i.portReserved = false →
    revives (wd.hosts w) i = true → ∀ j ∈ wd.db.instances, j.id ≠ i.id → j.workerId = some w →
      reservedAfter (wd.hosts w) j = true → j.port = i.port → i.port = none

/-- Every step is allowed but a restart or a Sync that brings a row back to a
port that is taken. -/
def PortStep (wd : World) : Step → Prop
  | .restart id => RestartPortFree wd.db id
  | .sync w _ => SyncPortsFree wd w
  | _ => True

instance (db : Db) (id : Uuid) : Decidable (RestartPortFree db id) :=
  inferInstanceAs (Decidable (∀ i ∈ _, _))

instance (wd : World) (w : Uuid) : Decidable (SyncPortsFree wd w) :=
  inferInstanceAs (Decidable (∀ i ∈ _, _))

instance (wd : World) (a : Step) : Decidable (PortStep wd a) :=
  match a with
  | .restart id => inferInstanceAs (Decidable (RestartPortFree wd.db id))
  | .sync w _ => inferInstanceAs (Decidable (SyncPortsFree wd w))
  | .deploy _ _ | .scale _ _ _ | .setRange _ _ _ | .autoscaleTick _ _ _ | .stop _
  | .deleteInstance _ | .deleteDeployment _ | .register _ _ _ | .markDisconnected _
  | .applyNext _ | .probe _ _ _ | .containerExit _ _ | .restartWorker _ => isTrue trivial

/-- The rows, pairwise with different identifiers and without a clash. -/
theorem pairwise_port_id {db : Db} (hk : db.Keyed) (hok : db.PortIndexOk) :
    db.instances.Pairwise fun i j => ¬ PortClash i j ∧ i.id ≠ j.id :=
  hok.and (List.pairwise_map.mp hk.instances)

theorem portIndexOk_restart {db : Db} (hk : db.Keyed) (hok : db.PortIndexOk) {id : Uuid}
    (hfree : RestartPortFree db id) :
    (db.updateWhere (·.id = id) Instance.restart).PortIndexOk := by
  unfold Db.PortIndexOk Db.updateWhere
  rw [List.pairwise_map]
  refine (pairwise_port_id hk hok).imp_of_mem ?_
  rintro i j hi hj ⟨hij, hne⟩
  rw [not_portClash_iff] at hij ⊢
  simp only [decide_eq_true_eq]
  by_cases hi' : i.id = id
  · -- the first is the restarted row; the second is another one
    have hj' : ¬ j.id = id := fun h => hne (hi'.trans h.symm)
    rw [if_pos hi', if_neg hj']
    intro _ hres hw hwn hp
    exact hfree i hi hi' j hj hj' hres hw.symm hwn hp.symm
  · rw [if_neg hi']
    by_cases hj' : j.id = id
    · rw [if_pos hj']
      intro hres _ hw hwn hp
      have hwj : j.workerId ≠ none := fun h => hwn (hw.trans h)
      exact hp.trans (hfree j hj hj' i hi hi' hres hw hwj hp)
    · rw [if_neg hj']
      exact hij

/-- After a Sync a row of the worker is reserved as `reservedAfter` says. -/
theorem portReserved_applyStatuses (env : Env) (wd : World) {w : Uuid} {i : Instance}
    (hw : i.workerId = some w) :
    (applyStatuses (wd.syncRequest env w) w i).portReserved = reservedAfter (wd.hosts w) i := by
  have hdes := applyStatuses_keeps (·.desiredState) (fun _ _ => rfl) (wd.syncRequest env w) w i
  have hlive := live_applyStatuses env wd hw
  unfold Instance.portReserved reservedAfter
  unfold Instance.live at hlive
  rw [hlive, hdes]

/-- A row that was not reserved and is after a Sync was revived by it. -/
theorem revives_of_reservedAfter {h : Host} {i : Instance} (hbefore : i.portReserved = false)
    (hafter : reservedAfter h i = true) : revives h i = true := by
  unfold Instance.portReserved at hbefore
  unfold reservedAfter stays at hafter
  rw [Bool.or_eq_false_iff] at hbefore
  rw [hbefore.1, hbefore.2] at hafter
  simpa using hafter

theorem portIndexOk_storeReports {wd : World} (hk : wd.db.Keyed) (hagree : PortsAgree wd)
    (hok : wd.db.PortIndexOk) (env : Env) {w : Uuid} (now : ℕ) (hfree : SyncPortsFree wd w) :
    (storeReports wd.db (wd.syncRequest env w) w now).PortIndexOk := by
  unfold Db.PortIndexOk storeReports
  rw [List.pairwise_map]
  refine (pairwise_port_id hk hok).imp_of_mem ?_
  rintro i j hi hj ⟨hij, hne⟩
  rw [not_portClash_iff] at hij ⊢
  rw [applyStatuses_keeps (·.workerId) (fun _ _ => rfl), applyStatuses_keeps (·.workerId)
    (fun _ _ => rfl), port_applyStatuses hagree env w hi, port_applyStatuses hagree env w hj]
  intro hri hrj hw hwn hp
  by_cases hiw : i.workerId = some w
  · have hjw : j.workerId = some w := hw.symm.trans hiw
    rw [portReserved_applyStatuses env wd hiw] at hri
    rw [portReserved_applyStatuses env wd hjw] at hrj
    by_cases hi0 : i.portReserved = true
    · by_cases hj0 : j.portReserved = true
      · exact hij hi0 hj0 hw hwn hp
      · -- the second row came back
        rw [Bool.not_eq_true] at hj0
        have hrev := revives_of_reservedAfter hj0 hrj
        exact hp.trans (hfree j hj hjw hj0 hrev i hi hne hiw hri hp)
    · -- the first row came back
      rw [Bool.not_eq_true] at hi0
      have hrev := revives_of_reservedAfter hi0 hri
      exact hfree i hi hiw hi0 hrev j hj (Ne.symm hne) hjw hrj hp.symm
  · -- rows of another worker are not touched
    have hjw : ¬ j.workerId = some w := fun h => hiw (hw.trans h)
    rw [applyStatuses_syncRequest, if_neg hiw] at hri
    rw [applyStatuses_syncRequest, if_neg hjw] at hrj
    exact hij hri hrj hw hwn hp

/-! ### Runs -/

/-- The invariant: the keys hold, the index holds, and the workers agree with the
tables. -/
structure PortInv (wd : World) : Prop where
  keyed : wd.db.Keyed
  index : wd.db.PortIndexOk
  agree : PortsAgree wd

theorem mem_commitTo_errors {db : Db} {c : Except ServerError Db} {e : ServerError}
    (h : e ∈ (commitTo db c).2) :
    c = .error e ∨ ∃ db' k, c = .ok db' ∧ db'.violation = some k ∧ e = .integrity k := by
  unfold commitTo at h
  split at h
  · rw [List.mem_singleton] at h
    exact Or.inl (h ▸ rfl)
  · rename_i db'
    split at h
    · exact absurd h List.not_mem_nil
    · rename_i k hk
      rw [List.mem_singleton] at h
      exact Or.inr ⟨db', k, rfl, hk, h⟩

/-- What a request of the run would commit keeps the index. -/
theorem portIndexOk_candidate {env : Env} (hport : 0 ∉ env.settings.instancePortRange) {wd : World}
    (hinv : PortInv wd) {a : Step} (hok : PortStep wd a) {db' : Db}
    (h : World.candidate env wd.db a = some (.ok db')) : db'.PortIndexOk := by
  by_cases ha : a.isRestart = false
  · exact (moves_candidate hinv.keyed.workers ha h).preserves
      (fun _ _ => portIndexOk_of_move hport) hinv.index
  · cases a with
    | restart id =>
      obtain rfl := restartInstance_ok (Option.some.inj h)
      exact portIndexOk_restart hinv.keyed hinv.index hok
    | _ => exact absurd rfl ha

/-- A state that keeps the index breaks another constraint, if any. -/
theorem not_mem_violation {db : Db} {c : Constraint} (hv : db.violation = some c)
    (hindex : db.PortIndexOk) :
    ServerError.integrity .workerPortActive ∉ [ServerError.integrity c] := by
  intro hmem
  rw [List.mem_singleton] at hmem
  injection hmem with hmem
  subst hmem
  exact (Db.violation_eq_workerPortActive_iff db).mp hv hindex

/-- A commit of a state that keeps the index does not fail on it. -/
theorem not_mem_commitTo_errors {db : Db} {c : Except ServerError Db}
    (herr : ∀ e, c = .error e → e ≠ .integrity .workerPortActive)
    (hok : ∀ db', c = .ok db' → db'.PortIndexOk) :
    ServerError.integrity .workerPortActive ∉ (commitTo db c).2 := by
  intro hmem
  rcases mem_commitTo_errors hmem with hc | ⟨db', k, hc, hk, he⟩
  · exact herr _ hc rfl
  · injection he with he
    subst he
    exact (Db.violation_eq_workerPortActive_iff db').mp hk (hok db' hc)

theorem not_mem_registerStep_errors {env : Env} (hport : 0 ∉ env.settings.instancePortRange)
    {wd : World} (hinv : PortInv wd) (req : RegisterRequest) (token : String) (now : ℕ) :
    ServerError.integrity .workerPortActive ∉
      (wd.step env (.register req token now)).2.errors := by
  unfold World.step World.registerStep
  simp only
  split
  · rename_i e he
    intro hmem
    rw [List.mem_singleton] at hmem
    exact registerWorker_error he .workerPortActive hmem.symm
  · rename_i db' w hreg
    split
    · rename_i c hc
      exact not_mem_violation hc ((moves_registerWorker hreg).preserves
        (fun _ _ => portIndexOk_of_move hport) hinv.index)
    · exact List.not_mem_nil

theorem not_mem_syncStep_errors {env : Env} {wd : World} (hinv : PortInv wd) {w : Uuid} {now : ℕ}
    (hok : PortStep wd (.sync w now)) :
    ServerError.integrity .workerPortActive ∉ (wd.step env (.sync w now)).2.errors := by
  unfold World.step World.syncStep
  simp only
  split
  · rename_i e he
    intro hmem
    rw [List.mem_singleton] at hmem
    subst hmem
    have := syncWorker_error he
    cases this
  · rename_i db' commands hsync
    obtain ⟨rfl, -⟩ := syncWorker_ok (w := w) rfl hsync
    split
    · rename_i c hc
      exact not_mem_violation hc
        (portIndexOk_storeReports hinv.keyed hinv.agree hinv.index env now hok)
    · exact List.not_mem_nil

/-- **An allowed step does not fail on the active-port index.** -/
theorem not_mem_step_errors {env : Env} (hport : 0 ∉ env.settings.instancePortRange) {wd : World}
    (hinv : PortInv wd) {a : Step} (hok : PortStep wd a) :
    ServerError.integrity .workerPortActive ∉ (wd.step env a).2.errors := by
  -- the requests that commit once share one argument
  have hrequest : ∀ c, World.candidate env wd.db a = some c →
      ServerError.integrity .workerPortActive ∉ (commitTo wd.db c).2 := by
    intro c hc
    refine not_mem_commitTo_errors ?_ ?_
    · rintro e rfl
      exact (candidate_error hc).ne_integrity _
    · rintro db' rfl
      exact portIndexOk_candidate hport hinv hok hc
  cases a with
  | register req token now => exact not_mem_registerStep_errors hport hinv req token now
  | sync w now => exact not_mem_syncStep_errors hinv hok
  | autoscaleTick m clock now =>
    intro hmem
    obtain ⟨e, he, heq⟩ := List.mem_map.mp hmem
    obtain ⟨db', hmoves, hv⟩ :=
      (moves_tick m clock now wd.cooldown hinv.keyed.workers).failed e he _ heq
    have hindex := hmoves.preserves (fun _ _ => portIndexOk_of_move hport) hinv.index
    exact (Db.violation_eq_workerPortActive_iff db').mp hv hindex
  | applyNext w =>
    unfold World.step Host.applyNext
    simp only
    split <;> exact List.not_mem_nil
  | probe w id ready => exact List.not_mem_nil
  | containerExit w id => exact List.not_mem_nil
  | restartWorker w => exact List.not_mem_nil
  | deploy body now => exact hrequest _ rfl
  | scale id body now => exact hrequest _ rfl
  | setRange id body now => exact hrequest _ rfl
  | stop id => exact hrequest _ rfl
  | restart id => exact hrequest _ rfl
  | deleteInstance id => exact hrequest _ rfl
  | deleteDeployment id => exact hrequest _ rfl
  | markDisconnected now => exact hrequest _ rfl

theorem portInv_next {env : Env} (hport : 0 ∉ env.settings.instancePortRange) (wd : World)
    (a : Step) (hinv : PortInv wd) (hok : PortStep wd a) : PortInv (wd.next env a) := by
  refine ⟨keyed_next env wd a hinv.keyed, ?_, portsAgree_next env wd a hinv.keyed hinv.agree⟩
  rcases next_db_cases env wd a hinv.keyed.workers with ⟨id, rfl, h⟩ | ⟨w, now, rfl, h⟩ | h
  · rw [h]
    exact portIndexOk_restart hinv.keyed hinv.index hok
  · rw [h.1]
    exact portIndexOk_storeReports hinv.keyed hinv.agree hinv.index env now hok
  · exact h.preserves (fun _ _ => portIndexOk_of_move hport) hinv.index

theorem World.Initial.portInv {wd : World} (h : wd.Initial) : PortInv wd where
  keyed := h.keyed
  index := by
    unfold Db.PortIndexOk
    rw [h.instances]
    exact List.Pairwise.nil
  agree := h.portsAgree

/-- **No step ever trips the active-port index** in a run from a fresh server in
which a restart and a Sync bring rows back to free ports only, and port `0` is not
in the range. -/
theorem no_port_conflict (env : Env) (hport : 0 ∉ env.settings.instancePortRange) (wd : World)
    (h0 : wd.Initial) (as : List Step) (hok : Conforms (World.next env) PortStep wd as) :
    ∀ (pre : List Step) (a : Step), pre ++ [a] <+: as →
      ServerError.integrity .workerPortActive ∉
        ((exec (World.next env) wd pre).step env a).2.errors := by
  rintro pre a ⟨rest, rfl⟩
  rw [conforms_append, conforms_append] at hok
  have hinv : PortInv (exec (World.next env) wd pre) :=
    invariant_of_conforms PortInv (portInv_next hport) pre wd h0.portInv hok.1.1
  exact not_mem_step_errors hport hinv hok.1.2.1

/-- A stopped replica is restarted while its port is free. -/
theorem no_port_conflict_sample :
    (0 ∉ sampleEnv.settings.instancePortRange) ∧ sampleWorld.Initial ∧
      Conforms (World.next sampleEnv) PortStep sampleWorld (sampleStopped ++ [.restart 3]) ∧
      ServerError.integrity .workerPortActive ∉
        ((exec (World.next sampleEnv) sampleWorld sampleStopped).step sampleEnv
          (.restart 3)).2.errors :=
  ⟨by decide, sampleWorld_initial, by decide +kernel,
    no_port_conflict sampleEnv (by decide) sampleWorld sampleWorld_initial
      (sampleStopped ++ [.restart 3]) (by decide +kernel) sampleStopped (.restart 3)
      (List.prefix_refl _)⟩

/-- **A restart can trip the active-port index.**  A second replica got the port
of the stopped one; restarting that one fails in its commit. -/
theorem restart_trips_port_index :
    ¬ ∀ (env : Env) (wd : World), wd.Initial → ∀ (pre : List Step) (a : Step),
      ServerError.integrity .workerPortActive ∉
        ((exec (World.next env) wd pre).step env a).2.errors := by
  intro h
  have hrun := h sampleEnv sampleWorld sampleWorld_initial (sampleStopped ++ [sampleDeploy])
    (.restart 3)
  revert hrun
  decide +kernel

end Inferna
