import Inferna.Models
import Inferna.Lib.Race

/-!
# Users

`api/users.py` and the dependencies of `auth.py`: creating and deleting a user.  A request
reads the tables several times before it commits, and other requests commit in between, so
a request is the place at which it waits and one step takes it to its next wait.  Under
read-committed isolation every read sees what is committed at that time.

What `jwt.decode` makes of the bearer token is part of a request.  Passwords are left out:
nothing here reads them.

## Main definitions

* `User`, `Accounts` — the rows, with the keys of the table as fields.
* `getCurrentUser`, `requireAdmin` — the dependencies.
* `UserRequest`, `UserPhase`, `UserPhase.advance` — a request, where it waits, and its steps.
* `HasAdmin` — there is an active admin.
* `RemovalSafe` — the user a commit removes is not the only active admin.

## Main results

* `removalSafe_of_fresh` — the guard of `delete_user` is right while its count is current.
* `last_admin_kept` — **an admin remains exactly while every commit is such a removal.**
* `admins_delete_each_other` — two admins, each deleting the other.
-/

namespace Inferna

/-! ### Rows -/

/-- `ck_users_role`. -/
inductive Role
  | admin
  | user
  deriving DecidableEq, Repr, Inhabited

/-- A row of `users`. -/
structure User where
  id : Uuid
  username : String
  role : Role := .user
  isActive : Bool := true
  deriving DecidableEq, Repr, Inhabited

/-- The user counts as an admin: `User.role == "admin", User.is_active.is_(True)`. -/
def User.isAdmin (u : User) : Bool := u.role == .admin && u.isActive

/-- The table `users`, with its primary key and the unique user names. -/
structure Accounts where
  users : List User
  ids_nodup : (users.map (·.id)).Nodup
  usernames_nodup : (users.map (·.username)).Nodup

namespace Accounts

/-- `db.get(User, id)`. -/
def findUser (t : Accounts) (id : Uuid) : Option User := t.users.find? (·.id = id)

/-- `uuid4()`, which no row carries. -/
def nextUuid (t : Accounts) : Uuid := (t.users.map (·.id)).foldr max 0 + 1

theorem nextUuid_notMem (t : Accounts) : t.nextUuid ∉ t.users.map (·.id) := by
  have hle : ∀ (l : List ℕ), ∀ u ∈ l, u ≤ l.foldr max 0 := by
    intro l
    induction l with
    | nil => intro u hu; cases hu
    | cons a l ih =>
      intro u hu
      rcases List.mem_cons.mp hu with rfl | hu
      · exact le_max_left _ _
      · exact le_trans (ih u hu) (le_max_right _ _)
  intro hmem
  have := hle _ _ hmem
  unfold nextUuid at this
  omega

/-- Insert a user whose name is not taken. -/
def insert (t : Accounts) (username : String) (role : Role)
    (h : username ∉ t.users.map (·.username)) : Accounts where
  users := t.users ++ [{ id := t.nextUuid, username := username, role := role }]
  ids_nodup := by
    rw [List.map_append, List.map_singleton, (List.perm_append_singleton _ _).nodup_iff]
    exact List.nodup_cons.mpr ⟨t.nextUuid_notMem, t.ids_nodup⟩
  usernames_nodup := by
    rw [List.map_append, List.map_singleton, (List.perm_append_singleton _ _).nodup_iff]
    exact List.nodup_cons.mpr ⟨h, t.usernames_nodup⟩

/-- Delete the row of a user, if it is still there. -/
def remove (t : Accounts) (id : Uuid) : Accounts where
  users := t.users.filter (·.id ≠ id)
  ids_nodup := (List.Sublist.map _ List.filter_sublist).nodup t.ids_nodup
  usernames_nodup := (List.Sublist.map _ List.filter_sublist).nodup t.usernames_nodup

/-- The count of `delete_user`. -/
def adminCount (t : Accounts) : ℕ := (t.users.filter User.isAdmin).length

end Accounts

/-! ### Authentication -/

/-- `SYNTHETIC_ADMIN_ID`. -/
def syntheticAdminId : Uuid := 1

/-- The admin of a server without authentication. -/
def syntheticAdmin : User := { id := syntheticAdminId, username := "admin", role := .admin }

/-- `get_current_user`; `bearer` is the subject of the token, if it decodes. -/
def getCurrentUser (authEnabled : Bool) (t : Accounts) (bearer : Option Uuid) :
    Except ServerError User :=
  if ¬ authEnabled then .ok syntheticAdmin
  else
    match bearer.bind t.findUser with
    | none => .error (.http 401 "Invalid or expired token")
    | some u => if u.isActive then .ok u else .error (.http 401 "Invalid or expired token")

/-- `require_admin`. -/
def requireAdmin (u : User) : Except ServerError User :=
  if u.role ≠ .admin then .error (.http 403 "Admin privileges required") else .ok u

/-! ### Requests -/

/-- `UserCreate`, less the password. -/
structure UserCreate where
  username : String
  role : String := "user"
  username_bounds : 1 ≤ username.length ∧ username.length ≤ 64 := by decide

/-- The role a body asks for. -/
def UserCreate.parseRole (body : UserCreate) : Option Role :=
  if body.role = "admin" then some .admin
  else if body.role = "user" then some .user
  else none

/-- The two requests. -/
inductive UserRequest
  | create (bearer : Option Uuid) (body : UserCreate)
  | delete (bearer : Option Uuid) (userId : Uuid)

/-- Where a request waits for the database. -/
inductive UserPhase
  /-- For the row of the current user. -/
  | auth (req : UserRequest)
  /-- `create_user`, for a row with the user name. -/
  | username (body : UserCreate) (role : Role)
  /-- `create_user`, for its commit. -/
  | insert (body : UserCreate) (role : Role)
  /-- `delete_user`, for the row of the user. -/
  | target (userId : Uuid)
  /-- `delete_user`, for the number of admins. -/
  | count (user : User)
  /-- `delete_user`, for its commit. -/
  | remove (user : User)
  | answered (result : Except ServerError Unit)

namespace UserPhase

/-- The handler after the dependencies, up to its first wait. -/
def enter (current : User) : UserRequest → UserPhase
  | .create _ body =>
    match body.parseRole with
    | none => .answered (.error (.http 422 "role must be 'admin' or 'user'"))
    | some role => .username body role
  | .delete _ userId =>
    if current.id = userId then .answered (.error (.http 400 "cannot delete yourself"))
    else .target userId

/-- The token of a request. -/
def bearer : UserRequest → Option Uuid
  | .create bearer _ => bearer
  | .delete bearer _ => bearer

/-- One step of a request: from where it waits to its next wait. -/
def advance (authEnabled : Bool) (t : Accounts) : UserPhase → Accounts × UserPhase
  | .auth req =>
    match getCurrentUser authEnabled t (bearer req) >>= requireAdmin with
    | .error e => (t, .answered (.error e))
    | .ok current => (t, enter current req)
  | .username body role =>
    if t.users.any (·.username = body.username) then
      (t, .answered (.error (.http 409 "username already taken")))
    else (t, .insert body role)
  | .insert body role =>
    -- the unique index refuses a name that was taken meanwhile
    if h : body.username ∈ t.users.map (·.username) then
      (t, .answered (.error (.http 500 "Internal Server Error")))
    else (t.insert body.username role h, .answered (.ok ()))
  | .target userId =>
    match t.findUser userId with
    | none => (t, .answered (.error (.http 404 "user not found")))
    | some user => (t, .count user)
  | .count user =>
    if user.role = .admin ∧ t.adminCount ≤ 1 then
      (t, .answered (.error (.http 400 "cannot delete the last admin")))
    else (t, .remove user)
  | .remove user => (t.remove user.id, .answered (.ok ()))
  | .answered result => (t, .answered result)

end UserPhase

/-- The requests on the table. -/
def userRace (authEnabled : Bool) :
    Race Accounts UserPhase → RaceEvent UserRequest → Race Accounts UserPhase :=
  Race.step UserPhase.auth (UserPhase.advance authEnabled)

/-! ### The last admin -/

/-- There is an active user with the role admin. -/
def HasAdmin (t : Accounts) : Prop := ∃ u ∈ t.users, u.isAdmin = true

/-- If the request is about to remove an active admin, there is more than one. -/
def RemovalSafe (t : Accounts) : UserPhase → Prop
  | .remove user => (∃ u ∈ t.users, u.id = user.id ∧ u.isAdmin = true) → 1 < t.adminCount
  | _ => True

instance (t : Accounts) : ∀ p, Decidable (RemovalSafe t p)
  | .remove _ => inferInstanceAs (Decidable (_ → _))
  | .auth _ => isTrue trivial
  | .username _ _ => isTrue trivial
  | .insert _ _ => isTrue trivial
  | .target _ => isTrue trivial
  | .count _ => isTrue trivial
  | .answered _ => isTrue trivial

theorem hasAdmin_iff (t : Accounts) : HasAdmin t ↔ 0 < t.adminCount := by
  unfold HasAdmin Accounts.adminCount
  rw [List.length_pos_iff_exists_mem]
  simp [List.mem_filter]

/-- Removing an active admin leaves one admin less. -/
theorem adminCount_remove (t : Accounts) {u : User} (hu : u ∈ t.users) (hadmin : u.isAdmin = true) :
    (t.remove u.id).adminCount + 1 = t.adminCount := by
  have hswap : (t.remove u.id).users.filter User.isAdmin =
      (t.users.filter User.isAdmin).filter (·.id ≠ u.id) := by
    unfold Accounts.remove
    simp only
    rw [List.filter_filter, List.filter_filter]
    exact List.filter_congr fun v _ => Bool.and_comm _ _
  -- the id of the user is the id of one admin
  have hone : ((t.users.filter User.isAdmin).filter fun v => v.id = u.id).length = 1 := by
    have hcount := List.count_eq_one_of_mem
      ((List.Sublist.map (·.id) List.filter_sublist).nodup t.ids_nodup)
      (List.mem_map_of_mem (List.mem_filter.mpr ⟨hu, hadmin⟩))
    rw [List.count, List.countP_map, List.countP_eq_length_filter] at hcount
    exact hcount
  have hsplit := List.length_eq_length_filter_add (l := t.users.filter User.isAdmin)
    fun v => v.id = u.id
  unfold Accounts.adminCount
  rw [hswap, hsplit, hone, Nat.add_comm]
  simp

/-- **A commit of `delete_user` leaves an admin exactly if it is safe.** -/
theorem hasAdmin_advance_iff (authEnabled : Bool) (t : Accounts) (p : UserPhase) (h : HasAdmin t) :
    HasAdmin (p.advance authEnabled t).1 ↔ RemovalSafe t p := by
  cases p with
  | auth req =>
    refine iff_of_true ?_ trivial
    unfold UserPhase.advance
    simp only
    split <;> exact h
  | username body role =>
    refine iff_of_true ?_ trivial
    unfold UserPhase.advance
    simp only
    split <;> exact h
  | insert body role =>
    refine iff_of_true ?_ trivial
    unfold UserPhase.advance
    simp only
    split
    · exact h
    · obtain ⟨u, hu, hadmin⟩ := h
      exact ⟨u, List.mem_append_left _ hu, hadmin⟩
  | target userId =>
    refine iff_of_true ?_ trivial
    unfold UserPhase.advance
    simp only
    split <;> exact h
  | count user =>
    refine iff_of_true ?_ trivial
    unfold UserPhase.advance
    simp only
    split <;> exact h
  | remove user =>
    show HasAdmin (t.remove user.id) ↔ _
    by_cases hex : ∃ u ∈ t.users, u.id = user.id ∧ u.isAdmin = true
    · have hiff : RemovalSafe t (.remove user) ↔ 1 < t.adminCount :=
        ⟨fun hsafe => hsafe hex, fun hlt _ => hlt⟩
      obtain ⟨u, hu, hid, hadmin⟩ := hex
      have hcount := adminCount_remove t hu hadmin
      rw [hasAdmin_iff, hiff, ← hid]
      omega
    · -- the row is gone, or no admin's: every admin stays
      refine iff_of_true ?_ fun hex' => absurd hex' hex
      obtain ⟨v, hv, hvadmin⟩ := h
      refine ⟨v, List.mem_filter.mpr ⟨hv, ?_⟩, hvadmin⟩
      rw [decide_eq_true_eq]
      exact fun hid => hex ⟨v, hv, hid, hvadmin⟩
  | answered result => exact iff_of_true h trivial

/-- The guard of `delete_user` is right while its count and its row are current. -/
theorem removalSafe_of_fresh (authEnabled : Bool) (t : Accounts) {user : User}
    (hcurrent : ∀ u ∈ t.users, u.id = user.id → u = user)
    (hpass : (UserPhase.advance authEnabled t (.count user)).2 = .remove user) :
    RemovalSafe t (.remove user) := by
  rintro ⟨u, hu, hid, hadmin⟩
  obtain rfl := hcurrent u hu hid
  unfold UserPhase.advance at hpass
  simp only at hpass
  split_ifs at hpass with hguard
  have hrole : u.role = .admin := by
    unfold User.isAdmin at hadmin
    simp only [Bool.and_eq_true, beq_iff_eq] at hadmin
    exact hadmin.1
  rw [not_and] at hguard
  exact Nat.lt_of_not_le (hguard hrole)

/-- **From a table with an active admin, in every interleaving of requests an active admin
remains exactly while no commit removes the only one.** -/
theorem last_admin_kept (authEnabled : Bool) (t : Accounts) (h : HasAdmin t)
    (es : List (RaceEvent UserRequest)) :
    Run.Always (userRace authEnabled) (fun c => HasAdmin c.shared) ⟨t, []⟩ es ↔
      Run.Conforms (userRace authEnabled) (Race.AtAdvance RemovalSafe) ⟨t, []⟩ es :=
  Race.always_iff (fun _ => True) (fun _ _ _ _ _ => trivial)
    (fun t p _ hP => hasAdmin_advance_iff authEnabled t p hP) trivial h es

/-! ### Two admins -/

/-- The admins `1` and `2`. -/
def twoAdmins : Accounts where
  users := [{ id := 1, username := "admin", role := .admin },
    { id := 2, username := "ops", role := .admin }]
  ids_nodup := by decide
  usernames_nodup := by decide

theorem twoAdmins_hasAdmin : HasAdmin twoAdmins :=
  ⟨{ id := 1, username := "admin", role := .admin }, List.mem_cons_self, rfl⟩

/-- The first deletes the second, whose request comes after that. -/
def orderlyRemovals : List (RaceEvent UserRequest) :=
  [.arrive (.delete (some 1) 2), .advance 0, .advance 0, .advance 0, .advance 0,
    .arrive (.delete (some 2) 1), .advance 1]

theorem last_admin_kept_orderly :
    Run.Always (userRace true) (fun c => HasAdmin c.shared) ⟨twoAdmins, []⟩ orderlyRemovals :=
  (last_admin_kept true twoAdmins twoAdmins_hasAdmin orderlyRemovals).mpr (by decide)

/-- **Two admins delete each other**: both count two admins before either commits. -/
theorem admins_delete_each_other :
    ¬ ∀ es, Run.Always (userRace true) (fun c => HasAdmin c.shared) ⟨twoAdmins, []⟩ es := by
  intro h
  have hend := h [.arrive (.delete (some 1) 2), .arrive (.delete (some 2) 1), .advance 0,
    .advance 0, .advance 0, .advance 1, .advance 1, .advance 1, .advance 0, .advance 1] _
    (List.prefix_refl _)
  have hcount := (hasAdmin_iff _).mp hend
  revert hcount
  decide

end Inferna
