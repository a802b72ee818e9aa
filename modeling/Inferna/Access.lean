import Inferna.Users
import Inferna.Clusters
import Inferna.Endpoints

/-!
# Credentials

Who may act as whom: `auth.py`, `api/auth.py`, `api/keys.py` and the rest of `api/users.py`.  A
login answers with a signed token that names a user, and a user makes API keys, of which only the
hash is stored.  As in `Inferna.Users`, a request is the place at which it waits for the database,
and requests interleave; time goes by between their steps.

The hash of a key, the hash of a password and the signature are parameters.  Of these only the
round trip of a token is used.

## Main definitions

* `AccessTables` — users and API keys, with the keys of the tables as fields.
* `AccessTables.currentUser`, `AccessTables.getApiKey` — who a token and a key stand for.
* `AccessCall.advance`, `Access.step` — a request's steps, and all requests.
* `AccessInv` — what the answers so far say about the tables.

## Main results

* `accessInv_step` — every step keeps the invariant.
* `credentials_live_iff` — **in every interleaving a token works until it expires or its user is
  deleted, a key until it is revoked or its user is deleted, each for its own user only.**
-/

namespace Inferna

/-! ### Rows -/

/-- A row of `users`. -/
structure AccountRow extends User where
  passwordHash : String
  tokenLimit : Option ℕ := none
  requestLimit : Option ℕ := none
  deriving DecidableEq, Repr

/-- A row of `api_keys`. -/
structure ApiKey where
  id : Uuid
  userId : Uuid
  name : String
  keyHash : String
  scopes : List String := []
  lastUsedAt : Option ℕ := none
  revokedAt : Option ℕ := none
  createdAt : ℕ
  deriving DecidableEq, Repr

/-- What the server has for its secrets: `sha256_hex`, `hash_password` with its salt,
`verify_password`, and the token of a subject and an expiry with the subject it is read back to. -/
structure Crypto where
  sha256Hex : String → String
  hashPassword : String → ℕ → String
  verifyPassword : String → String → Bool
  encode : Uuid → ℕ → String
  decode : String → ℕ → Option Uuid

/-- A signed token is read back until it expires. -/
def Crypto.Signs (c : Crypto) : Prop :=
  ∀ u exp now, c.decode (c.encode u exp) now = if now < exp then some u else none

/-- What the server runs with. -/
structure AccessEnv where
  crypto : Crypto
  authEnabled : Bool := true
  backend : Backend

/-- `TOKEN_TTL`, in seconds. -/
def tokenTtl : ℕ := 24 * 60 * 60

/-- The tables `users` and `api_keys`, the clock, and the last identifier handed out. -/
structure AccessTables where
  users : List AccountRow
  keys : List ApiKey := []
  now : ℕ := 0
  lastUuid : Uuid
  user_ids : (users.map (·.id)).Nodup
  usernames : (users.map (·.username)).Nodup
  key_ids : (keys.map (·.id)).Nodup
  /-- `api_keys.key_hash` is unique. -/
  key_hashes : (keys.map (·.keyHash)).Nodup
  user_le : ∀ u ∈ users, u.id ≤ lastUuid
  key_le : ∀ k ∈ keys, k.id ≤ lastUuid

namespace AccessTables

variable (t : AccessTables)

/-- `db.get(User, id)`. -/
def findUser (id : Uuid) : Option AccountRow := t.users.find? (·.id = id)

/-- `db.get(ApiKey, id)`. -/
def findKey (id : Uuid) : Option ApiKey := t.keys.find? (·.id = id)

/-- The columns that `api/users.py` reads in its checks. -/
def accounts : Accounts where
  users := t.users.map (·.toUser)
  ids_nodup := by simpa [Function.comp_def] using t.user_ids
  usernames_nodup := by simpa [Function.comp_def] using t.usernames

/-- Insert an API key whose hash is not taken. -/
def insertKey (userId : Uuid) (name hash : String) (h : hash ∉ t.keys.map (·.keyHash)) :
    AccessTables where
  users := t.users
  keys := t.keys ++
    [{ id := t.lastUuid + 1, userId, name, keyHash := hash, scopes := ["inference"],
       createdAt := t.now }]
  now := t.now
  lastUuid := t.lastUuid + 1
  user_ids := t.user_ids
  usernames := t.usernames
  key_ids := by
    rw [List.map_append, List.map_singleton, (List.perm_append_singleton _ _).nodup_iff]
    refine List.nodup_cons.mpr ⟨fun hmem => ?_, t.key_ids⟩
    obtain ⟨k, hk, hid⟩ := List.mem_map.mp hmem
    exact absurd (hid ▸ t.key_le k hk) (Nat.not_succ_le_self _)
  key_hashes := by
    rw [List.map_append, List.map_singleton, (List.perm_append_singleton _ _).nodup_iff]
    exact List.nodup_cons.mpr ⟨h, t.key_hashes⟩
  user_le := fun u hu => (t.user_le u hu).trans (Nat.le_succ _)
  key_le := by
    intro k hk
    rcases List.mem_append.mp hk with hk | hk
    · exact (t.key_le k hk).trans (Nat.le_succ _)
    · rw [List.mem_singleton.mp hk]

/-- Rewrite the key with an id, its identity left alone. -/
def modifyKey (id : Uuid) (f : ApiKey → ApiKey)
    (hid : ∀ k, (f k).id = k.id) (hhash : ∀ k, (f k).keyHash = k.keyHash) : AccessTables where
  users := t.users
  keys := t.keys.map fun k => if k.id = id then f k else k
  now := t.now
  lastUuid := t.lastUuid
  user_ids := t.user_ids
  usernames := t.usernames
  key_ids := by
    rw [List.map_map, List.map_congr_left (g := (·.id))]
    · exact t.key_ids
    · intro k _
      simp only [Function.comp_apply]
      split <;> simp [hid]
  key_hashes := by
    rw [List.map_map, List.map_congr_left (g := (·.keyHash))]
    · exact t.key_hashes
    · intro k _
      simp only [Function.comp_apply]
      split <;> simp [hhash]
  user_le := t.user_le
  key_le := by
    intro k hk
    obtain ⟨j, hj, rfl⟩ := List.mem_map.mp hk
    split
    · rw [hid]; exact t.key_le j hj
    · exact t.key_le j hj

/-- Insert a user whose name is not taken. -/
def insertUser (username passwordHash : String) (role : Role)
    (h : username ∉ t.users.map (·.username)) : AccessTables where
  users := t.users ++ [{ id := t.lastUuid + 1, username, role, passwordHash }]
  keys := t.keys
  now := t.now
  lastUuid := t.lastUuid + 1
  user_ids := by
    rw [List.map_append, List.map_singleton, (List.perm_append_singleton _ _).nodup_iff]
    refine List.nodup_cons.mpr ⟨fun hmem => ?_, t.user_ids⟩
    obtain ⟨u, hu, hid⟩ := List.mem_map.mp hmem
    exact absurd (hid ▸ t.user_le u hu) (Nat.not_succ_le_self _)
  usernames := by
    rw [List.map_append, List.map_singleton, (List.perm_append_singleton _ _).nodup_iff]
    exact List.nodup_cons.mpr ⟨h, t.usernames⟩
  key_ids := t.key_ids
  key_hashes := t.key_hashes
  user_le := by
    intro u hu
    rcases List.mem_append.mp hu with hu | hu
    · exact (t.user_le u hu).trans (Nat.le_succ _)
    · rw [List.mem_singleton.mp hu]
  key_le := fun k hk => (t.key_le k hk).trans (Nat.le_succ _)

/-- Rewrite the user with an id, its identity left alone. -/
def modifyUser (id : Uuid) (f : AccountRow → AccountRow) (hf : ∀ u, (f u).toUser = u.toUser) :
    AccessTables where
  users := t.users.map fun u => if u.id = id then f u else u
  keys := t.keys
  now := t.now
  lastUuid := t.lastUuid
  user_ids := by
    rw [List.map_map, List.map_congr_left (g := (·.id))]
    · exact t.user_ids
    · intro u _
      simp only [Function.comp_apply]
      split <;> simp [hf]
  usernames := by
    rw [List.map_map, List.map_congr_left (g := (·.username))]
    · exact t.usernames
    · intro u _
      simp only [Function.comp_apply]
      split <;> simp [hf]
  key_ids := t.key_ids
  key_hashes := t.key_hashes
  user_le := by
    intro u hu
    obtain ⟨v, hv, rfl⟩ := List.mem_map.mp hu
    split
    · rw [hf]; exact t.user_le v hv
    · exact t.user_le v hv
  key_le := t.key_le

/-- Delete a user.  `api_keys.user_id` is `ON DELETE CASCADE`. -/
def removeUser (backend : Backend) (id : Uuid) : AccessTables where
  users := t.users.filter (·.id ≠ id)
  keys := if backend.enforcesForeignKeys then t.keys.filter (·.userId ≠ id) else t.keys
  now := t.now
  lastUuid := t.lastUuid
  user_ids := (List.Sublist.map _ List.filter_sublist).nodup t.user_ids
  usernames := (List.Sublist.map _ List.filter_sublist).nodup t.usernames
  key_ids := by
    split
    · exact (List.Sublist.map _ List.filter_sublist).nodup t.key_ids
    · exact t.key_ids
  key_hashes := by
    split
    · exact (List.Sublist.map _ List.filter_sublist).nodup t.key_hashes
    · exact t.key_hashes
  user_le := fun u hu => t.user_le u (List.mem_of_mem_filter hu)
  key_le := by
    intro k hk
    split at hk
    · exact t.key_le k (List.mem_of_mem_filter hk)
    · exact t.key_le k hk

/-- Time goes by. -/
def elapse (seconds : ℕ) : AccessTables := { t with now := t.now + seconds }

/-! ### Who a credential stands for -/

/-- `get_current_user`. -/
def currentUser (env : AccessEnv) (token : String) : Except ServerError User :=
  getCurrentUser env.authEnabled t.accounts (env.crypto.decode token t.now)

/-- The row of a key as `get_api_key` loads it. -/
def keyRow (k : ApiKey) : KeyRow where
  revoked := k.revokedAt.isSome
  userIsActive := (t.findUser k.userId).map (·.isActive)
  scopes := k.scopes
  lastUsedAt := k.lastUsedAt

/-- `get_api_key`, less the stamp. -/
def getApiKey (env : AccessEnv) (credentials : String) : Except OpenAIError ApiKey :=
  match t.keys.find? (·.keyHash = env.crypto.sha256Hex credentials) with
  | none => .error .invalidApiKey
  | some k => (authorize (some (t.keyRow k))).map fun _ => k

end AccessTables

/-! ### Requests -/

/-- `ApiKeyCreate`. -/
structure ApiKeyCreate where
  name : String
  name_bounds : 1 ≤ name.length ∧ name.length ≤ 64 := by decide

/-- The password of a body. -/
structure NewPassword where
  password : String
  /-- What `bcrypt.gensalt` answers. -/
  salt : ℕ
  password_bounds : 6 ≤ password.length ∧ password.length ≤ 128 := by decide

/-- The requests, with the bearer token; `secret` is what `generate_api_key` answers. -/
inductive AccessRequest
  | login (username password : String)
  | createKey (token : String) (body : ApiKeyCreate) (secret : String)
  | listKeys (token : String)
  | revokeKey (token : String) (keyId : Uuid)
  | createUser (token : String) (body : UserCreate) (password : NewPassword)
  | deleteUser (token : String) (userId : Uuid)
  | setUserLimits (token : String) (userId : Uuid) (tokenLimit requestLimit : Option ℕ)
  | changePassword (token : String) (userId : Uuid) (password : NewPassword)

/-- The body of an answer. -/
inductive AccessAnswer
  /-- `TokenResponse`. -/
  | token (accessToken : String)
  /-- `ApiKeySecretOut`. -/
  | secret (key : ApiKey) (secret : String)
  /-- `ApiKeyOut`. -/
  | key (key : ApiKey)
  | keys (keys : List ApiKey)
  /-- `UserOut`. -/
  | user (row : AccountRow)
  | noContent
  deriving DecidableEq, Repr

/-- What a change of a user writes. -/
inductive AccountChange
  | limits (tokenLimit requestLimit : Option ℕ)
  | password (hash : String)

/-- The row with the change. -/
def AccountChange.apply : AccountChange → AccountRow → AccountRow
  | .limits tokenLimit requestLimit, u => { u with tokenLimit, requestLimit }
  | .password hash, u => { u with passwordHash := hash }

theorem AccountChange.toUser_apply (c : AccountChange) (u : AccountRow) :
    (c.apply u).toUser = u.toUser := by
  cases c <;> rfl

/-- Where a request waits. -/
inductive AccessWait
  /-- For the row of the user who logs in, or of the current user. -/
  | auth
  /-- `create_key`, for its commit. -/
  | insertKey (current : User) (body : ApiKeyCreate) (secret : String)
  /-- `list_keys`, for its rows. -/
  | listing (current : User)
  /-- `revoke_key`, for the row. -/
  | readKey (current : User) (keyId : Uuid)
  /-- `revoke_key`, for its commit. -/
  | revoke (keyId : Uuid) (stamp : ℕ)
  /-- `create_user` and `delete_user`, as in `Inferna.Users`; with the hash of the password. -/
  | user (p : UserPhase) (passwordHash : String)
  /-- `set_user_limits` and `change_password`, for the row. -/
  | readUser (userId : Uuid) (change : AccountChange)
  /-- For their commit. -/
  | writeUser (userId : Uuid) (change : AccountChange)
  | answered (result : Except ServerError AccessAnswer)

/-- A request and where it waits. -/
structure AccessCall where
  request : AccessRequest
  wait : AccessWait := .auth

/-- The rows of `list_keys`, newest first. -/
def listKeys (t : AccessTables) (current : User) : List ApiKey :=
  (t.keys.filter fun k => current.role = .admin ∨ k.userId = current.id).insertionSort
    fun a b => b.createdAt ≤ a.createdAt

namespace AccessWait

/-- An answer with an error. -/
def refused (status : ℕ) (detail : String) : AccessWait := .answered (.error (.http status detail))

/-- A handler behind `require_admin`. -/
def behindAdmin (current : User) (next : AccessWait) : AccessWait :=
  match requireAdmin current with
  | .error e => .answered (.error e)
  | .ok _ => next

/-- The handler after `get_current_user`, up to its first wait. -/
def enter (env : AccessEnv) (current : User) : AccessRequest → AccessWait
  | .login _ _ => refused 500 "Internal Server Error"
  | .createKey _ body secret => .insertKey current body secret
  | .listKeys _ => .listing current
  | .revokeKey _ keyId => .readKey current keyId
  | .createUser _ body password =>
    behindAdmin current (.user (UserPhase.enter current (.create none body))
      (env.crypto.hashPassword password.password password.salt))
  | .deleteUser _ userId =>
    behindAdmin current (.user (UserPhase.enter current (.delete none userId)) "")
  | .setUserLimits _ userId tokenLimit requestLimit =>
    behindAdmin current (.readUser userId (.limits tokenLimit requestLimit))
  | .changePassword _ userId password =>
    if current.role ≠ .admin ∧ current.id ≠ userId then refused 403 "not allowed"
    else .readUser userId (.password (env.crypto.hashPassword password.password password.salt))

end AccessWait

/-- The bearer token of a request. -/
def AccessRequest.token : AccessRequest → String
  | .login _ _ => ""
  | .createKey token _ _ => token
  | .listKeys token => token
  | .revokeKey token _ => token
  | .createUser token _ _ => token
  | .deleteUser token _ => token
  | .setUserLimits token _ _ _ => token
  | .changePassword token _ _ => token

/-- `login` on the row it has read. -/
def login (env : AccessEnv) (now : ℕ) (password : String) :
    Option AccountRow → Except ServerError AccessAnswer
  | none => .error (.http 401 "Invalid username or password")
  | some u =>
    if env.crypto.verifyPassword password u.passwordHash = true ∧ u.isActive = true then
      .ok (.token (env.crypto.encode u.id (now + tokenTtl)))
    else .error (.http 401 "Invalid username or password")

namespace AccessCall

/-- Where a request goes on. -/
def goto (c : AccessCall) (w : AccessWait) : AccessCall := { c with wait := w }

/-- One step of a request: from where it waits to its next wait. -/
def advance (env : AccessEnv) (t : AccessTables) (c : AccessCall) : AccessTables × AccessCall :=
  match c.wait with
  | .auth =>
    match c.request with
    | .login username password =>
      (t, c.goto (.answered (login env t.now password (t.users.find? (·.username = username)))))
    | req =>
      match t.currentUser env req.token with
      | .error e => (t, c.goto (.answered (.error e)))
      | .ok current => (t, c.goto (AccessWait.enter env current req))
  | .insertKey current body secret =>
    if h : env.crypto.sha256Hex secret ∉ t.keys.map (·.keyHash) then
      if env.backend.enforcesForeignKeys = true ∧ t.findUser current.id = none then
        (t, c.goto (.refused 500 "Internal Server Error"))
      else
        let t' := t.insertKey current.id body.name (env.crypto.sha256Hex secret) h
        match t'.findKey (t.lastUuid + 1) with
        | none => (t', c.goto (.refused 500 "Internal Server Error"))
        | some key => (t', c.goto (.answered (.ok (.secret key secret))))
    else (t, c.goto (.refused 500 "Internal Server Error"))
  | .listing current => (t, c.goto (.answered (.ok (.keys (listKeys t current)))))
  | .readKey current keyId =>
    match t.findKey keyId with
    | none => (t, c.goto (.refused 404 "API key not found"))
    | some key =>
      if current.role ≠ .admin ∧ key.userId ≠ current.id then
        (t, c.goto (.refused 403 "not allowed"))
      else if key.revokedAt = none then (t, c.goto (.revoke keyId t.now))
      else (t, c.goto (.answered (.ok (.key key))))
  | .revoke keyId stamp =>
    -- an `UPDATE` that matches no row is a `StaleDataError`
    match t.findKey keyId with
    | none => (t, c.goto (.refused 500 "Internal Server Error"))
    | some key =>
      (t.modifyKey keyId (fun k => { k with revokedAt := some stamp }) (fun _ => rfl) fun _ => rfl,
        c.goto (.answered (.ok (.key { key with revokedAt := some stamp }))))
  | .user (.insert body role) hash =>
    if h : body.username ∈ t.users.map (·.username) then
      (t, c.goto (.refused 500 "Internal Server Error"))
    else
      let t' := t.insertUser body.username hash role h
      match t'.findUser (t.lastUuid + 1) with
      | none => (t', c.goto (.refused 500 "Internal Server Error"))
      | some row => (t', c.goto (.answered (.ok (.user row))))
  | .user (.remove user) _ =>
    (t.removeUser env.backend user.id, c.goto (.answered (.ok .noContent)))
  | .user (.answered result) _ => (t, c.goto (.answered (result.map fun _ => .noContent)))
  | .user p hash => (t, c.goto (.user (p.advance env.authEnabled t.accounts).2 hash))
  | .readUser userId change =>
    match t.findUser userId with
    | none => (t, c.goto (.refused 404 "user not found"))
    | some _ => (t, c.goto (.writeUser userId change))
  | .writeUser userId change =>
    match t.findUser userId with
    | none => (t, c.goto (.refused 500 "Internal Server Error"))
    | some row =>
      (t.modifyUser userId change.apply change.toUser_apply,
        c.goto (.answered (.ok (.user (change.apply row)))))
  | .answered _ => (t, c)

end AccessCall

/-- What may happen: an event of a request, or time goes by. -/
inductive AccessEvent
  | request (e : RaceEvent AccessRequest)
  | elapse (seconds : ℕ)

/-- The tables and the requests. -/
abbrev Access := Race AccessTables AccessCall

/-- One event. -/
def Access.step (env : AccessEnv) (c : Access) : AccessEvent → Access
  | .request e => Race.step (fun req => { request := req }) (AccessCall.advance env) c e
  | .elapse seconds => { c with shared := c.shared.elapse seconds }

/-! ### What comes later -/

/-- What any number of steps keep of the tables: identifiers are not used again, a key stays what
it is and stays revoked, and goes only with its user. -/
structure Later (t t' : AccessTables) : Prop where
  now : t.now ≤ t'.now
  last : t.lastUuid ≤ t'.lastUuid
  users : ∀ u ∈ t'.users, t.lastUuid < u.id ∨ ∃ v ∈ t.users, v.id = u.id ∧ v.username = u.username
  keys : ∀ k ∈ t'.keys, t.lastUuid < k.id ∨
    ∃ j ∈ t.keys, j.id = k.id ∧ j.keyHash = k.keyHash ∧ j.userId = k.userId ∧
      j.scopes = k.scopes ∧ (j.revokedAt ≠ none → k.revokedAt ≠ none)
  kept : ∀ j ∈ t.keys, (∃ k ∈ t'.keys, k.id = j.id) ∨ ∀ u ∈ t'.users, u.id ≠ j.userId

section Later

variable (t : AccessTables)

theorem Later.refl : Later t t where
  now := le_rfl
  last := le_rfl
  users u hu := Or.inr ⟨u, hu, rfl, rfl⟩
  keys k hk := Or.inr ⟨k, hk, rfl, rfl, rfl, rfl, id⟩
  kept j hj := Or.inl ⟨j, hj, rfl⟩

theorem later_elapse (seconds : ℕ) : Later t (t.elapse seconds) where
  now := Nat.le_add_right _ _
  last := le_rfl
  users u hu := Or.inr ⟨u, hu, rfl, rfl⟩
  keys k hk := Or.inr ⟨k, hk, rfl, rfl, rfl, rfl, id⟩
  kept j hj := Or.inl ⟨j, hj, rfl⟩

theorem later_insertKey (userId : Uuid) (name hash : String)
    (h : hash ∉ t.keys.map (·.keyHash)) : Later t (t.insertKey userId name hash h) where
  now := le_rfl
  last := Nat.le_succ _
  users u hu := Or.inr ⟨u, hu, rfl, rfl⟩
  keys k hk := by
    rcases List.mem_append.mp hk with hk | hk
    · exact Or.inr ⟨k, hk, rfl, rfl, rfl, rfl, id⟩
    · rw [List.mem_singleton.mp hk]
      exact Or.inl (Nat.lt_succ_self _)
  kept j hj := Or.inl ⟨j, List.mem_append_left _ hj, rfl⟩

theorem later_revoke (id : Uuid) (stamp : ℕ) :
    Later t (t.modifyKey id (fun k => { k with revokedAt := some stamp }) (fun _ => rfl)
      fun _ => rfl) where
  now := le_rfl
  last := le_rfl
  users u hu := Or.inr ⟨u, hu, rfl, rfl⟩
  keys k hk := by
    obtain ⟨j, hj, rfl⟩ := List.mem_map.mp hk
    refine Or.inr ⟨j, hj, ?_⟩
    split
    · exact ⟨rfl, rfl, rfl, rfl, fun _ => Option.some_ne_none _⟩
    · exact ⟨rfl, rfl, rfl, rfl, fun h => h⟩
  kept j hj := by
    refine Or.inl ⟨_, List.mem_map_of_mem hj, ?_⟩
    split <;> rfl

theorem later_insertUser (username hash : String) (role : Role)
    (h : username ∉ t.users.map (·.username)) : Later t (t.insertUser username hash role h) where
  now := le_rfl
  last := Nat.le_succ _
  users u hu := by
    rcases List.mem_append.mp hu with hu | hu
    · exact Or.inr ⟨u, hu, rfl, rfl⟩
    · rw [List.mem_singleton.mp hu]
      exact Or.inl (Nat.lt_succ_self _)
  keys k hk := Or.inr ⟨k, hk, rfl, rfl, rfl, rfl, id⟩
  kept j hj := Or.inl ⟨j, hj, rfl⟩

theorem later_modifyUser (id : Uuid) (change : AccountChange) :
    Later t (t.modifyUser id change.apply change.toUser_apply) where
  now := le_rfl
  last := le_rfl
  users u hu := by
    obtain ⟨v, hv, rfl⟩ := List.mem_map.mp hu
    refine Or.inr ⟨v, hv, ?_⟩
    split
    · rw [change.toUser_apply]
      exact ⟨rfl, rfl⟩
    · exact ⟨rfl, rfl⟩
  keys k hk := Or.inr ⟨k, hk, rfl, rfl, rfl, rfl, fun h => h⟩
  kept j hj := Or.inl ⟨j, hj, rfl⟩

theorem mem_removeUser_keys {backend : Backend} {id : Uuid} {k : ApiKey}
    (hk : k ∈ (t.removeUser backend id).keys) : k ∈ t.keys := by
  unfold AccessTables.removeUser at hk
  simp only at hk
  split at hk
  · exact List.mem_of_mem_filter hk
  · exact hk

theorem later_removeUser (backend : Backend) (id : Uuid) : Later t (t.removeUser backend id) where
  now := le_rfl
  last := le_rfl
  users u hu := Or.inr ⟨u, List.mem_of_mem_filter hu, rfl, rfl⟩
  keys k hk := Or.inr ⟨k, mem_removeUser_keys t hk, rfl, rfl, rfl, rfl, fun h => h⟩
  kept j hj := by
    by_cases hid : j.userId = id
    · right
      intro u hu
      have hne : u.id ≠ id := by simpa using (List.mem_filter.mp hu).2
      rw [hid]
      exact hne
    · left
      refine ⟨j, ?_, rfl⟩
      unfold AccessTables.removeUser
      simp only
      split
      · exact List.mem_filter.mpr ⟨hj, by simpa using hid⟩
      · exact hj

end Later

/-! ### What the answers say -/

/-- An issued key: its row is the one with its id, and is there as long as its user is. -/
structure Issued (env : AccessEnv) (t : AccessTables) (key : ApiKey) (secret : String) : Prop where
  id_le : key.id ≤ t.lastUuid
  userId_le : key.userId ≤ t.lastUuid
  hash : key.keyHash = env.crypto.sha256Hex secret
  row : ∀ k ∈ t.keys, k.id = key.id →
    k.keyHash = key.keyHash ∧ k.userId = key.userId ∧ k.scopes = ["inference"]
  kept : (∃ k ∈ t.keys, k.id = key.id) ∨ ∀ u ∈ t.users, u.id ≠ key.userId

/-- What holds of a request where it waits, and of its answer ever after. -/
def AccessWait.Sound (env : AccessEnv) (t : AccessTables) (req : AccessRequest) :
    AccessWait → Prop
  | .insertKey current _ _ => current.id ≤ t.lastUuid
  | .user (.auth _) _ => False
  | .user (.target id) _ => ∃ token, req = .deleteUser token id
  | .user (.count target) _ => target.id ≤ t.lastUuid ∧ ∃ token, req = .deleteUser token target.id
  | .user (.remove target) _ => target.id ≤ t.lastUuid ∧ ∃ token, req = .deleteUser token target.id
  | .user (.answered result) _ => result ≠ .ok ()
  | .answered (.ok (.token token)) => ∃ name password u expiry,
      req = .login name password ∧ token = env.crypto.encode u expiry ∧
        expiry ≤ t.now + tokenTtl ∧ u ≤ t.lastUuid ∧ ∀ row ∈ t.users, row.id = u → row.username = name
  | .answered (.ok (.secret key secret)) => Issued env t key secret
  | .answered (.ok (.key key)) => key.id ≤ t.lastUuid ∧
      ∀ k ∈ t.keys, k.id = key.id → k.revokedAt ≠ none
  | .answered (.ok .noContent) => ∃ token u,
      req = .deleteUser token u ∧ u ≤ t.lastUuid ∧ ∀ row ∈ t.users, row.id ≠ u
  | _ => True

/-- The answers so far say what there is in the tables. -/
structure AccessInv (env : AccessEnv) (c : Access) : Prop where
  sound : ∀ r ∈ c.requests, r.wait.Sound env c.shared r.request
  issued : ∀ k ∈ c.shared.keys, ∃ r ∈ c.requests, ∃ key secret,
    r.wait = .answered (.ok (.secret key secret)) ∧ key.id = k.id
  revoked : ∀ k ∈ c.shared.keys, k.revokedAt ≠ none → ∃ r ∈ c.requests, ∃ key,
    r.wait = .answered (.ok (.key key)) ∧ key.id = k.id

section Sound

variable {env : AccessEnv} {t t' : AccessTables}

theorem Issued.later {key : ApiKey} {secret : String} (h : Issued env t key secret)
    (hl : Later t t') : Issued env t' key secret where
  id_le := h.id_le.trans hl.last
  userId_le := h.userId_le.trans hl.last
  hash := h.hash
  row := by
    intro k hk hid
    rcases hl.keys k hk with hlt | ⟨j, hj, hjid, hjhash, hjuser, hjscopes, -⟩
    · exact absurd h.id_le (hid ▸ hlt).not_ge
    · obtain ⟨hhash, huser, hscopes⟩ := h.row j hj (hjid.trans hid)
      exact ⟨hjhash ▸ hhash, hjuser ▸ huser, hjscopes ▸ hscopes⟩
  kept := by
    have hgone : ∀ v ∈ t'.users, v.id = key.userId → ∃ w ∈ t.users, w.id = key.userId := by
      intro v hv hid
      rcases hl.users v hv with hlt | ⟨w, hw, hwid, -⟩
      · exact absurd h.userId_le (hid ▸ hlt).not_ge
      · exact ⟨w, hw, hwid.trans hid⟩
    rcases h.kept with ⟨j, hj, hid⟩ | hnone
    · rcases hl.kept j hj with ⟨k, hk, hkid⟩ | hnone
      · exact Or.inl ⟨k, hk, hkid.trans hid⟩
      · exact Or.inr ((h.row j hj hid).2.1 ▸ hnone)
    · refine Or.inr fun v hv hid => ?_
      obtain ⟨w, hw, hwid⟩ := hgone v hv hid
      exact hnone w hw hwid

/-- What was said of a request stays true. -/
theorem AccessWait.Sound.later {req : AccessRequest} {w : AccessWait} (h : w.Sound env t req)
    (hl : Later t t') : w.Sound env t' req := by
  have hlast := hl.last
  unfold AccessWait.Sound at h ⊢
  split at h
  · exact h.trans hlast
  · exact h.elim
  · exact h
  · exact ⟨h.1.trans hlast, h.2⟩
  · exact ⟨h.1.trans hlast, h.2⟩
  · exact h
  · -- a token names a user of that name
    obtain ⟨name, password, u, expiry, hreq, htoken, hexp, hle, hname⟩ := h
    refine ⟨name, password, u, expiry, hreq, htoken, hexp.trans (Nat.add_le_add_right hl.now _),
      hle.trans hlast, fun row hrow hid => ?_⟩
    rcases hl.users row hrow with hlt | ⟨v, hv, hvid, hvname⟩
    · exact absurd hle (hid ▸ hlt).not_ge
    · exact hvname ▸ hname v hv (hvid.trans hid)
  · exact h.later hl
  · -- a revoked key stays revoked
    refine ⟨h.1.trans hlast, fun k hk hid => ?_⟩
    rcases hl.keys k hk with hlt | ⟨j, hj, hjid, -, -, -, hrev⟩
    · exact absurd h.1 (hid ▸ hlt).not_ge
    · exact hrev (h.2 j hj (hjid.trans hid))
  · -- a deleted user does not come back
    obtain ⟨token, u, hreq, hle, hnone⟩ := h
    refine ⟨token, u, hreq, hle.trans hlast, fun row hrow hid => ?_⟩
    rcases hl.users row hrow with hlt | ⟨v, hv, hvid, -⟩
    · exact absurd hle (hid ▸ hlt).not_ge
    · exact hnone v hv (hvid.trans hid)
  · exact trivial

end Sound

/-! ### One step of a request -/

section Advance

variable {env : AccessEnv} {t : AccessTables}

theorem accounts_mem {u : User} (h : u ∈ t.accounts.users) : ∃ row ∈ t.users, row.toUser = u :=
  List.mem_map.mp h

theorem le_of_findUser {id : Uuid} {u : User} (h : t.accounts.findUser id = some u) :
    u.id ≤ t.lastUuid ∧ u.id = id := by
  obtain ⟨row, hrow, rfl⟩ := accounts_mem (List.mem_of_find?_eq_some h)
  exact ⟨t.user_le row hrow, by simpa using List.find?_some h⟩

/-- A token that is accepted stands for a row. -/
theorem currentUser_eq_ok_iff (hauth : env.authEnabled = true) {token : String} {u : User} :
    t.currentUser env token = .ok u ↔
      env.crypto.decode token t.now = some u.id ∧ u.isActive = true ∧
        ∃ row ∈ t.users, row.toUser = u := by
  unfold AccessTables.currentUser getCurrentUser
  rw [hauth, if_neg (by simp)]
  cases hsub : env.crypto.decode token t.now with
  | none => simp
  | some id =>
    rw [Option.bind_some]
    cases hfind : t.accounts.findUser id with
    | none =>
      simp only [reduceCtorEq, Option.some.injEq, false_iff, not_and]
      rintro rfl - ⟨row, hrow, rfl⟩
      have := List.find?_eq_none.mp hfind _ (List.mem_map_of_mem hrow)
      simp at this
    | some v =>
      obtain ⟨-, hid⟩ := le_of_findUser hfind
      have hmem := accounts_mem (List.mem_of_find?_eq_some hfind)
      constructor
      · intro h
        simp only at h
        split_ifs at h with hactive
        cases h
        exact ⟨by rw [hid], hactive, hmem⟩
      · rintro ⟨hu, hactive, row, hrow, rfl⟩
        obtain ⟨row', hrow', rfl⟩ := hmem
        have heq : row' = row :=
          List.inj_on_of_nodup_map t.user_ids hrow' hrow (hid.trans (Option.some.inj hu))
        rw [heq]
        simp only
        rw [if_pos hactive]

theorem findKey_insertKey (userId : Uuid) (name hash : String)
    (h : hash ∉ t.keys.map (·.keyHash)) :
    (t.insertKey userId name hash h).findKey (t.lastUuid + 1) =
      some { id := t.lastUuid + 1, userId, name, keyHash := hash, scopes := ["inference"],
             createdAt := t.now } :=
  Dict.find?_eq_some_of_mem (t.insertKey userId name hash h).key_ids
    (List.mem_append_right _ (List.mem_singleton.mpr rfl))

theorem findUser_insertUser (username hash : String) (role : Role)
    (h : username ∉ t.users.map (·.username)) :
    (t.insertUser username hash role h).findUser (t.lastUuid + 1) =
      some { id := t.lastUuid + 1, username, role, passwordHash := hash } :=
  Dict.find?_eq_some_of_mem
    (t.insertUser username hash role h).user_ids
    (List.mem_append_right _ (List.mem_singleton.mpr rfl))

/-- The handler enters soundly. -/
theorem sound_enter {current : User} (hle : current.id ≤ t.lastUuid) (req : AccessRequest) :
    (AccessWait.enter env current req).Sound env t req := by
  have hadmin : ∀ w : AccessWait, w.Sound env t req →
      (AccessWait.behindAdmin current w).Sound env t req := by
    intro w hw
    unfold AccessWait.behindAdmin
    split
    · exact trivial
    · exact hw
  cases req with
  | login _ _ => exact trivial
  | createKey _ _ _ => exact hle
  | listKeys _ => exact trivial
  | revokeKey _ _ => exact trivial
  | createUser _ body _ =>
    refine hadmin _ ?_
    simp only [UserPhase.enter]
    split
    · exact fun h => nomatch h
    · exact trivial
  | deleteUser token userId =>
    refine hadmin _ ?_
    simp only [UserPhase.enter]
    split
    · exact fun h => nomatch h
    · exact ⟨token, rfl⟩
  | setUserLimits _ _ _ _ => exact hadmin _ trivial
  | changePassword _ _ _ =>
    simp only [AccessWait.enter]
    split <;> exact trivial

/-- A login that succeeds names the user of the row. -/
theorem sound_login (username password : String) :
    (AccessWait.answered (login env t.now password (t.users.find? (·.username = username)))).Sound
      env t (.login username password) := by
  cases hfind : t.users.find? (·.username = username) with
  | none => exact trivial
  | some u =>
    unfold login
    simp only
    split
    · have hu := List.mem_of_find?_eq_some hfind
      have hname : u.username = username := by simpa using List.find?_some hfind
      refine ⟨username, password, u.id, _, rfl, rfl, le_rfl, t.user_le u hu,
        fun row hrow hid => ?_⟩
      rw [List.inj_on_of_nodup_map t.user_ids hrow hu hid, hname]
    · exact trivial

/-- A phase of `create_user` or `delete_user` that only reads. -/
theorem sound_userPhase {p : UserPhase} {hash : String} {req : AccessRequest}
    (h : (AccessWait.user p hash).Sound env t req) (hinsert : ∀ body role, p ≠ .insert body role)
    (hremove : ∀ u, p ≠ .remove u) (hans : ∀ result, p ≠ .answered result) :
    (AccessWait.user (p.advance env.authEnabled t.accounts).2 hash).Sound env t req := by
  cases p with
  | auth _ => exact h.elim
  | username body role =>
    simp only [UserPhase.advance]
    split
    · exact fun h => nomatch h
    · exact trivial
  | insert body role => exact absurd rfl (hinsert body role)
  | target userId =>
    simp only [UserPhase.advance]
    split
    · exact fun h => nomatch h
    · rename_i u hfind
      obtain ⟨hle, hid⟩ := le_of_findUser hfind
      exact ⟨hle, hid ▸ h⟩
  | count u =>
    simp only [UserPhase.advance]
    split
    · exact fun h => nomatch h
    · exact h
  | remove u => exact absurd rfl (hremove u)
  | answered result => exact absurd rfl (hans result)

/-- What one step of a request can do. -/
inductive AccessMove (env : AccessEnv) (t : AccessTables) (req : AccessRequest) :
    AccessTables → AccessWait → Prop
  | reads (w : AccessWait) (hw : w.Sound env t req) : AccessMove env t req t w
  | issues (userId : Uuid) (name secret : String)
      (h : env.crypto.sha256Hex secret ∉ t.keys.map (·.keyHash)) (hle : userId ≤ t.lastUuid)
      (key : ApiKey)
      (hkey : (t.insertKey userId name (env.crypto.sha256Hex secret) h).findKey (t.lastUuid + 1) =
        some key) :
      AccessMove env t req (t.insertKey userId name (env.crypto.sha256Hex secret) h)
        (.answered (.ok (.secret key secret)))
  | revokes (key : ApiKey) (stamp : ℕ) (hkey : key ∈ t.keys) :
      AccessMove env t req
        (t.modifyKey key.id (fun k => { k with revokedAt := some stamp }) (fun _ => rfl) fun _ => rfl)
        (.answered (.ok (.key { key with revokedAt := some stamp })))
  | users (t' : AccessTables) (w : AccessWait) (hl : Later t t') (hkeys : ∀ k ∈ t'.keys, k ∈ t.keys)
      (hw : w.Sound env t' req) : AccessMove env t req t' w

/-- The reads of a request that waits for `create_user` or `delete_user`. -/
theorem userPhase_move {p : UserPhase} {hash : String} {c : AccessCall}
    (hw : c.wait = .user p hash) (h : c.wait.Sound env t c.request) :
    AccessMove env t c.request (c.advance env t).1 (c.advance env t).2.wait := by
  rw [hw] at h
  unfold AccessCall.advance
  rw [hw]
  cases p with
  | insert body role =>
    simp only
    split
    · exact .reads _ trivial
    · rename_i hname
      rw [findUser_insertUser body.username hash role hname]
      exact .users _ _ (later_insertUser t _ _ _ hname) (fun k hk => hk) trivial
  | remove u =>
    obtain ⟨hle, token, hreq⟩ := h
    refine .users _ _ (later_removeUser t _ _) (fun k hk => mem_removeUser_keys t hk) ?_
    refine ⟨token, u.id, hreq, hle, fun row hrow => ?_⟩
    simpa using (List.mem_filter.mp hrow).2
  | answered result =>
    refine .reads _ ?_
    cases result with
    | error e => exact trivial
    | ok _ => exact absurd rfl h
  | auth req => exact h.elim
  | username body role => exact .reads _ (sound_userPhase h (by simp) (by simp) (by simp))
  | target userId => exact .reads _ (sound_userPhase h (by simp) (by simp) (by simp))
  | count u => exact .reads _ (sound_userPhase h (by simp) (by simp) (by simp))

/-- The first step of a request. -/
theorem auth_move (hauth : env.authEnabled = true) {c : AccessCall} (hw : c.wait = .auth) :
    AccessMove env t c.request (c.advance env t).1 (c.advance env t).2.wait := by
  have hbearer : ∀ req : AccessRequest, c.request = req →
      AccessMove env t req t
        (match t.currentUser env req.token with
          | .error e => AccessWait.answered (.error e)
          | .ok current => AccessWait.enter env current req) := by
    intro req _
    cases hcur : t.currentUser env req.token with
    | error e => exact .reads _ trivial
    | ok current =>
      obtain ⟨-, -, row, hrow, hto⟩ := (currentUser_eq_ok_iff hauth).mp hcur
      exact .reads _ (sound_enter (hto ▸ t.user_le row hrow) req)
  unfold AccessCall.advance
  rw [hw]
  cases hreq : c.request with
  | login username password => exact .reads _ (sound_login username password)
  | _ =>
    have hmove := hbearer _ hreq
    simp only
    split at hmove <;> simp_all [AccessCall.goto]

theorem advance_move (hauth : env.authEnabled = true) (c : AccessCall)
    (h : c.wait.Sound env t c.request) :
    AccessMove env t c.request (c.advance env t).1 (c.advance env t).2.wait := by
  cases hw : c.wait with
  | auth => exact auth_move hauth hw
  | insertKey current body secret =>
    rw [hw] at h
    unfold AccessCall.advance
    rw [hw]
    simp only
    split
    · rename_i hhash
      split
      · exact .reads _ trivial
      · have hrow := findKey_insertKey current.id body.name (env.crypto.sha256Hex secret) hhash
        split
        · rename_i hnone
          rw [hrow] at hnone
          cases hnone
        · rename_i key hkey
          exact .issues current.id body.name secret hhash h key hkey
    · exact .reads _ trivial
  | listing current =>
    unfold AccessCall.advance
    rw [hw]
    exact .reads _ trivial
  | readKey current keyId =>
    unfold AccessCall.advance
    rw [hw]
    simp only
    split
    · exact .reads _ trivial
    · rename_i key hkey
      have hmem := List.mem_of_find?_eq_some hkey
      split
      · exact .reads _ trivial
      · split
        · exact .reads _ trivial
        · rename_i hrev
          refine .reads _ ⟨t.key_le key hmem, fun k hk hid => ?_⟩
          rwa [List.inj_on_of_nodup_map t.key_ids hk hmem hid]
  | revoke keyId stamp =>
    unfold AccessCall.advance
    rw [hw]
    simp only
    split
    · exact .reads _ trivial
    · rename_i key hkey
      have hid : key.id = keyId := by simpa using List.find?_some hkey
      subst hid
      exact .revokes key stamp (List.mem_of_find?_eq_some hkey)
  | user p hash => exact userPhase_move hw h
  | readUser userId change =>
    unfold AccessCall.advance
    rw [hw]
    simp only
    split <;> exact .reads _ trivial
  | writeUser userId change =>
    unfold AccessCall.advance
    rw [hw]
    simp only
    split
    · exact .reads _ trivial
    · exact .users _ _ (later_modifyUser t userId change) (fun k hk => hk) trivial
  | answered result =>
    rw [hw] at h
    unfold AccessCall.advance
    rw [hw]
    simp only
    rw [hw]
    exact .reads _ h

theorem AccessMove.later {req : AccessRequest} {t' : AccessTables} {w : AccessWait}
    (h : AccessMove env t req t' w) : Later t t' := by
  cases h with
  | reads w _ => exact Later.refl t
  | issues userId name secret hhash _ key _ => exact later_insertKey t _ _ _ hhash
  | revokes key stamp _ => exact later_revoke t key.id stamp
  | users t' w hl _ _ => exact hl

theorem AccessMove.sound {req : AccessRequest} {t' : AccessTables} {w : AccessWait}
    (h : AccessMove env t req t' w) : w.Sound env t' req := by
  cases h with
  | reads w hw => exact hw
  | issues userId name secret hhash hle key hkey =>
    rw [findKey_insertKey] at hkey
    obtain rfl := Option.some.inj hkey
    have hrow := List.mem_of_find?_eq_some
      (findKey_insertKey (t := t) userId name (env.crypto.sha256Hex secret) hhash)
    refine ⟨le_rfl, hle.trans (Nat.le_succ _), rfl, fun k hk hid => ?_, Or.inl ⟨_, hrow, rfl⟩⟩
    -- the new row is the only one of its id
    rw [List.inj_on_of_nodup_map (AccessTables.key_ids _) hk hrow hid]
    exact ⟨rfl, rfl, rfl⟩
  | revokes key stamp hkey =>
    refine ⟨t.key_le key hkey, fun k hk hid => ?_⟩
    obtain ⟨j, hj, rfl⟩ := List.mem_map.mp hk
    split
    · exact Option.some_ne_none _
    · rename_i hne
      rw [if_neg hne] at hid
      exact absurd hid hne
  | users t' w _ _ hw => exact hw

/-- Where the keys of a move come from. -/
theorem AccessMove.keys {req : AccessRequest} {t' : AccessTables} {w : AccessWait}
    (h : AccessMove env t req t' w) {k : ApiKey} (hk : k ∈ t'.keys) :
    (∃ j ∈ t.keys, j.id = k.id ∧ (k.revokedAt ≠ none → j.revokedAt ≠ none ∨
        ∃ key, w = .answered (.ok (.key key)) ∧ key.id = k.id)) ∨
      (k.revokedAt = none ∧
        ∃ key secret, w = .answered (.ok (.secret key secret)) ∧ key.id = k.id) := by
  cases h with
  | reads w _ => exact Or.inl ⟨k, hk, rfl, Or.inl⟩
  | issues userId name secret hhash _ key hkey =>
    rw [findKey_insertKey] at hkey
    obtain rfl := Option.some.inj hkey
    rcases List.mem_append.mp hk with hk | hk
    · exact Or.inl ⟨k, hk, rfl, Or.inl⟩
    · rw [List.mem_singleton.mp hk]
      exact Or.inr ⟨rfl, _, _, rfl, rfl⟩
  | revokes key stamp _ =>
    obtain ⟨j, hj, rfl⟩ := List.mem_map.mp hk
    refine Or.inl ⟨j, hj, ?_⟩
    split
    · rename_i hid
      exact ⟨rfl, fun _ => Or.inr ⟨_, rfl, hid.symm⟩⟩
    · exact ⟨rfl, Or.inl⟩
  | users t' w _ hkeys _ => exact Or.inl ⟨k, hkeys k hk, rfl, Or.inl⟩

theorem advance_request (c : AccessCall) : (c.advance env t).2.request = c.request := by
  unfold AccessCall.advance
  simp only
  repeat' split
  all_goals rfl

theorem advance_answered {c : AccessCall} {result : Except ServerError AccessAnswer}
    (h : c.wait = .answered result) : (c.advance env t).2 = c := by
  unfold AccessCall.advance
  rw [h]

end Advance

/-! ### Every interleaving -/

section Run

variable {env : AccessEnv} {c : Access}

theorem accessInv_elapse (h : AccessInv env c) (seconds : ℕ) :
    AccessInv env { c with shared := c.shared.elapse seconds } where
  sound r hr := (h.sound r hr).later (later_elapse c.shared seconds)
  issued := h.issued
  revoked := h.revoked

theorem accessInv_arrive (h : AccessInv env c) (req : AccessRequest) :
    AccessInv env { c with requests := c.requests ++ [{ request := req }] } where
  sound r hr := by
    rcases List.mem_append.mp hr with hr | hr
    · exact h.sound r hr
    · rw [List.mem_singleton.mp hr]
      exact trivial
  issued k hk := by
    obtain ⟨r, hr, hex⟩ := h.issued k hk
    exact ⟨r, List.mem_append_left _ hr, hex⟩
  revoked k hk hrev := by
    obtain ⟨r, hr, hex⟩ := h.revoked k hk hrev
    exact ⟨r, List.mem_append_left _ hr, hex⟩

/-- An answer stays among the requests. -/
theorem mem_set_of_answered {rs : List AccessCall} {i : ℕ} {r s : AccessCall} {t : AccessTables}
    (hs : rs[i]? = some s) (hr : r ∈ rs) {result : Except ServerError AccessAnswer}
    (hans : r.wait = .answered result) : r ∈ rs.set i (s.advance env t).2 := by
  obtain ⟨j, hj, rfl⟩ := List.getElem_of_mem hr
  rw [List.mem_iff_getElem?]
  refine ⟨j, ?_⟩
  by_cases hij : i = j
  · subst hij
    rw [List.getElem?_eq_getElem hj, Option.some.injEq] at hs
    rw [← hs, advance_answered hans, List.set_getElem_self, List.getElem?_eq_getElem hj]
  · rw [List.getElem?_set_ne hij, List.getElem?_eq_getElem hj]

theorem accessInv_advance (hauth : env.authEnabled = true) (h : AccessInv env c) {i : ℕ}
    {s : AccessCall} (hs : c.requests[i]? = some s) :
    AccessInv env ⟨(s.advance env c.shared).1, c.requests.set i (s.advance env c.shared).2⟩ := by
  have hmem : s ∈ c.requests := List.mem_of_getElem? hs
  have hmove := advance_move hauth s (h.sound s hmem)
  have hnew : (s.advance env c.shared).2 ∈ c.requests.set i (s.advance env c.shared).2 := by
    have hlt : i < c.requests.length := (List.getElem?_eq_some_iff.mp hs).1
    exact List.mem_iff_getElem?.mpr ⟨i, List.getElem?_set_self hlt⟩
  refine ⟨fun r hr => ?_, fun k hk => ?_, fun k hk hrev => ?_⟩
  · rcases List.mem_or_eq_of_mem_set hr with hr | rfl
    · exact (h.sound r hr).later hmove.later
    · rw [advance_request]
      exact hmove.sound
  · rcases hmove.keys hk with ⟨j, hj, hid, -⟩ | ⟨-, key, secret, hw, hid⟩
    · obtain ⟨r, hr, key, secret, hans, hkey⟩ := h.issued j hj
      exact ⟨r, mem_set_of_answered hs hr hans, key, secret, hans, hkey.trans hid⟩
    · exact ⟨_, hnew, key, secret, hw, hid⟩
  · rcases hmove.keys hk with ⟨j, hj, hid, hfrom⟩ | ⟨hnone, -⟩
    · rcases hfrom hrev with hrev | ⟨key, hw, hkey⟩
      · obtain ⟨r, hr, key, hans, hkey⟩ := h.revoked j hj hrev
        exact ⟨r, mem_set_of_answered hs hr hans, key, hans, hkey.trans hid⟩
      · exact ⟨_, hnew, key, hw, hkey⟩
    · exact absurd hnone hrev

/-- **Every step keeps the invariant.** -/
theorem accessInv_step (hauth : env.authEnabled = true) (h : AccessInv env c) (e : AccessEvent) :
    AccessInv env (Access.step env c e) := by
  cases e with
  | elapse seconds => exact accessInv_elapse h seconds
  | request e =>
    cases e with
    | arrive req => exact accessInv_arrive h req
    | advance i =>
      unfold Access.step Race.step
      simp only
      cases hs : c.requests[i]? with
      | none => exact h
      | some s => exact accessInv_advance hauth h hs

theorem accessInv_exec (hauth : env.authEnabled = true) {t : AccessTables} (hkeys : t.keys = [])
    (es : List AccessEvent) : AccessInv env (Run.exec (Access.step env) ⟨t, []⟩ es) := by
  refine Run.invariant (AccessInv env) (fun _ e h => accessInv_step hauth h e) es _
    ⟨fun r hr => (by cases hr), fun k hk => ?_, fun k hk => ?_⟩
  all_goals
    rw [hkeys] at hk
    cases hk

/-- What an issued credential is good for, by the answers so far and the users there are. -/
structure CredentialsLive (env : AccessEnv) (c : Access) : Prop where
  /-- A token works until it expires, within a day, for the active user who logged in. -/
  token : ∀ r ∈ c.requests, ∀ name password token, r.request = .login name password →
    r.wait = .answered (.ok (.token token)) →
      ∃ u expiry, expiry ≤ c.shared.now + tokenTtl ∧
        ∀ user, c.shared.currentUser env token = .ok user ↔
          c.shared.now < expiry ∧ user.id = u ∧ user.username = name ∧ user.isActive = true ∧
            ∃ row ∈ c.shared.users, row.toUser = user
  /-- A key works unless it was revoked, while its user is there and active. -/
  key : ∀ r ∈ c.requests, ∀ key secret, r.wait = .answered (.ok (.secret key secret)) →
    ((∃ k, c.shared.getApiKey env secret = .ok k ∧ k.id = key.id) ↔
      (∀ r' ∈ c.requests, ∀ k, r'.wait = .answered (.ok (.key k)) → k.id ≠ key.id) ∧
        ∃ row ∈ c.shared.users, row.id = key.userId ∧ row.isActive = true)
  /-- What works as a key was issued as that key, up to its hash. -/
  owner : ∀ secret k, c.shared.getApiKey env secret = .ok k →
    ∃ r ∈ c.requests, ∃ key secret', r.wait = .answered (.ok (.secret key secret')) ∧
      key.id = k.id ∧ key.userId = k.userId ∧
        env.crypto.sha256Hex secret' = env.crypto.sha256Hex secret
  /-- A deleted user is not there again. -/
  deleted : ∀ r ∈ c.requests, ∀ token u, r.request = .deleteUser token u →
    r.wait = .answered (.ok .noContent) → ∀ row ∈ c.shared.users, row.id ≠ u

/-- When `get_api_key` accepts. -/
theorem getApiKey_eq_ok_iff {t : AccessTables} {secret : String} {k : ApiKey} :
    t.getApiKey env secret = .ok k ↔
      k ∈ t.keys ∧ k.keyHash = env.crypto.sha256Hex secret ∧ k.revokedAt = none ∧
        (∃ row ∈ t.users, row.id = k.userId ∧ row.isActive = true) ∧ "inference" ∈ k.scopes := by
  have hactive : ∀ k : ApiKey, (t.keyRow k).userIsActive = some true ↔
      ∃ row ∈ t.users, row.id = k.userId ∧ row.isActive = true := by
    intro k
    unfold AccessTables.keyRow AccessTables.findUser
    simp only [Option.map_eq_some_iff]
    constructor
    · rintro ⟨row, hfind, hact⟩
      exact ⟨row, List.mem_of_find?_eq_some hfind, by simpa using List.find?_some hfind, hact⟩
    · rintro ⟨row, hrow, hid, hact⟩
      exact ⟨row, hid ▸ Dict.find?_eq_some_of_mem t.user_ids hrow,
        hact⟩
  have hauthorize : ∀ k : ApiKey, (authorize (some (t.keyRow k))).map (fun _ => k) = .ok k ↔
      k.revokedAt = none ∧ (∃ row ∈ t.users, row.id = k.userId ∧ row.isActive = true) ∧
        "inference" ∈ k.scopes := by
    intro k
    rw [← hactive k]
    unfold authorize
    simp only [Option.isSome_iff_ne_none, show (t.keyRow k).revoked = k.revokedAt.isSome from rfl,
      show (t.keyRow k).scopes = k.scopes from rfl]
    by_cases hrefuse : k.revokedAt ≠ none ∨ (t.keyRow k).userIsActive ≠ some true
    · rw [if_pos hrefuse]
      simp only [Except.map, reduceCtorEq, false_iff]
      tauto
    · rw [if_neg hrefuse]
      rw [not_or, not_ne_iff, not_ne_iff] at hrefuse
      by_cases hscope : "inference" ∈ k.scopes
      · simp [Except.map, hscope, hrefuse]
      · simp [Except.map, hscope]
  unfold AccessTables.getApiKey
  constructor
  · intro h
    cases hfind : t.keys.find? (·.keyHash = env.crypto.sha256Hex secret) with
    | none => rw [hfind] at h; cases h
    | some j =>
      rw [hfind] at h
      simp only at h
      have hjk : j = k := by
        cases hauth : authorize (some (t.keyRow j)) with
        | error e => rw [hauth] at h; cases h
        | ok _ => rw [hauth] at h; exact Except.ok.inj h
      subst hjk
      exact ⟨List.mem_of_find?_eq_some hfind, by simpa using List.find?_some hfind,
        (hauthorize j).mp h⟩
  · rintro ⟨hmem, hhash, hrest⟩
    have hfind := Dict.find?_eq_some_of_mem t.key_hashes hmem
    simp only [hhash] at hfind
    rw [hfind]
    exact (hauthorize k).mpr hrest

theorem AccessInv.live (h : AccessInv env c) (hsigns : env.crypto.Signs)
    (hauth : env.authEnabled = true) : CredentialsLive env c where
  token := by
    intro r hr name password token hreq hans
    have hsound := h.sound r hr
    rw [hans, hreq] at hsound
    obtain ⟨name', password', u, expiry, heq, rfl, hexp, -, hname⟩ := hsound
    obtain ⟨rfl, rfl⟩ := AccessRequest.login.inj heq
    refine ⟨u, expiry, hexp, fun user => ?_⟩
    rw [currentUser_eq_ok_iff hauth, hsigns]
    constructor
    · rintro ⟨hsub, hactive, row, hrow, rfl⟩
      split_ifs at hsub with hlt
      have hid := (Option.some.inj hsub).symm
      exact ⟨hlt, hid, hname row hrow hid, hactive, row, hrow, rfl⟩
    · rintro ⟨hlt, hid, -, hactive, hrow⟩
      exact ⟨by rw [if_pos hlt, hid], hactive, hrow⟩
  key := by
    intro r hr key secret hans
    have hissued := h.sound r hr
    rw [hans] at hissued
    constructor
    · rintro ⟨k, hok, hid⟩
      obtain ⟨hk, -, hnone, hrow, -⟩ := getApiKey_eq_ok_iff.mp hok
      refine ⟨fun r' hr' k' hans' hid' => ?_, (hissued.row k hk hid).2.1 ▸ hrow⟩
      -- an answered revocation has left its mark on the row
      have hrevoked := h.sound r' hr'
      rw [hans'] at hrevoked
      exact hrevoked.2 k hk (hid.trans hid'.symm) hnone
    · rintro ⟨hnot, row, hrow, hid, hactive⟩
      obtain ⟨k, hk, hkid⟩ := hissued.kept.resolve_right fun hnone => hnone row hrow hid
      obtain ⟨hhash, huser, hscopes⟩ := hissued.row k hk hkid
      refine ⟨k, getApiKey_eq_ok_iff.mpr ⟨hk, hhash.trans hissued.hash, ?_, ?_, ?_⟩, hkid⟩
      · by_contra hrev
        obtain ⟨r', hr', k', hans', hid'⟩ := h.revoked k hk hrev
        exact hnot r' hr' k' hans' (hid'.trans hkid)
      · exact ⟨row, hrow, hid.trans huser.symm, hactive⟩
      · rw [hscopes]
        exact List.mem_singleton.mpr rfl
  owner := by
    intro secret k hok
    obtain ⟨hk, hhash, -⟩ := getApiKey_eq_ok_iff.mp hok
    obtain ⟨r, hr, key, secret', hans, hid⟩ := h.issued k hk
    have hissued := h.sound r hr
    rw [hans] at hissued
    obtain ⟨hhash', huser, -⟩ := hissued.row k hk hid.symm
    exact ⟨r, hr, key, secret', hans, hid, huser.symm,
      hissued.hash.symm.trans (hhash'.symm.trans hhash)⟩
  deleted := by
    intro r hr token u hreq hans
    have hsound := h.sound r hr
    rw [hans, hreq] at hsound
    obtain ⟨token', u', heq, -, hnone⟩ := hsound
    obtain ⟨rfl, rfl⟩ := AccessRequest.deleteUser.inj heq
    exact hnone

end Run

/-! ### An admin with a key -/

/-- Secrets kept in plain text: a token counts its user and its expiry out. -/
def plainCrypto : Crypto where
  sha256Hex := id
  hashPassword password _ := password
  verifyPassword password hash := password == hash
  encode u expiry := String.ofList (List.replicate u 'u' ++ List.replicate expiry 'x')
  decode token now :=
    if now < token.toList.count 'x' then some (token.toList.count 'u') else none

theorem plainCrypto_signs : plainCrypto.Signs := by
  intro u expiry now
  simp [plainCrypto, List.count_append, List.count_replicate]

/-- A server with one admin. -/
def oneAdmin : AccessTables where
  users := [{ id := 2, username := "admin", role := .admin, passwordHash := "inferna" }]
  lastUuid := 2
  user_ids := by decide
  usernames := by decide
  key_ids := by decide
  key_hashes := by decide
  user_le := by decide
  key_le := by decide

/-- The admin logs in, makes a key and revokes it. -/
def keyRun : List AccessEvent :=
  [.request (.arrive (.login "admin" "inferna")), .request (.advance 0),
    .request (.arrive (.createKey (plainCrypto.encode 2 60) ⟨"ci", by decide⟩ "inf-0")),
    .request (.advance 1), .elapse 30, .request (.advance 1),
    .request (.arrive (.revokeKey (plainCrypto.encode 2 60) 3)), .request (.advance 2),
    .request (.advance 2), .request (.advance 2)]

end Inferna
