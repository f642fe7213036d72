/-
The session endpoints of `api/auth.py`: `login_for_access_token`,
`refresh_access_token` and `logout`, with `authenticate_api_key` of
`core/security.py` and `get_by_raw_key` of `services/api_key_service.py`.

Each endpoint is a `SELECT`, a decision on the row it returns, and at most one
commit that writes refresh tokens. The three parts are definitions of their
own (`select_refresh_token`, `check_refresh`, `rotate`, ...), so that a request
as a whole and a request taken apart at its database calls are built from the
same pieces.

What the endpoints draw from outside is passed in: the clock, the token that
`secrets.token_urlsafe` returns and the id that `uuid.uuid4` returns. The hash
and the JWT encoding are those of an `AuthEnv`. Rows of `refresh_tokens` are
listed in the order of their insertion; `token_hash` is unique, so it serves as
the key of a row.
-/
import EventFlow.Schema

set_option autoImplicit false

namespace EventFlow

/-! ## Rows, settings and answers -/

/-- A row of `api_keys`. The key itself is not stored, only its hash. -/
structure APIKey where
  id : ℕ
  key_hash : String
  is_active : Bool := true
  last_used_at : Option ℕ := none
deriving DecidableEq, Repr

/-- A row of `refresh_tokens`. All tokens that have come out of one login share a
`family_id`; rotation invalidates one and inserts the next. -/
structure RefreshToken where
  token_hash : String
  family_id : ℕ
  is_valid : Bool := true
  expires_at : ℕ
  api_key_id : ℕ
deriving DecidableEq, Repr

/-- The two tables the endpoints work on. -/
structure AuthTables where
  api_keys : List APIKey
  refresh_tokens : List RefreshToken

/-- What `create_access_token` hands to `jwt.encode`. -/
structure AccessClaims where
  api_key_id : ℕ
  exp : ℕ
  type : String := "access"
deriving DecidableEq, Repr

/-- The settings the endpoints read, `hashlib.sha256(..).hexdigest()` and
`jwt.encode`. Times are in seconds. -/
structure AuthEnv where
  sha256 : String → String
  jwt_encode : AccessClaims → String
  jwt_access_token_expire_minutes : ℕ := 60
  jwt_refresh_token_expire_days : ℕ := 7

/-- `TokenResponse`; the same two values are set as cookies. -/
structure TokenResponse where
  access_token : String
  refresh_token : String
  token_type : String := "bearer"
deriving DecidableEq, Repr

/-- How a request fails. `integrity_error` is what the unique constraint on
`token_hash` makes of an insert. -/
inductive AuthError where
  | app (error : AppError)
  | integrity_error
deriving DecidableEq, Repr

namespace AuthError

def missing_api_key : AuthError :=
  .app { message := "Missing API key", code := "missing_api_key", status_code := 401 }

def invalid_api_key : AuthError :=
  .app { message := "Invalid API key", code := "invalid_api_key", status_code := 401 }

def missing_token : AuthError :=
  .app { message := "Missing refresh token", code := "missing_token", status_code := 401 }

def invalid_token : AuthError :=
  .app { message := "Invalid refresh token", code := "invalid_token", status_code := 401 }

def token_reused : AuthError :=
  .app { message := "Refresh token reused", code := "token_reused", status_code := 401 }

def token_expired : AuthError :=
  .app { message := "Refresh token expired", code := "token_expired", status_code := 401 }

end AuthError

/-! ## The statements on the tables -/

/-- `select(RefreshToken).where(RefreshToken.token_hash == token_hash)`. -/
def select_refresh_token (tokens : List RefreshToken) (token_hash : String) :
    Option RefreshToken :=
  tokens.find? fun row => decide (row.token_hash = token_hash)

/-- `is_valid = False` on the rows with the hashes given. -/
def invalidate (tokens : List RefreshToken) (token_hashes : List String) : List RefreshToken :=
  tokens.map fun row =>
    if row.token_hash ∈ token_hashes then { row with is_valid := false } else row

/-- The rows that a `where(RefreshToken.family_id == family_id)` finds. -/
def family_hashes (tokens : List RefreshToken) (family_id : ℕ) : List String :=
  (tokens.filter fun row => decide (row.family_id = family_id)).map RefreshToken.token_hash

/-- `update(RefreshToken).where(RefreshToken.family_id == family_id)
.values(is_valid=False)`. -/
def revoke_family (tokens : List RefreshToken) (family_id : ℕ) : List RefreshToken :=
  tokens.map fun row =>
    if row.family_id = family_id then { row with is_valid := false } else row

/-- An insert, under the unique constraint on `token_hash`. -/
def insert_refresh_token (tokens : List RefreshToken) (row : RefreshToken) :
    Except AuthError (List RefreshToken) :=
  if row.token_hash ∈ tokens.map RefreshToken.token_hash then .error .integrity_error
  else .ok (tokens ++ [row])

/-- `db_key.last_used_at = now`. -/
def touch_api_key (keys : List APIKey) (id now : ℕ) : List APIKey :=
  keys.map fun key => if key.id = id then { key with last_used_at := some now } else key

/-! ## The parts of the endpoints -/

/-- A string Python takes for true. -/
def truthy (value : Option String) : Option String :=
  value.filter fun text => decide (text ≠ "")

section Endpoints

variable (env : AuthEnv)

/-- `create_access_token`. The claims say whose it is and when it expires; the session is
not among them. -/
def create_access_token (api_key_id now : ℕ) : String :=
  env.jwt_encode { api_key_id, exp := now + env.jwt_access_token_expire_minutes * 60 }

/-- The row a login or a rotation inserts for the token `raw`. -/
def new_refresh_token (raw : String) (family_id api_key_id now : ℕ) : RefreshToken where
  token_hash := env.sha256 raw
  family_id := family_id
  expires_at := now + env.jwt_refresh_token_expire_days * 24 * 60 * 60
  api_key_id := api_key_id

def token_response (raw : String) (api_key_id now : ℕ) : TokenResponse where
  access_token := create_access_token env api_key_id now
  refresh_token := raw

/-- `APIKeyService.get_by_raw_key`. -/
def get_by_raw_key (keys : List APIKey) (raw_key : String) : Option APIKey :=
  keys.find? fun key => decide (key.key_hash = env.sha256 raw_key ∧ key.is_active = true)

/-- `authenticate_api_key`, before its commit of `last_used_at`. A key that is unknown or
inactive is refused alike. -/
def authenticate_api_key (keys : List APIKey) (api_key : String) : Except AuthError APIKey :=
  if api_key = "" then .error .missing_api_key
  else
    match get_by_raw_key env keys api_key with
    | none => .error .invalid_api_key
    | some db_key => .ok db_key

/-- What a refresh does next with the row it has read. -/
inductive RefreshCheck where
  /-- The row is invalid: the family is revoked. -/
  | reused (db_rt : RefreshToken)
  /-- The row is valid and has not expired. -/
  | rotate (db_rt : RefreshToken)

/-- `refresh_access_token` up to its first write. The cookie goes before the body. A token
that is not known is refused, one that is not valid any more is taken for stolen, and only
then its expiry is looked at. -/
def check_refresh (tokens : List RefreshToken) (cookie : Option String)
    (body : Option (Option String)) (now : ℕ) : Except AuthError RefreshCheck :=
  match (truthy cookie).or (truthy body.join) with
  | none => .error .missing_token
  | some token =>
    match select_refresh_token tokens (env.sha256 token) with
    | none => .error .invalid_token
    | some db_rt =>
      if db_rt.is_valid = false then .ok (.reused db_rt)
      else if db_rt.expires_at < now then .error .token_expired
      else .ok (.rotate db_rt)

/-- The write of a refresh: the row that was read is invalidated by its key and
the next token of the family is inserted. -/
def rotate (tokens : List RefreshToken) (db_rt : RefreshToken) (raw : String) (now : ℕ) :
    Except AuthError (List RefreshToken) :=
  insert_refresh_token (invalidate tokens [db_rt.token_hash])
    (new_refresh_token env raw db_rt.family_id db_rt.api_key_id now)

/-- The row `logout` reads, if it is asked to end a session at all. -/
def check_logout (tokens : List RefreshToken) (cookie : Option String) : Option RefreshToken :=
  (truthy cookie).bind fun token => select_refresh_token tokens (env.sha256 token)

/-- The write of `logout`. The session writes an attribute that has changed, so a row that
was read invalid is not written. The other tokens of the family are left as they are. -/
def log_out (tokens : List RefreshToken) (db_rt : RefreshToken) : List RefreshToken :=
  if db_rt.is_valid = true then invalidate tokens [db_rt.token_hash] else tokens

/-! ## The endpoints, each as one step -/

/-- `login_for_access_token`. Two commits: `last_used_at` of the key, then the first token
of a new family. -/
def login_for_access_token (db : AuthTables) (api_key raw : String) (family_id now : ℕ) :
    Except AuthError TokenResponse × AuthTables :=
  match authenticate_api_key env db.api_keys api_key with
  | .error err => (.error err, db)
  | .ok db_key =>
    let keys := touch_api_key db.api_keys db_key.id now
    match insert_refresh_token db.refresh_tokens
        (new_refresh_token env raw family_id db_key.id now) with
    -- `last_used_at` has been committed before
    | .error err => (.error err, { db with api_keys := keys })
    | .ok tokens =>
      (.ok (token_response env raw db_key.id now), { api_keys := keys, refresh_tokens := tokens })

/-- `refresh_access_token`. A reuse is answered with an error too, but after the family
has been revoked and that has been committed. -/
def refresh_access_token (db : AuthTables) (cookie : Option String)
    (body : Option (Option String)) (raw : String) (now : ℕ) :
    Except AuthError TokenResponse × AuthTables :=
  match check_refresh env db.refresh_tokens cookie body now with
  | .error err => (.error err, db)
  | .ok (.reused db_rt) =>
    (.error .token_reused,
      { db with refresh_tokens := revoke_family db.refresh_tokens db_rt.family_id })
  | .ok (.rotate db_rt) =>
    match rotate env db.refresh_tokens db_rt raw now with
    | .error err => (.error err, db)
    | .ok tokens =>
      (.ok (token_response env raw db_rt.api_key_id now), { db with refresh_tokens := tokens })

/-- `logout`. It answers the same whatever it is sent. -/
def logout (db : AuthTables) (cookie : Option String) : AuthTables :=
  match check_logout env db.refresh_tokens cookie with
  | none => db
  | some db_rt => { db with refresh_tokens := log_out db.refresh_tokens db_rt }

end Endpoints

/-! ## What the statements do -/

section Statements

variable {tokens tokens' : List RefreshToken} {row : RefreshToken} {token_hashes : List String}

theorem mem_of_select {token_hash : String}
    (h : select_refresh_token tokens token_hash = some row) :
    row ∈ tokens ∧ row.token_hash = token_hash :=
  ⟨List.mem_of_find?_eq_some h, by simpa using List.find?_some h⟩

/-- An insert that goes through appends a row with a hash of its own. -/
theorem insert_refresh_token_ok (h : insert_refresh_token tokens row = .ok tokens') :
    row.token_hash ∉ tokens.map RefreshToken.token_hash ∧ tokens' = tokens ++ [row] := by
  unfold insert_refresh_token at h
  split at h
  · cases h
  · rename_i hfresh
    cases h
    exact ⟨hfresh, rfl⟩

/-- An update of the flag leaves the hashes and the families alone. -/
theorem map_token_hash_invalidate (tokens : List RefreshToken) (token_hashes : List String) :
    (invalidate tokens token_hashes).map RefreshToken.token_hash
      = tokens.map RefreshToken.token_hash := by
  unfold invalidate
  rw [List.map_map]
  refine List.map_congr_left fun row _ => ?_
  show (if row.token_hash ∈ token_hashes then _ else _ : RefreshToken).token_hash = _
  split <;> rfl

theorem invalidate_nil (tokens : List RefreshToken) : invalidate tokens [] = tokens := by
  unfold invalidate
  refine (List.map_congr_left fun row _ => if_neg ?_).trans (List.map_id' _)
  exact List.not_mem_nil

/-- A row after an update is a row from before, valid only if it was. -/
theorem exists_of_mem_invalidate (h : row ∈ invalidate tokens token_hashes) :
    ∃ row₀ ∈ tokens, row₀.token_hash = row.token_hash ∧ row₀.family_id = row.family_id ∧
      (row.is_valid = true → row₀ = row ∧ row.token_hash ∉ token_hashes) := by
  obtain ⟨row₀, hmem, rfl⟩ := List.mem_map.mp h
  refine ⟨row₀, hmem, ?_⟩
  by_cases hhash : row₀.token_hash ∈ token_hashes
  · rw [if_pos hhash]
    exact ⟨rfl, rfl, fun hvalid => nomatch hvalid⟩
  · rw [if_neg hhash]
    exact ⟨rfl, rfl, fun _ => ⟨rfl, hhash⟩⟩

/-- A row from before is there after an update. -/
theorem exists_mem_invalidate (token_hashes : List String) (h : row ∈ tokens) :
    ∃ row' ∈ invalidate tokens token_hashes,
      row'.token_hash = row.token_hash ∧ row'.family_id = row.family_id := by
  refine ⟨_, List.mem_map.mpr ⟨row, h, rfl⟩, ?_⟩
  split <;> exact ⟨rfl, rfl⟩

/-- With unique hashes, the rows a revocation finds are the rows it writes. -/
theorem invalidate_family_hashes (hnodup : (tokens.map RefreshToken.token_hash).Nodup)
    (family_id : ℕ) :
    invalidate tokens (family_hashes tokens family_id) = revoke_family tokens family_id := by
  unfold invalidate revoke_family
  refine List.map_congr_left fun row hrow => ?_
  have hmem : row.token_hash ∈ family_hashes tokens family_id ↔ row.family_id = family_id := by
    unfold family_hashes
    rw [List.mem_map]
    constructor
    · rintro ⟨row', hrow', hhash⟩
      obtain ⟨hin, hfam⟩ := List.mem_filter.mp hrow'
      rw [← List.inj_on_of_nodup_map hnodup hin hrow hhash]
      exact of_decide_eq_true hfam
    · intro hfam
      exact ⟨row, List.mem_filter.mpr ⟨hrow, decide_eq_true hfam⟩, rfl⟩
  by_cases hfam : row.family_id = family_id
  · rw [if_pos hfam, if_pos (hmem.mpr hfam)]
  · rw [if_neg hfam, if_neg fun h => hfam (hmem.mp h)]

/-! ## The latest token of a family -/

/-- The hash of the token of a family that was inserted last. -/
def latest (tokens : List RefreshToken) (family_id : ℕ) : Option String :=
  (family_hashes tokens family_id).getLast?

theorem family_hashes_append (tokens tokens' : List RefreshToken) (family_id : ℕ) :
    family_hashes (tokens ++ tokens') family_id
      = family_hashes tokens family_id ++ family_hashes tokens' family_id := by
  unfold family_hashes
  rw [List.filter_append, List.map_append]

theorem family_hashes_invalidate (tokens : List RefreshToken) (token_hashes : List String)
    (family_id : ℕ) :
    family_hashes (invalidate tokens token_hashes) family_id = family_hashes tokens family_id := by
  unfold family_hashes invalidate
  rw [List.filter_map, List.map_map]
  -- neither the test nor what is kept of a row looks at the flag
  congr 1
  · funext row
    show (if row.token_hash ∈ token_hashes then _ else _ : RefreshToken).token_hash = _
    split <;> rfl
  · congr 1
    funext row
    show decide ((if row.token_hash ∈ token_hashes then _ else _ : RefreshToken).family_id
      = family_id) = _
    split <;> rfl

@[simp] theorem latest_invalidate (tokens : List RefreshToken) (token_hashes : List String)
    (family_id : ℕ) :
    latest (invalidate tokens token_hashes) family_id = latest tokens family_id := by
  unfold latest
  rw [family_hashes_invalidate]

/-- The row inserted last is the latest of its family. -/
theorem latest_append_self (tokens : List RefreshToken) (row : RefreshToken) :
    latest (tokens ++ [row]) row.family_id = some row.token_hash := by
  unfold latest
  rw [family_hashes_append, show family_hashes [row] row.family_id = [row.token_hash] by
    simp [family_hashes], List.getLast?_concat]

theorem latest_append_of_ne (tokens : List RefreshToken) {family_id : ℕ}
    (h : row.family_id ≠ family_id) :
    latest (tokens ++ [row]) family_id = latest tokens family_id := by
  unfold latest
  rw [family_hashes_append, show family_hashes [row] family_id = [] by
    simp [family_hashes, h], List.append_nil]

end Statements

end EventFlow
