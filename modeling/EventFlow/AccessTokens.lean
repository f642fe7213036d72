/-
Access tokens: `require_api_key` of `core/security.py` over whole histories of
logins, refreshes, logouts and key revocations.

An access token is a JWT that names an API key and expires. It is checked without
a look at the database, so neither a logout nor the revocation of a key touches
the tokens that are out. [`access_window`] says what there is instead: whoever is
let in was issued a token less than its lifetime ago, in a session that some login
with an active key of that id has opened; and a session that has ended issues no
more, so that its last token is good for one lifetime after its end.

The signature is a parameter. What is known of it is what PyJWT documents
([`JwtEnv.Signed`]), and that no one else has the secret ([`AuthSystem.Unforged`]).
-/
import EventFlow.Sessions
import EventFlow.Uuid
import EventFlow.JobPayload

set_option autoImplicit false

namespace EventFlow

open Transition PyStr

/-! ## The check -/

/-- How `jwt.decode` fails. -/
inductive JwtError where
  | expired_signature
  /-- Any other `PyJWTError`. -/
  | invalid
deriving DecidableEq

/-- The payload of a token. -/
def AccessClaims.payload (claims : AccessClaims) : JsonObject :=
  [("api_key_id", .str (uuid_str claims.api_key_id)), ("exp", .int claims.exp),
    ("type", .str claims.type)]

/-- With `jwt.decode` under the access secret, at a time. -/
structure JwtEnv extends AuthEnv where
  jwt_decode : String → ℕ → Except JwtError JsonObject
  unicode : Unicode

/-- What is signed is decoded, until it expires, and is not the empty text. -/
structure JwtEnv.Signed (env : JwtEnv) : Prop where
  encode_ne : ∀ claims, env.jwt_encode claims ≠ ""
  decode_encode : ∀ claims now, env.jwt_decode (env.jwt_encode claims) now
    = if claims.exp ≤ now then .error .expired_signature else .ok claims.payload

/-- How a check fails. `attribute_error` is what `uuid.UUID` makes of a value that
is not a string. -/
inductive PrincipalError where
  | app (error : AppError)
  | attribute_error
deriving DecidableEq

namespace PrincipalError

def missing : PrincipalError :=
  .app { message := "Missing or invalid token", code := "unauthorized", status_code := 401 }

def token_type : PrincipalError :=
  .app { message := "Invalid token type", code := "invalid_token", status_code := 401 }

def token_payload : PrincipalError :=
  .app { message := "Invalid token payload", code := "invalid_token", status_code := 401 }

def expired : PrincipalError :=
  .app { message := "Token expired", code := "token_expired", status_code := 401 }

def invalid : PrincipalError :=
  .app { message := "Invalid token", code := "invalid_token", status_code := 401 }

end PrincipalError

/-- `get_token`: the cookie `eventflow_jwt`, or else the bearer token. -/
def get_token (cookie bearer_token : Option String) : Option String :=
  (truthy cookie).or bearer_token

/-- `get_current_principal_from_token`. -/
def get_current_principal_from_token (env : JwtEnv) (token : Option String) (now : ℕ) :
    Except PrincipalError ℕ :=
  match truthy token with
  | none => .error .missing
  | some token =>
    match env.jwt_decode token now with
    | .error .expired_signature => .error .expired
    | .error .invalid => .error .invalid
    | .ok payload =>
      if JsonObject.get payload "type" ≠ .str "access" then .error .token_type
      else if (JsonObject.get payload "api_key_id").truthy = false then .error .token_payload
      else
        match JsonObject.get payload "api_key_id" with
        | .str text =>
          match UUID.of_str env.unicode text with
          | none => .error .invalid
          | some uuid => .ok uuid.int
        | _ => .error .attribute_error

/-- `require_api_key` and `require_api_key_id`. -/
def require_api_key (env : JwtEnv) (cookie bearer_token : Option String) (now : ℕ) :
    Except PrincipalError ℕ :=
  get_current_principal_from_token env (get_token cookie bearer_token) now

/-! ## Histories -/

/-- What a history remembers of a token response. -/
structure Issue where
  access_token : String
  family_id : ℕ
  api_key_id : ℕ
  issued_at : ℕ
  /-- The raw key of a login, and the row it was found in. -/
  login : Option (String × APIKey)
deriving DecidableEq

/-- The tables, the clock and what has been issued. -/
structure AuthSystem where
  db : AuthTables
  now : ℕ
  issues : List Issue

inductive AuthAction where
  | serve (req : AuthRequest)
  | wait (seconds : ℕ)

/-- The time at which a request reads the clock. -/
def AuthRequest.time : AuthRequest → Option ℕ
  | .login _ _ _ now => some now
  | .refresh _ _ _ now => some now
  | .logout _ => none
  | .deactivate _ => none

section System

variable (env : AuthEnv)

/-- What a request issues. -/
def AuthTables.issues (db : AuthTables) : AuthRequest → List Issue
  | .login api_key raw family_id now =>
    match authenticate_api_key env db.api_keys api_key,
        (login_for_access_token env db api_key raw family_id now).1 with
    | .ok key, .ok response =>
      [⟨response.access_token, family_id, key.id, now, some (api_key, key)⟩]
    | _, _ => []
  | .refresh cookie body raw now =>
    match check_refresh env db.refresh_tokens cookie body now,
        (refresh_access_token env db cookie body raw now).1 with
    | .ok (.rotate db_rt), .ok response =>
      [⟨response.access_token, db_rt.family_id, db_rt.api_key_id, now, none⟩]
    | _, _ => []
  | .logout _ => []
  | .deactivate _ => []

/-- One request at the present time, or time that passes. -/
def AuthSystem.step (s : AuthSystem) : AuthAction → Option AuthSystem
  | .serve req =>
    if req.time.all (fun now => decide (now = s.now)) && s.db.draws_fresh env req then
      some { s with db := s.db.serve env req, issues := s.issues ++ s.db.issues env req }
    else none
  | .wait seconds => some { s with now := s.now + seconds }

/-- Nobody has logged in yet. -/
def AuthSystem.initial (api_keys : List APIKey) (now : ℕ) : AuthSystem where
  db := { api_keys, refresh_tokens := [] }
  now := now
  issues := []

/-- The histories. -/
abbrev AuthSystem.History : AuthSystem → AuthSystem → Prop :=
  Reaches (AuthSystem.step env) fun _ _ => True

end System

/-- A token is one that was issued, or it is not decoded. -/
def AuthSystem.Unforged (env : JwtEnv) (s : AuthSystem) (token : String) : Prop :=
  ∀ now payload, env.jwt_decode token now = .ok payload →
    ∃ issue ∈ s.issues, issue.access_token = token

/-! ## What a request issues -/

/-- How a request issues a token. -/
inductive Issues (env : AuthEnv) (db : AuthTables) : AuthRequest → List RefreshToken →
    Issue → Prop
  | login (api_key raw : String) (family_id now : ℕ) (key : APIKey) (hkey : key ∈ db.api_keys)
      (hactive : key.is_active = true) (hhash : key.key_hash = env.sha256 api_key) :
      Issues env db (.login api_key raw family_id now)
        (db.refresh_tokens ++ [new_refresh_token env raw family_id key.id now])
        ⟨create_access_token env key.id now, family_id, key.id, now, some (api_key, key)⟩
  | refresh (cookie : Option String) (body : Option (Option String)) (raw : String) (now : ℕ)
      (db_rt : RefreshToken) (hmem : db_rt ∈ db.refresh_tokens) (hvalid : db_rt.is_valid = true) :
      Issues env db (.refresh cookie body raw now)
        (invalidate db.refresh_tokens [db_rt.token_hash] ++
          [new_refresh_token env raw db_rt.family_id db_rt.api_key_id now])
        ⟨create_access_token env db_rt.api_key_id now, db_rt.family_id, db_rt.api_key_id, now,
          none⟩

section Issues

variable {env : AuthEnv} {db : AuthTables}

theorem authenticate_api_key_ok {keys : List APIKey} {api_key : String} {key : APIKey}
    (h : authenticate_api_key env keys api_key = .ok key) :
    key ∈ keys ∧ key.is_active = true ∧ key.key_hash = env.sha256 api_key := by
  unfold authenticate_api_key get_by_raw_key at h
  split at h
  · cases h
  · split at h
    · cases h
    · rename_i db_key hfind
      cases h
      have hprop := List.find?_some hfind
      rw [decide_eq_true_eq] at hprop
      exact ⟨List.mem_of_find?_eq_some hfind, hprop.2, hprop.1⟩

/-- What a refresh exchanges is stored and valid. -/
theorem check_refresh_rotate {tokens : List RefreshToken} {cookie : Option String}
    {body : Option (Option String)} {now : ℕ} {db_rt : RefreshToken}
    (h : check_refresh env tokens cookie body now = .ok (.rotate db_rt)) :
    db_rt ∈ tokens ∧ db_rt.is_valid = true := by
  unfold check_refresh at h
  split at h
  · cases h
  · split at h
    · cases h
    · rename_i row hselect
      split at h
      · cases h
      · rename_i hvalid
        split at h
        · cases h
        · cases h
          exact ⟨(mem_of_select hselect).1, by simpa using hvalid⟩

/-- **What a request does.** It clears flags, or it issues one token. A refusal and a
logout may clear flags, a login or a refresh that succeeds appends one row beside what it
clears, and that row belongs to the issue. -/
theorem AuthTables.serve_issues (req : AuthRequest) :
    (db.issues env req = [] ∧ ∃ (p : RefreshToken → Prop) (_ : DecidablePred p),
      (db.serve env req).refresh_tokens = clear p db.refresh_tokens) ∨
    ∃ issue, db.issues env req = [issue] ∧
      Issues env db req (db.serve env req).refresh_tokens issue := by
  -- tables that are left alone are cleared of nothing
  have kept : ∀ {tokens : List RefreshToken}, tokens = db.refresh_tokens →
      ∃ (p : RefreshToken → Prop) (_ : DecidablePred p), tokens = clear p db.refresh_tokens :=
    fun h => ⟨fun _ => False, inferInstance, by rw [clear_false, h]⟩
  cases req with
  | login api_key raw family_id now =>
      simp only [AuthTables.issues, AuthTables.serve, login_for_access_token]
      cases hauth : authenticate_api_key env db.api_keys api_key with
      | error err => exact .inl ⟨rfl, kept rfl⟩
      | ok key =>
          obtain ⟨hkey, hactive, hhash⟩ := authenticate_api_key_ok hauth
          dsimp only
          cases hins : insert_refresh_token db.refresh_tokens
              (new_refresh_token env raw family_id key.id now) with
          | error err => exact .inl ⟨rfl, kept rfl⟩
          | ok tokens =>
              obtain ⟨-, rfl⟩ := insert_refresh_token_ok hins
              exact .inr ⟨_, rfl, .login api_key raw family_id now key hkey hactive hhash⟩
  | refresh cookie body raw now =>
      simp only [AuthTables.issues, AuthTables.serve, refresh_access_token]
      cases hcheck : check_refresh env db.refresh_tokens cookie body now with
      | error err => exact .inl ⟨rfl, kept rfl⟩
      | ok check =>
          cases check with
          | reused db_rt => exact .inl ⟨rfl, _, _, revoke_family_eq_clear _ _⟩
          | rotate db_rt =>
              dsimp only
              obtain ⟨hmem, hvalid⟩ := check_refresh_rotate hcheck
              rw [rotate_eq]
              -- the hash is a key; if it is taken, the insert raises
              by_cases hstored : env.sha256 raw ∈ db.refresh_tokens.map RefreshToken.token_hash
              · rw [if_pos hstored]
                exact .inl ⟨rfl, kept rfl⟩
              · rw [if_neg hstored]
                exact .inr ⟨_, rfl, .refresh cookie body raw now db_rt hmem hvalid⟩
  | logout cookie =>
      refine .inl ⟨rfl, ?_⟩
      simp only [AuthTables.serve, logout]
      split
      · exact kept rfl
      · unfold log_out
        dsimp only
        split
        · exact ⟨_, _, invalidate_eq_clear _ _⟩
        · exact kept rfl
  | deactivate api_key_id => exact .inl ⟨rfl, kept rfl⟩

end Issues

/-! ## Every history -/

/-- A login with an active key has opened the family for this key, by the time
`t`. -/
def Opened (env : AuthEnv) (issues : List Issue) (family_id api_key_id t : ℕ) : Prop :=
  ∃ opening ∈ issues, opening.family_id = family_id ∧ opening.api_key_id = api_key_id ∧
    opening.issued_at ≤ t ∧ ∃ raw_key key, opening.login = some (raw_key, key) ∧
      key.id = api_key_id ∧ key.is_active = true ∧ key.key_hash = env.sha256 raw_key

/-- What is known of the tokens that are out and of the rows that stand for more. -/
structure AccessInv (env : AuthEnv) (s : AuthSystem) : Prop where
  past : ∀ issue ∈ s.issues, issue.issued_at ≤ s.now
  token : ∀ issue ∈ s.issues,
    issue.access_token = create_access_token env issue.api_key_id issue.issued_at
  opened : ∀ issue ∈ s.issues, Opened env s.issues issue.family_id issue.api_key_id issue.issued_at
  rows : ∀ row ∈ s.db.refresh_tokens, Opened env s.issues row.family_id row.api_key_id s.now
  keys : ∀ key ∈ s.db.api_keys, key.id < 2 ^ 128
  ids : ∀ issue ∈ s.issues, issue.api_key_id < 2 ^ 128

section Histories

variable {env : AuthEnv} {s s' u : AuthSystem} {a : AuthAction} {family_id : ℕ}

theorem Opened.mono {issues issues' : List Issue} {api_key_id t t' : ℕ}
    (h : Opened env issues family_id api_key_id t) (hsub : issues ⊆ issues') (hle : t ≤ t') :
    Opened env issues' family_id api_key_id t' := by
  obtain ⟨opening, hmem, hfamily, hkey, hat, hlogin⟩ := h
  exact ⟨opening, hsub hmem, hfamily, hkey, hat.trans hle, hlogin⟩

/-- The ids of the keys stay. No request creates or deletes an API key here. -/
theorem map_id_serve (db : AuthTables) (req : AuthRequest) :
    (db.serve env req).api_keys.map APIKey.id = db.api_keys.map APIKey.id := by
  have touch : ∀ id now, (touch_api_key db.api_keys id now).map APIKey.id
      = db.api_keys.map APIKey.id := by
    intro id now
    unfold touch_api_key
    rw [List.map_map]
    refine List.map_congr_left fun key _ => ?_
    rw [Function.comp_apply]
    split <;> rfl
  cases req with
  | login api_key raw family_id now =>
      simp only [AuthTables.serve, login_for_access_token]
      split
      · rfl
      · split <;> exact touch _ _
  | refresh cookie body raw now =>
      simp only [AuthTables.serve, refresh_access_token]
      split
      · rfl
      · rfl
      · split <;> rfl
  | logout cookie =>
      simp only [AuthTables.serve, logout]
      split <;> rfl
  | deactivate api_key_id =>
      simp only [AuthTables.serve, deactivate_api_key, List.map_map]
      refine List.map_congr_left fun key _ => ?_
      rw [Function.comp_apply]
      split <;> rfl

/-- A row after flags were cleared has the family and the key of one before. -/
theorem exists_of_mem_clear_key {p : RefreshToken → Prop} [DecidablePred p]
    {tokens : List RefreshToken} {row : RefreshToken} (h : row ∈ clear p tokens) :
    ∃ row₀ ∈ tokens, row₀.family_id = row.family_id ∧ row₀.api_key_id = row.api_key_id := by
  obtain ⟨row₀, hmem, rfl⟩ := List.mem_map.mp h
  refine ⟨row₀, hmem, ?_⟩
  split <;> exact ⟨rfl, rfl⟩

/-- **One step.** Time passing is harmless, since every field of the invariant speaks of
the past. A request adds one issue at most, of the present second, whose row is the one it
has just stored. -/
theorem AccessInv.step (h : AccessInv env s) (hs : s.step env a = some s') :
    AccessInv env s' := by
  cases a with
  | wait seconds =>
      cases hs
      exact ⟨fun issue hmem => (h.past issue hmem).trans (Nat.le_add_right ..), h.token, h.opened,
        fun row hrow => (h.rows row hrow).mono (List.Subset.refl _) (Nat.le_add_right ..), h.keys,
        h.ids⟩
  | serve req =>
      simp only [AuthSystem.step] at hs
      split at hs
      · rename_i hguard
        cases hs
        rw [Bool.and_eq_true] at hguard
        have hkeys : ∀ key ∈ (s.db.serve env req).api_keys, key.id < 2 ^ 128 := by
          intro key hkey
          have hid := List.mem_map_of_mem (f := APIKey.id) hkey
          rw [map_id_serve] at hid
          obtain ⟨key', hkey', heq⟩ := List.mem_map.mp hid
          exact heq ▸ h.keys key' hkey'
        have hcleared : ∀ (p : RefreshToken → Prop) [DecidablePred p] (issues : List Issue),
            s.issues ⊆ issues → ∀ row ∈ clear p s.db.refresh_tokens,
            Opened env issues row.family_id row.api_key_id s.now := by
          intro p _ issues hsub row hrow
          obtain ⟨row₀, hmem, hfamily, hkey⟩ := exists_of_mem_clear_key hrow
          rw [← hfamily, ← hkey]
          exact (h.rows row₀ hmem).mono hsub le_rfl
        rcases @AuthTables.serve_issues env s.db req with
          ⟨hnone, p, _, htokens⟩ | ⟨issue, hissue, hissues⟩
        · rw [hnone, List.append_nil]
          refine ⟨h.past, h.token, h.opened, fun row hrow => ?_, hkeys, h.ids⟩
          exact hcleared p _ (List.Subset.refl _) row (htokens ▸ hrow)
        · rw [hissue]
          have hsub : s.issues ⊆ s.issues ++ [issue] := List.subset_append_left _ _
          -- what is known of the new token and of the row that was inserted with it
          have hnew : issue.issued_at = s.now ∧
              issue.access_token = create_access_token env issue.api_key_id issue.issued_at ∧
              Opened env (s.issues ++ [issue]) issue.family_id issue.api_key_id issue.issued_at ∧
              issue.api_key_id < 2 ^ 128 ∧
              ∀ row ∈ (s.db.serve env req).refresh_tokens,
                Opened env (s.issues ++ [issue]) row.family_id row.api_key_id s.now := by
            generalize (s.db.serve env req).refresh_tokens = tokens at hissues
            cases hissues with
            | login api_key raw family_id now key hkey hactive hhash =>
                obtain rfl : now = s.now := by simpa [AuthRequest.time] using hguard.1
                have hopened : Opened env (s.issues ++ [⟨create_access_token env key.id s.now,
                    family_id, key.id, s.now, some (api_key, key)⟩]) family_id key.id s.now :=
                  ⟨_, List.mem_append_right _ (List.mem_singleton_self _), rfl, rfl, le_rfl,
                    api_key, key, rfl, rfl, hactive, hhash⟩
                refine ⟨rfl, rfl, hopened, h.keys key hkey, fun row hrow => ?_⟩
                rcases List.mem_append.mp hrow with hrow | hrow
                · exact (h.rows row hrow).mono hsub le_rfl
                · rw [List.mem_singleton.mp hrow]
                  exact hopened
            | refresh cookie body raw now db_rt hmem hvalid =>
                obtain rfl : now = s.now := by simpa [AuthRequest.time] using hguard.1
                have hopened := (h.rows db_rt hmem).mono hsub le_rfl
                obtain ⟨opening, hopening, -, hkey, -⟩ := h.rows db_rt hmem
                refine ⟨rfl, rfl, hopened, hkey ▸ h.ids opening hopening, fun row hrow => ?_⟩
                rcases List.mem_append.mp hrow with hrow | hrow
                · rw [invalidate_eq_clear] at hrow
                  exact hcleared _ _ hsub row hrow
                · rw [List.mem_singleton.mp hrow]
                  exact hopened
          obtain ⟨hnow, htoken, hopened, hid, hrows⟩ := hnew
          have mem : ∀ {P : Issue → Prop}, (∀ i ∈ s.issues, P i) → P issue →
              ∀ i ∈ s.issues ++ [issue], P i := by
            intro P hold hlast i hi
            rcases List.mem_append.mp hi with hi | hi
            · exact hold i hi
            · rw [List.mem_singleton.mp hi]
              exact hlast
          exact ⟨mem h.past hnow.le, mem h.token htoken,
            mem (fun i hi => (h.opened i hi).mono hsub le_rfl) hopened, hrows, hkeys,
            mem h.ids hid⟩
      · cases hs

theorem accessInv_of_history {api_keys : List APIKey} {now : ℕ}
    (hids : ∀ key ∈ api_keys, key.id < 2 ^ 128)
    (hrun : AuthSystem.History env (.initial api_keys now) s) : AccessInv env s := by
  refine hrun.invariant (AccessInv env) ?_ fun _ _ _ hinv _ hs => hinv.step hs
  exact ⟨List.forall_mem_nil _, List.forall_mem_nil _, List.forall_mem_nil _,
    List.forall_mem_nil _, hids, List.forall_mem_nil _⟩

/-- **A session that has ended issues nothing more.** A refresh issues only for a valid
token, a family that is dead has none, and a login takes an id that is not in use. -/
theorem issued_before_end (hdead : DeadFamily u.db.refresh_tokens family_id)
    (hrun : AuthSystem.History env u s) :
    ∀ issue ∈ s.issues, issue.family_id = family_id → issue ∈ u.issues := by
  refine (hrun.invariant (fun v => DeadFamily v.db.refresh_tokens family_id ∧
    ∀ issue ∈ v.issues, issue.family_id = family_id → issue ∈ u.issues)
    ⟨hdead, fun _ hmem _ => hmem⟩ ?_).2
  rintro v a w ⟨hv, hissues⟩ - hs
  cases a with
  | wait seconds =>
      cases hs
      exact ⟨hv, hissues⟩
  | serve req =>
      simp only [AuthSystem.step] at hs
      split at hs
      · rename_i hguard
        cases hs
        rw [Bool.and_eq_true] at hguard
        refine ⟨(hv.serve hguard.2).1, fun issue hmem hfamily => ?_⟩
        rcases List.mem_append.mp hmem with hmem | hmem
        · exact hissues issue hmem hfamily
        · -- the family of a new token has a valid row or is new
          exfalso
          rcases @AuthTables.serve_issues env v.db req with ⟨hnone, -⟩ | ⟨new, hnew, hhow⟩
          · rw [hnone] at hmem
            cases hmem
          · rw [hnew, List.mem_singleton] at hmem
            subst hmem
            have hdead' := (hv.serve hguard.2).1
            generalize (v.db.serve env req).refresh_tokens = tokens at hhow hdead'
            cases hhow with
            | login api_key raw opened_id now key hkey hactive hhash =>
                have hvalid := hdead'.invalid (new_refresh_token env raw opened_id key.id now)
                  (List.mem_append_right _ (List.mem_singleton_self _)) hfamily
                cases hvalid
            | refresh cookie body raw now db_rt hrow hvalid =>
                rw [hv.invalid db_rt hrow hfamily] at hvalid
                cases hvalid
      · cases hs

end Histories

/-! ## Who is let in -/

section Access

variable {env : JwtEnv}

/-- Nobody is let in with a token that is not decoded. -/
theorem decode_of_ok {token : String} {now api_key_id : ℕ}
    (h : get_current_principal_from_token env (some token) now = .ok api_key_id) :
    ∃ payload, env.jwt_decode token now = .ok payload := by
  unfold get_current_principal_from_token truthy at h
  split at h
  · cases h
  · rename_i token' htoken
    obtain rfl : token = token' := (Option.filter_eq_some_iff.mp htoken).1 |> Option.some.inj
    cases hdecode : env.jwt_decode token now with
    | ok payload => exact ⟨payload, rfl⟩
    | error err =>
        rw [hdecode] at h
        cases err <;> cases h

/-- The check of a token that was issued. The signature is good because we have made it,
and the id comes back because an UUID is read from its own text. -/
theorem principal_of_access_token (hjwt : env.Signed) {api_key_id : ℕ} (hid : api_key_id < 2 ^ 128)
    (issued_at now : ℕ) :
    get_current_principal_from_token env
        (some (create_access_token env.toAuthEnv api_key_id issued_at)) now
      = if issued_at + env.jwt_access_token_expire_minutes * 60 ≤ now then .error .expired
        else .ok api_key_id := by
  have htruthy : truthy (some (create_access_token env.toAuthEnv api_key_id issued_at))
      = some (create_access_token env.toAuthEnv api_key_id issued_at) := by
    simp [truthy, create_access_token, hjwt.encode_ne]
  have huuid : UUID.of_str env.unicode (uuid_str api_key_id) = some ⟨api_key_id, hid⟩ :=
    UUID.of_str_str env.unicode ⟨api_key_id, hid⟩
  have hne : uuid_str api_key_id ≠ "" := by
    intro hempty
    have hlength := length_uuid_str ⟨api_key_id, hid⟩
    rw [UUID.str, hempty] at hlength
    cases hlength
  have hpayload : ∀ claims : AccessClaims,
      JsonObject.get claims.payload "type" = .str claims.type ∧
      JsonObject.get claims.payload "api_key_id" = .str (uuid_str claims.api_key_id) :=
    fun claims => ⟨rfl, rfl⟩
  unfold get_current_principal_from_token
  rw [htruthy]
  dsimp only
  rw [create_access_token, hjwt.decode_encode]
  by_cases hexp : issued_at + env.jwt_access_token_expire_minutes * 60 ≤ now
  · rw [if_pos hexp, if_pos hexp]
  · rw [if_neg hexp, if_neg hexp]
    dsimp only
    rw [(hpayload _).1, (hpayload _).2]
    dsimp only
    rw [if_neg (by decide), if_neg (by simpa [Json.truthy] using hne), huuid]

/-- Who is let in with a token nobody has forged. -/
theorem accepted_iff (hjwt : env.Signed) {s : AuthSystem} (hinv : AccessInv env.toAuthEnv s)
    {token : String} (hunforged : s.Unforged env token) (api_key_id : ℕ) :
    get_current_principal_from_token env (some token) s.now = .ok api_key_id ↔
      ∃ issue ∈ s.issues, issue.access_token = token ∧ issue.api_key_id = api_key_id ∧
        s.now < issue.issued_at + env.jwt_access_token_expire_minutes * 60 := by
  have check : ∀ issue ∈ s.issues, issue.access_token = token →
      get_current_principal_from_token env (some token) s.now
        = if issue.issued_at + env.jwt_access_token_expire_minutes * 60 ≤ s.now
          then .error .expired else .ok issue.api_key_id := by
    rintro issue hmem rfl
    rw [hinv.token issue hmem]
    exact principal_of_access_token hjwt (hinv.ids issue hmem) _ _
  constructor
  · intro hok
    obtain ⟨payload, hdecode⟩ := decode_of_ok hok
    obtain ⟨issue, hmem, htoken⟩ := hunforged s.now payload hdecode
    rw [check issue hmem htoken] at hok
    split at hok
    · cases hok
    · rename_i hlive
      exact ⟨issue, hmem, htoken, Except.ok.inj hok, Nat.lt_of_not_le hlive⟩
  · rintro ⟨issue, hmem, htoken, rfl, hlive⟩
    rw [check issue hmem htoken, if_neg (Nat.not_le_of_lt hlive)]

/-- **Who is let in, and for how long.** Whoever is let in holds a token that was
issued to the key less than its lifetime ago, and all those are let in; a token is
issued in a session that a login with an active key of the id has opened; and one
lifetime after the sessions of a token have ended it lets nobody in. It does not matter
whether the token came in the cookie or in the header.

The check is a function of the token and the time, so the history enters only through
what has been issued ([`accessInv_of_history`]). The third part adds up two facts about a
session that has ended: what it has issued, it has issued before ([`issued_before_end`]),
and what was issued before has expired one lifetime later. -/
theorem access_window (env : JwtEnv) (hjwt : env.Signed) (api_keys : List APIKey) (start : ℕ)
    (hids : ∀ key ∈ api_keys, key.id < 2 ^ 128) (s : AuthSystem)
    (hrun : AuthSystem.History env.toAuthEnv (.initial api_keys start) s) (token : String)
    (hunforged : s.Unforged env token) (cookie bearer_token : Option String)
    (hsent : get_token cookie bearer_token = some token) :
    (∀ api_key_id, require_api_key env cookie bearer_token s.now = .ok api_key_id ↔
      ∃ issue ∈ s.issues, issue.access_token = token ∧ issue.api_key_id = api_key_id ∧
        s.now < issue.issued_at + env.jwt_access_token_expire_minutes * 60) ∧
    (∀ issue ∈ s.issues,
      Opened env.toAuthEnv s.issues issue.family_id issue.api_key_id issue.issued_at) ∧
    ∀ u, AuthSystem.History env.toAuthEnv (.initial api_keys start) u →
      AuthSystem.History env.toAuthEnv u s →
      (∀ issue ∈ s.issues, issue.access_token = token →
        DeadFamily u.db.refresh_tokens issue.family_id) →
      u.now + env.jwt_access_token_expire_minutes * 60 ≤ s.now →
      ∀ api_key_id, require_api_key env cookie bearer_token s.now ≠ .ok api_key_id := by
  unfold require_api_key
  rw [hsent]
  have hinv := accessInv_of_history hids hrun
  have haccepted := accepted_iff hjwt hinv hunforged
  refine ⟨haccepted, hinv.opened, fun u hu hafter hdead hlate api_key_id hok => ?_⟩
  obtain ⟨issue, hmem, htoken, -, hlive⟩ := (haccepted api_key_id).mp hok
  -- it was issued before the end, and so one lifetime later at the latest it is over
  have hbefore := issued_before_end (hdead issue hmem htoken) hafter issue hmem rfl
  have hissued := (accessInv_of_history hids hu).past issue hbefore
  omega

/-- The claims that `unary_jwt` has written, if any. -/
def read_claims (token : List Char) : AccessClaims :=
  let rest := (token.dropWhile (· == 'i')).tail
  { api_key_id := (token.takeWhile (· == 'i')).length
    exp := (rest.takeWhile (· == 'e')).length
    type := String.ofList (rest.dropWhile (· == 'e')).tail }

/-- An encoding to compute with: the numbers in strokes. -/
def unary_jwt (claims : AccessClaims) : String :=
  String.ofList (List.replicate claims.api_key_id 'i' ++ '.' ::
    (List.replicate claims.exp 'e' ++ '.' :: claims.type.toList))

/-- Its decoding, of what it has written. -/
def unary_decode (token : String) (now : ℕ) : Except JwtError JsonObject :=
  if unary_jwt (read_claims token.toList) ≠ token then .error .invalid
  else if (read_claims token.toList).exp ≤ now then .error .expired_signature
  else .ok (read_claims token.toList).payload

/-- `plain_auth` with a token that can be read. A token lives for a minute. -/
def plain_jwt : JwtEnv where
  sha256 := id
  jwt_encode := unary_jwt
  jwt_access_token_expire_minutes := 1
  jwt_decode := unary_decode
  unicode := Unicode.ascii

theorem read_claims_unary_jwt (claims : AccessClaims) :
    read_claims (unary_jwt claims).toList = claims := by
  have strokes : ∀ (c : Char) (n : ℕ) (rest : List Char), (c == '.') = false →
      (List.replicate n c ++ '.' :: rest).takeWhile (· == c) = List.replicate n c ∧
      (List.replicate n c ++ '.' :: rest).dropWhile (· == c) = '.' :: rest := by
    intro c n rest hc
    have hstop : ('.' == c) = false := by rw [BEq.comm]; exact hc
    induction n with
    | zero => exact ⟨by simp [hstop], by simp [hstop]⟩
    | succ n ih =>
        rw [List.replicate_succ, List.cons_append]
        exact ⟨by simp [ih.1], by simp [ih.2]⟩
  unfold read_claims unary_jwt
  rw [String.toList_ofList]
  dsimp only
  rw [(strokes 'i' _ _ rfl).1, (strokes 'i' _ _ rfl).2, List.tail_cons,
    (strokes 'e' _ _ rfl).1, (strokes 'e' _ _ rfl).2, List.tail_cons, List.length_replicate,
    List.length_replicate, String.ofList_toList]

theorem plain_jwt_signed : plain_jwt.Signed where
  encode_ne := by
    intro claims hempty
    have hlist := congrArg String.toList hempty
    rw [show plain_jwt.jwt_encode claims = unary_jwt claims from rfl, unary_jwt,
      String.toList_ofList] at hlist
    exact absurd hlist (List.append_ne_nil_of_right_ne_nil _ (List.cons_ne_nil _ _))
  decode_encode := by
    intro claims now
    rw [show plain_jwt.jwt_decode = unary_decode from rfl,
      show plain_jwt.jwt_encode = unary_jwt from rfl, unary_decode, read_claims_unary_jwt,
      if_neg (not_not_intro rfl)]

/-- A token of the key 5 that was issued at the second 1 is good at the second 60,
though its session was logged out at once and the key was revoked. At the second
61 it is over. -/
theorem access_window_login :
    let token := create_access_token plain_jwt.toAuthEnv 5 1
    require_api_key plain_jwt (some token) none 60 = .ok 5 ∧
    ∀ id, require_api_key plain_jwt none (some token) 61 ≠ .ok id := by
  let key : APIKey := { id := 5, key_hash := "key" }
  let issue : Issue :=
    ⟨create_access_token plain_jwt.toAuthEnv 5 1, 7, 5, 1, some ("key", key)⟩
  let steps : List AuthAction := [.serve (.login "key" "t0" 7 1), .serve (.logout (some "t0")),
    .serve (.deactivate 5)]
  let history := run (restrict (AuthSystem.step plain_jwt.toAuthEnv) fun _ _ => true)
  have hended : (history (.initial [key] 1) steps).map
      (fun s => (s.now, s.issues, s.db.refresh_tokens.map fun row => (row.family_id, row.is_valid)))
      = some (1, [issue], [(7, false)]) := by
    decide +kernel
  obtain ⟨u, hu, hfacts⟩ := Option.map_eq_some_iff.mp hended
  obtain ⟨hnow, hissues, hrows⟩ : u.now = 1 ∧ u.issues = [issue] ∧ _ :=
    ⟨congrArg Prod.fst hfacts, congrArg (fun r => r.2.1) hfacts, congrArg (fun r => r.2.2) hfacts⟩
  have hrun : AuthSystem.History plain_jwt.toAuthEnv (.initial [key] 1) u :=
    (reaches_of_run hu).mono fun _ _ _ => trivial
  have hafter : ∀ seconds, AuthSystem.History plain_jwt.toAuthEnv u
      { u with now := u.now + seconds } := fun seconds => .single (.wait seconds) trivial rfl
  have hunforged : ∀ seconds, AuthSystem.Unforged plain_jwt { u with now := u.now + seconds }
      issue.access_token := fun seconds _ _ _ => ⟨issue, by simp [hissues], rfl⟩
  have hdead : DeadFamily u.db.refresh_tokens 7 := by
    obtain ⟨row, hrow, hpair⟩ := List.map_eq_singleton_iff.mp hrows
    obtain ⟨hfamily, hvalid⟩ := Prod.mk.inj hpair
    rw [hrow]
    exact ⟨by simp [hfamily], by simp [hvalid]⟩
  constructor
  · have hopen := (access_window plain_jwt plain_jwt_signed [key] 1 (by simp [key]) _
      (hrun.trans (hafter 59)) _ (hunforged 59) (some issue.access_token) none
      (by decide +kernel)).1 5
    rw [hnow] at hopen
    exact hopen.mpr ⟨issue, by simp [hissues], rfl, rfl, Nat.lt_succ_self 60⟩
  · have hover := (access_window plain_jwt plain_jwt_signed [key] 1 (by simp [key]) _
      (hrun.trans (hafter 60)) _ (hunforged 60) none (some issue.access_token)
      rfl).2.2 u hrun (hafter 60)
      (by simpa [hissues, issue] using hdead) le_rfl
    rw [hnow] at hover
    exact hover

end Access

end EventFlow
